import Quorum.Proofs.Run.Ledger

/-!
# Refused writes

A client that is told of failure after its write was admitted is told so for
one of two reasons: its node has applied another entry at the index, or it
admits another write there in a later term, and has only one place to wait in.
No act tells of failure for any other reason (`Service.step_excused`).
-/

namespace Quorum

/-- Another write took the place where this one waited: the same node admitted
it at the same index, in a later term. -/
def Ticket.Displaces (other ticket : Ticket) : Prop :=
  other.member = ticket.member ∧ other.index = ticket.index ∧
    ticket.entry.term < other.entry.term

/-- The node that admitted a write has committed another entry in its place. -/
def World.Refutes (w : World) (ticket : Ticket) : Prop :=
  ticket.index ≤ (w.record ticket.member).commitLength ∧
    (w.record ticket.member).log.entry? ticket.index ≠ some ticket.entry

namespace Service

open World

/-- A request was admitted as a write and then answered with failure. -/
def Failed (c : Service) (ticket : Ticket) : Prop :=
  ticket ∈ c.tickets ∧ ∃ reply, (ticket.request, reply) ∈ c.answers ∧ reply.success = false

/-- Every write belongs to a term that its node has reached. -/
def Aged (c : Service) : Prop :=
  ∀ k ∈ c.tickets, k.entry.term ≤ (c.world.record k.member).currentTerm

/-- A write is admitted that takes the place of another one. -/
def Displaced (c c' : Service) (ticket : Ticket) : Prop :=
  ∃ other ∈ c'.tickets, other ∉ c.tickets ∧ other.Displaces ticket

/-- There is a reason for every failure that the second of two states tells of
and the first does not. -/
def Excused (c c' : Service) : Prop :=
  ∀ ticket, c'.Failed ticket → c.Failed ticket ∨ c'.world.Refutes ticket ∨ c.Displaced c' ticket

variable {M : Roster} {c c' : Service} {s s' : Chronicle} {w' : World} {request : RequestId}
  {i : NodeId} {index : LogIndex} {entry : LogEntry} {command : Request} {now : Instant}
  {r : Replica MemoryStorage}

theorem Aged.of_turn (h : c.Aged) (hs : Scene M c.world s) (ht : Turn M c.world w') :
    ({ c with world := w' } : Service).Aged :=
  fun k hk => Nat.le_trans (h k hk) (ht.term_le hs.kept k.member)

/-! ## Admission -/

theorem carryOut_aged {admission : Admission} (h : c.Aged)
    (hterm : ∀ index entry, admission = .write index entry →
      entry.term = (c.world.record i).currentTerm) : (c.carryOut request i admission).Aged := by
  cases admission with
  | reply reply => exact h
  | deferred command => exact h
  | write index entry =>
      intro k hk
      rcases List.mem_cons.mp hk with rfl | hk
      · exact Nat.le_of_eq (hterm index entry rfl)
      · exact h k hk

/-- Whoever is answered when a write is admitted waited at its index. -/
theorem mem_answers_of_write {a : RequestId × Reply}
    (h : a ∈ (c.carryOut request i (.write index entry)).answers) :
    a ∈ c.answers ∨ ∃ w ∈ (c.pending i).writes, w.index = index ∧ a.1 = w.waiter := by
  unfold carryOut at h
  simp only [PendingWrites.insert] at h
  cases hat : (c.pending i).at? index with
  | none =>
      simp only [hat] at h
      exact .inl h
  | some w =>
      simp only [hat, Option.map_some] at h
      obtain ⟨hw, hindex⟩ := PendingWrites.at?_mem hat
      exact (List.mem_cons.mp h).symm.imp id fun heq => ⟨w, hw, hindex, congrArg Prod.fst heq⟩

/-- The one that gives way was admitted in an earlier term, since no place of
a term is given away twice. -/
theorem carryOut_write_excused (h : c.Aged) (hl : Ledger c s)
    (hl' : Ledger (c.carryOut request i (.write index entry)) s')
    (hopen : c.closed request = false) (hterm : entry.term = (c.world.record i).currentTerm) :
    c.Excused (c.carryOut request i (.write index entry)) := by
  obtain ⟨hfresh, hsilent⟩ := Ledger.not_closed hopen
  rintro ticket ⟨hmem, reply, hreply, hfail⟩
  rcases mem_answers_of_write hreply with hold | ⟨w, hw, rfl, hwaiter⟩
  · rcases List.mem_cons.mp hmem with rfl | hmem
    · exact absurd rfl (hsilent _ hold)
    · exact .inl ⟨hmem, reply, hold, hfail⟩
  · have hwaits := hl.waiting i w hw
    obtain rfl := hl'.distinct ticket hmem _ (List.mem_cons_of_mem _ hwaits) (.inl hwaiter)
    have hnew : (⟨request, i, w.index, entry⟩ : Ticket) ∉ c.tickets := fun hin =>
      hfresh _ hin rfl
    refine .inr (.inr ⟨_, List.mem_cons_self, hnew, rfl, rfl, ?_⟩)
    refine Nat.lt_of_le_of_ne (hterm ▸ h _ hwaits) fun hsame => hnew ?_
    rw [← hl'.distinct _ hmem _ List.mem_cons_self (.inr ⟨rfl, hsame⟩)]
    exact hwaits

/-- A request that is handed to a node which is up. -/
theorem offer_excused (h : c.Aged) (hl : Ledger c s) (hs : Scene M c.world s)
    (hopen : c.closed request = false) (up : c.world.slot i = .up r)
    (hs' : Scene M (c.world.step M (.request i command now)) s') (hf : s.Follows s')
    (hl' : Ledger ({ c with world := c.world.step M (.request i command now) }.carryOut request i
      (always (r.serve command now).2)) s') :
    (({ c with world := c.world.step M (.request i command now) } : Service).carryOut request i
        (always (r.serve command now).2)).Aged ∧
      c.Excused ({ c with world := c.world.step M (.request i command now) }.carryOut request i
        (always (r.serve command now).2)) := by
  have hturn := World.step_turn hs.kept (.request i command now)
  have hterm : ∀ index entry, always (r.serve command now).2 = .write index entry →
      entry.term = ((c.world.step M (.request i command now)).record i).currentTerm := by
    intro index entry hadmission
    obtain ⟨_, _, hterm, _, hkept, _⟩ := Replica.serve_write hadmission
    have hstep : c.world.step M (.request i command now) =
        c.world.put i (.up (r.serve command now).1) := by
      unfold World.step
      simp only [up]
    rw [hstep, record_of_up (put_slot_self c.world i _), hkept, hterm]
  have haged := h.of_turn hs hturn
  refine ⟨carryOut_aged haged hterm, ?_⟩
  cases hadmission : always (r.serve command now).2 with
  | reply reply =>
      rintro ticket ⟨hmem, told, htold, hfail⟩
      rcases List.mem_cons.mp htold with heq | hold
      · exact absurd (congrArg Prod.fst heq) ((Ledger.not_closed hopen).1 ticket hmem)
      · exact .inl ⟨hmem, told, hold, hfail⟩
  | deferred command => exact fun ticket hfailed => .inl hfailed
  | write index entry =>
      rw [hadmission] at hl'
      exact carryOut_write_excused haged (hl.of_turn hs hturn hs' hf) hl' hopen
        (hterm index entry hadmission)

/-! ## Answers -/

/-- A node that answers a write with failure has applied another entry at its
index. -/
theorem settle_excused (hl : Ledger c s) (hs : Scene M c.world s) (up : c.world.slot i = .up r) :
    c.Excused (c.settle M i) := by
  unfold settle
  simp only [up]
  rintro ticket ⟨hmem, reply, hreply, hfail⟩
  rcases List.mem_append.mp hreply with hnew | hold
  · obtain ⟨⟨request, own⟩, hsettled, heq⟩ := List.mem_map.mp hnew
    obtain ⟨rfl, rfl⟩ := Prod.mk.inj heq
    obtain ⟨w, hw, hwaiter, e, he, hown⟩ := PendingWrites.resolve_settled hsettled
    have hother : w.entry ≠ e := by
      rintro rfl
      rw [beq_self_eq_true] at hown
      rw [hown] at hfail
      exact nomatch hfail
    obtain rfl := hl.distinct ticket hmem _ (hl.waiting i w hw) (.inl hwaiter.symm)
    obtain ⟨happlied, hentry⟩ := hl.reports i r up _ he
    have hrecord : (c.world.step M (.report i)).record i = r.node.record := by
      unfold World.step World.record
      simp only [up, put_slot_self]
      rfl
    refine .inr (.inl ⟨?_, ?_⟩)
    · show w.index ≤ ((c.world.step M (.report i)).record i).commitLength
      rw [hrecord]
      exact Nat.le_trans happlied (hs.current i r up).applied_le
    · show ((c.world.step M (.report i)).record i).log.entry? w.index ≠ some w.entry
      rw [hrecord, hentry]
      exact fun hsame => hother (Option.some.inj hsame).symm
  · exact .inl ⟨hmem, reply, hold, hfail⟩

/-! ## Every act -/

theorem step_excused {act : Act} (h : c.Aged) (hl : Ledger c s) (hs : Scene M c.world s)
    (hs' : Scene M (c.step M act).world s') (hf : s.Follows s')
    (hl' : Ledger (c.step M act) s') : (c.step M act).Aged ∧ c.Excused (c.step M act) := by
  have hidle : c.Aged ∧ c.Excused c := ⟨h, fun _ hfailed => .inl hfailed⟩
  cases act with
  | cluster action =>
      exact ⟨h.of_turn hs (World.step_turn hs.kept action), fun _ hfailed => .inl hfailed⟩
  | offer request i command now =>
      unfold Service.step Service.offer at hs' hl' ⊢
      cases hopen : c.closed request with
      | true =>
          simp only [hopen]
          exact hidle
      | false =>
          simp only [hopen] at hs' hl' ⊢
          cases up : c.world.slot i with
          | down storage => exact hidle
          | up r =>
              simp only [up] at hs' hl' ⊢
              exact offer_excused h hl hs hopen up (by simpa using hs') hf hl'
  | settle i =>
      unfold Service.step
      simp only []
      cases up : c.world.slot i with
      | down storage =>
          unfold Service.settle
          simp only [up]
          exact hidle
      | up r =>
          refine ⟨?_, settle_excused hl hs up⟩
          unfold Service.settle
          simp only [up]
          exact h.of_turn hs (World.step_turn hs.kept (.report i))
  | forget i keep => exact hidle

end Service

namespace ClientRun

open Service

variable {M : Roster}

/-- No step of a run tells of a failure without reason. -/
theorem state_succ_excused (r : ClientRun M) (k : Nat) (h : (r.state k).Aged) :
    (r.state (k + 1)).Aged ∧ (r.state k).Excused (r.state (k + 1)) := by
  obtain ⟨s, s', hs, hs', hf, hl, hl'⟩ := r.exists_scenes (Nat.le_succ k)
  rw [r.state_add k 1] at hs' hl' ⊢
  cases hrest : r.acts.drop k with
  | nil => exact ⟨h, fun _ hfailed => .inl hfailed⟩
  | cons act rest =>
      rw [hrest] at hs' hl'
      exact step_excused h hl hs hs' hf hl'

theorem aged (r : ClientRun M) (k : Nat) : (r.state k).Aged := by
  induction k with
  | zero => exact fun _ hk => nomatch hk
  | succ k ih => exact (r.state_succ_excused k ih).1

/-- Whoever was told of failure was told so in some step, which had a reason
for it. -/
theorem exists_excuse {ticket : Ticket} (r : ClientRun M) {m : Nat}
    (hfailed : (r.state m).Failed ticket) :
    ∃ k < m, ¬ (r.state k).Failed ticket ∧ (r.state (k + 1)).Failed ticket ∧
      ((r.state (k + 1)).world.Refutes ticket ∨
        (r.state k).Displaced (r.state (k + 1)) ticket) := by
  induction m with
  | zero => exact nomatch hfailed.1
  | succ m ih =>
      by_cases hearlier : (r.state m).Failed ticket
      · obtain ⟨k, hk, hexcuse⟩ := ih hearlier
        exact ⟨k, Nat.lt_succ_of_lt hk, hexcuse⟩
      · have hreason := (r.state_succ_excused m (r.aged m)).2 ticket hfailed
        exact ⟨m, Nat.lt_succ_self m, hearlier, hfailed, hreason.resolve_left hearlier⟩

end ClientRun

end Quorum
