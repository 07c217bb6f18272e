import Quorum.Proofs.Run.Clients
import Quorum.Proofs.Run.Scene
import Quorum.Proofs.Server.Pending

/-!
# The ledger of admitted writes

What the list of admitted writes says is an invariant of every run with
clients (`Ledger`): each write went into the log of the leader that admitted
it, no two to one index in one term, and who was told of success waited for an
entry that is committed.
-/

namespace Quorum

/-! ## What a replica has applied -/

namespace Replica

variable {r : Replica MemoryStorage} {n' : Node}

/-- What a replica has yet to report is what it has applied. -/
def Reports (r : Replica MemoryStorage) : Prop :=
  ∀ p ∈ r.applied, p.1 ≤ r.node.lastApplied ∧ r.node.record.log.entry? p.1 = some p.2

theorem mem_numbered {offset : LogIndex} {entries : List LogEntry} {p : LogIndex × LogEntry}
    (h : p ∈ Node.numbered offset entries) :
    ∃ k, entries[k]? = some p.2 ∧ p.1 = offset + k + 1 := by
  unfold Node.numbered at h
  obtain ⟨k, hk, rfl⟩ := List.mem_mapIdx.mp h
  exact ⟨k, List.getElem?_eq_getElem hk, rfl⟩

theorem Reports.applyCommitted
    (h : ∀ p ∈ r.applied, p.1 ≤ r.node.lastApplied ∧ r.node.record.log.entry? p.1 = some p.2) :
    r.applyCommitted.Reports := by
  intro p hp
  show p.1 ≤ r.node.lastApplied + r.node.unapplied.length ∧ r.node.record.log.entry? p.1 = some p.2
  rcases List.mem_append.mp hp with hold | hnew
  · obtain ⟨hle, hentry⟩ := h p hold
    exact ⟨Nat.le_trans hle (Nat.le_add_right _ _), hentry⟩
  · obtain ⟨k, hk, hindex⟩ := mem_numbered hnew
    have hlt : k < r.node.unapplied.length := (List.getElem?_eq_some_iff.mp hk).1
    rw [hindex, Log.entry?_succ]
    refine ⟨Nat.add_lt_add_left hlt _, ?_⟩
    -- the entries to apply stand behind those that were applied
    unfold Node.unapplied at hk hlt
    rw [List.getElem?_take_of_lt (Nat.lt_of_lt_of_le hlt (List.length_take_le _ _)),
      List.getElem?_drop] at hk
    exact hk

theorem Reports.settle (h : r.Reports) (happlied : n'.lastApplied = r.node.lastApplied)
    (hle : r.node.lastApplied ≤ r.node.record.commitLength)
    (hcommit : r.node.record.commitLength ≤ r.node.record.log.length)
    (hkept : r.node.record.log.take r.node.record.commitLength <+: n'.record.log) :
    (r.settle n').Reports := by
  rw [settle_eq]
  refine .applyCommitted fun p hp => ?_
  obtain ⟨hp, hentry⟩ := h p hp
  refine ⟨happlied.symm ▸ hp, ?_⟩
  show n'.record.log.entry? p.1 = some p.2
  rw [Log.entry?_of_take_prefix hkept hcommit (Nat.le_trans hp hle), hentry]

end Replica

namespace World

variable {M : Roster} {w w' : World} {s s' : Chronicle}

/-- Every node of a world reports what it has applied. -/
def Reports (w : World) : Prop :=
  ∀ i r, w.slot i = .up r → r.Reports

theorem Reports.put {i : NodeId} {slot : Slot} (h : w.Reports)
    (hslot : ∀ r, slot = .up r → r.Reports) : (w.put i slot).Reports :=
  (Function.forall_update_iff w.slot fun _ slot => ∀ r, slot = .up r → r.Reports).mpr
    ⟨hslot, fun j _ => h j⟩

theorem Turn.reports (ht : Turn M w w') (hs : Scene M w s) (hs' : Scene M w' s')
    (hf : s.Follows s') (h : w.Reports) : w'.Reports := by
  cases ht with
  | idle => exact h
  | @act i r n' commands up steps =>
      refine h.put fun r' hr' => ?_
      obtain rfl := Slot.up.inj hr'
      have hkept := (hf.keeps i).committed
      have hcommit := hs.lawful.commits.commit_le i
      have hrecord : w.record i = r.node.record := record_of_up up
      have hrecord' : (s'.core i).record = n'.record := by
        exact ((hs'.record i).trans (record_of_up (put_slot_self w i _))).trans
          (congrArg Core.record (r.settle_core n'))
      rw [hs.log i, hs.commit i, hrecord] at hkept hcommit
      rw [Chronicle.log, hrecord'] at hkept
      exact (h i r up).settle steps.frame.lastApplied (hs.current i r up).applied_le hcommit hkept
  | report up =>
      refine h.put fun r' hr' p hp => ?_
      obtain rfl := Slot.up.inj hr'
      exact nomatch hp
  | crash up => exact h.put fun r' hr' => nomatch hr'
  | wake member down restored =>
      refine h.put fun r' hr' p hp => ?_
      obtain rfl := Slot.up.inj hr'
      exact nomatch hp

end World

/-! ## Admission -/

namespace Replica

variable {r : Replica MemoryStorage} {command : Request} {now : Instant} {index : LogIndex}
  {entry : LogEntry}

theorem serve_write_eq (h : always (r.serve command now).2 = .write index entry) :
    ∃ l, r.node.role = .leader l ∧ entry.term = r.node.record.currentTerm ∧
      index = r.node.record.log.length + 1 ∧
      (r.serve command now).1 = r.settle ((r.node.append entry).advanceCommit l) := by
  unfold serve at h ⊢
  split at h
  · exact nomatch h
  · next hleader =>
      rw [if_neg hleader]
      split at h
      · exact nomatch h
      · next hready =>
          rw [if_neg hready]
          split at h
          · exact nomatch h
          · next key value _ =>
              cases role : r.node.role with
              | follower f => simp [Node.submit, role, always] at h
              | candidate c => simp [Node.submit, role, always] at h
              | leader l =>
                  simp only [Node.submit, role] at h ⊢
                  split at h
                  · next e _ => exact e.elim
                  · next r' hsaved =>
                      obtain ⟨rfl, rfl⟩ := Admission.write.inj h
                      refine ⟨l, rfl, rfl, ?_, ?_⟩
                      · simp [Node.lastIndex, Node.append, Node.withRecord]
                      · rw [Replica.settle, hsaved]

/-- Only a leader admits a write, and the entry goes behind its log. -/
theorem serve_write (h : always (r.serve command now).2 = .write index entry) :
    r.node.isLeader = true ∧ (r.serve command now).1.node.isLeader = true ∧
      entry.term = r.node.record.currentTerm ∧ index = r.node.record.log.length + 1 ∧
      (r.serve command now).1.node.record.currentTerm = r.node.record.currentTerm ∧
      (r.serve command now).1.node.record.log = r.node.record.log ++ [entry] := by
  obtain ⟨l, role, hterm, hindex, heq⟩ := serve_write_eq h
  obtain ⟨hrole, _, hkept, hlog⟩ := (r.node.append entry).commitTo_same
    ((r.node.append entry).record.log.commitPoint (r.node.append entry).record.currentTerm
      (r.node.append entry).record.commitLength
      (l.replicatedOn (r.node.append entry).lastIndex (r.node.append entry).quorum))
  have hnode : (r.serve command now).1.node.core =
      ((r.node.append entry).advanceCommit l).core := by
    rw [heq, settle_core]
  have hrecord := congrArg Core.record hnode
  have hroles : (r.serve command now).1.node.role = (r.node.append entry).role := by
    rw [heq, settle_eq]
    exact hrole
  refine ⟨Node.isLeader_iff.mpr ⟨l, role⟩, Node.isLeader_iff.mpr ⟨l, hroles.trans role⟩, hterm,
    hindex, ?_, ?_⟩
  · exact (congrArg Record.currentTerm hrecord).trans hkept
  · exact (congrArg Record.log hrecord).trans hlog

end Replica

/-! ## The ledger -/

/-- What the ledger of admitted writes says. -/
structure Ledger (c : Service) (s : Chronicle) : Prop where
  /-- A write is in the log of the leader that admitted it. -/
  reigned : ∀ k ∈ c.tickets, ∃ g, s.reign k.entry.term = some g ∧
    g.log.entry? k.index = some k.entry
  /-- No request is admitted twice, and no place of a term given away twice. -/
  distinct : ∀ k ∈ c.tickets, ∀ k' ∈ c.tickets,
    k.request = k'.request ∨ (k.index = k'.index ∧ k.entry.term = k'.entry.term) → k = k'
  waiting : ∀ i, ∀ w ∈ (c.pending i).writes, ⟨w.waiter, i, w.index, w.entry⟩ ∈ c.tickets
  reports : c.world.Reports
  /-- Who is told of success waited for an entry that is committed. -/
  succeeded : ∀ k ∈ c.tickets, ∀ reply, (k.request, reply) ∈ c.answers → reply.success = true →
    k.index ≤ (c.world.record k.member).commitLength ∧
      (c.world.record k.member).log.entry? k.index = some k.entry

namespace Ledger

open World

variable {M : Roster} {c : Service} {s s' : Chronicle} {w' : World}

theorem start : Ledger Service.start Chronicle.start := by
  constructor <;> intros <;> simp_all [Service.start, World.Reports, World.start]

theorem of_turn (h : Ledger c s) (hs : Scene M c.world s) (ht : Turn M c.world w')
    (hs' : Scene M w' s') (hf : s.Follows s') : Ledger { c with world := w' } s' where
  reigned k hk := by
    obtain ⟨g, hg, hentry⟩ := h.reigned k hk
    obtain ⟨log, hlog, hp⟩ := hf.extends'.reign _ g hg
    refine ⟨_, hlog, ?_⟩
    show log.entry? k.index = some k.entry
    rw [← Log.entry?_of_prefix hp (Log.le_length_of_entry hentry), hentry]
  distinct := h.distinct
  waiting := h.waiting
  reports := ht.reports hs hs' hf h.reports
  succeeded k hk reply hreply hok := by
    obtain ⟨hle, hentry⟩ := h.succeeded k hk reply hreply hok
    obtain ⟨hmono, hkept⟩ := hf.keeps k.member
    rw [hs.commit, hs'.commit] at hmono
    rw [hs.commit, hs.log, hs'.log] at hkept
    refine ⟨Nat.le_trans hle hmono, ?_⟩
    show (w'.record k.member).log.entry? k.index = some k.entry
    rw [Log.entry?_of_take_prefix hkept ?_ hle, hentry]
    rw [← hs.commit, ← hs.log]
    exact hs.lawful.commits.commit_le _

/-- Nothing is lost when fewer wait. -/
theorem of_fewer (h : Ledger c s) (pending : NodeId → PendingWrites RequestId)
    (hsub : ∀ i, (pending i).writes ⊆ (c.pending i).writes) :
    Ledger { c with pending } s :=
  ⟨h.reigned, h.distinct, fun i w hw => h.waiting i w (hsub i hw), h.reports, h.succeeded⟩

theorem not_closed {request : RequestId} (h : c.closed request = false) :
    (∀ k ∈ c.tickets, k.request ≠ request) ∧ ∀ a ∈ c.answers, a.1 ≠ request := by
  simpa [Service.closed] using h

/-- An answer to a request that was not admitted is no concern of the ledger. -/
theorem answer_aside {request : RequestId} {reply : Reply} (h : Ledger c s)
    (hno : ∀ k ∈ c.tickets, k.request ≠ request) :
    Ledger { c with answers := (request, reply) :: c.answers } s where
  reigned := h.reigned
  distinct := h.distinct
  waiting := h.waiting
  reports := h.reports
  succeeded k hk told htold hok := by
    rcases List.mem_cons.mp htold with heq | htold
    · exact absurd (congrArg Prod.fst heq) (hno k hk)
    · exact h.succeeded k hk told htold hok

/-- Nor is one that tells of no success. -/
theorem answer_failure {request : RequestId} {reply : Reply} (h : Ledger c s)
    (hfail : reply.success = false) :
    Ledger { c with answers := (request, reply) :: c.answers } s where
  reigned := h.reigned
  distinct := h.distinct
  waiting := h.waiting
  reports := h.reports
  succeeded k hk told htold hok := by
    rcases List.mem_cons.mp htold with heq | htold
    · obtain ⟨_, rfl⟩ := Prod.mk.inj heq
      exact absurd hok (by simp [hfail])
    · exact h.succeeded k hk told htold hok

/-- A leader admits a write: its place is a new one, since the log was
shorter before. -/
theorem write {request : RequestId} {i : NodeId} {index : LogIndex} {entry : LogEntry}
    {log : Log} (h : Ledger c s) (pending : PendingWrites RequestId)
    (hopen : c.closed request = false)
    (hreign : s.reign entry.term = some ⟨i, log ++ [entry]⟩)
    (hindex : index = log.length + 1)
    (hbefore : ∀ k ∈ c.tickets, k.entry.term = entry.term → k.index ≤ log.length)
    (hsub : pending.writes ⊆ ⟨index, entry, request⟩ :: (c.pending i).writes) :
    Ledger { c with
      pending := Function.update c.pending i pending
      tickets := ⟨request, i, index, entry⟩ :: c.tickets } s where
  reigned k hk := by
    rcases List.mem_cons.mp hk with rfl | hk
    · refine ⟨_, hreign, ?_⟩
      show Log.entry? (log ++ [entry]) index = some entry
      rw [hindex, Log.entry?_succ, List.getElem?_concat_length]
    · exact h.reigned k hk
  distinct k hk k' hk' heq := by
    obtain ⟨hnew, _⟩ := not_closed hopen
    have hfresh : ∀ k ∈ c.tickets, ¬ (k.request = request ∨
        (k.index = index ∧ k.entry.term = entry.term)) := by
      rintro k hk (hrequest | ⟨hplace, hterm⟩)
      · exact hnew k hk hrequest
      · have hle := hbefore k hk hterm
        rw [hplace, hindex] at hle
        exact Nat.not_succ_le_self _ hle
    rcases List.mem_cons.mp hk with rfl | hk <;> rcases List.mem_cons.mp hk' with rfl | hk'
    · rfl
    · exact absurd (heq.imp Eq.symm (And.imp Eq.symm Eq.symm)) (hfresh k' hk')
    · exact absurd heq (hfresh k hk)
    · exact h.distinct k hk k' hk' heq
  waiting j w hw := by
    by_cases hj : j = i
    · subst hj
      simp only [Function.update_self] at hw
      rcases List.mem_cons.mp (hsub hw) with rfl | hw
      · exact List.mem_cons_self
      · exact List.mem_cons_of_mem _ (h.waiting j w hw)
    · simp only [Function.update_of_ne hj] at hw
      exact List.mem_cons_of_mem _ (h.waiting j w hw)
  reports := h.reports
  succeeded k hk reply hreply hok := by
    rcases List.mem_cons.mp hk with rfl | hk
    · exact absurd rfl ((not_closed hopen).2 _ hreply)
    · exact h.succeeded k hk reply hreply hok

/-- A node answers those whose index it has applied: if the entry is theirs,
it is committed. -/
theorem settle {i : NodeId} {r : Replica MemoryStorage} (h : Ledger c s)
    (hs : Scene M c.world s) (up : c.world.slot i = .up r)
    (hs' : Scene M (c.settle M i).world s') (hf : s.Follows s') : Ledger (c.settle M i) s' := by
  unfold Service.settle at hs' ⊢
  simp only [up] at hs' ⊢
  have hturn : Turn M c.world (c.world.step M (.report i)) := step_turn hs.kept _
  have hfewer := (h.of_turn hs hturn hs' hf).of_fewer
    (Function.update c.pending i ((c.pending i).resolve r.takeApplied.1).1) fun j => by
      by_cases hj : j = i
      · subst hj
        simpa using PendingWrites.resolve_subset (c.pending j) r.takeApplied.1
      · simp [Function.update_of_ne hj]
  refine ⟨hfewer.reigned, hfewer.distinct, hfewer.waiting, hfewer.reports, ?_⟩
  intro k hk reply hreply hok
  rcases List.mem_append.mp hreply with hnew | hold
  · obtain ⟨⟨request, own⟩, hsettled, heq⟩ := List.mem_map.mp hnew
    obtain ⟨rfl, rfl⟩ := Prod.mk.inj heq
    obtain ⟨w, hw, hwaiter, e, he, hown⟩ := PendingWrites.resolve_settled hsettled
    -- the answer tells of success, so the entry applied is the one that waited
    have hwon : own = true := by
      cases own with
      | true => rfl
      | false => exact absurd hok (by simp [Replica.writeReply, Reply.fail])
    have hsame : w.entry = e := by
      rw [hwon] at hown
      simpa using hown.symm
    obtain rfl := h.distinct k hk _ (h.waiting i w hw) (.inl hwaiter.symm)
    obtain ⟨happlied, hentry⟩ := h.reports i r up _ he
    have hrecord : (c.world.step M (.report i)).record i = r.node.record := by
      unfold World.step World.record
      simp only [up, put_slot_self]
      rfl
    show w.index ≤ ((c.world.step M (.report i)).record i).commitLength ∧
      ((c.world.step M (.report i)).record i).log.entry? w.index = some w.entry
    rw [hrecord, hsame]
    exact ⟨Nat.le_trans happlied (hs.current i r up).applied_le, hentry⟩
  · exact hfewer.succeeded k hk reply hold hok

theorem offer {request : RequestId} {i : NodeId} {command : Request} {now : Instant}
    {r : Replica MemoryStorage} (h : Ledger c s) (hs : Scene M c.world s)
    (hopen : c.closed request = false) (up : c.world.slot i = .up r)
    (hs' : Scene M (c.world.step M (.request i command now)) s') (hf : s.Follows s') :
    Ledger ({ c with world := c.world.step M (.request i command now) }.carryOut request i
      (always (r.serve command now).2)) s' := by
  have hmoved := h.of_turn hs (step_turn hs.kept _) hs' hf
  cases hadmission : always (r.serve command now).2 with
  | reply reply => exact hmoved.answer_aside (not_closed hopen).1
  | deferred command => exact hmoved
  | write index entry =>
      obtain ⟨hlead, hlead', hterm, hindex, hkept, hlog⟩ := Replica.serve_write hadmission
      have hstep : c.world.step M (.request i command now) =
          c.world.put i (.up (r.serve command now).1) := by
        unfold World.step
        simp only [up]
      have hslot' := put_slot_self c.world i (.up (r.serve command now).1)
      have hrecord : c.world.record i = r.node.record := World.record_of_up up
      have hrecord' : (c.world.step M (.request i command now)).record i =
          (r.serve command now).1.node.record := by
        rw [hstep, World.record_of_up hslot']
      -- the leader's log is that of its reign, before and after
      have hreign := (hs.reign_of_leads
        ⟨r.node, by rw [World.node?, up]; rfl, hlead, hterm.symm⟩).2
      have hreign' := (hs'.reign_of_leads
        ⟨(r.serve command now).1.node, by rw [hstep, World.node?, hslot']; rfl, hlead',
          hkept.trans hterm.symm⟩).2
      rw [hs.log, hrecord] at hreign
      rw [hs'.log, hrecord', hlog] at hreign'
      have hbefore : ∀ k ∈ c.tickets, k.entry.term = entry.term →
          k.index ≤ r.node.record.log.length := by
        intro k hk hsame
        obtain ⟨g, hg, hentry⟩ := h.reigned k hk
        rw [hsame] at hg
        obtain rfl := Option.some.inj (hreign.symm.trans hg)
        exact Log.le_length_of_entry hentry
      have hwritten := hmoved.write ((c.pending i).insert index entry request).1 hopen hreign'
        hindex hbefore (PendingWrites.insert_subset _ _ _ _)
      unfold Service.carryOut
      simp only []
      split
      · exact hwritten
      · exact hwritten.answer_failure rfl

/-- The ledger stays right in every act. -/
theorem step {act : Act} (h : Ledger c s) (hs : Scene M c.world s)
    (hs' : Scene M (c.step M act).world s') (hf : s.Follows s') : Ledger (c.step M act) s' := by
  have hidle : Scene M c.world s' → Ledger c s' := fun hs' => h.of_turn hs .idle hs' hf
  cases act with
  | cluster action =>
      refine (h.of_turn hs (step_turn hs.kept action) hs' hf).of_fewer _ fun i w hw => ?_
      simp only [] at hw
      split at hw
      · exact hw
      · exact nomatch hw
  | offer request i command now =>
      unfold Service.step Service.offer at hs' ⊢
      cases hopen : c.closed request with
      | true =>
          simp only [hopen] at hs' ⊢
          exact hidle hs'
      | false =>
          simp only [hopen] at hs' ⊢
          cases up : c.world.slot i with
          | down storage =>
              simp only [up] at hs' ⊢
              exact hidle hs'
          | up r =>
              simp only [up] at hs' ⊢
              exact h.offer hs hopen up (by simpa using hs') hf
  | settle i =>
      unfold Service.step at hs' ⊢
      simp only [] at hs' ⊢
      cases up : c.world.slot i with
      | down storage =>
          unfold Service.settle at hs' ⊢
          simp only [up] at hs' ⊢
          exact hidle hs'
      | up r => exact h.settle hs up hs' hf
  | forget i keep =>
      refine (hidle hs').of_fewer _ fun j => ?_
      by_cases hj : j = i
      · subst hj
        intro w hw
        simp only [Function.update_self] at hw
        exact List.mem_of_mem_filter hw
      · simp [Function.update_of_ne hj]

end Ledger

/-! ## Runs -/

namespace Service

open World

variable {M : Roster} {c : Service} {s : Chronicle}

/-- For the cluster an act is a turn of one node, or nothing. -/
theorem step_turn (hk : c.world.Kept M) (act : Act) : Turn M c.world (c.step M act).world := by
  cases act with
  | cluster action => exact World.step_turn hk action
  | offer request i command now =>
      unfold step offer
      simp only []
      split
      · exact .idle
      · split
        · exact .idle
        · rw [carryOut_world]
          exact World.step_turn hk (.request i command now)
  | settle i =>
      unfold step settle
      simp only []
      split
      · exact .idle
      · exact World.step_turn hk (.report i)
  | forget i keep => exact .idle

theorem kept_after (hk : c.world.Kept M) (acts : List Act) :
    (acts.foldl (step M) c).world.Kept M ∧
      ∀ j, (c.world.record j).currentTerm ≤
        ((acts.foldl (step M) c).world.record j).currentTerm := by
  induction acts generalizing c with
  | nil => exact ⟨hk, fun _ => Nat.le_refl _⟩
  | cons act rest ih =>
      have hturn := step_turn hk act
      obtain ⟨hkept, hle⟩ := ih (hturn.kept hk)
      exact ⟨hkept, fun j => Nat.le_trans (hturn.term_le hk j) (hle j)⟩

theorem exists_scene_after (h : Ledger c s) (hs : Scene M c.world s) (acts : List Act)
    (hrange : (acts.foldl (step M) c).world.InRange M) :
    ∃ s', Scene M (acts.foldl (step M) c).world s' ∧ Ledger (acts.foldl (step M) c) s' ∧
      s.Follows s' := by
  induction acts generalizing c s with
  | nil => exact ⟨s, hs, h, .refl s⟩
  | cons act rest ih =>
      have hturn := step_turn hs.kept act
      have hnext : (c.step M act).world.InRange M := fun i hi =>
        Nat.lt_of_le_of_lt ((kept_after (hturn.kept hs.kept) rest).2 i) (hrange i hi)
      obtain ⟨s₁, hs₁, hf₁⟩ := hs.turn hturn hnext
      obtain ⟨s₂, hs₂, h₂, hf₂⟩ := ih (h.step hs hs₁ hf₁) hs₁ hrange
      exact ⟨s₂, hs₂, h₂, hf₁.trans hs.lawful hf₂⟩

end Service

namespace ClientRun

variable {M : Roster}

theorem state_add (r : ClientRun M) (m d : Nat) :
    r.state (m + d) = ((r.acts.drop m).take d).foldl (Service.step M) (r.state m) := by
  rw [state, state, Service.after, Service.after, ← List.foldl_append, ← List.take_add]

theorem state_inRange (r : ClientRun M) (k : Nat) : (r.state k).world.InRange M := by
  intro i hi
  have hkept := (Service.kept_after (c := .start) (World.kept_start M) (r.acts.take k)).1
  have hle := (Service.kept_after hkept (r.acts.drop k)).2 i
  rw [← List.foldl_append, List.take_append_drop] at hle
  exact Nat.lt_of_le_of_lt hle (r.inRange i hi)

/-- Any two states of a run have chronicles, the later of which follows the
earlier, and ledgers that are right. -/
theorem exists_scenes (r : ClientRun M) {m n : Nat} (hmn : m ≤ n) :
    ∃ s s', Scene M (r.state m).world s ∧ Scene M (r.state n).world s' ∧ s.Follows s' ∧
      Ledger (r.state m) s ∧ Ledger (r.state n) s' := by
  obtain ⟨d, rfl⟩ := Nat.exists_eq_add_of_le hmn
  obtain ⟨s, hs, h, _⟩ :=
    Service.exists_scene_after .start (.start M) (r.acts.take m) (r.state_inRange m)
  have hrange := r.state_inRange (m + d)
  rw [r.state_add m d] at hrange ⊢
  obtain ⟨s', hs', h', hf⟩ := Service.exists_scene_after h hs _ hrange
  exact ⟨s, s', hs, hs', hf, h, h'⟩

/-- Any two states of a run have chronicles one of which follows the other. -/
theorem exists_scenes_inLine (r : ClientRun M) (m n : Nat) :
    ∃ s s', Scene M (r.state m).world s ∧ Scene M (r.state n).world s' ∧ s.InLine s' := by
  rcases Nat.le_total m n with hmn | hnm
  · obtain ⟨s, s', hs, hs', hf, _, _⟩ := r.exists_scenes hmn
    exact ⟨s, s', hs, hs', .inl hf⟩
  · obtain ⟨s, s', hs, hs', hf, _, _⟩ := r.exists_scenes hnm
    exact ⟨s', s, hs', hs, .inr hf⟩

end ClientRun

end Quorum
