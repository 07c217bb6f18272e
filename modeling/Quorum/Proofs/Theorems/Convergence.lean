import Quorum.Proofs.Cluster.Sweeps
import Quorum.Proofs.Theorems.Tenure

/-!
# Heartbeats make all logs alike

In a cluster whose members are all up and can reach each other, a leader whose
term nobody has passed brings everybody to its own log, in a number of rounds
that depends on its rows alone (`heartbeats_converge`). Each round takes back
what the leader believes a member to hold by one entry, until an entry fits. Then
three more rounds are enough: one in which everybody takes over the log, one in
which the leader learns that, and one in which it tells everybody what is
committed.
-/

namespace Quorum

/-! ## One round after the other -/

namespace Assembly

open Cluster

variable {A : Assembly} {s j : Nat} {c : Cluster}

/-- The cluster after `j` rounds. Before the first of them the leader believed
nobody to hold more than `s` entries. -/
structure After (A : Assembly) (s j : Nat) (c : Cluster) : Prop where
  rest : A.AtRest (s - j) c
  drained : 0 < j → c.Drained A.leader
  alike : s + 2 ≤ j → ∃ n, c.node? A.leader = some n ∧
    n.record.commitLength = n.record.log.length ∧
    ∀ p < A.size, ∃ m, c.node? p = some m ∧ m.record.log = n.record.log
  committed : s + 3 ≤ j → ∀ p < A.size, ∃ m, c.node? p = some m ∧
    m.record.commitLength = m.record.log.length

/-- One more round. -/
theorem After.next (h : A.After s j c) :
    Ensures (A.now + A.config.longest < Instant.limit)
      (c.obeyAll [.fire A.leader .heartbeat, .deliverAll]) (A.After s (j + 1)) := by
  obtain ⟨n, _, hn, _⟩ := h.rest.leads
  refine (h.rest.round hn).mono fun c' hround => ?_
  obtain ⟨n', swept⟩ := hround
  -- from the second round on nothing waits, and after so many rounds nobody lags
  have hsettled : s + 2 ≤ j + 1 → A.Swept 0 c n c' n' ∧ c.Drained A.leader := by
    intro hj
    have hlag : s - j = 0 := by omega
    exact ⟨hlag ▸ swept, h.drained (by omega)⟩
  constructor
  case rest =>
    rw [← Nat.sub_sub]
    exact swept.rest
  case drained => exact fun _ => swept.drained
  case alike =>
    intro hj
    obtain ⟨hswept, drained⟩ := hsettled hj
    obtain ⟨hcommit, hall⟩ := hswept.alike drained
    refine ⟨n', swept.leader, hcommit, fun p hlt => ?_⟩
    by_cases hp : p = A.leader
    · exact ⟨n', hp ▸ swept.leader, rfl⟩
    · obtain ⟨m, hm, hlog, _⟩ := hall p hlt hp
      exact ⟨m, hm, hlog⟩
  case committed =>
    intro hj p hlt
    obtain ⟨hswept, drained⟩ := hsettled (by omega)
    obtain ⟨hcommit, hall⟩ := hswept.alike drained
    by_cases hp : p = A.leader
    · exact ⟨n', hp ▸ swept.leader, hcommit⟩
    · obtain ⟨m, hm, hlog, hle⟩ := hall p hlt hp
      obtain ⟨k, hk, hbefore, _⟩ := h.alike (by omega)
      obtain rfl := Option.some.inj (hn.symm.trans hk)
      have hbounded := swept.rest.attained.commit_le_length swept.rest.stands.range hm
      refine ⟨m, hm, Nat.le_antisymm hbounded ?_⟩
      calc m.record.log.length = n.record.log.length := by rw [hlog, swept.log drained]
        _ = n.record.commitLength := hbefore.symm
        _ ≤ m.record.commitLength := hle

end Assembly

namespace Leader

/-- The most that the leader believes one of its peers to hold. -/
def furthest (l : Leader) : LogIndex := (l.progress.map (·.sent)).foldr max 0

theorem sent_le_furthest {l : Leader} {p : NodeId} {row : PeerProgress} (h : l.row? p = some row) :
    row.sent ≤ l.furthest := by
  have hmem : row.sent ∈ l.progress.map (·.sent) :=
    List.mem_map_of_mem (List.mem_of_find?_eq_some h)
  have hall : ∀ (sents : List LogIndex), row.sent ∈ sents → row.sent ≤ sents.foldr max 0 := by
    intro sents
    induction sents with
    | nil => exact fun hmem => absurd hmem List.not_mem_nil
    | cons sent rest ih =>
        intro hmem
        rw [List.foldr_cons]
        rcases List.mem_cons.mp hmem with heq | hmem
        · exact heq ▸ Nat.le_max_left _ _
        · exact Nat.le_trans (ih hmem) (Nat.le_max_right _ _)
  exact hall _ hmem

end Leader

/-! ## The cluster -/

namespace Cluster

/-- The heartbeat of a member fires and all messages are delivered, time after
time. -/
def heartbeats (l : NodeId) (count : Nat) : List Order :=
  (List.replicate count [.fire l .heartbeat, .deliverAll]).flatten

/-- The member leads the term, and everybody has its log, has committed all of
it, and holds the same store. -/
def Converged (c : Cluster) (l : NodeId) (term : Term) : Prop :=
  ∃ r, c.replica? l = some r ∧ r.node.isLeader = true ∧ r.node.record.currentTerm = term ∧
    ∀ i < c.size, ∃ r', c.replica? i = some r' ∧ r'.node.record.log = r.node.record.log ∧
      r'.node.record.commitLength = r.node.record.log.length ∧ r'.store = r.store

end Cluster

namespace Assembly

open Cluster

variable {A : Assembly} {s j : Nat} {c : Cluster}

theorem After.heartbeats : ∀ (count j : Nat) (c : Cluster), A.After s j c →
    Ensures (A.now + A.config.longest < Instant.limit)
      (c.obeyAll (Cluster.heartbeats A.leader count)) (A.After s (j + count)) := by
  intro count
  induction count with
  | zero => exact fun j c h => .pure h
  | succ count ih =>
      intro j c h
      have hsplit : c.obeyAll (Cluster.heartbeats A.leader (count + 1)) =
          c.obeyAll [.fire A.leader .heartbeat, .deliverAll] >>=
            fun c => c.obeyAll (Cluster.heartbeats A.leader count) := by
        unfold Cluster.heartbeats
        rw [List.replicate_succ, List.flatten_cons]
        exact List.foldlM_append
      rw [hsplit, ← Nat.add_assoc, Nat.add_right_comm]
      exact h.next.bind fun c₁ h₁ => ih (j + 1) c₁ h₁

/-- Three rounds after the last refusal there is nothing left to do. -/
theorem After.converged (h : A.After s j c) (enough : s + 3 ≤ j) :
    c.Converged A.leader A.term := by
  obtain ⟨n, hn, hcommit, hlogs⟩ := h.alike (by omega)
  obtain ⟨k, lead, hk, hterm, hrole, _⟩ := h.rest.leads
  obtain rfl := Option.some.inj (hn.symm.trans hk)
  obtain ⟨r, hr, rfl⟩ := exists_replica hn
  have hrange := h.rest.stands.range
  refine ⟨r, hr, Node.isLeader_iff.mpr ⟨lead, hrole⟩, hterm, fun i hi => ?_⟩
  rw [h.rest.stands.size] at hi
  obtain ⟨m, hm, hlog⟩ := hlogs i hi
  obtain ⟨m', hm', hall⟩ := h.committed enough i hi
  obtain rfl := Option.some.inj (hm.symm.trans hm')
  obtain ⟨r', hr', rfl⟩ := exists_replica hm
  rw [hlog] at hall
  refine ⟨r', hr', hlog, hall, ?_⟩
  -- either store is the replay of the same log
  rw [h.rest.attained.store_eq hrange hr', h.rest.attained.store_eq hrange hr, hlog, hall, hcommit]

end Assembly

namespace Cluster

variable {c : Cluster} {l : NodeId} {n : Node} {lead : Leader} {count : Nat}

/-- If everybody is up and can be reached, nothing is under way and nobody has
passed the leader's term, then all are alike after three more rounds than the
leader believes its furthest peer to hold entries, while the clock stands still;
and the rounds come to their end unless no deadline can be set any more. -/
theorem heartbeats_converge (attained : c.Attainable) (range : c.InRange)
    (hn : c.node? l = some n) (role : n.role = .leader lead)
    (up : ∀ i < c.size, ∃ m, c.node? i = some m ∧
      m.record.currentTerm ≤ n.record.currentTerm)
    (clear : c.isolated = []) (quiet : c.inFlight = []) (enough : lead.furthest + 3 ≤ count) :
    (∀ c', c.obeyAll (heartbeats l count) = .ok c' →
      c'.Converged l n.record.currentTerm ∧ c'.size = c.size ∧ c'.now = c.now) ∧
    (c.now + c.config.longest < Instant.limit →
      ∃ c', c.obeyAll (heartbeats l count) = .ok c') := by
  have hterm : n.record.currentTerm < Word.max := by
    obtain ⟨r, hr, rfl⟩ := exists_replica hn
    obtain ⟨m, hm, hslot⟩ := Option.map_eq_some_iff.mp (slot?_of_replica? hr)
    have hlt := range m (List.mem_of_getElem? hm)
    rw [hslot] at hlt
    exact hlt
  let A : Assembly :=
    { config := c.config
      size := c.size
      now := c.now
      leader := l
      term := n.record.currentTerm
      inRange := hterm }
  have hrest : A.AtRest lead.furthest c := by
    refine ⟨attained, ⟨rfl, rfl, rfl, clear, up⟩, quiet, n, lead, hn, rfl, role, fun p hp hne => ?_⟩
    obtain ⟨m, hm, _⟩ := up p hp
    have hrow : p ∈ lead.progress.map (·.peer) := by
      rw [(attained.incumbent range hn role).2]
      exact mem_distinct.mpr (attained.seated.mem_peers hn hm hne)
    obtain ⟨row, hrow⟩ := Leader.exists_row? hrow
    exact ⟨m, row, hm, hrow, Log.lags_of_le (Leader.sent_le_furthest hrow)⟩
  have hbefore : A.After lead.furthest 0 c :=
    ⟨hrest, fun h => absurd h (Nat.lt_irrefl 0), fun h => absurd h (by omega),
      fun h => absurd h (by omega)⟩
  have hafter := hbefore.heartbeats count 0 c
  rw [Nat.zero_add] at hafter
  refine ⟨fun c' call => ?_, hafter.returns⟩
  have hdone := hafter.holds c' call
  exact ⟨hdone.converged enough, hdone.rest.stands.size, hdone.rest.stands.now⟩

/-! ## Two logs that have parted -/

/-- The member `0` was cut off while it went on leading, and nobody knows of
what it was asked to write since. The others have made `1` their leader, which
the member `0` can hear again. -/
def rift : Except Halt Cluster := do
  let c ← start 3 {} fun _ => 0
  c.obeyAll [.elect 0, .serve 0 "SET a 1", .fire 0 .heartbeat, .deliverAll, .isolate 0,
    .serve 0 "SET b 2", .serve 0 "SET c 3", .elect 1, .heal 0]

theorem heartbeats_converge_rift :
    ∃ c c' : Cluster, ∃ n, (c.Attainable ∧ c.InRange ∧ c.node? 1 = some n ∧
      (∃ m, c.node? 0 = some m ∧ m.isLeader = true ∧
        ¬ n.record.log <+: m.record.log ∧ ¬ m.record.log <+: n.record.log) ∧
      (∃ lead, n.role = .leader lead ∧ lead.furthest + 3 ≤ 6) ∧
      (∀ i < c.size, ∃ m, c.node? i = some m ∧ m.record.currentTerm ≤ n.record.currentTerm) ∧
      c.isolated = [] ∧ c.inFlight = []) ∧
      c.obeyAll (heartbeats 1 6) = .ok c' ∧ c'.Converged 1 2 := by
  have h : ∃ c, rift = .ok c ∧ c.InRange ∧ ∃ n, c.node? 1 = some n ∧
      n.record.currentTerm = 2 ∧
      (∃ m, c.node? 0 = some m ∧ m.isLeader = true ∧
        ¬ n.record.log <+: m.record.log ∧ ¬ m.record.log <+: n.record.log) ∧
      (∃ lead, n.role = .leader lead ∧ lead.furthest + 3 ≤ 6) ∧
      (∀ i < c.size, ∃ m, c.node? i = some m ∧ m.record.currentTerm ≤ n.record.currentTerm) ∧
      c.isolated = [] ∧ c.inFlight = [] ∧
      c.now + c.config.longest < Instant.limit := by decide +kernel
  obtain ⟨c, hc, range, n, hn, hterm, parted, ⟨lead, role, enough⟩, up, clear, quiet, reach⟩ := h
  have attained : c.Attainable := by
    obtain ⟨c₀, hstart, hobeyed⟩ := exists_of_bind_ok hc
    exact ((Reachable.start hstart).obeyAll hobeyed).attainable
  obtain ⟨hconverged, hreturns⟩ :=
    heartbeats_converge attained range hn role up clear quiet enough
  obtain ⟨c', hc'⟩ := hreturns reach
  exact ⟨c, c', n, ⟨attained, range, hn, parted, ⟨lead, role, enough⟩, up, clear, quiet⟩, hc',
    hterm ▸ (hconverged c' hc').1⟩

end Cluster

end Quorum
