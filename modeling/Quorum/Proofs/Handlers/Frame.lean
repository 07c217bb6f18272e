import Quorum.Node.Event

/-!
# What every handler leaves alone

A handler never changes who a node is or what it has applied, never goes back
in term, and marks the record for saving whenever it changes it
(`Node.Frame`). How a computation in `Except` is opened is said here too.
-/

namespace Quorum

/-- A computation that succeeds has succeeded at its first step. -/
theorem exists_of_bind_ok {ε α β : Type} {x : Except ε α} {f : α → Except ε β} {b : β}
    (h : x >>= f = .ok b) : ∃ a, x = .ok a ∧ f a = .ok b := by
  cases x with
  | error e => exact absurd h (by simp [bind, Except.bind])
  | ok a => exact ⟨a, rfl, h⟩

/-- Counting a vote leaves the tally open. -/
theorem Candidate.record_tallying (c : Candidate) (voter : NodeId) (granted : Bool)
    (prior : Duration) : (c.record voter granted prior).tallying = c.tallying := by
  unfold record
  split <;> rfl

theorem mem_distinct {a : NodeId} {members : List NodeId} : a ∈ distinct members ↔ a ∈ members := by
  induction members with
  | nil => rfl
  | cons b rest ih => rw [distinct, List.mem_insert_iff, ih, List.mem_cons]

theorem Term.le_next (t : Term) : t ≤ t.next := by
  unfold Term.next
  split
  · exact Nat.le_succ t
  · exact Nat.le_refl t

/-- A node after a handler: who it is and what it has applied are the same,
its term is no older, and a change of its record is marked for saving. -/
structure Node.Frame (n n' : Node) : Prop where
  id : n'.id = n.id
  peers : n'.peers = n.peers
  config : n'.config = n.config
  lastApplied : n'.lastApplied = n.lastApplied
  term_le : n.record.currentTerm ≤ n'.record.currentTerm
  saved : n'.unsaved = false → n.unsaved = false ∧ n'.record = n.record

theorem Node.Frame.refl (n : Node) : n.Frame n :=
  ⟨rfl, rfl, rfl, rfl, Nat.le_refl _, fun h => ⟨h, rfl⟩⟩

theorem Node.Frame.trans {n₁ n₂ n₃ : Node} (h₁ : n₁.Frame n₂) (h₂ : n₂.Frame n₃) :
    n₁.Frame n₃ where
  id := h₂.id.trans h₁.id
  peers := h₂.peers.trans h₁.peers
  config := h₂.config.trans h₁.config
  lastApplied := h₂.lastApplied.trans h₁.lastApplied
  term_le := Nat.le_trans h₁.term_le h₂.term_le
  saved h := by
    obtain ⟨hu₂, hr₂⟩ := h₂.saved h
    obtain ⟨hu₁, hr₁⟩ := h₁.saved hu₂
    exact ⟨hu₁, hr₂.trans hr₁⟩

theorem Node.Frame.withRole (n : Node) (role : Role) (priorLease : PriorLease) :
    n.Frame { n with role, priorLease } :=
  ⟨rfl, rfl, rfl, rfl, Nat.le_refl _, fun h => ⟨h, rfl⟩⟩

theorem Node.Frame.withRecord {n : Node} {record : Record}
    (h : n.record.currentTerm ≤ record.currentTerm) : n.Frame (n.withRecord record) :=
  ⟨rfl, rfl, rfl, rfl, h, fun h => Bool.noConfusion h⟩

namespace Node

variable {n : Node}

theorem isLeader_iff : n.isLeader = true ↔ ∃ l, n.role = .leader l := by
  unfold isLeader
  split
  · next l role => exact iff_of_true rfl ⟨l, role⟩
  · next hno => exact iff_of_false Bool.false_ne_true fun ⟨l, role⟩ => hno l role

theorem isLeader_of_follower {f : Follower} (role : n.role = .follower f) : n.isLeader = false := by
  rw [isLeader, role]

theorem isLeader_of_candidate {c : Candidate} (role : n.role = .candidate c) :
    n.isLeader = false := by
  rw [isLeader, role]

theorem append_frame (entry : LogEntry) : n.Frame (n.append entry) :=
  .withRecord (Nat.le_refl _)

theorem takeEntriesBehind_frame (prev : LogIndex) (entries : List LogEntry) :
    n.Frame (n.takeEntriesBehind prev entries) := by
  unfold takeEntriesBehind
  simp only []
  split
  · exact .refl n
  · exact .withRecord (Nat.le_refl _)

theorem commitTo_frame (length : LogIndex) : n.Frame (n.commitTo length) := by
  unfold commitTo
  split
  · exact .withRecord (Nat.le_refl _)
  · exact .refl n

/-- Committing changes how much is committed and nothing else. -/
theorem commitTo_same (n : Node) (length : LogIndex) :
    (n.commitTo length).role = n.role ∧ (n.commitTo length).priorLease = n.priorLease ∧
      (n.commitTo length).record.currentTerm = n.record.currentTerm ∧
      (n.commitTo length).record.log = n.record.log := by
  unfold commitTo
  split <;> simp [withRecord]

theorem advanceCommit_frame (n : Node) (l : Leader) : n.Frame (n.advanceCommit l) :=
  commitTo_frame _

theorem advanceCommit_same (n : Node) (l : Leader) :
    (n.advanceCommit l).role = n.role ∧ (n.advanceCommit l).priorLease = n.priorLease ∧
      (n.advanceCommit l).record.currentTerm = n.record.currentTerm ∧
      (n.advanceCommit l).record.log = n.record.log :=
  n.commitTo_same _

end Node

end Quorum
