import Mathlib.Order.Bounds.Basic
import Quorum.Proofs.Handlers.Progress

/-!
# The commit rule

A leader commits as much as it may (`commit_rule_maximal`): up to the last entry
of its own term that a quorum of the servers holds, as far as it has heard. What
the peers have confirmed decides nothing else, even if one of them has confirmed
more than there is.
-/

namespace Quorum

namespace Node

variable {n : Node} {l : Leader} {i : LogIndex}

/-- A quorum of the servers hold the first `i` entries, as far as the leader has
heard, and the last of these entries is of the leader's term. -/
def Committable (n : Node) (l : Leader) (i : LogIndex) : Prop :=
  n.quorum ≤ (n.lastIndex :: n.peers.map l.ackedBy).countP (i ≤ ·) ∧
    ∃ e, n.record.log.entry? i = some e ∧ e.term = n.record.currentTerm

/-- How far the commit rule reaches. -/
def reach (n : Node) (l : Leader) : LogIndex :=
  n.record.log.commitPoint n.record.currentTerm n.record.commitLength
    (l.replicatedOn n.lastIndex n.quorum)

/-- The servers are counted once each. -/
theorem countP_servers (rows : l.progress.map (·.peer) = distinct n.peers)
    (nodup : n.peers.Nodup) :
    (n.lastIndex :: n.peers.map l.ackedBy).countP (i ≤ ·) =
      (n.lastIndex :: l.ackedLengths).countP (i ≤ ·) := by
  have hperm : l.ackedLengths.Perm (n.peers.map l.ackedBy) := by
    rw [Leader.ackedLengths_eq (rows ▸ nodup_distinct n.peers), rows]
    exact (distinct_perm nodup).map l.ackedBy
  exact ((hperm.cons n.lastIndex).countP_eq _).symm

variable (rows : l.progress.map (·.peer) = distinct n.peers) (nodup : n.peers.Nodup)

include rows nodup

/-- What may be committed is within the reach of the commit rule. -/
theorem Committable.le_reach (h : n.Committable l i) : i ≤ n.reach l := by
  obtain ⟨hquorum, e, he, hterm⟩ := h
  rw [countP_servers rows nodup] at hquorum
  have hown : n.record.log.termAt i = n.record.currentTerm := by
    rw [Log.termAt, he]
    exact hterm
  exact Log.le_commitPoint hown (le_quorumLength (Nat.succ_pos _) hquorum)
    (Log.le_length_of_entry he)

/-- Where the commit rule moves on, it stops at what may be committed. -/
theorem committable_reach (positive : 0 < n.record.currentTerm)
    (more : n.record.commitLength < n.reach l) : n.Committable l (n.reach l) := by
  refine ⟨?_, ?_⟩
  · rw [countP_servers rows nodup]
    exact quorum_le_countP_commitPoint more
  · exact Log.exists_entry?_of_termAt (Log.commitPoint_spec more).1 (Nat.ne_of_gt positive)

end Node

/-- The commit rule is the maximal one. Whatever the log of a leader and
whatever its peers have confirmed, the commit length becomes the largest index
beyond it that may be committed, and nothing else changes; if there is no such
index nothing changes at all. So it never passes the end of the log. -/
theorem commit_rule_maximal {n : Node} {l : Leader} (positive : 0 < n.record.currentTerm)
    (rows : l.progress.map (·.peer) = distinct n.peers) (nodup : n.peers.Nodup) :
    ((∃ i, IsGreatest {i | n.record.commitLength < i ∧ n.Committable l i} i ∧
        n.advanceCommit l = n.withRecord { n.record with commitLength := i }) ∨
      (¬ ∃ i, n.record.commitLength < i ∧ n.Committable l i) ∧ n.advanceCommit l = n) ∧
    (n.record.commitLength ≤ n.lastIndex →
      (n.advanceCommit l).record.commitLength ≤ n.lastIndex) := by
  by_cases more : n.record.commitLength < n.reach l
  · have hmoved : n.advanceCommit l =
        n.withRecord { n.record with commitLength := n.reach l } := if_pos more
    refine ⟨.inl ⟨_, ⟨⟨more, ?_⟩, ?_⟩, hmoved⟩, fun _ => ?_⟩
    · exact Node.committable_reach rows nodup positive more
    · exact fun i hi => hi.2.le_reach rows nodup
    · rw [hmoved]
      exact Log.commitPoint_le_length (Nat.ne_of_gt positive) more
  · -- an index that may be committed would have been within reach
    have hsame : n.advanceCommit l = n := if_neg more
    rw [hsame]
    refine ⟨.inr ⟨fun ⟨i, hi, hcommittable⟩ => more ?_, rfl⟩, id⟩
    exact Nat.lt_of_lt_of_le hi (hcommittable.le_reach rows nodup)

/-! ## A confirmation of more than there is -/

/-- A leader of five servers. One peer has confirmed nine entries, of which
there are but four, and the last of them is of a term that is not the leader's. -/
def Leader.misled : Leader where
  progress := [⟨2, 3, 3⟩, ⟨3, 9, 9⟩, ⟨4, 4, 4⟩, ⟨5, 0, 0⟩]
  heartbeatAt := Duration.second
  lease := {
    duration := Duration.ofMilliseconds 2500
    barrier := 0
    expiresAt := Duration.ofMilliseconds 2500
    confirmed := true
    round := 2
    roundStartedAt := 0
    acks := [2] }

def Node.misled : Node where
  id := 1
  peers := [2, 3, 4, 5]
  config := {}
  record := {
    commitLength := 1
    currentTerm := 2
    votedFor := some 1
    log := [.noOp 1, .noOp 2, .set 2 "a" "1", .noOp 1] }
  lastApplied := 1
  role := .leader .misled
  priorLease := {}
  unsaved := false

/-- Three servers hold four entries, but only the third one is committed. -/
theorem commit_rule_maximal_of_misled :
    Node.misled.role = .leader .misled ∧
      (Node.misled.advanceCommit .misled).record.commitLength = 3 ∧
      IsGreatest {i | Node.misled.record.commitLength < i ∧ Node.misled.Committable .misled i} 3 ∧
      (Node.misled.advanceCommit .misled).record.commitLength ≤ Node.misled.lastIndex := by
  have hcommit : (Node.misled.advanceCommit .misled).record.commitLength = 3 := by decide
  obtain ⟨hrule, hwithin⟩ := commit_rule_maximal (n := Node.misled) (l := .misled) (by decide)
    (by decide) (by decide)
  refine ⟨rfl, hcommit, ?_, hwithin (by decide)⟩
  rcases hrule with ⟨i, hgreatest, hmoved⟩ | ⟨_, hsame⟩
  · rw [hmoved] at hcommit
    obtain rfl : i = 3 := hcommit
    exact hgreatest
  · rw [hsame] at hcommit
    exact absurd hcommit (by decide)

end Quorum
