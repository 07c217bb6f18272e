import Quorum.Proofs.Handlers.Rounds
import Quorum.Proofs.Log.CommitPoint

/-!
# What a handler writes into the record

The record of a node changes in few ways: a newer term, a vote, entries at the
end of the log or in the place of others, a longer committed part.
`Node.Rewrites` lists them, and `Deed.rewrites` finds one of them in each deed.
-/

namespace Quorum.Node

/-- What one deed can make of the record of a node that has heard a message, or
that acts on its own account. -/
inductive Rewrites (heard? : Option (NodeId × Message)) (n : Node) : Record → Prop
  | keep : Rewrites heard? n n.record
  | adopt {sender : NodeId} {message : Message} (heard : heard? = some (sender, message))
      (newer : n.record.currentTerm < message.term) :
      Rewrites heard? n { n.record with currentTerm := message.term, votedFor := none }
  | stand :
      Rewrites heard? n
        { n.record with currentTerm := n.record.currentTerm.next, votedFor := some n.id }
  /-- The vote of the term is given to the candidate that asks for it. -/
  | vote {sender : NodeId} {q : VoteRequest} (heard : heard? = some (sender, .voteRequest q))
      (free : n.record.votedFor = none) :
      Rewrites heard? n { n.record with votedFor := some q.candidate }
  /-- A leader appends an entry of its own term, which opens the term unless a
  client has asked for it. -/
  | append (operation : Operation) (asked : heard? = none ∨ operation = .noOp) :
      Rewrites heard? n
        { n.record with log := n.record.log ++ [⟨n.record.currentTerm, operation⟩] }
  /-- A leader commits more, and in no term but zero more than there is. -/
  | commit {l : Leader} {length : LogIndex} (role : n.role = .leader l)
      (more : n.record.commitLength < length)
      (within : 0 < n.record.currentTerm → length ≤ n.record.log.length) :
      Rewrites heard? n { n.record with commitLength := length }
  | accept {sender : NodeId} {q : AppendRequest}
      (heard : heard? = some (sender, .appendRequest q)) (accepts : n.accepts q = true) :
      Rewrites heard? n { n.record with
        log := n.record.log.splice q.prevIndex q.entries
        commitLength :=
          max n.record.commitLength (min q.commit (q.prevIndex + q.entries.length)) }

variable {heard? : Option (NodeId × Message)} {now : Instant} {draw : Nat} {n n' : Node}
  {said : List Command}

theorem voteFor_record (n : Node) (candidate : NodeId) :
    (n.voteFor candidate).record = { n.record with votedFor := some candidate } := by
  unfold voteFor
  split
  · next voted => rw [← voted]
  · rfl

theorem inTerm_record (n : Node) (term : Term) (now : Instant) (draw : Nat) :
    (n.inTerm term now draw).record =
      { n.record with currentTerm := term, votedFor := none } := by
  unfold inTerm
  rw [asFollower_record]
  rfl

/-- Every deed rewrites the record in one of the ways, or not at all. -/
theorem Deed.rewrites (h : Deed heard? now draw n n' said) : Rewrites heard? n n'.record := by
  cases h with
  | adopt heard newer =>
      rw [inTerm_record]
      exact .adopt heard newer
  | expire role expired =>
      rw [asFollower_record]
      exact .keep
  | follow heard current =>
      show Rewrites heard? n (n.asFollower _ now draw).record
      rw [asFollower_record]
      exact .keep
  | stand free => exact .stand
  | count role tallying heard current => exact .keep
  | lose role tallying => exact .keep
  | win role tallying majority granted => exact .append .noOp (.inr rfl)
  | round role begun => exact .keep
  | advance role =>
      unfold advanceCommit commitTo
      simp only []
      split
      · next more =>
          refine .commit role more fun hterm => ?_
          exact Log.commitPoint_le_length (Nat.ne_of_gt hterm) more
      · exact .keep
  | append operation role asked => exact .append operation (.inl asked)
  | @grant sender q heard grants =>
      rw [voteFor_record]
      cases hvoted : n.record.votedFor with
      | none => exact .vote heard hvoted
      | some candidate =>
          -- the vote is taken, so it was given to the one who asks
          have hsame : n.record.votedFor = some q.candidate := by
            simp only [Node.grants, hvoted, Option.isNone_some, Bool.false_or,
              Bool.and_eq_true, beq_iff_eq] at grants
            rw [hvoted, grants.1.2]
          rw [← hsame]
          exact .keep
  | deny heard grants => exact .keep
  | accept role heard accepts observed =>
      rw [accepting_record]
      exact .accept heard accepts
  | refuse heard accepts => exact .keep
  | note role heard current success recorded => exact .keep
  | lower role heard current failure => exact .keep

end Quorum.Node
