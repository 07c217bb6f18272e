import Quorum.Log.Basic

/-!
# Durable records

What a node must remember across a crash.
-/

namespace Quorum

/-- The durable part of a node's state. -/
structure Record where
  /-- The length of the part of the log that is known to be committed. -/
  commitLength : LogIndex := 0
  currentTerm : Term := 0
  /-- Whom the node has voted for in the current term. -/
  votedFor : Option NodeId := none
  log : Log := []
  deriving DecidableEq, Repr

end Quorum
