import Quorum.Log.Basic
import Quorum.Time

/-!
# Messages

What nodes say to each other: a candidate's request for a vote, a leader's
request to append entries, and the replies to both. Requests and replies are
separate messages; nothing but their content ties a reply to its request.
-/

namespace Quorum

/-- A candidate asks for a vote in `term` and describes the end of its
log. -/
structure VoteRequest where
  term : Term
  candidate : NodeId
  lastIndex : LogIndex
  lastTerm : Term
  deriving DecidableEq, Repr

/-- The answer to a `VoteRequest`. -/
structure VoteReply where
  term : Term
  granted : Bool
  /-- How long, as far as the voter knows, an earlier leader may still answer
  reads. -/
  priorLease : Duration
  deriving DecidableEq, Repr

/-- A leader asks a follower to put `entries` behind the entry at `prevIndex`.
With no entries it only shows that the leader is alive. -/
structure AppendRequest where
  term : Term
  leader : NodeId
  prevIndex : LogIndex
  prevTerm : Term
  entries : List LogEntry
  /-- How much of its log the leader has committed. -/
  commit : LogIndex
  /-- How long the leader may answer reads once a quorum has acknowledged this
  round. -/
  lease : Duration
  /-- The number of the heartbeat round, which the reply repeats. -/
  round : Nat
  deriving DecidableEq, Repr

/-- The answer to an `AppendRequest`. -/
structure AppendReply where
  term : Term
  success : Bool
  /-- The length up to which the follower's log now agrees with the leader's;
  zero on a refusal. -/
  acked : LogIndex
  round : Nat
  deriving DecidableEq, Repr

/-- What one node sends to another. -/
inductive Message where
  | voteRequest (request : VoteRequest)
  | voteReply (reply : VoteReply)
  | appendRequest (request : AppendRequest)
  | appendReply (reply : AppendReply)
  deriving DecidableEq, Repr

def Message.term : Message → Term
  | .voteRequest request => request.term
  | .voteReply reply => reply.term
  | .appendRequest request => request.term
  | .appendReply reply => reply.term

/-- What a node asks its surroundings to do. -/
inductive Command where
  /-- Send a message to a node. -/
  | send (receiver : NodeId) (message : Message)
  /-- The node has just stopped being leader. Requests that wait for its lease
  are to be sent on to `leader?`. -/
  | leadershipLost (leader? : Option NodeId)
  deriving DecidableEq, Repr

end Quorum
