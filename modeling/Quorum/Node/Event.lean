import Quorum.Node.Election

/-!
# Events

Everything that can happen to a node: one of its timers fires, or a message
arrives.
-/

namespace Quorum

inductive Event where
  | electionTimeout
  | voteRoundTimeout
  | heartbeatTimeout
  | leaseTimeout
  | message (sender : NodeId) (message : Message)
  deriving DecidableEq, Repr

def Timer.event : Timer → Event
  | .election => .electionTimeout
  | .voteRound => .voteRoundTimeout
  | .heartbeat => .heartbeatTimeout
  | .leaseExpiry => .leaseTimeout

namespace Node

def handleMessage (n : Node) (sender : NodeId) (message : Message) (now : Instant)
    (draw : Nat) : Except ClockOverflow (Node × List Command) :=
  match message with
  | .voteRequest request => n.handleVoteRequest sender request now draw
  | .voteReply reply => n.handleVoteReply sender reply now draw
  | .appendRequest request => n.handleAppendRequest sender request now draw
  | .appendReply reply => n.handleAppendReply sender reply now draw

/-- The node after an event, and what it asks for. -/
def handle (n : Node) (event : Event) (now : Instant) (draw : Nat) :
    Except ClockOverflow (Node × List Command) :=
  match event with
  | .electionTimeout => n.electionTimeout now draw
  | .voteRoundTimeout => n.voteRoundTimeout now draw
  | .heartbeatTimeout => n.heartbeatTimeout now
  | .leaseTimeout => n.leaseTimeout now draw
  | .message sender message => n.handleMessage sender message now draw

end Node

end Quorum
