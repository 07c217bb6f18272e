import Quorum.Cluster.Basic

/-!
# Delivery of messages

Events at the members of a cluster, and the delivery of messages in the
order in which they were sent. Delivering a message may send others, but
never ever more: each delivery uses up some of the work that the messages
under way, and the elections that they may decide, can still cause.
-/

namespace Quorum.Cluster

/-- Carries out what a member asks for. -/
def execute (c : Cluster) (index : Nat) (sender : NodeId) : Command → Cluster
  | .send receiver message =>
    { c with inFlight := c.inFlight ++ [{ sender, receiver, message }] }
  | .leadershipLost leader? =>
    let (waiting, c) := c.takeDeferred index
    waiting.foldl (fun c (request, _) => c.answer request (.redirect leader?)) c

/-- Something happens to a member. Nothing happens to one that is down. -/
def handle (c : Cluster) (index : Nat) (event : Event) : Except Halt Cluster :=
  match c.replica? index with
  | none => return c
  | some replica => do
    let (replica, result) ←
      (replica.handle event c.now (c.draws c.drawn)).mapError Halt.clock
    let c := { c.setReplica index replica with drawn := c.drawn + 1 }
    let c := (always result).foldl (fun c command => c.execute index replica.node.id command) c
    return c.settle index

/-- Delivers a message, unless its sender or its receiver is isolated. -/
def deliver (c : Cluster) (m : InFlight) : Except Halt Cluster :=
  if c.isolated.contains m.sender || c.isolated.contains m.receiver then return c
  else c.handle m.receiver (.message m.sender m.message)

/-- Delivers at most `count` messages, first sent, first delivered. -/
def deliverUpTo : Nat → Cluster → Except Halt Cluster
  | 0, c => return c
  | count + 1, c =>
    match c.inFlight with
    | [] => return c
    | m :: rest => do deliverUpTo count (← { c with inFlight := rest }.deliver m)

/-- How many deliveries a message can cause, its own included: a request is
answered, an answer is not. -/
def load : Message → Nat
  | .voteRequest _ | .appendRequest _ => 2
  | .voteReply _ | .appendReply _ => 1

/-- How many deliveries a member can cause that has not sent anything yet: a
candidate that wins sends a request to each peer. -/
def potential (m : Member) : Nat :=
  match m.slot with
  | .up replica =>
    match replica.node.role with
    | .candidate c => if c.tallying then 2 * replica.node.peers.length else 0
    | _ => 0
  | .down _ => 0

/-- A bound on the deliveries that can happen before no message is left. -/
def workload (c : Cluster) : Nat :=
  c.inFlight.foldr (fun m rest => load m.message + rest) 0 +
    c.members.foldr (fun m rest => potential m + rest) 0

/-- Delivers all messages, including those that are sent on the way. -/
def deliverAll (c : Cluster) : Except Halt Cluster :=
  deliverUpTo c.workload c

end Quorum.Cluster
