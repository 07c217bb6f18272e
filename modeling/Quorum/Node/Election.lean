import Quorum.Node.Replication

/-!
# Elections

Standing for election, granting votes and counting them. A node gives its vote
in a term to one candidate, whose log covers its own.
-/

namespace Quorum.Node

/-- Closes the tally without a win and arms the timer of the next election. -/
def loseElection (n : Node) (c : Candidate) (now : Instant) (draw : Nat) :
    Except ClockOverflow Node := do
  let electionAt ← Instant.after now (n.config.electionTimeout draw)
  return { n with role := .candidate (c.conclude electionAt) }

/-- Decides an election as soon as its outcome is known: a majority wins at
once, and a round in which everybody answered without one is lost. -/
def tally (n : Node) (c : Candidate) (now : Instant) (draw : Nat) :
    Except ClockOverflow (Node × List Command) := do
  let n := { n with role := .candidate c }
  if c.hasMajority n.clusterSize then n.becomeLeader c.priorLease now
  else if c.allAnswered n.peers.length then return (← n.loseElection c now draw, [])
  else return (n, [])

/-- The request by which a candidate asks for votes. -/
def voteRequest (n : Node) : VoteRequest where
  term := n.record.currentTerm
  candidate := n.id
  lastIndex := n.lastIndex
  lastTerm := n.record.log.lastTerm

/-- Stands for election: in the next term, with a vote for itself. A node
without peers wins by that vote. The last term has no next one: there a node
stands again in the same term, and takes back the vote it may have given. -/
def startElection (n : Node) (now : Instant) (draw : Nat) :
    Except ClockOverflow (Node × List Command) := do
  let deadline ← Instant.after now n.config.rpc
  let record :=
    { n.record with currentTerm := n.record.currentTerm.next, votedFor := some n.id }
  let n := n.withRecord record
  let requests := n.peers.map fun peer => .send peer (.voteRequest n.voteRequest)
  let c := Candidate.stand n.id deadline (n.priorLease.remaining now)
  let (n, commands) ← n.tally c now draw
  return (n, requests ++ commands)

/-- The election timer fires. It means nothing to a leader, nor to a candidate
that still counts votes. -/
def electionTimeout (n : Node) (now : Instant) (draw : Nat) :
    Except ClockOverflow (Node × List Command) :=
  match n.role with
  | .leader _ => return (n, [])
  | .candidate c => if c.tallying then return (n, []) else n.startElection now draw
  | .follower _ => n.startElection now draw

/-- The timer of a candidate's vote round fires. -/
def voteRoundTimeout (n : Node) (now : Instant) (draw : Nat) :
    Except ClockOverflow (Node × List Command) :=
  match n.role with
  | .candidate c =>
    if c.tallying && c.deadline ≤ now then return (← n.loseElection c now draw, [])
    else return (n, [])
  | _ => return (n, [])

/-- Whether the node gives its vote: the request is of the current term, the
vote is free or was given to the same candidate, and the candidate's log
covers this node's. -/
def grants (n : Node) (request : VoteRequest) : Bool :=
  request.term == n.record.currentTerm &&
    (n.record.votedFor.isNone || n.record.votedFor == some request.candidate) &&
    n.record.log.isCoveredBy request.lastIndex request.lastTerm

def voteFor (n : Node) (candidate : NodeId) : Node :=
  if n.record.votedFor = some candidate then n
  else n.withRecord { n.record with votedFor := some candidate }

/-- A candidate's request arrives. The answer tells how long an earlier leader
may still answer reads. Granting a vote leaves the node's own election timer
alone. -/
def handleVoteRequest (n : Node) (sender : NodeId) (request : VoteRequest) (now : Instant)
    (draw : Nat) : Except ClockOverflow (Node × List Command) := do
  let (n, lost) ← n.adoptTerm request.term now draw
  let granted := n.grants request
  let reply : VoteReply :=
    { term := n.record.currentTerm, granted, priorLease := n.priorLease.remaining now }
  let n' := if granted then n.voteFor request.candidate else n
  return (n', lost ++ [.send sender (.voteReply reply)])

/-- A voter's answer arrives. It counts only while a tally of its term is
open. -/
def handleVoteReply (n : Node) (sender : NodeId) (reply : VoteReply) (now : Instant)
    (draw : Nat) : Except ClockOverflow (Node × List Command) := do
  let (n, lost) ← n.adoptTerm reply.term now draw
  if reply.term ≠ n.record.currentTerm then return (n, lost) else
  match n.role with
  | .candidate c =>
    if c.tallying then
      let (n, commands) ← n.tally (c.record sender reply.granted reply.priorLease) now draw
      return (n, lost ++ commands)
    else return (n, lost)
  | _ => return (n, lost)

end Quorum.Node
