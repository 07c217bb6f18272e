import Quorum.Node.Basic

/-!
# Replication

How a leader brings the logs of its peers in line with its own, commits what
a quorum holds, and renews its lease along the way; and how a follower takes
over a leader's entries.
-/

namespace Quorum.Node

/-- What a leader sends to a peer in a heartbeat round: everything behind the
part of its log that it believes the peer to hold. -/
def appendRequestFor? (n : Node) (l : Leader) (peer : NodeId) : Option AppendRequest := do
  let prevIndex := min (← l.sentTo? peer) n.lastIndex
  return {
    term := n.record.currentTerm
    leader := n.id
    prevIndex
    prevTerm := n.record.log.termAt prevIndex
    entries := n.record.log.drop prevIndex
    commit := n.record.commitLength
    lease := n.config.lease
    round := l.lease.round }

/-- Commits what a quorum holds, provided that it ends in an entry of the
leader's own term. -/
def advanceCommit (n : Node) (l : Leader) : Node :=
  let held := l.replicatedOn n.lastIndex n.quorum
  n.commitTo (n.record.log.commitPoint n.record.currentTerm n.record.commitLength held)

/-- Starts a heartbeat round: a request to each peer, in their order. -/
def sendHeartbeats (n : Node) (l : Leader) (now : Instant) :
    Except ClockOverflow (Node × List Command) := do
  let heartbeatAt ← Instant.after now n.config.heartbeat
  let lease ← l.lease.beginRound now n.quorum
  let l := { l with heartbeatAt, lease }
  let n := { n with role := .leader l }
  let requests := n.peers.filterMap fun peer =>
    (n.appendRequestFor? l peer).map fun request => .send peer (.appendRequest request)
  return (n.advanceCommit l, requests)

/-- Takes office: opens the term with an entry that changes nothing, so that
entries of earlier terms can be committed under it, and starts a heartbeat
round straight away. -/
def becomeLeader (n : Node) (priorLease : Duration) (now : Instant) :
    Except ClockOverflow (Node × List Command) := do
  let lease ← LeaderLease.grant now n.config.lease priorLease
  let heartbeatAt ← Instant.after now n.config.heartbeat
  let l := Leader.start n.peers n.lastIndex heartbeatAt lease
  (n.append (.noOp n.record.currentTerm)).sendHeartbeats l now

/-- The heartbeat timer of a leader fires. -/
def heartbeatTimeout (n : Node) (now : Instant) : Except ClockOverflow (Node × List Command) :=
  match n.role with
  | .leader l => n.sendHeartbeats l now
  | _ => return (n, [])

/-- The lease timer of a leader fires. If the lease has run out the leader can
no longer prove that it may answer reads, and steps down. -/
def leaseTimeout (n : Node) (now : Instant) (draw : Nat) :
    Except ClockOverflow (Node × List Command) :=
  match n.role with
  | .leader l => if l.lease.isExpired now then n.stepDown none now draw else return (n, [])
  | _ => return (n, [])

/-- Appends a client's operation if this node leads: the index and the entry
it got. The next heartbeat round carries it to the peers; a leader without
peers commits it at once. -/
def submit (n : Node) (operation : Operation) : Node × Option (LogIndex × LogEntry) :=
  match n.role with
  | .leader l =>
    let entry : LogEntry := ⟨n.record.currentTerm, operation⟩
    let n := n.append entry
    (n.advanceCommit l, some (n.lastIndex, entry))
  | _ => (n, none)

/-- Follows the leader of a request of the current term: the election timer
starts anew, and the leader's lease is remembered. -/
def follow (n : Node) (request : AppendRequest) (now : Instant) (draw : Nat) :
    Except ClockOverflow (Node × List Command) := do
  let (n, lost) ← n.stepDown (some request.leader) now draw
  let electionAt ← Instant.after now (n.config.electionTimeout draw)
  let priorLease ← n.priorLease.observe now request.lease
  return ({ n with role := .follower ⟨some request.leader, electionAt⟩, priorLease }, lost)

/-- The node after a leader's entries for the places behind `prev`. -/
def takeEntriesBehind (n : Node) (prev : LogIndex) (entries : List LogEntry) : Node :=
  let log := n.record.log.splice prev entries
  if log = n.record.log then n else n.withRecord { n.record with log }

/-- Whether a request fits: it is of the current term, and the log holds the
entry it builds on. -/
def accepts (n : Node) (request : AppendRequest) : Bool :=
  request.term == n.record.currentTerm && n.record.log.holds request.prevIndex request.prevTerm

/-- A leader's request arrives. -/
def handleAppendRequest (n : Node) (sender : NodeId) (request : AppendRequest) (now : Instant)
    (draw : Nat) : Except ClockOverflow (Node × List Command) := do
  let (n, lost) ← n.adoptTerm request.term now draw
  let (n, ousted) ←
    if request.term = n.record.currentTerm then n.follow request now draw else pure (n, [])
  let success := n.accepts request
  let acked := if success then request.prevIndex + request.entries.length else 0
  let n' :=
    if success then
      (n.takeEntriesBehind request.prevIndex request.entries).commitTo (min request.commit acked)
    else n
  let reply : AppendReply :=
    { term := n.record.currentTerm, success, acked, round := request.round }
  return (n', lost ++ ousted ++ [.send sender (.appendReply reply)])

/-- A peer's answer to a request arrives. -/
def handleAppendReply (n : Node) (sender : NodeId) (reply : AppendReply) (now : Instant)
    (draw : Nat) : Except ClockOverflow (Node × List Command) := do
  let (n, lost) ← n.adoptTerm reply.term now draw
  if reply.term ≠ n.record.currentTerm then return (n, lost) else
  match n.role with
  | .leader l =>
    if reply.success then
      let (lease, _) ← l.lease.recordAck sender reply.round n.quorum
      let l := { l.recordSuccess sender reply.acked with lease }
      return ({ n with role := .leader l }.advanceCommit l, lost)
    else
      return ({ n with role := .leader (l.recordFailure sender) }, lost)
  | _ => return (n, lost)

end Quorum.Node
