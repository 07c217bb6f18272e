import Quorum.Lease
import Quorum.Log.QuorumLength

/-!
# Roles

What a node keeps as follower, as candidate and as leader. Every role owns
the deadlines that are armed in it, so a node that changes its role leaves
the timers of the old one behind.
-/

namespace Quorum

/-- A follower answers requests and waits for a leader. -/
structure Follower where
  /-- The leader of the current term, if known. -/
  leader? : Option NodeId
  /-- When this node stands for election unless it hears from a leader. -/
  electionAt : Instant
  deriving DecidableEq, Repr

/-- A candidate collects votes until a majority has granted them, everyone has
answered, or the deadline of the round has passed. Once the tally is closed
without a win, the deadline is that of the next election. -/
structure Candidate where
  /-- Who granted a vote, the candidate itself included, each once. -/
  votes : List NodeId
  /-- Who answered at all, each once. -/
  answered : List NodeId
  /-- The longest time for which any voter thinks an earlier leader may still
  answer reads. -/
  priorLease : Duration
  tallying : Bool
  deadline : Instant
  deriving DecidableEq, Repr

namespace Candidate

/-- A candidate that has only its own vote. -/
def stand (self : NodeId) (deadline : Instant) (priorLease : Duration) : Candidate where
  votes := [self]
  answered := []
  priorLease := priorLease
  tallying := true
  deadline := deadline

/-- Counts an answer, whoever gave it. The lease reported with a refusal does not
matter. -/
def record (c : Candidate) (voter : NodeId) (granted : Bool) (priorLease : Duration) :
    Candidate :=
  let c := { c with answered := c.answered.insert voter }
  if granted then
    { c with votes := c.votes.insert voter, priorLease := max c.priorLease priorLease }
  else c

/-- More than half of the servers granted their vote. -/
def hasMajority (c : Candidate) (clusterSize : Nat) : Bool :=
  clusterSize / 2 + 1 ≤ c.votes.length

/-- As many nodes have answered as there are peers. -/
def allAnswered (c : Candidate) (peerCount : Nat) : Bool :=
  peerCount ≤ c.answered.length

/-- Closes the tally without a win. -/
def conclude (c : Candidate) (electionAt : Instant) : Candidate :=
  { c with tallying := false, deadline := electionAt }

end Candidate

/-- What a leader knows of one peer's log. -/
structure PeerProgress where
  peer : NodeId
  /-- How much of the leader's log the peer is believed to hold; the next
  request starts behind it. -/
  sent : LogIndex
  /-- How much of it the peer has confirmed. -/
  acked : LogIndex
  deriving DecidableEq, Repr

/-- A leader replicates its log and renews its lease in heartbeat rounds. -/
structure Leader where
  /-- One row for each peer. -/
  progress : List PeerProgress
  heartbeatAt : Instant
  lease : LeaderLease
  deriving DecidableEq, Repr

/-- The members of a list, each once. -/
def distinct {α : Type} [BEq α] : List α → List α
  | [] => []
  | a :: rest => (distinct rest).insert a

namespace Leader

/-- A new leader assumes that every peer has the log of `length` entries that
it started from, and counts none of them as confirmed. -/
def start (peers : List NodeId) (length : LogIndex) (heartbeatAt : Instant)
    (lease : LeaderLease) : Leader where
  progress := (distinct peers).map fun peer => ⟨peer, length, 0⟩
  heartbeatAt := heartbeatAt
  lease := lease

/-- How much of the log a peer is believed to hold. -/
def sentTo? (l : Leader) (peer : NodeId) : Option LogIndex :=
  (l.progress.find? (·.peer == peer)).map (·.sent)

/-- The lengths that the peers have confirmed. -/
def ackedLengths (l : Leader) : List LogIndex :=
  l.progress.map (·.acked)

/-- Changes the row of a peer, if there is one. -/
def updatePeer (l : Leader) (peer : NodeId) (change : PeerProgress → PeerProgress) : Leader :=
  { l with progress := l.progress.map fun row => if row.peer = peer then change row else row }

/-- A peer confirmed the first `length` entries. What is sent next starts
there, even behind an earlier confirmation. -/
def recordSuccess (l : Leader) (peer : NodeId) (length : LogIndex) : Leader :=
  l.updatePeer peer fun row => { row with sent := length, acked := max row.acked length }

/-- A peer refused what it was sent: the next request starts one entry
earlier. -/
def recordFailure (l : Leader) (peer : NodeId) : Leader :=
  l.updatePeer peer fun row => { row with sent := row.sent - 1 }

/-- The largest length that at least `quorum` servers hold, this leader with
its own log of `ownLength` entries being one of them. -/
def replicatedOn (l : Leader) (ownLength : LogIndex) (quorum : Nat) : LogIndex :=
  quorumLength (ownLength :: l.ackedLengths) quorum

end Leader

/-- The role of a node, with all that belongs to it. -/
inductive Role where
  | follower (f : Follower)
  | candidate (c : Candidate)
  | leader (l : Leader)
  deriving DecidableEq, Repr

end Quorum
