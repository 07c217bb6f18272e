import Quorum.Message.Basic
import Quorum.Record
import Quorum.Role
import Quorum.TimerConfig

/-!
# Nodes

The state of a node, what can be asked of it, and the two transitions that
every part of the protocol shares: stepping down into the role of a follower
and adopting a newer term.

Handlers of events are functions from a node to a node and the commands it
gives out, in order. They fail only where a deadline would lie beyond the
end of the clock. A handler that may arm an election timer takes the random
number `draw` that selects the timeout.
-/

namespace Quorum

structure Node where
  id : NodeId
  /-- The other nodes of the cluster, in the order in which they are
  addressed. -/
  peers : List NodeId
  config : TimerConfig
  /-- The durable part of the state. -/
  record : Record
  /-- How many entries of the log have been handed to the store. -/
  lastApplied : LogIndex
  role : Role
  priorLease : PriorLease
  /-- The record has changed since it was last taken for saving. -/
  unsaved : Bool
  deriving DecidableEq, Repr

/-- A timer that a node can have armed. -/
inductive Timer where
  | election
  | voteRound
  | heartbeat
  | leaseExpiry
  deriving DecidableEq, Repr

namespace Node

/-- The node that wakes up with a record: a follower that knows of no leader
and has applied nothing. A commit length beyond the log is cut down to it. -/
def restore (id : NodeId) (peers : List NodeId) (config : TimerConfig) (record : Record)
    (now : Instant) (draw : Nat) : Except ClockOverflow Node := do
  let electionAt ← Instant.after now (config.electionTimeout draw)
  return {
    id, peers, config
    record := { record with commitLength := min record.commitLength record.log.length }
    lastApplied := 0
    role := .follower ⟨none, electionAt⟩
    priorLease := {}
    unsaved := false }

/-- The number of servers, this one included. -/
def clusterSize (n : Node) : Nat := n.peers.length + 1

/-- How many servers make a majority. -/
def quorum (n : Node) : Nat := n.clusterSize / 2 + 1

def isLeader (n : Node) : Bool :=
  match n.role with
  | .leader _ => true
  | _ => false

/-- Whom the node believes to lead the current term. -/
def leader? (n : Node) : Option NodeId :=
  match n.role with
  | .follower f => f.leader?
  | .candidate _ => none
  | .leader _ => some n.id

def lastIndex (n : Node) : LogIndex := n.record.log.length

/-- When the earliest armed timer fires. -/
def nextDeadline (n : Node) : Instant :=
  match n.role with
  | .follower f => f.electionAt
  | .candidate c => c.deadline
  | .leader l => min l.heartbeatAt l.lease.expiresAt

/-- The timer that is due. The end of a leader's lease goes before its
heartbeat. -/
def dueTimer? (n : Node) (now : Instant) : Option Timer :=
  match n.role with
  | .follower f => if f.electionAt ≤ now then some .election else none
  | .candidate c =>
    if c.deadline ≤ now then some (if c.tallying then .voteRound else .election) else none
  | .leader l =>
    if l.lease.isExpired now then some .leaseExpiry
    else if l.heartbeatAt ≤ now then some .heartbeat
    else none

/-- The node may answer reads from its own store. -/
def canServeReads (n : Node) (now : Instant) : Bool :=
  match n.role with
  | .leader l => l.lease.allowsReads now
  | _ => false

/-- The node may accept writes. They too wait until no earlier leader may
answer reads any more, since an acknowledged write must not be missing from
a later read. -/
def canAcceptWrites (n : Node) (now : Instant) : Bool :=
  match n.role with
  | .leader l => l.lease.isPastBarrier now
  | _ => false

/-- The committed entries that have not been applied, as far as the log holds
them. -/
def unapplied (n : Node) : List LogEntry :=
  (n.record.log.drop n.lastApplied).take (n.record.commitLength - n.lastApplied)

/-- The next entry to apply with its index, and the node that has handed it
over. -/
def takeEntry? (n : Node) : Option ((LogIndex × LogEntry) × Node) :=
  match n.unapplied with
  | [] => none
  | entry :: _ =>
    some ((n.lastApplied + 1, entry), { n with lastApplied := n.lastApplied + 1 })

/-- Entries with their indices, the first one standing behind `offset`
others. -/
def numbered (offset : LogIndex) (entries : List LogEntry) : List (LogIndex × LogEntry) :=
  entries.mapIdx fun i entry => (offset + i + 1, entry)

/-- All entries to apply with their indices, and the node that has handed
them over. -/
def takeEntries (n : Node) : List (LogIndex × LogEntry) × Node :=
  (numbered n.lastApplied n.unapplied,
    { n with lastApplied := n.lastApplied + n.unapplied.length })

/-- Whether the record has to be saved, and the node for which that is
settled. -/
def takeUnsaved (n : Node) : Bool × Node :=
  (n.unsaved, { n with unsaved := false })

/-- The node after a change of its record. -/
def withRecord (n : Node) (record : Record) : Node :=
  { n with record, unsaved := true }

/-- The node as a follower. One that follows already only learns the leader.
Any other drops its role, and a leader reports that and keeps its own lease
in mind for the candidates that ask for its vote. -/
def stepDown (n : Node) (leader? : Option NodeId) (now : Instant) (draw : Nat) :
    Except ClockOverflow (Node × List Command) :=
  match n.role with
  | .follower f => return ({ n with role := .follower { f with leader? } }, [])
  | .candidate _ => do
    let electionAt ← Instant.after now (n.config.electionTimeout draw)
    return ({ n with role := .follower ⟨leader?, electionAt⟩ }, [])
  | .leader l => do
    let electionAt ← Instant.after now (n.config.electionTimeout draw)
    let priorLease := n.priorLease.extendUntil l.lease.expiresAt
    return ({ n with role := .follower ⟨leader?, electionAt⟩, priorLease },
      [.leadershipLost leader?])

/-- Moves to the term of a message if it is newer: as a follower without a
vote, and before anything else in the message counts. -/
def adoptTerm (n : Node) (term : Term) (now : Instant) (draw : Nat) :
    Except ClockOverflow (Node × List Command) :=
  if n.record.currentTerm < term then
    let record := { n.record with currentTerm := term, votedFor := none }
    (n.withRecord record).stepDown none now draw
  else
    return (n, [])

def append (n : Node) (entry : LogEntry) : Node :=
  n.withRecord { n.record with log := n.record.log ++ [entry] }

/-- The node with at least the given part of its log committed. -/
def commitTo (n : Node) (length : LogIndex) : Node :=
  if n.record.commitLength < length then
    n.withRecord { n.record with commitLength := length }
  else n

end Node

end Quorum
