import Quorum.PendingWrites
import Quorum.Replica
import Quorum.Storage.Memory

/-!
# Simulated clusters

A whole cluster as one value: replicas over storage in memory, the messages
between them, a clock that moves only when it is told to, and the clients
whose requests are being served. A member can be cut off from the others, or
crash, when nothing but its storage survives.
-/

namespace Quorum

/-- The number of a client's request, counted over the whole cluster. -/
abbrev RequestId := Nat

/-- A message that has been sent and not yet delivered. -/
structure InFlight where
  sender : NodeId
  receiver : NodeId
  message : Message
  deriving DecidableEq, Repr

/-- Where a member of a cluster runs. -/
inductive Slot where
  | up (replica : Replica MemoryStorage)
  | down (storage : MemoryStorage)

/-- A member of a cluster, with the clients that wait for it. -/
structure Member where
  slot : Slot
  /-- Writes that wait for their index to be applied. -/
  pending : PendingWrites RequestId := {}
  /-- Requests that wait for the lease, in the order of their arrival. -/
  deferred : List (RequestId × Request) := []

/-- A cluster whose members have the identifiers `0`, `1`, … -/
structure Cluster where
  config : TimerConfig
  members : List Member
  /-- Messages in the order in which they were sent. -/
  inFlight : List InFlight := []
  /-- The members whose messages are lost. -/
  isolated : List NodeId := []
  /-- The answer to each request, by its number. -/
  replies : List (Option Reply) := []
  now : Instant := 0
  /-- The random numbers from which election timeouts are drawn. -/
  draws : Nat → Nat
  /-- How many of them have been used. -/
  drawn : Nat := 0

/-- Why a simulation cannot go on. -/
inductive Halt where
  | clock (cause : ClockOverflow)
  /-- A member was asked for that does not exist. -/
  | noMember (size index : Nat)
  deriving DecidableEq, Repr

/-- The text that describes why a simulation cannot go on. -/
def Halt.message : Halt → String
  | .clock cause => cause.message
  | .noMember size index =>
    "index out of bounds: the len is " ++ Text.decimal size ++ " but the index is " ++
      Text.decimal index

namespace Cluster

def size (c : Cluster) : Nat := c.members.length

/-- The replica of a member that is up. -/
def replica? (c : Cluster) (index : Nat) : Option (Replica MemoryStorage) :=
  match c.members[index]? with
  | some ⟨.up replica, _, _⟩ => some replica
  | _ => none

/-- The node of a member that is up. -/
def node? (c : Cluster) (index : Nat) : Option Node :=
  (c.replica? index).map (·.node)

def modify (c : Cluster) (index : Nat) (change : Member → Member) : Cluster :=
  { c with members := c.members.modify index change }

/-- Replaces the replica of a member. -/
def setReplica (c : Cluster) (index : Nat) (replica : Replica MemoryStorage) : Cluster :=
  c.modify index fun m => { m with slot := .up replica }

def answer (c : Cluster) (request : RequestId) (reply : Reply) : Cluster :=
  { c with replies := c.replies.set request (some reply) }

/-- The requests that a member has deferred, and the cluster in which it has
none. -/
def takeDeferred (c : Cluster) (index : Nat) : List (RequestId × Request) × Cluster :=
  (((c.members[index]?).map (·.deferred)).getD [], c.modify index ({ · with deferred := [] }))

/-- Does with a request what the member that serves it decided. A write that
gives way to another one at its index has failed. -/
def carryOut (c : Cluster) (index : Nat) (request : RequestId) : Admission → Cluster
  | .reply reply => c.answer request reply
  | .deferred command =>
    c.modify index fun m => { m with deferred := m.deferred ++ [(request, command)] }
  | .write place entry =>
    match c.members[index]? with
    | none => c
    | some m =>
      let (pending, displaced) := m.pending.insert place entry request
      let c := c.modify index ({ · with pending })
      match displaced with
      | none => c
      | some other => c.answer other (.fail "" none)

/-- Hands a request to a member that is up. -/
def offer (c : Cluster) (index : Nat) (request : RequestId) (command : Request) : Cluster :=
  match c.replica? index with
  | none => c
  | some replica =>
    let (replica, result) := replica.serve command c.now
    (c.setReplica index replica).carryOut index request (always result)

/-- Answers the writes of a member whose indices have been applied. -/
def answerApplied (c : Cluster) (index : Nat) : Cluster :=
  match c.members[index]? with
  | some ⟨.up replica, pending, deferred⟩ =>
    let (applied, replica) := replica.takeApplied
    let (pending, settled) := pending.resolve applied
    let c := c.modify index fun _ => ⟨.up replica, pending, deferred⟩
    settled.foldl (fun c (request, own) => c.answer request (replica.writeReply own)) c
  | _ => c

/-- Answers whatever a member can answer now: the requests it has deferred,
each of which may be deferred again, and its writes. -/
def settle (c : Cluster) (index : Nat) : Cluster :=
  let (waiting, c) := c.takeDeferred index
  (waiting.foldl (fun c (request, command) => c.offer index request command) c).answerApplied
    index

end Cluster

end Quorum
