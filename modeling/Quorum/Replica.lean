import Quorum.Client.Reply
import Quorum.Client.Request
import Quorum.Node.Event
import Quorum.Storage.Basic
import Quorum.Store

/-!
# Replicas

A node together with its stable storage and the store that its committed
entries feed. If an event changes the record, whatever the node says to it is
held back until the record has been saved; then the entries that it committed
are applied, in the order of the log.
-/

namespace Quorum

/-- A node with storage and store. -/
structure Replica (σ : Type) where
  node : Node
  store : Store
  storage : σ
  /-- The entries applied since they were last asked for. -/
  applied : List (LogIndex × LogEntry)

/-- What becomes of a client's request. -/
inductive Admission where
  /-- It is answered on the spot. -/
  | reply (reply : Reply)
  /-- The leader cannot serve it yet: a read waits for a confirmed lease, and
  everything waits until earlier leases have run out. -/
  | deferred (request : Request)
  /-- It was appended at an index, and is answered when that is applied. -/
  | write (index : LogIndex) (entry : LogEntry)
  deriving DecidableEq, Repr

namespace Replica

variable {σ ε : Type}

def applyCommitted (r : Replica σ) : Replica σ :=
  let (entries, node) := r.node.takeEntries
  { r with
    node
    store := r.store.applyAll (entries.map (·.2))
    applied := r.applied ++ entries }

/-- Saves the record if it has changed. Once it has been tried the change
counts as saved, even if saving fails. -/
def persist [Storage σ ε] (r : Replica σ) : Replica σ × Except ε Unit :=
  let (unsaved, node) := r.node.takeUnsaved
  if unsaved then
    let (storage, result) := Storage.save r.storage node.record
    ({ r with node, storage }, result)
  else
    ({ r with node }, .ok ())

/-- The replica that wakes up over a medium. Entries known to be committed
are applied again, but not reported: whoever waited for them is gone. -/
def boot [Storage σ ε] (id : NodeId) (peers : List NodeId) (config : TimerConfig) (storage : σ)
    (now : Instant) (draw : Nat) : Except ClockOverflow (Except ε (Replica σ)) :=
  match Storage.load storage with
  | .error e => return .error e
  | .ok record => do
    let node ← Node.restore id peers config record now draw
    let r : Replica σ := { node, store := .empty, storage, applied := [] }
    return .ok { r.applyCommitted with applied := [] }

/-- The replica after an event, with the commands it gives out, or the error
for which it gives out none. After a failed save nothing is applied. -/
def handle [Storage σ ε] (r : Replica σ) (event : Event) (now : Instant) (draw : Nat) :
    Except ClockOverflow (Replica σ × Except ε (List Command)) := do
  let (node, commands) ← r.node.handle event now draw
  let (r, saved) := { r with node }.persist
  match saved with
  | .error e => return (r, .error e)
  | .ok () => return (r.applyCommitted, .ok commands)

/-- The event of the timer that is due, if there is one. -/
def dueEvent? (r : Replica σ) (now : Instant) : Option Event :=
  (r.node.dueTimer? now).map Timer.event

/-- The answer to a read from the store as it is. -/
def read (r : Replica σ) (key : String) : Reply :=
  .ok (r.store.get key) r.node.leader?

/-- The answer that sends a client on to the leader. -/
def redirect (r : Replica σ) : Reply :=
  .redirect r.node.leader?

/-- The answer to a write whose index has been applied. -/
def writeReply (r : Replica σ) (committed : Bool) : Reply :=
  if committed then .ok "" r.node.leader? else .fail "" r.node.leader?

/-- Whether the leader may serve a request now. -/
def isReady (r : Replica σ) (request : Request) (now : Instant) : Bool :=
  match request with
  | .get _ => r.node.canServeReads now
  | .set _ _ => r.node.canAcceptWrites now

/-- Admits a client's request. Only a leader serves; every other node sends
the client on. -/
def serve [Storage σ ε] (r : Replica σ) (request : Request) (now : Instant) :
    Replica σ × Except ε Admission :=
  if !r.node.isLeader then (r, .ok (.reply r.redirect))
  else if !r.isReady request now then (r, .ok (.deferred request))
  else
    match request with
    | .get key => (r, .ok (.reply (r.read key)))
    | .set key value =>
      match r.node.submit (.set key value) with
      | (_, none) => (r, .ok (.reply r.redirect))
      | (node, some (index, entry)) =>
        match { r with node }.persist with
        | (r, .error e) => (r, .error e)
        | (r, .ok ()) => (r.applyCommitted, .ok (.write index entry))

/-- The entries applied since this was last asked, in the order of the log,
and the replica that has reported them. -/
def takeApplied (r : Replica σ) : List (LogIndex × LogEntry) × Replica σ :=
  (r.applied, { r with applied := [] })

end Replica

end Quorum
