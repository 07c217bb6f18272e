import Quorum.PendingWrites
import Quorum.Proofs.Run.Basic

/-!
# Clients of a cluster

A run of a cluster with the clients that wait for it. A request may be handed
to any node at any time, and again as long as no node has admitted or answered
it; a write that was admitted waits at its node until the index is applied
there, and is answered with whether its own entry was. Nobody waits at a node
that is down, and a node may forget clients that are gone.

All writes ever admitted are kept on a list beside the cluster. It only tells
which requests are still open.
-/

namespace Quorum

/-- A write that a node admitted, and where it went. -/
structure Ticket where
  request : RequestId
  member : NodeId
  index : LogIndex
  entry : LogEntry
  deriving DecidableEq, Repr

/-- A cluster with its clients. -/
structure Service where
  world : World
  /-- The writes that wait at each node. -/
  pending : NodeId → PendingWrites RequestId := fun _ => {}
  /-- All writes ever admitted. -/
  tickets : List Ticket := []
  answers : List (RequestId × Reply) := []

/-- What can happen to a cluster with clients. -/
inductive Act where
  /-- Something happens that concerns no client. -/
  | cluster (action : Action)
  /-- A request is handed to a node. -/
  | offer (request : RequestId) (member : NodeId) (command : Request) (now : Instant)
  /-- A node answers the writes that it has applied. -/
  | settle (member : NodeId)
  /-- A node forgets some of those who wait there. -/
  | forget (member : NodeId) (keep : RequestId → Bool)

namespace Service

def start : Service := { world := .start }

/-- The request has been admitted or answered. -/
def closed (c : Service) (request : RequestId) : Bool :=
  c.tickets.any (·.request == request) || c.answers.any (·.1 == request)

/-- Nobody waits at a node that is down. -/
def dropLost (c : Service) : Service :=
  { c with pending := fun i => match c.world.slot i with
    | .up _ => c.pending i
    | .down _ => {} }

/-- Does with a request what the node that it was handed to decided. One that
was deferred may be handed over again later. -/
def carryOut (c : Service) (request : RequestId) (i : NodeId) : Admission → Service
  | .reply reply => { c with answers := (request, reply) :: c.answers }
  | .deferred _ => c
  | .write index entry =>
    let (pending, displaced) := (c.pending i).insert index entry request
    { c with
      pending := Function.update c.pending i pending
      tickets := ⟨request, i, index, entry⟩ :: c.tickets
      answers := match displaced with
        | none => c.answers
        | some other => (other, .fail "" none) :: c.answers }

@[simp] theorem carryOut_world (c : Service) (request : RequestId) (i : NodeId)
    (admission : Admission) : (c.carryOut request i admission).world = c.world := by
  cases admission <;> rfl

def offer (M : Roster) (c : Service) (request : RequestId) (i : NodeId) (command : Request)
    (now : Instant) : Service :=
  if c.closed request then c else
  match c.world.slot i with
  | .down _ => c
  | .up replica =>
    { c with world := c.world.step M (.request i command now) }.carryOut request i
      (always (replica.serve command now).2)

def settle (M : Roster) (c : Service) (i : NodeId) : Service :=
  match c.world.slot i with
  | .down _ => c
  | .up replica =>
    let (pending, settled) := (c.pending i).resolve replica.takeApplied.1
    { c with
      world := c.world.step M (.report i)
      pending := Function.update c.pending i pending
      answers := settled.map (fun (request, own) => (request, replica.writeReply own)) ++
        c.answers }

/-- The cluster and its clients after an act. -/
def step (M : Roster) (c : Service) : Act → Service
  | .cluster action => { c with world := c.world.step M action }.dropLost
  | .offer request i command now => c.offer M request i command now
  | .settle i => c.settle M i
  | .forget i keep =>
    { c with pending := Function.update c.pending i ((c.pending i).retain keep) }

def after (M : Roster) (acts : List Act) : Service :=
  acts.foldl (step M) start

end Service

/-- A run of a cluster with clients, with no term reaching the largest
word. -/
structure ClientRun (M : Roster) where
  acts : List Act
  inRange : (Service.after M acts).world.InRange M

def ClientRun.state {M : Roster} (r : ClientRun M) (k : Nat) : Service :=
  Service.after M (r.acts.take k)

end Quorum
