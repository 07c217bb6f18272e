import Quorum.Replica
import Quorum.PendingWrites
import Quorum.Storage.Disk
import Quorum.Wire.Network

/-!
# Servers

A replica over files, with the clients that wait for it. One thing happens
to a server at a time: a timer fires, a message arrives or a client asks for
something. What the server gives out in return, answers and messages, is
collected in order until it is taken. When its storage fails the server
stops, and from then on nothing happens to it any more.

How requests and messages come to a server, and how what it gives out is
carried away, is not described here: a turn takes whatever has come in.
-/

namespace Quorum

/-- Why a server does not start. -/
inductive ServerError where
  | storage (cause : DiskError)
  | transport (cause : NetworkError)
  | config (cause : ConfigError)
  deriving DecidableEq, Repr

/-- The text that describes why a server does not start. -/
def ServerError.message : ServerError → String
  | .storage cause => "storage: " ++ cause.message
  | .transport cause => "transport: i/o error: " ++ cause.system.message
  | .config cause => "config: " ++ cause.message

/-- What a server has to be told before it can start. -/
structure ServerSetup where
  id : NodeId
  address : SocketAddress
  peers : List NodeId
  /-- The directory of its files. -/
  directory : Path
  config : TimerConfig
  deriving DecidableEq, Repr

/-- Something that a server gives out; `ω` says where an answer goes. -/
inductive ServerOutput (ω : Type) where
  | answer (waiter : ω) (reply : Reply)
  | send (receiver : NodeId) (message : Message)
  deriving DecidableEq, Repr

structure Server (ω : Type) where
  replica : Replica DiskStorage
  /-- Writes that wait for their index to be applied. -/
  pending : PendingWrites ω := {}
  /-- Requests that wait for the lease, in the order of their arrival. -/
  deferred : List (ω × Request) := []
  /-- What has been given out and not been taken yet. -/
  output : List (ServerOutput ω) := []
  /-- Why the server has stopped, if it has. -/
  failure? : Option DiskError := none

namespace Server

variable {ω : Type}

/-- Starts a server: its configuration is checked first, then its files are
loaded, and last it takes its address. -/
def start (network : Network) (setup : ServerSetup) (files : FileTree)
    (taken : List SocketAddress) (now : Instant) (draw : Nat) :
    Except ClockOverflow (Except ServerError (Server ω)) :=
  match setup.config.validate with
  | .error cause => return .error (.config cause)
  | .ok () =>
    match DiskStorage.openAt files setup.directory with
    | (_, .error cause) => return .error (.storage cause)
    | (storage, .ok ()) => do
      match ← Replica.boot setup.id setup.peers setup.config storage now draw with
      | .error cause => return .error (.storage cause)
      | .ok replica =>
        match network.bind setup.address taken with
        | .error cause => return .error (.transport cause)
        | .ok () => return .ok { replica }

def isRunning (s : Server ω) : Bool := s.failure?.isNone

def give (s : Server ω) (output : ServerOutput ω) : Server ω :=
  { s with output := s.output ++ [output] }

/-- What has been given out, and the server from which it has been taken. -/
def takeOutput (s : Server ω) : List (ServerOutput ω) × Server ω :=
  (s.output, { s with output := [] })

/-- Does with a client's request what the replica decided. A write that gives
way to another one at its index has failed. -/
def carryOut (s : Server ω) (waiter : ω) : Admission → Server ω
  | .reply reply => s.give (.answer waiter reply)
  | .deferred request => { s with deferred := s.deferred ++ [(waiter, request)] }
  | .write index entry =>
    let (pending, displaced) := s.pending.insert index entry waiter
    match displaced with
    | none => { s with pending }
    | some other => { s with pending }.give (.answer other (s.replica.writeReply false))

/-- A client asks for something. -/
def offer (s : Server ω) (waiter : ω) (request : Request) (now : Instant) : Server ω :=
  if !s.isRunning then s
  else
    match s.replica.serve request now with
    | (replica, .error cause) => { s with replica, failure? := some cause }
    | (replica, .ok admission) => { s with replica }.carryOut waiter admission

/-- Clients ask for something, one after the other. -/
def offerAll (s : Server ω) (asked : List (ω × Request)) (now : Instant) : Server ω :=
  asked.foldl (fun s (waiter, request) => s.offer waiter request now) s

/-- Answers the writes whose index has been applied. -/
def answerApplied (s : Server ω) : Server ω :=
  let (applied, replica) := s.replica.takeApplied
  let (pending, settled) := s.pending.resolve applied
  settled.foldl (fun s (waiter, own) => s.give (.answer waiter (replica.writeReply own)))
    { s with replica, pending }

/-- Answers whatever can be answered now: the requests that were deferred,
each of which may be deferred again, and the writes. -/
def settle (s : Server ω) (now : Instant) : Server ω :=
  let s := { s with deferred := [] }.offerAll s.deferred now
  if s.isRunning then s.answerApplied else s

/-- Lets go of the clients that have given up. -/
def forget (s : Server ω) (gone : ω → Bool) : Server ω :=
  { s with
    deferred := s.deferred.filter (!gone ·.1)
    pending := s.pending.retain (!gone ·) }

/-- Carries out what the replica asks for. -/
def execute (s : Server ω) : Command → Server ω
  | .send receiver message => s.give (.send receiver message)
  | .leadershipLost leader? =>
    s.deferred.foldl (fun s (waiter, _) => s.give (.answer waiter (.redirect leader?)))
      { s with deferred := [] }

/-- A timer fires or a message arrives. -/
def handle (s : Server ω) (event : Event) (now : Instant) (draw : Nat) :
    Except ClockOverflow (Server ω) :=
  if !s.isRunning then return s
  else do
    let (replica, result) ← s.replica.handle event now draw
    match result with
    | .error cause => return { s with replica, failure? := some cause }
    | .ok commands => return commands.foldl execute { s with replica }

/-- Fires the timers that are due, one after the other, at most one for each
random number. -/
def fireTimers (s : Server ω) (now : Instant) : List Nat → Except ClockOverflow (Server ω)
  | [] => return s
  | draw :: draws =>
    match s.replica.dueEvent? now with
    | none => return s
    | some event => do (← s.handle event now draw).fireTimers now draws

/-- Lets time pass up to `limit` while nothing comes to the server: its timers
fire, each when it is due, at most one for each random number. -/
def idle (s : Server ω) (limit : Instant) : List Nat → Except ClockOverflow (Server ω)
  | [] => return s
  | draw :: draws =>
    let due := s.replica.node.nextDeadline
    if limit < due then return s
    else do (← s.fireTimers due [draw]).idle limit draws

/-- A message arrives, and whatever it allows to be answered is answered. -/
def receive (s : Server ω) (sender : NodeId) (message : Message) (now : Instant) (draw : Nat) :
    Except ClockOverflow (Server ω) := do
  return (← s.handle (.message sender message) now draw).settle now

/-- A message that has come in, when it is taken, and the random number for
it. -/
structure Arrival where
  sender : NodeId
  message : Message
  now : Instant
  draw : Nat

/-- A turn of a server: the timers that are due fire, the clients that have
asked since the last turn are let in, all that can be answered is answered, and
a message is taken if one has come in. -/
def turn (s : Server ω) (now : Instant) (draws : List Nat) (asked : List (ω × Request))
    (arrival? : Option Arrival) : Except ClockOverflow (Server ω) := do
  let s := ((← s.fireTimers now draws).offerAll asked now).settle now
  match arrival? with
  | none => return s
  | some a => s.receive a.sender a.message a.now a.draw

/-- What has to be done on files that hold the record of `before`, so that they
hold the record that the server has now. -/
def savesSince (s before : Server ω) : List FileOperation :=
  if s.replica.node.record = before.replica.node.record then []
  else Disk.saveOperations before.replica.storage.directory s.replica.node.record

end Server

end Quorum
