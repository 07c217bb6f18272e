import Quorum.Text.Numeral
import Quorum.TimerConfig
import Quorum.Term
import Quorum.Wire.Address

/-!
# Flags

The flags that the program takes, what the value of each one means, and the
settings that they add up to.
-/

namespace Quorum.CommandLine

/-- A flag of the program. Each one takes a value. -/
inductive Flag where
  | id
  | addr
  | peer
  | dataDir
  | clientAddr
  | electionMin
  | electionMax
  | heartbeat
  | lease
  | rpc
  | clientTimeout
  deriving DecidableEq, Repr

namespace Flag

/-- The flags in the order in which they are listed. -/
def all : List Flag :=
  [.id, .addr, .peer, .dataDir, .clientAddr, .electionMin, .electionMax, .heartbeat, .lease,
    .rpc, .clientTimeout]

/-- The name of a flag, without the dashes in front of it. -/
def name : Flag → String
  | .id => "id"
  | .addr => "addr"
  | .peer => "peer"
  | .dataDir => "data-dir"
  | .clientAddr => "client-addr"
  | .electionMin => "election-timeout-min-ms"
  | .electionMax => "election-timeout-max-ms"
  | .heartbeat => "heartbeat-interval-ms"
  | .lease => "lease-duration-ms"
  | .rpc => "rpc-timeout-ms"
  | .clientTimeout => "client-timeout-ms"

/-- How the value of a flag is called. -/
def valueName : Flag → String
  | .peer => "PEERS"
  | flag => String.ofList (flag.name.toList.map fun c => if c = '-' then '_' else c.toUpper)

/-- A flag with its value, as help and errors show it. -/
def usage (flag : Flag) : String :=
  "--" ++ flag.name ++ " <" ++ flag.valueName ++ ">"

def help : Flag → String
  | .id => "This node's numeric ID (must be unique in the cluster)"
  | .addr => "TCP address to listen on for Raft RPCs"
  | .peer => "A peer in the form ID=ADDR. Repeat for each peer"
  | .dataDir => "Directory for persistent state (meta.json, log.txt)"
  | .clientAddr => "HTTP address for client requests (POST /client)"
  | .lease => "How long a majority-acknowledged heartbeat round lets the leader serve reads"
  | .rpc => "Bound on one vote round and on each outbound connection"
  | .clientTimeout => "How long a client request may wait for its reply"
  | .electionMin | .electionMax | .heartbeat => ""

def ofName? (name : String) : Option Flag :=
  all.find? (·.name == name)

/-- The flag may be given more than once. -/
def isRepeatable : Flag → Bool
  | .peer => true
  | _ => false

/-- The program does not run without the flag. -/
def isRequired : Flag → Bool
  | .id | .addr | .dataDir => true
  | _ => false

end Flag

structure Settings where
  id? : Option NodeId := none
  address? : Option SocketAddress := none
  peers : List (NodeId × SocketAddress) := []
  dataDirectory? : Option String := none
  clientAddress? : Option SocketAddress := none
  timers : TimerConfig := {}
  clientTimeout : Duration := Duration.ofSeconds 10
  /-- The flags that were given. -/
  flags : List Flag := []
  deriving DecidableEq, Repr

/-- The address that a text writes, or why it writes none. -/
def addressOf (text : String) : Except String SocketAddress :=
  match SocketAddress.ofText? text with
  | some address => .ok address
  | none => .error "invalid socket address syntax"

/-- The peer that a text names as `ID=ADDR`, or why it names none. The first
equals sign separates the two. -/
def peerOf (text : String) : Except String (NodeId × SocketAddress) :=
  let id := String.ofList (text.toList.takeWhile (· != '='))
  match text.toList.dropWhile (· != '=') with
  | [] => .error ("expected ID=ADDR, got: " ++ text)
  | _ :: rest =>
    let addr := String.ofList rest
    match Text.wordOf id, addressOf addr with
    | .error reason, _ => .error ("invalid peer id '" ++ id ++ "': " ++ reason.message)
    | .ok _, .error reason => .error ("invalid peer addr '" ++ addr ++ "': " ++ reason)
    | .ok id, .ok addr => .ok (id, addr)

/-- A number of milliseconds, or why a text writes none. -/
def durationOf (text : String) : Except String Duration :=
  ((Text.wordOf text).map Duration.ofMilliseconds).mapError (·.message)

/-- The settings after a flag with its value, or why the value does not do. -/
def Settings.set (s : Settings) (flag : Flag) (value : String) : Except String Settings := do
  let s := { s with flags := flag :: s.flags }
  match flag with
  | .id => return { s with id? := some (← (Text.wordOf value).mapError (·.message)) }
  | .addr => return { s with address? := some (← addressOf value) }
  | .peer => return { s with peers := s.peers ++ [← peerOf value] }
  | .dataDir => return { s with dataDirectory? := some value }
  | .clientAddr => return { s with clientAddress? := some (← addressOf value) }
  | .electionMin => return { s with timers := { s.timers with electionMin := ← durationOf value } }
  | .electionMax => return { s with timers := { s.timers with electionMax := ← durationOf value } }
  | .heartbeat => return { s with timers := { s.timers with heartbeat := ← durationOf value } }
  | .lease => return { s with timers := { s.timers with lease := ← durationOf value } }
  | .rpc => return { s with timers := { s.timers with rpc := ← durationOf value } }
  | .clientTimeout => return { s with clientTimeout := ← durationOf value }

end Quorum.CommandLine
