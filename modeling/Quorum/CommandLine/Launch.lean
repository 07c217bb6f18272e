import Quorum.CommandLine.Invocation
import Quorum.Server

/-!
# Launching a server

From the arguments of the program to a server that runs, or to an end: the
code with which the program exits and what it says about it. Errors in the
arguments are told in words; an error that comes up later is told with all
its parts, the outermost cause first.
-/

namespace Quorum

/-- A refused configuration with all its parts. -/
def ConfigError.detail : ConfigError → String
  | .electionRange min max =>
    "ElectionRange \x7b min: " ++ min.text ++ ", max: " ++ max.text ++ " \x7d"
  | .zeroHeartbeat => "ZeroHeartbeat"
  | .leaseTooShort lease heartbeat =>
    "LeaseTooShort \x7b lease: " ++ lease.text ++ ", heartbeat: " ++ heartbeat.text ++ " \x7d"

/-- A line that cannot be read, with all parts of the reason. -/
def LineError.detail : LineError → String
  | .malformed line => "Malformed(" ++ Text.quote line ++ ")"
  | .invalidTerm word => "InvalidTerm(" ++ Text.quote word ++ ")"

/-- A failure of storage in files with all its parts. -/
def DiskError.detail : DiskError → String
  | .io cause => "Io(" ++ cause.detail ++ ")"
  | .corruptMeta => "Corrupt"
  | .badLine number cause =>
    "Entry \x7b line: " ++ Text.decimal number ++ ", source: " ++ cause.detail ++ " \x7d"

/-- A failed start of a server with all its parts. -/
def ServerError.detail : ServerError → String
  | .storage cause => "Storage(" ++ cause.detail ++ ")"
  | .transport cause => "Transport(Io(" ++ cause.system.detail ++ "))"
  | .config cause => "Config(" ++ cause.detail ++ ")"

namespace CommandLine

/-- The end of a run of the program. -/
inductive Ending where
  | helped
  | misused (cause : UsageError)
  | refused (cause : ConfigError)
  | failed (cause : ServerError)
  | overran (cause : ClockOverflow)
  deriving DecidableEq, Repr

namespace Ending

/-- The code with which the program exits. -/
def code : Ending → Nat
  | .helped => 0
  | .misused _ => 2
  | .refused _ | .failed _ | .overran _ => 1

/-- What the program says about its end. -/
def text : Ending → String
  | .helped => ""
  | .misused cause => cause.report
  | .refused cause => "Error: " ++ cause.detail
  | .failed cause => "Error: " ++ cause.detail
  | .overran cause => cause.message

end Ending

namespace Options

def peerIds (o : Options) : List NodeId :=
  (o.peers.map (·.1)).eraseDups

/-- What a server is told that runs with the options. -/
def setup (o : Options) : ServerSetup where
  id := o.id
  address := o.address
  peers := o.peerIds
  directory := Path.ofText o.dataDirectory
  config := o.timers

end Options

/-- The options to run with, or the end of the program. The configuration is
checked before anything is touched. -/
def prepare (arguments : List String) : Except Ending Options :=
  match Invocation.ofArguments arguments with
  | .error cause => .error (.misused cause)
  | .ok .help => .error .helped
  | .ok (.serve options) =>
    match options.timers.validate with
    | .error cause => .error (.refused cause)
    | .ok () => .ok options

/-- The server that runs on a network, or the end of the program. -/
def launch {ω : Type} (network : Network) (setup : ServerSetup) (files : FileTree)
    (now : Instant) (draw : Nat) : Except Ending (Server ω) :=
  match Server.start network setup files [] now draw with
  | .error cause => .error (.overran cause)
  | .ok (.error cause) => .error (.failed cause)
  | .ok (.ok server) => .ok server

/-- The server that still runs when nothing but its timers has come to it up to
`limit`, or the end of the program. -/
def leave {ω : Type} (server : Server ω) (limit : Instant) (draws : List Nat) :
    Except Ending (Server ω) :=
  match server.idle limit draws with
  | .error cause => .error (.overran cause)
  | .ok server =>
    match server.failure? with
    | some cause => .error (.failed (.storage cause))
    | none => .ok server

/-- The text that explains the flags. -/
def helpText : String :=
  let lines := Flag.all.map fun flag =>
    "  " ++ flag.usage ++ (if flag.help.isEmpty then "" else "\n          " ++ flag.help)
  "Replicated key-value store on Raft with leader leases\n\nOptions:\n" ++
    String.intercalate "\n" lines

end CommandLine

end Quorum
