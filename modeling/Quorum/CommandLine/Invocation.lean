import Quorum.CommandLine.Flag
import Quorum.Text.Plain

/-!
# Invocations

What the arguments of the program ask it to do. Arguments are read from the
left, and the first one that does not fit ends the reading. The value of a
flag stands behind an equals sign or in the next argument; in the latter
case it counts only once the argument after it has been looked at.
-/

namespace Quorum.CommandLine

/-- Why the arguments do not fit. -/
inductive UsageError where
  | unexpectedArgument (argument : String)
  /-- A value stands behind a flag that takes none. -/
  | unexpectedValue (flag value : String)
  | missingValue (flag : Flag)
  | invalidValue (flag : Flag) (value reason : String)
  | repeatedFlag (flag : Flag)
  | missingFlags (flags : List Flag)
  deriving DecidableEq, Repr

/-- The text that describes why the arguments do not fit, as a terminal shows
it. The names and values that it cites are in bold letters. -/
def UsageError.message : UsageError → String
  | .unexpectedArgument argument => "unexpected argument '" ++ Text.bold argument ++ "' found"
  | .unexpectedValue flag value =>
    "unexpected value '" ++ Text.bold value ++ "' for '" ++ Text.bold flag ++
      "' found; no more were expected"
  | .missingValue flag =>
    "a value is required for '" ++ Text.bold flag.usage ++ "' but none was supplied"
  | .invalidValue flag value reason =>
    "invalid value '" ++ Text.bold value ++ "' for '" ++ Text.bold flag.usage ++ "': " ++ reason
  | .repeatedFlag flag =>
    "the argument '" ++ Text.bold flag.usage ++ "' cannot be used multiple times"
  | .missingFlags flags =>
    flags.foldl (fun text flag => text ++ "\n  " ++ Text.bold flag.usage)
      "the following required arguments were not provided:"

/-- What the program says when the arguments do not fit, in plain text: what
it cites cannot steer a terminal. -/
def UsageError.report (e : UsageError) : String :=
  Text.plain (Text.bold "error:" ++ " " ++ e.message ++
    "\n\nFor more information, try '" ++ Text.bold "--help" ++ "'.")

/-- What the program is to run with. -/
structure Options where
  id : NodeId
  address : SocketAddress
  peers : List (NodeId × SocketAddress)
  dataDirectory : String
  clientAddress? : Option SocketAddress
  timers : TimerConfig
  clientTimeout : Duration
  deriving DecidableEq, Repr

/-- What the arguments ask for. -/
inductive Invocation where
  | help
  | serve (options : Options)
  deriving DecidableEq, Repr

inductive Argument where
  /-- A name behind two dashes, and what stands behind an equals sign. -/
  | long (name : String) (value? : Option String)
  /-- A character behind one dash. -/
  | short (c : Char)
  /-- Two dashes: no flag follows. -/
  | endOfFlags
  | plain
  deriving DecidableEq, Repr

/-- The shape of an argument. A single dash is a plain one. -/
def Argument.ofText (text : String) : Argument :=
  match text.toList with
  | ['-', '-'] => .endOfFlags
  | '-' :: '-' :: rest =>
    let name := String.ofList (rest.takeWhile (· != '='))
    match rest.dropWhile (· != '=') with
    | [] => .long name none
    | _ :: value => .long name (some (String.ofList value))
  | '-' :: c :: _ => .short c
  | _ => .plain

namespace Settings

/-- The settings after a flag with its value, if it has one. -/
def take (s : Settings) (flag : Flag) : Option String → Except UsageError Settings
  | none => .error (.missingValue flag)
  | some value =>
    if !flag.isRepeatable && s.flags.contains flag then .error (.repeatedFlag flag)
    else if flag = .dataDir ∧ value = "" then .error (.missingValue flag)
    else (s.set flag value).mapError (.invalidValue flag value)

/-- The settings after the flag that was read last, if its value still has to
be looked at. -/
def takeLast (s : Settings) : Option (Flag × Option String) → Except UsageError Settings
  | none => .ok s
  | some (flag, value?) => s.take flag value?

def toOptions (s : Settings) : Except UsageError Options :=
  match s.id?, s.address?, s.dataDirectory? with
  | some id, some address, some dataDirectory =>
    .ok {
      id, address, dataDirectory
      peers := s.peers
      clientAddress? := s.clientAddress?
      timers := s.timers
      clientTimeout := s.clientTimeout }
  | _, _, _ =>
    .error (.missingFlags (Flag.all.filter fun flag => flag.isRequired && !s.flags.contains flag))

/-- Reads arguments behind those that gave the settings; `last?` is a flag
whose value has not been looked at, or not been seen. -/
def read (s : Settings) (last? : Option (Flag × Option String)) :
    List String → Except UsageError Invocation
  | [] => do return .serve (← (← s.takeLast last?).toOptions)
  | argument :: rest =>
    match Argument.ofText argument with
    | .endOfFlags =>
      match rest with
      | [] => do return .serve (← (← s.takeLast last?).toOptions)
      | stray :: _ => .error (.unexpectedArgument stray)
    | .long "help" (some value) => .error (.unexpectedValue "--help" value)
    | .long "help" none | .short 'h' => do
      let _ ← s.takeLast last?
      return .help
    | .long name value? =>
      match Flag.ofName? name with
      | none => .error (.unexpectedArgument ("--" ++ name))
      | some flag => do
        let s ← s.takeLast last?
        match value? with
        | none => s.read (some (flag, none)) rest
        | some value => do (← s.take flag (some value)).read none rest
    | .short c => .error (.unexpectedArgument (String.ofList ['-', c]))
    | .plain =>
      match last? with
      | some (flag, none) => s.read (some (flag, some argument)) rest
      | _ => .error (.unexpectedArgument argument)

end Settings

/-- What the arguments of the program ask for. -/
def Invocation.ofArguments (arguments : List String) : Except UsageError Invocation :=
  ({} : Settings).read none arguments

end Quorum.CommandLine
