import Quorum.CommandLine.Console

/-!
# The program

Runs one server over the files of its directory. Client commands come in on
standard input, one to a line, and the reply to each one goes out as a line
of JSON before the next one is read. The program opens no connections: to
its server the network has no route, so messages to peers are lost.

Only the doing is here: reading lines and clocks, carrying out operations on
files and printing replies. What to do is decided by `CommandLine.Console`.
-/

namespace Quorum.Program

open CommandLine

/-- How often the clock and the input are looked at, in milliseconds. -/
def pollInterval : UInt32 := 5

/-- The place of a file below the server's directory. -/
def place (directory : String) (path : Path) : String :=
  path.foldl (fun place name => place ++ "/" ++ name) directory

/-- The failure of storage that an error of the file system stands for. -/
def storageError (e : IO.Error) : DiskError :=
  .io (match e with
    | .alreadyExists .. => .alreadyExists
    | .inappropriateType _ 21 _ => .isADirectory
    | .inappropriateType .. => .notADirectory
    | .invalidArgument .. => .nameTooLong
    | _ => .notFound)

/-- Carries out one operation on files. -/
def perform (directory : String) : FileOperation → IO Unit
  | .create path => IO.FS.writeBinFile (place directory path) .empty
  | .extend path content => do
    let file ← IO.FS.Handle.mk (place directory path) .append
    file.write ⟨content.toArray⟩
    file.flush
  | .rename source target => IO.FS.rename (place directory source) (place directory target)
  | .flush _ | .flushDirectory _ => return

/-- The files from which a server starts. The directory is created if it is
not there. -/
def loadFiles (directory : String) : IO FileTree := do
  IO.FS.createDirAll directory
  [Disk.logName, Disk.metaName].foldlM (fun files name => do
    try
      let content ← IO.FS.readBinFile (place directory [name])
      return files.set 0 name (.file content.toList)
    catch
      | .noFileOrDirectory .. => return files
      | e => throw e) {}

/-- A number from which an election timeout is drawn. -/
def randomNumber : IO Nat :=
  IO.rand 0 Word.max

/-- Numbers for as many timers as may fire one after the other. -/
def randomNumbers : IO (List Nat) :=
  (List.range 8).mapM fun _ => randomNumber

def finish (ending : Ending) : IO UInt32 := do
  if ending = .helped then IO.println helpText else IO.eprintln ending.text
  return .ofNat ending.code

/-- Prints a reply. -/
def tell (reply : Reply) : IO Unit := do
  let output ← IO.getStdout
  output.putStrLn reply.toJson.compact
  output.flush

/-- A console as the program runs it. -/
structure Running where
  directory : String
  console : Console
  startedAt : Nat

namespace Running

/-- The time since the start. -/
def now (r : Running) : IO Instant := do
  return (← IO.monoNanosNow) - r.startedAt

/-- Lets the console have a turn, and carries out what it asks for. -/
def turn (r : Running) (line? : Option String) : IO (Except Ending Running) := do
  match r.console.turn line? (← r.now) (← randomNumbers) with
  | .error cause => return .error (.overran cause)
  | .ok (console, effects) => do
    effects.operations.forM (perform r.directory)
    effects.replies.forM tell
    match console.ending? with
    | some ending => return .error ending
    | none => return .ok { r with console }

/-- Runs the console until the input ends. -/
partial def loop (r : Running) (line : Task (Except IO.Error String)) : IO UInt32 := do
  if r.console.takesLine && (← IO.hasFinished line) then
    match line.get with
    | .ok "" | .error _ => return 0
    | .ok text =>
      match ← r.turn (some text) with
      | .error ending => finish ending
      | .ok r => r.loop (← IO.asTask (← IO.getStdin).getLine .dedicated)
  else
    IO.sleep pollInterval
    match ← r.turn none with
    | .error ending => finish ending
    | .ok r => r.loop line

end Running

/-- Starts a server over the files of its directory and runs it. -/
def run (options : Options) : IO UInt32 := do
  let files ← (loadFiles options.dataDirectory).toBaseIO
  match files with
  | .error e => finish (.failed (.storage (storageError e)))
  | .ok files =>
    match launch .routeless { options.setup with directory := [] } files 0 (← randomNumber) with
    | .error ending => finish ending
    | .ok server => do
      let running : Running := {
        directory := options.dataDirectory
        console := { server, timeout := options.clientTimeout }
        startedAt := ← IO.monoNanosNow }
      try
        running.loop (← IO.asTask (← IO.getStdin).getLine .dedicated)
      catch e => finish (.failed (.storage (storageError e)))

end Quorum.Program

/-- Runs the server that the arguments ask for. -/
def main (arguments : List String) : IO UInt32 := do
  match Quorum.CommandLine.prepare arguments with
  | .error ending => Quorum.Program.finish ending
  | .ok options => Quorum.Program.run options
