import Quorum.Json.Fields
import Quorum.Json.Reader
import Quorum.Log.Line
import Quorum.Storage.Basic
import Quorum.Storage.FileTree
import Quorum.Text.Utf8

/-!
# Storage in files

A record in two files of a directory: `log.txt` with a line for each entry,
and `meta.json` with the rest. Both are written anew on every save, each
under a temporary name from which it is then renamed, the log first. A crash
between the two renamings leaves a newer log beside older metadata, and the
newer log still has all that the older commit length speaks of; the other
order could leave a commit length beyond the end of the log.
-/

namespace Quorum

/-- Why a record cannot be loaded or saved. -/
inductive DiskError where
  | io (cause : IoError)
  /-- The metadata are no valid JSON of their kind. -/
  | corruptMeta
  /-- A line of the log, counted from one, is no entry. -/
  | badLine (number : Nat) (cause : LineError)
  deriving DecidableEq, Repr

/-- The text that describes why a record cannot be loaded or saved. -/
def DiskError.message : DiskError → String
  | .io cause => "i/o error: " ++ cause.message
  | .corruptMeta => "corrupt metadata"
  | .badLine number cause =>
    "corrupt log at line " ++ Text.decimal number ++ ": " ++ cause.message

/-- A directory of files as storage. -/
structure DiskStorage where
  files : FileTree
  directory : Path
  deriving DecidableEq, Repr

namespace Disk

def logName : String := "log.txt"

/-- The name of the metadata file. -/
def metaName : String := "meta.json"

/-- The name under which a file is written before it is complete. -/
def temporary (name : String) : String := name ++ ".tmp"

def logText (log : Log) : List Char :=
  log.flatMap fun entry => entry.line.toList ++ ['\n']

/-- The lines of a scanned file. A line ends in a line feed, or in a carriage
return and a line feed, or at the end of the file. -/
def lines : Text.Scanned → List Text.Scanned
  | [] => []
  | some '\n' :: rest => [] :: lines rest
  | some '\r' :: some '\n' :: rest => [] :: lines rest
  | c :: rest =>
    match lines rest with
    | [] => [[c]]
    | line :: others => (c :: line) :: others

/-- The entries of lines of which the first one has the given number. Blank
lines count, but hold no entry. -/
def entriesOf (number : Nat) : List Text.Scanned → Except DiskError Log
  | [] => .ok []
  | line :: rest =>
    match Text.Utf8.text? line with
    | none => .error (.io .invalidData)
    | some text =>
      if Text.isBlankLine text then entriesOf (number + 1) rest
      else
        match LogEntry.ofLine (String.ofList text) with
        | .error cause => .error (.badLine number cause)
        | .ok entry => (entriesOf (number + 1) rest).map (entry :: ·)

/-- The entries of a log file. -/
def readLog (content : List UInt8) : Except DiskError Log :=
  entriesOf 1 (lines (Text.Utf8.scan content))

/-- The metadata of a record in JSON. -/
def metaJson (record : Record) : Json :=
  .record [
    ("commit_length", .nat record.commitLength), ("current_term", .nat record.currentTerm),
    ("voted_for", .optional .nat record.votedFor)]

/-- A record without its log, from the metadata in JSON. -/
def metaOfJson? (v : Json) : Option Record := do
  let [commitLength, currentTerm, votedFor] ←
    v.fields? ["commit_length", "current_term", "voted_for"] .skipped | none
  return {
    commitLength := ← Json.word? (← commitLength)
    currentTerm := ← Json.word? (← currentTerm)
    votedFor := ← Json.optional? Json.word? votedFor }

def replaceFile (directory : Path) (name : String) (content : List UInt8) :
    List FileOperation :=
  let written := directory ++ [temporary name]
  [.create written, .extend written content, .flush written,
    .rename written (directory ++ [name])]

def saveOperations (directory : Path) (record : Record) : List FileOperation :=
  replaceFile directory logName (Text.Utf8.encode (logText record.log)) ++
    replaceFile directory metaName (Text.Utf8.encode (metaJson record).write) ++
    [.flushDirectory directory]

end Disk

namespace DiskStorage

/-- Storage in a directory, which is created if it is not there; and whether it
is there now. -/
def openAt (files : FileTree) (directory : Path) : DiskStorage × Except DiskError Unit :=
  let (files, result) := files.makeDirectories directory
  ({ files, directory }, result.mapError .io)

/-- The content of a file of the directory, or nothing if it is not there. -/
def content? (s : DiskStorage) (name : String) : Except DiskError (Option (List UInt8)) :=
  if s.files.exists? (s.directory ++ [name]) then
    match s.files.read (s.directory ++ [name]) with
    | .ok content => .ok (some content)
    | .error cause => .error (.io cause)
  else .ok none

/-- The log on file; empty if there is no log file. -/
def loadLog (s : DiskStorage) : Except DiskError Log := do
  match ← s.content? Disk.logName with
  | none => return []
  | some content => Disk.readLog content

/-- The record on file but for its log; empty if there are no metadata. -/
def loadMeta (s : DiskStorage) : Except DiskError Record := do
  match ← s.content? Disk.metaName with
  | none => return {}
  | some content =>
    match (Json.ofOctets? content).bind Disk.metaOfJson? with
    | none => .error .corruptMeta
    | some record => return record

end DiskStorage

instance : Storage DiskStorage DiskError where
  load s := do
    let log ← s.loadLog
    let record ← s.loadMeta
    return { record with log }
  save s record :=
    let (files, result) := s.files.run (Disk.saveOperations s.directory record)
    ({ s with files }, result.mapError .io)

end Quorum
