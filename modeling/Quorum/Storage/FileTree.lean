import Quorum.Storage.Path
import Quorum.SystemError

/-!
# File trees

Directories and files as far as storage needs them: single operations on
named files, each of which happens at once or fails for a reason. The tree
is a table of directories, numbered from the root, which is directory zero.
A path is walked from the root name by name, so it fails at the first place
where it cannot go on.
-/

namespace Quorum

/-- What a name in a directory stands for. -/
inductive FileNode where
  | file (content : List UInt8)
  | directory (number : Nat)
  deriving DecidableEq, Repr

/-- A directory: the number of the one that holds it, and what its names stand
for, each name at most once. The root is its own parent. -/
structure Directory where
  parent : Nat := 0
  entries : List (String × FileNode) := []
  deriving DecidableEq, Repr

structure FileTree where
  directories : Array Directory := #[{}]
  deriving DecidableEq, Repr

/-- Why an operation on files fails. -/
inductive IoError where
  | notFound
  | alreadyExists
  | notADirectory
  | isADirectory
  | nameTooLong
  /-- A name holds the character that ends names. -/
  | nulInName
  /-- A file is no text. -/
  | invalidData
  deriving DecidableEq, Repr

namespace IoError

/-- The report of the operating system, unless the operation was never handed
to it. -/
def system? : IoError → Option SystemError
  | .notFound => some ⟨2, "NotFound", "No such file or directory"⟩
  | .alreadyExists => some ⟨17, "AlreadyExists", "File exists"⟩
  | .notADirectory => some ⟨20, "NotADirectory", "Not a directory"⟩
  | .isADirectory => some ⟨21, "IsADirectory", "Is a directory"⟩
  | .nameTooLong => some ⟨36, "InvalidFilename", "File name too long"⟩
  | .nulInName | .invalidData => none

/-- The name of the kind of failure. -/
def kind (e : IoError) : String :=
  match e, e.system? with
  | _, some s => s.kind
  | .nulInName, none => "InvalidInput"
  | _, none => "InvalidData"

/-- What went wrong. -/
def description (e : IoError) : String :=
  match e, e.system? with
  | _, some s => s.description
  | .nulInName, none => "file name contained an unexpected NUL byte"
  | _, none => "stream did not contain valid UTF-8"

/-- The failure in one sentence. -/
def message (e : IoError) : String :=
  (e.system?.map (·.message)).getD e.description

/-- All parts of the failure. -/
def detail (e : IoError) : String :=
  (e.system?.map (·.detail)).getD
    ("Error \x7b kind: " ++ e.kind ++ ", message: " ++ Text.quote e.description ++ " \x7d")

end IoError

namespace FileTree

def directory (t : FileTree) (number : Nat) : Directory :=
  t.directories.getD number {}

/-- What a name stands for in a directory. -/
def find? (t : FileTree) (number : Nat) (name : String) : Option FileNode :=
  (t.directory number).entries.lookup name

/-- Takes a name out of a directory. -/
def erase (t : FileTree) (number : Nat) (name : String) : FileTree :=
  ⟨t.directories.modify number fun d =>
    { d with entries := d.entries.filter (·.1 != name) }⟩

/-- Lets a name stand for a file or a directory. -/
def set (t : FileTree) (number : Nat) (name : String) (node : FileNode) : FileTree :=
  ⟨(t.erase number name).directories.modify number fun d =>
    { d with entries := (name, node) :: d.entries }⟩

/-- Puts a new, empty directory into a directory. -/
def addDirectory (t : FileTree) (number : Nat) (name : String) : FileTree :=
  let t' := t.set number name (.directory t.directories.size)
  ⟨t'.directories.push { parent := number }⟩

/-- What a name leads to from a directory. -/
def enter (t : FileTree) (number : Nat) (name : String) : Except IoError FileNode :=
  if Path.stays name then .ok (.directory number)
  else if name = ".." then .ok (.directory (t.directory number).parent)
  else if Path.nameLimit < name.utf8ByteSize then .error .nameTooLong
  else
    match t.find? number name with
    | some node => .ok node
    | none => .error .notFound

/-- Walks a path from a directory. Nothing lies behind a file. -/
def walk (t : FileTree) (number : Nat) : Path → Except IoError FileNode
  | [] => .ok (.directory number)
  | name :: rest =>
    match t.enter number name with
    | .ok (.directory next) => t.walk next rest
    | .ok (.file content) => if rest.isEmpty then .ok (.file content) else .error .notADirectory
    | .error e => .error e

/-- A path can be asked for at all. -/
def check (path : Path) : Except IoError Unit :=
  if path.any (·.contains '\x00') then .error .nulInName
  else if Path.limit < Path.size path then .error .nameTooLong
  else .ok ()

def look (t : FileTree) (path : Path) : Except IoError FileNode := do
  check path
  t.walk 0 path

def exists? (t : FileTree) (path : Path) : Bool :=
  (t.look path).toOption.isSome

def isDirectory (t : FileTree) (path : Path) : Bool :=
  match t.look path with
  | .ok (.directory _) => true
  | _ => false

/-- Where the last name of a path stands: the number of the directory, and the
name. Slashes at the end do not count. -/
def locate (t : FileTree) (path : Path) : Except IoError (Nat × String) := do
  check path
  let written := (path.reverse.dropWhile (· == "")).reverse
  match ← t.walk 0 written.dropLast with
  | .file _ => .error .notADirectory
  | .directory number => return (number, written.getLastD ".")

/-- What a path leads to that ends in a name of its own; nothing if the name is
free. -/
def occupant (t : FileTree) (number : Nat) (name : String) : Except IoError (Option FileNode) :=
  match t.enter number name with
  | .ok node => .ok (some node)
  | .error .notFound => .ok none
  | .error e => .error e

def read (t : FileTree) (path : Path) : Except IoError (List UInt8) := do
  match ← t.look path with
  | .file content => return content
  | .directory _ => .error .isADirectory

/-- Makes the file empty, creating it if it is not there. -/
def create (t : FileTree) (path : Path) : Except IoError FileTree := do
  let (number, name) ← t.locate path
  match ← t.occupant number name with
  | some (.directory _) => .error .isADirectory
  | _ => return t.set number name (.file [])

/-- Adds to the end of a file. -/
def extend (t : FileTree) (path : Path) (content : List UInt8) : Except IoError FileTree := do
  let (number, name) ← t.locate path
  match ← t.occupant number name with
  | some (.file written) => return t.set number name (.file (written ++ content))
  | some (.directory _) => .error .isADirectory
  | none => .error .notFound

/-- Gives a file another name, replacing a file of that name. -/
def rename (t : FileTree) (source target : Path) : Except IoError FileTree := do
  let (oldNumber, oldName) ← t.locate source
  let (number, name) ← t.locate target
  match ← t.occupant oldNumber oldName, ← t.occupant number name with
  | none, _ => .error .notFound
  | some (.file _), some (.directory _) | some (.directory _), _ => .error .isADirectory
  | some (.file content), _ => return (t.erase oldNumber oldName).set number name (.file content)

/-- Creates a directory where nothing is. -/
def makeDirectory (t : FileTree) (path : Path) : Except IoError FileTree := do
  let (number, name) ← t.locate path
  match ← t.occupant number name with
  | some _ => .error .alreadyExists
  | none => return t.addDirectory number name

/-- Creates a directory unless it is there already. -/
def ensureDirectory (t : FileTree) (path : Path) : FileTree × Except IoError Unit :=
  match t.makeDirectory path with
  | .ok t => (t, .ok ())
  | .error .alreadyExists =>
    (t, if t.isDirectory path then .ok () else .error .alreadyExists)
  | .error e => (t, .error e)

/-- Creates the directory of the first path. If something is missing on the way
to it, the others, which lead there, are created before it. -/
def ensureAll (t : FileTree) : List Path → FileTree × Except IoError Unit
  | [] => (t, .ok ())
  | path :: way =>
    match t.ensureDirectory path with
    | (t, .error .notFound) =>
      match t.ensureAll way with
      | (t, .ok ()) => t.ensureDirectory path
      | failed => failed
    | done => done

/-- Creates a directory and all that is missing on the way to it. What has been
created before a failure stays. -/
def makeDirectories (t : FileTree) (path : Path) : FileTree × Except IoError Unit :=
  t.ensureAll path.ancestors

/-- Removes a file or an empty directory; nothing happens if there is
neither. -/
def remove (t : FileTree) (path : Path) : FileTree :=
  match t.locate path with
  | .error _ => t
  | .ok (number, name) =>
    match t.find? number name with
    | some (.directory inner) =>
      if (t.directory inner).entries.isEmpty then t.erase number name else t
    | some (.file _) => t.erase number name
    | none => t

/-- The files directly in a directory, by name. -/
def filesIn (t : FileTree) (path : Path) : List (String × List UInt8) :=
  match t.look path with
  | .ok (.directory number) =>
    (t.directory number).entries.filterMap fun (name, node) =>
      match node with
      | .file content => some (name, content)
      | .directory _ => none
  | _ => []

end FileTree

/-- One operation of a program that writes files. -/
inductive FileOperation where
  | create (path : Path)
  | extend (path : Path) (content : List UInt8)
  /-- Asks that what was written to a file outlast a crash. -/
  | flush (path : Path)
  | rename (source target : Path)
  /-- Asks that the names in a directory outlast a crash. -/
  | flushDirectory (path : Path)
  deriving DecidableEq, Repr

namespace FileTree

def apply (t : FileTree) : FileOperation → Except IoError FileTree
  | .create path => t.create path
  | .extend path content => t.extend path content
  | .flush path | .flushDirectory path => (t.look path).map fun _ => t
  | .rename source target => t.rename source target

/-- The tree after some operations, up to the first one that fails. -/
def run (t : FileTree) : List FileOperation → FileTree × Except IoError Unit
  | [] => (t, .ok ())
  | operation :: rest =>
    match t.apply operation with
    | .ok t => t.run rest
    | .error e => (t, .error e)

end FileTree

end Quorum
