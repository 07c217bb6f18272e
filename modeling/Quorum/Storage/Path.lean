/-!
# Paths

Written paths: names with slashes between them. A path is kept as it was
written, since the places that it passes through on its way matter as much
as the one where it ends.
-/

namespace Quorum

/-- The names between the slashes of a written path. Two slashes in a row
enclose an empty name, and so do the ends of the text when a slash stands
there. -/
abbrev Path := List String

namespace Path

def ofText (text : String) : Path :=
  text.splitOn "/"

/-- A name that leads nowhere from where it stands. -/
def stays (name : String) : Bool := name == "" || name == "."

/-- The octets that a written path takes together with its end mark. -/
def size (path : Path) : Nat :=
  path.foldr (fun name rest => name.utf8ByteSize + 1 + rest) 0

/-- The longest name, in octets. -/
def nameLimit : Nat := 255

/-- The longest path, in octets, its end mark included. -/
def limit : Nat := 4096

/-- The path without the names at its end that lead nowhere. -/
def trimmed (path : Path) : Path :=
  (path.reverse.dropWhile stays).reverse

/-- The path to where the last name that leads somewhere is found. -/
def parent (path : Path) : Path :=
  trimmed path.trimmed.dropLast

/-- At most `count` paths, each one the parent of the one before it. -/
def parentsUpTo : Nat → Path → List Path
  | 0, _ => []
  | count + 1, path =>
    if path.isEmpty then [] else path :: parentsUpTo count path.parent

/-- A path and all those that lead to it, the longest first. -/
def ancestors (path : Path) : List Path :=
  if path.trimmed.isEmpty then [] else path :: parentsUpTo path.length path.parent

end Path

end Quorum
