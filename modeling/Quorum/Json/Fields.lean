import Quorum.Json.Value
import Quorum.Time

/-!
# Records and choices in JSON

How the structures of this library stand in JSON. A record is an object with
the fields in any order, or an array of exactly its fields in their order. A
choice between named cases is an object with the case's name as its only
member, or, for a case without content, the name alone.
-/

namespace Quorum.Json

/-- How a record treats members that are none of its fields. -/
inductive Unknown where
  | skipped
  | refused
  deriving DecidableEq, Repr

/-- The values of the named member; two of them are one too many. -/
def member? (name : String) (members : List (Literal × Json)) : Option (Option Json) :=
  match members.filter (·.1 == some name) with
  | [] => some none
  | [(_, value)] => some (some value)
  | _ => none

/-- The fields of a record in the order of `names`, nothing for one that an
object leaves out. Every member name must be Unicode text, known or not. -/
def fields? (names : List String) (unknown : Unknown) : Json → Option (List (Option Json))
  | .array items => if items.length = names.length then some (items.map some) else none
  | .object members => do
    let texts ← members.mapM (·.1)
    if unknown == .refused && !texts.all names.contains then none else
    names.mapM (member? · members)
  | _ => none

/-- The case of a choice: its name and its content, nothing where the name
stands alone. -/
def case? : Json → Option (String × Option Json)
  | .string (some name) => some (name, none)
  | .object [(some name, content)] => some (name, some content)
  | _ => none

/-- A number of at most 64 bits. -/
def word? : Json → Option Nat
  | .nat n => if Word.fits n then some n else none
  | _ => none

/-- True or false. -/
def bool? : Json → Option Bool
  | .bool b => some b
  | _ => none

def text? : Json → Option String
  | .string text => text
  | _ => none

/-- The items of an array, each read the same way. -/
def list? {α : Type} (item? : Json → Option α) : Json → Option (List α)
  | .array items => items.mapM item?
  | _ => none

/-- A field that may be missing or null. -/
def optional? {α : Type} (value? : Json → Option α) : Option Json → Option (Option α)
  | none => some none
  | some .null => some none
  | some v => (value? v).map some

/-- A duration: its whole seconds and the nanoseconds beyond them. -/
def ofDuration (d : Duration) : Json :=
  .record [("secs", .nat d.seconds), ("nanos", .nat d.subsecond)]

/-- The duration of a JSON value. The nanoseconds are a 32-bit word of their
own and may make up whole seconds, as long as the sum of the seconds remains
a 64-bit word. No other member is allowed beside the two. -/
def duration? (v : Json) : Option Duration := do
  let [seconds, nanos] ← v.fields? ["secs", "nanos"] .refused | none
  let seconds ← word? (← seconds)
  let nanos ← word? (← nanos)
  if nanos < 4294967296 && Word.fits (seconds + Duration.seconds nanos) then
    return Duration.ofSeconds seconds + nanos
  else none

end Quorum.Json
