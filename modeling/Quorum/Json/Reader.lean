import Quorum.Json.Token

/-!
# Reading and writing JSON

The grammatical half of JSON. A value is read token by token with the open
arrays and objects on a stack, so nesting has no limit, and written without
any blank.
-/

namespace Quorum.Json

open Text (Scanned)

/-- An array or object of which the end has not been read. What has been read
of it is kept last first. -/
inductive Frame where
  | items (done : List Json)
  /-- An object, with the name of the member whose value is being read. -/
  | members (done : List (Literal × Json)) (name : Literal)
  deriving Repr

/-- What may come next. -/
inductive Phase where
  | value
  /-- The first item of an array, or its end. -/
  | firstItem
  /-- The name of the first member of an object, or its end. -/
  | firstName
  /-- The name of a further member, those read so far being given. -/
  | name (done : List (Literal × Json))
  /-- The colon behind a name. -/
  | colon
  /-- The comma or the end of the innermost array, whose items are given. -/
  | afterItem (items : List Json)
  /-- The comma or the end of the innermost object, whose members are
  given. -/
  | afterMember (members : List (Literal × Json))
  /-- Nothing: the outermost value is complete. -/
  | complete (value : Json)
  deriving Repr

/-- The state of reading: what may come next, inside which arrays and
objects. -/
structure Progress where
  phase : Phase
  frames : List Frame
  deriving Repr

namespace Progress

/-- Before the first token. -/
def start : Progress := ⟨.value, []⟩

/-- A value has been read inside the given frames. -/
def deliver (v : Json) : List Frame → Progress
  | [] => ⟨.complete v, []⟩
  | .items done :: outer => ⟨.afterItem (v :: done), outer⟩
  | .members done name :: outer => ⟨.afterMember ((name, v) :: done), outer⟩

def openValue (frames : List Frame) : Token → Option Progress
  | .null => some (deliver .null frames)
  | .bool b => some (deliver (.bool b) frames)
  | .nat n => some (deliver (.nat n) frames)
  | .decimal => some (deliver .decimal frames)
  | .string text => some (deliver (.string text) frames)
  | .openBracket => some ⟨.firstItem, frames⟩
  | .openBrace => some ⟨.firstName, frames⟩
  | _ => none

def step (p : Progress) (token : Token) : Option Progress :=
  match p.phase, token with
  | .value, token => openValue p.frames token
  | .firstItem, .closeBracket => some (deliver (.array []) p.frames)
  | .firstItem, token => openValue (.items [] :: p.frames) token
  | .firstName, .closeBrace => some (deliver (.object []) p.frames)
  | .firstName, .string name => some ⟨.colon, .members [] name :: p.frames⟩
  | .name done, .string name => some ⟨.colon, .members done name :: p.frames⟩
  | .colon, .colon => some ⟨.value, p.frames⟩
  | .afterItem items, .comma => some ⟨.value, .items items :: p.frames⟩
  | .afterItem items, .closeBracket => some (deliver (.array items.reverse) p.frames)
  | .afterMember members, .comma => some ⟨.name members, p.frames⟩
  | .afterMember members, .closeBrace => some (deliver (.object members.reverse) p.frames)
  | _, _ => none

/-- The value, if it is complete. -/
def result? (p : Progress) : Option Json :=
  match p.phase with
  | .complete v => some v
  | _ => none

end Progress

/-- The value that a sequence of tokens writes. -/
def ofTokens? (tokens : List Token) : Option Json := do
  (← tokens.foldlM Progress.step Progress.start).result?

/-- The value that a scanned text writes, blanks around tokens allowed. -/
def ofScanned? (text : Scanned) : Option Json := do
  ofTokens? (← tokens? text)

/-- The value that octets write. Octets that are not UTF-8 are tolerated
inside string literals, which are then no text. -/
def ofOctets? (octets : List UInt8) : Option Json :=
  ofScanned? (Text.Utf8.scan octets)

/-- The value that a text writes. -/
def ofText? (text : String) : Option Json :=
  ofScanned? (text.toList.map some)

mutual

/-- The tokens that write a value. -/
def tokens : Json → List Token
  | .null => [.null]
  | .bool b => [.bool b]
  | .nat n => [.nat n]
  | .decimal => [.decimal]
  | .string text => [.string text]
  | .array [] => [.openBracket, .closeBracket]
  | .array (item :: items) =>
    .openBracket :: tokens item ++ itemTokens items ++ [.closeBracket]
  | .object [] => [.openBrace, .closeBrace]
  | .object ((name, value) :: members) =>
    .openBrace :: .string name :: .colon :: tokens value ++ memberTokens members ++
      [.closeBrace]

/-- The tokens of further items, each behind a comma. -/
def itemTokens : List Json → List Token
  | [] => []
  | item :: items => .comma :: tokens item ++ itemTokens items

/-- The tokens of further members, each behind a comma. -/
def memberTokens : List (Literal × Json) → List Token
  | [] => []
  | (name, value) :: members =>
    .comma :: .string name :: .colon :: tokens value ++ memberTokens members

end

/-- The compact text of a value. -/
def write (v : Json) : List Char :=
  (tokens v).flatMap Token.write

/-- The compact text of a value, as a string. -/
def compact (v : Json) : String :=
  String.ofList (write v)

end Quorum.Json
