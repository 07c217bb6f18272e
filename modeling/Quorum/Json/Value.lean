/-!
# JSON values

The values that a JSON text can describe, as far as this library tells them
apart. All numbers that it exchanges are natural, so of any other number only
its presence is kept. String literals may describe something that is no
Unicode text; such a literal is still well formed, and harmless where nobody
reads it.
-/

namespace Quorum

/-- The text of a string literal, or nothing for a literal that is no
Unicode text because it holds a stray octet or half of a surrogate pair. -/
abbrev Json.Literal := Option String

inductive Json where
  | null
  | bool (b : Bool)
  /-- A number written with digits alone. -/
  | nat (n : Nat)
  /-- A number with a sign, a fraction or an exponent. -/
  | decimal
  | string (text : Json.Literal)
  | array (items : List Json)
  | object (members : List (Json.Literal × Json))
  deriving Repr, Inhabited

namespace Json

def text (s : String) : Json := .string (some s)

/-- An object whose member names are Unicode text. -/
def record (members : List (String × Json)) : Json :=
  .object (members.map fun (name, value) => (some name, value))

/-- An optional value, null where it is missing. -/
def optional {α : Type} (encode : α → Json) : Option α → Json
  | none => .null
  | some a => encode a

end Json

end Quorum
