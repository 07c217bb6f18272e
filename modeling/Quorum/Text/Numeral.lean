import Quorum.Text.Decimal

/-!
# Numerals with reasons

The reading of a 64-bit word together with the reason when a text writes
none, as it is told to whoever typed it.
-/

namespace Quorum.Text

/-- Why a text writes no 64-bit word. -/
inductive NumeralError where
  | empty
  | invalidDigit
  | tooLarge
  deriving DecidableEq, Repr

/-- The text that describes why no word is written. -/
def NumeralError.message : NumeralError → String
  | .empty => "cannot parse integer from empty string"
  | .invalidDigit => "invalid digit found in string"
  | .tooLarge => "number too large to fit in target type"

/-- The digits that a text starts with behind an optional plus sign. -/
def leadingDigits (text : List Char) : List Char :=
  let body := match text with
    | '+' :: rest => rest
    | other => other
  body.takeWhile fun c => (digitValue? c).isSome

/-- What is wrong first, read from the left, with a text that writes no word:
either the digits it starts with are too large already, or something follows
that is no digit. -/
def numeralFault (text : List Char) : NumeralError :=
  if text.isEmpty then .empty
  else if (ofDigits? (leadingDigits text)).any Word.fits then .invalidDigit
  else .tooLarge

/-- The 64-bit word that a text writes, or why it writes none. -/
def wordOf (text : String) : Except NumeralError Nat :=
  match word? text.toList with
  | some n => .ok n
  | none => .error (numeralFault text.toList)

end Quorum.Text
