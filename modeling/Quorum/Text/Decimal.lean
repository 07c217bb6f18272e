import Quorum.Word

/-!
# Decimal numerals

Natural numbers as decimal text, and the reading of a 64-bit word from a
word of a log line: one optional plus sign, then digits, leading zeros
allowed.
-/

namespace Quorum.Text

/-- The character of a digit below ten. -/
def digitChar (d : Nat) : Char :=
  Char.ofNat (48 + d)

/-- The value of an ASCII digit. -/
def digitValue? (c : Char) : Option Nat :=
  if '0' ≤ c ∧ c ≤ '9' then some (c.toNat - 48) else none

/-- The decimal digits of a number, without leading zeros. -/
def digits (n : Nat) : List Char :=
  if n < 10 then [digitChar n] else digits (n / 10) ++ [digitChar (n % 10)]
termination_by n

/-- The number written by a list of digits, or nothing if some character is
not a digit. The empty list writes zero. -/
def ofDigits? : List Char → Option Nat :=
  let step (acc : Option Nat) (c : Char) : Option Nat := do
    return 10 * (← acc) + (← digitValue? c)
  fun cs => cs.foldl step (some 0)

def decimal (n : Nat) : String :=
  String.ofList (digits n)

/-- The 64-bit word that a text writes: at least one digit behind an optional
plus sign. -/
def word? (text : List Char) : Option Nat :=
  let body := match text with
    | '+' :: rest => rest
    | other => other
  if body.isEmpty then none else (ofDigits? body).filter Word.fits

end Quorum.Text
