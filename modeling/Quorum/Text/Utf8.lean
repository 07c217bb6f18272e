/-!
# UTF-8

Octets as text and text as octets. Octets that are not UTF-8 are kept apart
from characters instead of stopping the reading, so that a format whose
delimiters are ASCII can be read around them.
-/

namespace Quorum.Text

/-- What a sequence of octets consists of, read as UTF-8: characters, and
nothing in the place of each octet that belongs to none. -/
abbrev Scanned := List (Option Char)

namespace Utf8

def encode (text : List Char) : List UInt8 :=
  text.flatMap String.utf8EncodeChar

/-- The character whose encoding starts the octets, if there is one. -/
def first? (octets : List UInt8) : Option Char :=
  ByteArray.utf8DecodeChar? ⟨(octets.take 4).toArray⟩ 0

/-- The octets read from left to right: each well-formed character, and
nothing for each octet that starts none. -/
def scan (octets : List UInt8) : Scanned :=
  match octets with
  | [] => []
  | octet :: rest =>
    match first? (octet :: rest) with
    | none => none :: scan rest
    | some c => some c :: scan (rest.drop (c.utf8Size - 1))
termination_by octets.length
decreasing_by all_goals simp only [List.length_drop, List.length_cons]; omega

/-- The text of what was scanned, if every octet was part of a character. -/
def text? (scanned : Scanned) : Option (List Char) :=
  scanned.mapM id

/-- The text that the octets encode, if they are UTF-8. -/
def decode? (octets : List UInt8) : Option (List Char) :=
  text? (scan octets)

/-- The number of octets, from the second on, by which `octets` begins like
some character's encoding: what one replacement character stands for, beside
the first octet itself. -/
def beginning : List UInt8 → Nat
  | a :: b :: rest =>
    let a := a.toNat
    let b := b.toNat
    let tail (n : Nat) := 0x80 ≤ n && n ≤ 0xBF
    let third : Nat := match rest with
      | c :: _ => if tail c.toNat then 2 else 1
      | [] => 1
    if 0xE1 ≤ a && a ≤ 0xEF && a != 0xED then if tail b then 1 else 0
    else if a == 0xE0 then if 0xA0 ≤ b && b ≤ 0xBF then 1 else 0
    else if a == 0xED then if 0x80 ≤ b && b ≤ 0x9F then 1 else 0
    else if a == 0xF0 then if 0x90 ≤ b && b ≤ 0xBF then third else 0
    else if 0xF1 ≤ a && a ≤ 0xF3 then if tail b then third else 0
    else if a == 0xF4 then if 0x80 ≤ b && b ≤ 0x8F then third else 0
    else 0
  | _ => 0

/-- The octets as text, each longest beginning of a character that is not
completed, and each other stray octet, shown as U+FFFD. -/
def lossy (octets : List UInt8) : List Char :=
  match octets with
  | [] => []
  | octet :: rest =>
    match first? (octet :: rest) with
    | none => '\uFFFD' :: lossy (rest.drop (beginning (octet :: rest)))
    | some c => c :: lossy (rest.drop (c.utf8Size - 1))
termination_by octets.length
decreasing_by all_goals simp only [List.length_drop, List.length_cons]; omega

end Utf8

end Quorum.Text
