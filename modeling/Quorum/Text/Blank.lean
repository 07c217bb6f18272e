/-!
# Blank characters

The characters with the Unicode property White_Space, and the words that
they separate. Log lines and client commands are both read word by word.
-/

namespace Quorum.Text

/-- The Unicode property White_Space. -/
def isBlank (c : Char) : Bool :=
  let n := c.toNat
  (0x09 ≤ n && n ≤ 0x0D) || n == 0x20 || n == 0x85 || n == 0xA0 || n == 0x1680 ||
  (0x2000 ≤ n && n ≤ 0x200A) || n == 0x2028 || n == 0x2029 || n == 0x202F ||
  n == 0x205F || n == 0x3000

/-- The text between blanks, in order. Two blanks in a row enclose an empty
piece, and so do the ends of the text when a blank stands there. -/
def pieces : List Char → List (List Char)
  | [] => [[]]
  | c :: rest =>
    if isBlank c then
      [] :: pieces rest
    else
      match pieces rest with
      | [] => [[c]]
      | piece :: others => (c :: piece) :: others

/-- The maximal runs of characters that are not blank. -/
def wordsOf (text : List Char) : List (List Char) :=
  (pieces text).filter (!·.isEmpty)

/-- The words of a text, as strings. -/
def words (text : String) : List String :=
  (wordsOf text.toList).map String.ofList

/-- A text of blanks alone, or of nothing. -/
def isBlankLine (text : List Char) : Bool :=
  text.all isBlank

end Quorum.Text
