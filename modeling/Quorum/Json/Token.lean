import Quorum.Json.Value
import Quorum.Text.Decimal
import Quorum.Text.Utf8

/-!
# JSON tokens

The lexical half of JSON: a text of characters and stray octets is cut into
tokens, and each token has a written form. Blanks between tokens carry no
meaning and are never written.
-/

namespace Quorum.Json

open Text (Scanned)

/-- A lexical unit of JSON. -/
inductive Token where
  | openBrace
  | closeBrace
  | openBracket
  | closeBracket
  | comma
  | colon
  | null
  | bool (b : Bool)
  | nat (n : Nat)
  | decimal
  | string (text : Literal)
  deriving DecidableEq, Repr

/-- One part of the inside of a string literal. -/
inductive Piece where
  /-- A character, as it is or by a short escape. -/
  | char (c : Char)
  /-- A UTF-16 code unit, written by its four hexadecimal digits. -/
  | unit (code : Nat)
  /-- An octet that belongs to no character. -/
  | stray
  deriving DecidableEq, Repr

/-- The value of a hexadecimal digit. -/
def hexValue? (c : Char) : Option Nat :=
  if '0' ≤ c ∧ c ≤ '9' then some (c.toNat - 48)
  else if 'a' ≤ c ∧ c ≤ 'f' then some (c.toNat - 87)
  else if 'A' ≤ c ∧ c ≤ 'F' then some (c.toNat - 55)
  else none

/-- The code unit written by four hexadecimal digits. -/
def unit? (a b c d : Option Char) : Option Nat := do
  let a ← hexValue? (← a)
  let b ← hexValue? (← b)
  let c ← hexValue? (← c)
  let d ← hexValue? (← d)
  return ((a * 16 + b) * 16 + c) * 16 + d

/-- The character that a short escape stands for. -/
def escaped? : Char → Option Char
  | '"' => some '"'
  | '\\' => some '\\'
  | '/' => some '/'
  | 'b' => some '\x08'
  | 'f' => some '\x0c'
  | 'n' => some '\n'
  | 'r' => some '\r'
  | 't' => some '\t'
  | _ => none

/-- The pieces up to the closing quote, and what follows it. -/
def literal? : Scanned → Option (List Piece × Scanned)
  | [] => none
  | some '"' :: rest => some ([], rest)
  | some '\\' :: some 'u' :: a :: b :: c :: d :: rest => do
    let code ← unit? a b c d
    let (pieces, rest) ← literal? rest
    return (.unit code :: pieces, rest)
  | some '\\' :: some e :: rest => do
    let c ← escaped? e
    let (pieces, rest) ← literal? rest
    return (.char c :: pieces, rest)
  | some '\\' :: _ => none
  | some c :: rest => do
    if c.toNat < 0x20 then none else
    let (pieces, rest) ← literal? rest
    return (.char c :: pieces, rest)
  | none :: rest => do
    let (pieces, rest) ← literal? rest
    return (.stray :: pieces, rest)

/-- The first half of a surrogate pair. -/
def isHighSurrogate (code : Nat) : Bool := 0xD800 ≤ code && code < 0xDC00

/-- The second half of a surrogate pair. -/
def isLowSurrogate (code : Nat) : Bool := 0xDC00 ≤ code && code < 0xE000

/-- The text of a literal, if all of its pieces together are Unicode text. -/
def textOf? : List Piece → Option (List Char)
  | [] => some []
  | .char c :: rest => (textOf? rest).map (c :: ·)
  | .stray :: _ => none
  | .unit high :: .unit low :: rest =>
    if isHighSurrogate high then
      if isLowSurrogate low then
        let c := Char.ofNat (0x10000 + (high - 0xD800) * 0x400 + (low - 0xDC00))
        (textOf? rest).map (c :: ·)
      else none
    else if isLowSurrogate high then none
    else (textOf? (.unit low :: rest)).map (Char.ofNat high :: ·)
  | .unit code :: rest =>
    if isHighSurrogate code || isLowSurrogate code then none
    else (textOf? rest).map (Char.ofNat code :: ·)

/-- The leading digits of a text, and what follows them. -/
def spanDigits : Scanned → List Char × Scanned
  | some c :: rest =>
    if c.isDigit then
      let (digits, rest) := spanDigits rest
      (c :: digits, rest)
    else ([], some c :: rest)
  | other => ([], other)

/-- What follows a fraction that may stand here, or nothing if one begins
and has no digit. -/
def skipFraction? : Scanned → Option Scanned
  | some '.' :: rest =>
    match spanDigits rest with
    | ([], _) => none
    | (_, rest) => some rest
  | other => some other

/-- What follows an exponent that may stand here, or nothing if one begins
and has no digit. -/
def skipExponent? : Scanned → Option Scanned
  | some c :: rest =>
    if c == 'e' || c == 'E' then
      let unsigned := match rest with
        | some '+' :: rest => rest
        | some '-' :: rest => rest
        | other => other
      match spanDigits unsigned with
      | ([], _) => none
      | (_, rest) => some rest
    else some (some c :: rest)
  | other => some other

/-- The whole part of a number: a lone zero, or digits that do not start with
zero. -/
def whole? (text : Scanned) : Option (Nat × Scanned) :=
  match text with
  | some '0' :: rest => some (0, rest)
  | _ =>
    match spanDigits text with
    | ([], _) => none
    | (digits, rest) => (Text.ofDigits? digits).map (·, rest)

/-- Whether a fraction or an exponent begins here. -/
def isContinued : Scanned → Bool
  | some c :: _ => c == '.' || c == 'e' || c == 'E'
  | _ => false

/-- The number at the start of a text, and what follows it. It is a natural
number only if it is its whole part alone. -/
def number? (text : Scanned) : Option (Token × Scanned) := do
  let (signed, unsigned) := match text with
    | some '-' :: rest => (true, rest)
    | other => (false, other)
  let (n, afterWhole) ← whole? unsigned
  let afterFraction ← skipFraction? afterWhole
  let rest ← skipExponent? afterFraction
  if signed || isContinued afterWhole then
    return (.decimal, rest)
  else
    return (.nat n, rest)

def isBlank (c : Char) : Bool :=
  c == ' ' || c == '\t' || c == '\n' || c == '\r'

/-- The text behind its leading blanks. -/
def skipBlanks : Scanned → Scanned
  | some c :: rest => if isBlank c then skipBlanks rest else some c :: rest
  | other => other

/-- The token at the start of a text that starts with no blank, and what
follows it. -/
def token? (text : Scanned) : Option (Token × Scanned) :=
  match text with
  | some '\x7b' :: rest => some (.openBrace, rest)
  | some '\x7d' :: rest => some (.closeBrace, rest)
  | some '[' :: rest => some (.openBracket, rest)
  | some ']' :: rest => some (.closeBracket, rest)
  | some ',' :: rest => some (.comma, rest)
  | some ':' :: rest => some (.colon, rest)
  | some '"' :: rest => do
    let (pieces, rest) ← literal? rest
    return (.string ((textOf? pieces).map String.ofList), rest)
  | some 'n' :: some 'u' :: some 'l' :: some 'l' :: rest => some (.null, rest)
  | some 't' :: some 'r' :: some 'u' :: some 'e' :: rest => some (.bool true, rest)
  | some 'f' :: some 'a' :: some 'l' :: some 's' :: some 'e' :: rest => some (.bool false, rest)
  | other => number? other

/-- The tokens of a text, read with one unit of fuel for each token and one
for its end. -/
def tokensWithin : Nat → Scanned → Option (List Token)
  | 0, _ => none
  | fuel + 1, text =>
    match skipBlanks text with
    | [] => some []
    | first :: rest => do
      let (token, rest) ← token? (first :: rest)
      let tokens ← tokensWithin fuel rest
      return token :: tokens

/-- The tokens of a text, if it consists of tokens and blanks. No token is
empty, so a text has no more tokens than characters. -/
def tokens? (text : Scanned) : Option (List Token) :=
  tokensWithin (text.length + 1) text

/-- The lower-case hexadecimal digit of a number below sixteen. -/
def hexDigit (n : Nat) : Char :=
  if n < 10 then Char.ofNat (48 + n) else Char.ofNat (87 + n)

/-- One character inside a string literal. Only the quote, the backslash and
the controls below the space are escaped. -/
def escape (c : Char) : List Char :=
  match c with
  | '"' => ['\\', '"']
  | '\\' => ['\\', '\\']
  | '\x08' => ['\\', 'b']
  | '\t' => ['\\', 't']
  | '\n' => ['\\', 'n']
  | '\x0c' => ['\\', 'f']
  | '\r' => ['\\', 'r']
  | c =>
    if c.toNat < 0x20 then
      ['\\', 'u', '0', '0', hexDigit (c.toNat / 16), hexDigit (c.toNat % 16)]
    else [c]

/-- A string literal. One that is no Unicode text is written as half of a
surrogate pair, which reads back as no text. -/
def writeText : Literal → List Char
  | some s => '"' :: s.toList.flatMap escape ++ ['"']
  | none => "\"\\ud800\"".toList

/-- The written form of a token. -/
def Token.write : Token → List Char
  | .openBrace => ['\x7b']
  | .closeBrace => ['\x7d']
  | .openBracket => ['[']
  | .closeBracket => [']']
  | .comma => [',']
  | .colon => [':']
  | .null => "null".toList
  | .bool true => "true".toList
  | .bool false => "false".toList
  | .nat n => Text.digits n
  | .decimal => "0.0".toList
  | .string text => writeText text

end Quorum.Json
