import Quorum.Text.Decimal

/-!
# Socket addresses

Where a server listens: a host and a port. A host is written as four octets,
`127.0.0.1:7000`, or between brackets as eight groups of hexadecimal digits,
`[::1]:7000`, of which one run of zero groups may be left out and the last
two may be written as four octets.
-/

namespace Quorum

inductive HostAddress where
  | octets (a b c d : Nat)
  /-- Eight groups of sixteen bits, and the zone in which they hold. -/
  | groups (parts : List Nat) (zone : Nat)
  deriving DecidableEq, Repr

/-- An address at which a server listens. -/
structure SocketAddress where
  host : HostAddress
  port : Nat
  deriving DecidableEq, Repr

namespace SocketAddress

/-- The value of a digit of the given radix, at most sixteen. -/
def digitOf? (radix : Nat) (c : Char) : Option Nat :=
  let value := match Text.digitValue? c with
    | some d => some d
    | none =>
      if 'a' ≤ c ∧ c ≤ 'f' then some (c.toNat - 87)
      else if 'A' ≤ c ∧ c ≤ 'F' then some (c.toNat - 55)
      else none
  value.filter (· < radix)

/-- A number below `bound` that a text starts with, of at most `places` digits
if there is such a limit, and what follows it. All digits that stand there
belong to the number. -/
def number? (radix bound : Nat) (places : Option Nat) (text : List Char) :
    Option (Nat × List Char) :=
  let written := text.takeWhile fun c => (digitOf? radix c).isSome
  let value := written.foldl (fun n c => radix * n + (digitOf? radix c).getD 0) 0
  if written.isEmpty || places.any (· < written.length) || bound ≤ value then none
  else some (value, text.drop written.length)

/-- What follows a character that a text has to start with. -/
def skip? (c : Char) : List Char → Option (List Char)
  | [] => none
  | d :: rest => if d = c then some rest else none

/-- An octet in decimal, without leading zeros. -/
def octet? (text : List Char) : Option (Nat × List Char) := do
  let (n, rest) ← number? 10 256 (some 3) text
  if text.head? = some '0' ∧ rest.length + 1 < text.length then none else return (n, rest)

/-- Four octets with points between them. -/
def octets? (text : List Char) : Option ((Nat × Nat × Nat × Nat) × List Char) := do
  let (a, text) ← octet? text
  let (b, text) ← octet? (← skip? '.' text)
  let (c, text) ← octet? (← skip? '.' text)
  let (d, text) ← octet? (← skip? '.' text)
  return ((a, b, c, d), text)

/-- As many groups as stand at the start of a text, at most `room`, with
colons between them; whether four octets closed them; and what follows. -/
def groupsUpTo (first : Bool) : Nat → List Char → List Nat × Bool × List Char
  | 0, text => ([], false, text)
  | room + 1, text =>
    match if first then some text else skip? ':' text with
    | none => ([], false, text)
    | some body =>
      match if room = 0 then none else octets? body with
      | some ((a, b, c, d), rest) => ([256 * a + b, 256 * c + d], true, rest)
      | none =>
        match number? 16 65536 (some 4) body with
        | none => ([], false, text)
        | some (group, rest) =>
          let (groups, closed, rest) := groupsUpTo false room rest
          (group :: groups, closed, rest)

/-- Eight groups, written out or with one run of zeros left out. -/
def groups? (text : List Char) : Option (List Nat × List Char) := do
  let (head, closed, text) := groupsUpTo true 8 text
  if head.length = 8 then return (head, text)
  else if closed then none
  else
    let text ← skip? ':' (← skip? ':' text)
    let (tail, _, text) := groupsUpTo true (7 - head.length) text
    return (head ++ List.replicate (8 - head.length - tail.length) 0 ++ tail, text)

/-- A port behind its colon. -/
def port? (text : List Char) : Option (Nat × List Char) := do
  number? 10 65536 none (← skip? ':' text)

/-- A zone behind its percent sign; zone zero if there is none. -/
def zone? (text : List Char) : Option (Nat × List Char) :=
  match text with
  | '%' :: rest => number? 10 4294967296 none rest
  | _ => some (0, text)

/-- An address whose host is written as octets. -/
def ofOctetText? (text : List Char) : Option SocketAddress := do
  let ((a, b, c, d), text) ← octets? text
  let (port, rest) ← port? text
  if rest.isEmpty then return ⟨.octets a b c d, port⟩ else none

/-- An address whose host is written as groups. -/
def ofGroupText? (text : List Char) : Option SocketAddress := do
  let (groups, text) ← groups? (← skip? '[' text)
  let (zone, text) ← zone? text
  let (port, rest) ← port? (← skip? ']' text)
  if rest.isEmpty then return ⟨.groups groups zone, port⟩ else none

def ofText? (text : String) : Option SocketAddress :=
  (ofOctetText? text.toList).or (ofGroupText? text.toList)

end SocketAddress

end Quorum
