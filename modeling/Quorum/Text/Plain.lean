/-!
# Plain text

What is left of a text for a terminal when it goes somewhere else: the
characters that a terminal would show and the blanks between them, without
the sequences that steer it and without the other controls. A sequence may
also come from a text that a message cites.
-/

namespace Quorum.Text

/-- Where in the text that it is sent a terminal stands. -/
inductive Phase where
  /-- Between sequences. -/
  | ground
  /-- Behind the escape that begins a sequence. -/
  | escape
  /-- In a short sequence, before the character that ends it. -/
  | short
  /-- In a control sequence, before the character that ends it. -/
  | control
  /-- In a command to the operating system. -/
  | command
  /-- At the start of a string for the device. -/
  | device
  /-- In the parameters of a string for the device. -/
  | deviceParameters
  /-- Behind the parameters of a string for the device. -/
  | deviceIntermediates
  /-- In the body of a string for the device, or in another string that no one
  reads. -/
  | string
  deriving DecidableEq, Repr

namespace Phase

/-- A character whose code lies in a range. -/
def between (first last : Nat) (c : Char) : Bool :=
  first ≤ c.toNat && c.toNat ≤ last

/-- A character, an octet of which ends a string. -/
def endsString (c : Char) : Bool :=
  (String.utf8EncodeChar c).contains 0x9C

/-- The phase behind a character that is not shown. The escape starts a new
sequence wherever it stands, and two controls end any. -/
def next (phase : Phase) (c : Char) : Phase :=
  if c = '\x1b' then .escape
  else if c = '\x18' ∨ c = '\x1a' then .ground
  else match phase with
    | .ground => .ground
    | .escape =>
      if c = '[' then .control
      else if c = ']' then .command
      else if c = 'P' then .device
      else if c = 'X' ∨ c = '^' ∨ c = '_' then .string
      else if between 0x20 0x2F c then .short
      else if between 0x30 0x7E c then .ground
      else .escape
    | .short => if between 0x30 0x7E c then .ground else .short
    | .control => if between 0x40 0x7E c then .ground else .control
    | .command => if c = '\x07' then .ground else .command
    | .device =>
      if between 0x40 0x7E c then .string
      else if between 0x30 0x3F c then .deviceParameters
      else if between 0x20 0x2F c then .deviceIntermediates
      else .device
    | .deviceParameters =>
      if between 0x3C 0x7E c then .string
      else if between 0x20 0x2F c then .deviceIntermediates
      else .deviceParameters
    | .deviceIntermediates => if between 0x30 0x7E c then .string else .deviceIntermediates
    | .string => if endsString c then .ground else .string

/-- A control that moves to another place to write at. -/
def isLayout (c : Char) : Bool :=
  c == '\t' || c == '\n' || c == '\x0c' || c == '\r'

/-- Whether a character shows that comes in a phase. Layout takes effect even
within a short or a control sequence. -/
def shows (phase : Phase) (c : Char) : Bool :=
  match phase with
  | .ground => isLayout c || (0x20 ≤ c.toNat && c != '\x7f')
  | .escape | .short | .control => isLayout c
  | _ => false

end Phase

/-- The characters of a text that show. Behind one that shows (`running`), all
that would show between sequences do; a sequence in which the first of them
stood goes on behind them, unless one of them is outside of ASCII. -/
def shown (running : Bool) (phase : Phase) : List Char → List Char
  | [] => []
  | c :: rest =>
    if phase.shows c || (running && Phase.ground.shows c) then
      c :: shown true (if c.toNat < 0x80 then phase else .ground) rest
    else shown false (phase.next c) rest

/-- A text without what steers a terminal. -/
def plain (text : String) : String :=
  String.ofList (shown false .ground text.toList)

/-- A text that a terminal shows in bold letters. -/
def bold (text : String) : String :=
  "\x1b[1m" ++ text ++ "\x1b[0m"

end Quorum.Text
