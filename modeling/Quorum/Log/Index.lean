import Quorum.Text.Decimal

/-!
# Log indices

A log index counts from one and doubles as a length: the index of an entry
is the number of entries up to and including it. Zero stands before the
first entry.
-/

namespace Quorum

/-- A position in a log, or the length of the part of a log that ends
there. -/
abbrev LogIndex := Nat

namespace LogIndex

/-- The index behind this one, within the 64-bit range. -/
def next (i : LogIndex) : LogIndex := Word.add i 1

/-- The index in front of this one; index zero has none. -/
def prev? (i : LogIndex) : Option LogIndex :=
  if i = 0 then none else some (i - 1)

/-- The index reached when `count` entries are put behind this one, within
the 64-bit range. -/
def advance (i : LogIndex) (count : Nat) : LogIndex := Word.add i count

/-- The zero-based position of the entry at this index; index zero has
none. -/
def position? (i : LogIndex) : Option Nat :=
  if i = 0 then none else some (i - 1)

def label (i : LogIndex) : String := "I" ++ Text.decimal i

end LogIndex

end Quorum
