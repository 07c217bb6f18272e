import Quorum.Text.Decimal

/-!
# Terms and node identifiers

A term numbers an attempt at leadership. Terms act as the logical clock of
the protocol: a message of an older term is stale, and one of a newer term
supersedes whatever the receiver was doing.
-/

namespace Quorum

/-- The number of a term. Zero is the term before the first election. -/
abbrev Term := Nat

/-- The identity of a node within its cluster. -/
abbrev NodeId := Nat

/-- The term after this one. The largest 64-bit word has none and stands for
itself. -/
def Term.next (t : Term) : Term :=
  if t < Word.max then t + 1 else t

def Term.label (t : Term) : String := "T" ++ Text.decimal t

/-- The text of a node identifier in messages. -/
def NodeId.label (n : NodeId) : String := "N" ++ Text.decimal n

end Quorum
