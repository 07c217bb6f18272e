/-!
# 64-bit words

Terms, log positions, node identifiers and round numbers are natural numbers
that travel and are stored as 64-bit words. Arithmetic on them is exact
except where it would leave the word: there it stays at the largest one.
-/

namespace Quorum.Word

/-- The number of 64-bit words, the 64th power of two. -/
def size : Nat := 18446744073709551616

def max : Nat := size - 1

/-- The numbers that one word can hold. -/
def fits (n : Nat) : Bool := n < size

/-- The sum of two words, or the largest word if the sum does not fit. -/
def add (a b : Nat) : Nat := min (a + b) max

end Quorum.Word
