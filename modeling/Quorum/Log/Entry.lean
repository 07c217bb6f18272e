import Quorum.Term

/-!
# Log entries

What a replicated log holds: operations on the key-value store, each with
the term of the leader that appended it.
-/

namespace Quorum

/-- What an entry does to the store once it is committed. -/
inductive Operation where
  /-- Changes nothing. Every new leader appends one in its own term. -/
  | noOp
  | set (key value : String)
  deriving DecidableEq, Repr

/-- One entry of a log. Its index is its place in the log. -/
structure LogEntry where
  term : Term
  operation : Operation
  deriving DecidableEq, Repr

/-- The entry by which a leader opens its term. -/
def LogEntry.noOp (term : Term) : LogEntry := ⟨term, .noOp⟩

def LogEntry.set (term : Term) (key value : String) : LogEntry := ⟨term, .set key value⟩

end Quorum
