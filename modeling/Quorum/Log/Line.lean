import Quorum.Log.Entry
import Quorum.Text.Blank
import Quorum.Text.Quoted

/-!
# Log lines

The text of a log entry in a log file, one entry per line:
`NO_OP <term>` or `SET <key> <value> <term>`. Reading a line takes it word
by word, so a key or a value that is empty or holds a blank does not come
back as it was written.
-/

namespace Quorum

inductive LineError where
  /-- The words of the line have neither form of an entry. -/
  | malformed (line : String)
  /-- The word in the place of the term is no 64-bit word. -/
  | invalidTerm (word : String)
  deriving DecidableEq, Repr

/-- The text that describes a line that cannot be read. -/
def LineError.message : LineError → String
  | .malformed line => "malformed log entry: " ++ Text.quote line
  | .invalidTerm word => "invalid term in log entry: " ++ Text.quote word

namespace LogEntry

/-- The line of an entry, without the line end. -/
def line (entry : LogEntry) : String :=
  match entry.operation with
  | .noOp => "NO_OP " ++ Text.decimal entry.term
  | .set key value => "SET " ++ key ++ " " ++ value ++ " " ++ Text.decimal entry.term

def withTerm (operation : Operation) (word : String) : Except LineError LogEntry :=
  match Text.word? word.toList with
  | some term => .ok ⟨term, operation⟩
  | none => .error (.invalidTerm word)

def ofLine (line : String) : Except LineError LogEntry :=
  match Text.words line with
  | ["NO_OP", term] => withTerm .noOp term
  | ["SET", key, value, term] => withTerm (.set key value) term
  | _ => .error (.malformed line)

end LogEntry

end Quorum
