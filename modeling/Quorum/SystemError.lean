import Quorum.Text.Decimal
import Quorum.Text.Quoted

/-!
# Errors of the operating system

How a failure that the operating system reports is told: by its number, the
name of its kind and a description.
-/

namespace Quorum

/-- A failure that the operating system reports. -/
structure SystemError where
  code : Nat
  kind : String
  description : String
  deriving DecidableEq, Repr

namespace SystemError

/-- The failure in one sentence. -/
def message (e : SystemError) : String :=
  e.description ++ " (os error " ++ Text.decimal e.code ++ ")"

/-- All parts of the failure. -/
def detail (e : SystemError) : String :=
  "Os \x7b code: " ++ Text.decimal e.code ++ ", kind: " ++ e.kind ++ ", message: " ++
    Text.quote e.description ++ " \x7d"

end SystemError

end Quorum
