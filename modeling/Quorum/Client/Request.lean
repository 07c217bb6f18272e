import Quorum.Text.Blank
import Quorum.Text.Quoted

/-!
# Client commands

The two commands a client may give, `GET <key>` and `SET <key> <value>`,
and their reading from text. Names of commands are case-sensitive. Keys and
values are words, so none of them is empty or holds a blank.
-/

namespace Quorum

inductive Request where
  | get (key : String)
  | set (key value : String)
  deriving DecidableEq, Repr

/-- Why a text is no client command. -/
inductive RequestError where
  | empty
  | unknownCommand (word : String)
  | getUsage
  | setUsage
  deriving DecidableEq, Repr

/-- The text that describes a command that cannot be read. -/
def RequestError.message : RequestError → String
  | .empty => "empty request"
  | .unknownCommand word => "unknown command " ++ Text.quote word ++ ", expected GET or SET"
  | .getUsage => "usage: GET <key>"
  | .setUsage => "usage: SET <key> <value>"

/-- The command that a text gives. -/
def Request.ofText (text : String) : Except RequestError Request :=
  match Text.words text with
  | [] => .error .empty
  | ["GET", key] => .ok (.get key)
  | "GET" :: _ => .error .getUsage
  | ["SET", key, value] => .ok (.set key value)
  | "SET" :: _ => .error .setUsage
  | other :: _ => .error (.unknownCommand other)

end Quorum
