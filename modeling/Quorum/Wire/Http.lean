import Quorum.Client.Reply
import Quorum.Client.Request
import Quorum.Text.Utf8

/-!
# The HTTP endpoint

How a client's command comes in over HTTP and how the reply goes out. The
body of a `POST /client` is the text of the command. A command that cannot
be read is answered at once; any other waits for the node, for a limited
time.
-/

namespace Quorum

/-- The reply to a command that cannot be read. -/
def RequestError.reply (e : RequestError) : Reply := .fail e.message none

namespace Http

/-- A request to the endpoint. -/
structure Call where
  method : String
  path : String
  body : List UInt8

/-- What the node does with a command that reaches it. -/
inductive Handling where
  | answered (reply : Reply)
  /-- The node lets go of the command without an answer. -/
  | dropped
  /-- The node does not answer in time. -/
  | unanswered
  /-- The node does not take commands any more. -/
  | closed
  deriving DecidableEq, Repr

/-- What the endpoint sends back. -/
structure Response where
  status : Nat
  /-- The reply, present with status 200. -/
  reply? : Option Reply
  /-- The command that reached the node, if one did. -/
  seen? : Option Request
  deriving DecidableEq, Repr

/-- The longest body that is read, in octets. -/
def bodyLimit : Nat := 2 * 1024 * 1024

/-- The reply to a command under what the node does with it. -/
def Handling.reply : Handling → Reply
  | .answered reply => reply
  | .dropped => .fail "request dropped" none
  | .unanswered => .fail "timed out" none
  | .closed => .fail "server shutting down" none

def respondTo (text : String) (handling : Handling) : Response :=
  match Request.ofText text with
  | .error e => ⟨200, some e.reply, none⟩
  | .ok command =>
    ⟨200, some handling.reply, if handling = .closed then none else some command⟩

def respond (call : Call) (handling : Handling) : Response :=
  if call.path ≠ "/client" then ⟨404, none, none⟩
  else if call.method ≠ "POST" then ⟨405, none, none⟩
  else if bodyLimit < call.body.length then ⟨413, none, none⟩
  else
    match Text.Utf8.decode? call.body with
    | none => ⟨400, none, none⟩
    | some text => respondTo (String.ofList text) handling

end Http

end Quorum
