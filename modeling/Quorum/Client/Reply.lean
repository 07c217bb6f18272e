import Quorum.Json.Fields
import Quorum.Term

/-!
# Replies to clients

The answer to a client command. Whether it was served or not, a reply names
the leader that the answering node knows of, so that a client can go there.
-/

namespace Quorum

/-- The answer to a client command. -/
structure Reply where
  data : String
  leader? : Option NodeId
  success : Bool
  deriving DecidableEq, Repr

namespace Reply

/-- The command was carried out. -/
def ok (data : String) (leader? : Option NodeId) : Reply := ⟨data, leader?, true⟩

/-- The command was not carried out, for the reason that `data` gives. -/
def fail (data : String) (leader? : Option NodeId) : Reply := ⟨data, leader?, false⟩

/-- The command belongs to another node. -/
def redirect (leader? : Option NodeId) : Reply := fail "" leader?

def toJson (r : Reply) : Json :=
  .record [
    ("data", .text r.data), ("leader_id", .optional .nat r.leader?),
    ("success", .bool r.success)]

/-- The reply of a JSON value. The leader may be left out. -/
def ofJson? (v : Json) : Option Reply := do
  let [data, leader, success] ← v.fields? ["data", "leader_id", "success"] .skipped | none
  return {
    data := ← Json.text? (← data)
    leader? := ← Json.optional? Json.word? leader
    success := ← Json.bool? (← success) }

end Reply

end Quorum
