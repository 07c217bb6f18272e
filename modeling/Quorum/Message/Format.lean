import Quorum.Json.Fields
import Quorum.Json.Reader
import Quorum.Message.Basic

/-!
# Messages in JSON

The JSON form of operations, log entries and messages, and the reading of
them. Reading is strict about types and missing fields, and tolerant of
members that it does not know.
-/

namespace Quorum

/-- The value of a field that has to be there, read by `value?`. -/
def Json.required? {α : Type} (value? : Json → Option α) (field : Option Json) : Option α :=
  field.bind value?

namespace Operation

def toJson : Operation → Json
  | .noOp => .text "NoOp"
  | .set key value => .record [("Set", .record [("key", .text key), ("value", .text value)])]

def ofJson? (v : Json) : Option Operation := do
  match ← v.case? with
  | ("NoOp", none) => some .noOp
  | ("NoOp", some .null) => some .noOp
  | ("Set", some content) =>
    let [key, value] ← content.fields? ["key", "value"] .skipped | none
    return .set (← Json.required? Json.text? key) (← Json.required? Json.text? value)
  | _ => none

end Operation

namespace LogEntry

def toJson (entry : LogEntry) : Json :=
  .record [("term", .nat entry.term), ("operation", entry.operation.toJson)]

def ofJson? (v : Json) : Option LogEntry := do
  let [term, operation] ← v.fields? ["term", "operation"] .skipped | none
  return {
    term := ← Json.required? Json.word? term
    operation := ← Json.required? Operation.ofJson? operation }

end LogEntry

namespace VoteRequest

def toJson (m : VoteRequest) : Json :=
  .record [
    ("term", .nat m.term), ("candidate_id", .nat m.candidate),
    ("last_log_index", .nat m.lastIndex), ("last_log_term", .nat m.lastTerm)]

def ofJson? (v : Json) : Option VoteRequest := do
  let [term, candidate, lastIndex, lastTerm] ←
    v.fields? ["term", "candidate_id", "last_log_index", "last_log_term"] .skipped | none
  return {
    term := ← Json.required? Json.word? term
    candidate := ← Json.required? Json.word? candidate
    lastIndex := ← Json.required? Json.word? lastIndex
    lastTerm := ← Json.required? Json.word? lastTerm }

end VoteRequest

namespace VoteReply

/-- The JSON form of the answer to a request for a vote. -/
def toJson (m : VoteReply) : Json :=
  .record [
    ("term", .nat m.term), ("vote_granted", .bool m.granted),
    ("old_leader_lease_remaining", .ofDuration m.priorLease)]

/-- The answer to a request for a vote of a JSON value. -/
def ofJson? (v : Json) : Option VoteReply := do
  let [term, granted, priorLease] ←
    v.fields? ["term", "vote_granted", "old_leader_lease_remaining"] .skipped | none
  return {
    term := ← Json.required? Json.word? term
    granted := ← Json.required? Json.bool? granted
    priorLease := ← Json.required? Json.duration? priorLease }

end VoteReply

namespace AppendRequest

/-- The JSON form of a request to append entries. -/
def toJson (m : AppendRequest) : Json :=
  .record [
    ("term", .nat m.term), ("leader_id", .nat m.leader),
    ("prev_log_index", .nat m.prevIndex), ("prev_log_term", .nat m.prevTerm),
    ("entries", .array (m.entries.map LogEntry.toJson)), ("leader_commit", .nat m.commit),
    ("lease_duration", .ofDuration m.lease), ("round", .nat m.round)]

/-- The request to append entries of a JSON value. -/
def ofJson? (v : Json) : Option AppendRequest := do
  let [term, leader, prevIndex, prevTerm, entries, commit, lease, round] ←
    v.fields? ["term", "leader_id", "prev_log_index", "prev_log_term", "entries",
      "leader_commit", "lease_duration", "round"] .skipped | none
  return {
    term := ← Json.required? Json.word? term
    leader := ← Json.required? Json.word? leader
    prevIndex := ← Json.required? Json.word? prevIndex
    prevTerm := ← Json.required? Json.word? prevTerm
    entries := ← Json.required? (Json.list? LogEntry.ofJson?) entries
    commit := ← Json.required? Json.word? commit
    lease := ← Json.required? Json.duration? lease
    round := ← Json.required? Json.word? round }

end AppendRequest

namespace AppendReply

/-- The JSON form of the answer to a request to append entries. -/
def toJson (m : AppendReply) : Json :=
  .record [
    ("term", .nat m.term), ("success", .bool m.success), ("ack_index", .nat m.acked),
    ("round", .nat m.round)]

/-- The answer to a request to append entries of a JSON value. -/
def ofJson? (v : Json) : Option AppendReply := do
  let [term, success, acked, round] ←
    v.fields? ["term", "success", "ack_index", "round"] .skipped | none
  return {
    term := ← Json.required? Json.word? term
    success := ← Json.required? Json.bool? success
    acked := ← Json.required? Json.word? acked
    round := ← Json.required? Json.word? round }

end AppendReply

namespace Message

/-- The JSON form of a message: its content under the name of its kind. -/
def toJson : Message → Json
  | .voteRequest m => .record [("RequestVote", m.toJson)]
  | .voteReply m => .record [("RequestVoteResponse", m.toJson)]
  | .appendRequest m => .record [("AppendEntries", m.toJson)]
  | .appendReply m => .record [("AppendEntriesResponse", m.toJson)]

def ofJson? (v : Json) : Option Message := do
  match ← v.case? with
  | ("RequestVote", some content) => return .voteRequest (← VoteRequest.ofJson? content)
  | ("RequestVoteResponse", some content) => return .voteReply (← VoteReply.ofJson? content)
  | ("AppendEntries", some content) => return .appendRequest (← AppendRequest.ofJson? content)
  | ("AppendEntriesResponse", some content) => return .appendReply (← AppendReply.ofJson? content)
  | _ => none

end Message

end Quorum
