import Quorum.Proofs.Json.Fields
import Quorum.Wire.Frame

/-!
# Messages through JSON and back

Whatever the texts in a message are, the message is read from its JSON form as
it was, as long as its numbers and durations fit into the words in which they
travel (`Message.Fits`).
-/

namespace Quorum

/-! ## What fits -/

/-- The numbers of a request for a vote fit into their words. -/
structure VoteRequest.Fits (m : VoteRequest) : Prop where
  term : Word.fits m.term = true
  candidate : Word.fits m.candidate = true
  lastIndex : Word.fits m.lastIndex = true
  lastTerm : Word.fits m.lastTerm = true

structure VoteReply.Fits (m : VoteReply) : Prop where
  term : Word.fits m.term = true
  priorLease : m.priorLease ≤ Duration.max

/-- The numbers of a request to append entries fit into their words, the terms
of the entries among them. Nothing is asked of the texts in the entries. -/
structure AppendRequest.Fits (m : AppendRequest) : Prop where
  term : Word.fits m.term = true
  leader : Word.fits m.leader = true
  prevIndex : Word.fits m.prevIndex = true
  prevTerm : Word.fits m.prevTerm = true
  entries : ∀ entry ∈ m.entries, Word.fits entry.term = true
  commit : Word.fits m.commit = true
  lease : m.lease ≤ Duration.max
  round : Word.fits m.round = true

structure AppendReply.Fits (m : AppendReply) : Prop where
  term : Word.fits m.term = true
  acked : Word.fits m.acked = true
  round : Word.fits m.round = true

/-- The numbers and durations of a message fit into their words. -/
def Message.Fits : Message → Prop
  | .voteRequest m => m.Fits
  | .voteReply m => m.Fits
  | .appendRequest m => m.Fits
  | .appendReply m => m.Fits

structure Envelope.Fits (e : Envelope) : Prop where
  sender : Word.fits e.sender = true
  message : e.message.Fits

/-! ## There and back -/

theorem Operation.ofJson?_toJson (operation : Operation) :
    ofJson? operation.toJson = some operation := by
  cases operation with
  | noOp => rfl
  | set key value =>
      have hfields : (Json.record [("key", .text key), ("value", .text value)]).fields?
          ["key", "value"] .skipped = some [some (.text key), some (.text value)] :=
        Json.fields?_record rfl (by simp) _
      simp [ofJson?, toJson, Json.required?, hfields]

theorem LogEntry.ofJson?_toJson {entry : LogEntry} (h : Word.fits entry.term = true) :
    ofJson? entry.toJson = some entry := by
  rw [ofJson?, toJson, Json.fields?_record]
  · simp [Json.required?, Json.word?_nat h, Operation.ofJson?_toJson]
  · rfl
  · simp

theorem VoteRequest.ofJson?_toJson {m : VoteRequest} (h : m.Fits) :
    ofJson? m.toJson = some m := by
  rw [ofJson?, toJson, Json.fields?_record]
  · simp [Json.required?, Json.word?_nat, h.term, h.candidate, h.lastIndex, h.lastTerm]
  · rfl
  · simp

theorem VoteReply.ofJson?_toJson {m : VoteReply} (h : m.Fits) :
    ofJson? m.toJson = some m := by
  rw [ofJson?, toJson, Json.fields?_record]
  · simp [Json.required?, Json.word?_nat, Json.duration?_ofDuration, h.term, h.priorLease]
  · rfl
  · simp

theorem AppendRequest.ofJson?_toJson {m : AppendRequest} (h : m.Fits) :
    ofJson? m.toJson = some m := by
  have hentries : Json.list? LogEntry.ofJson? (.array (m.entries.map LogEntry.toJson)) =
      some m.entries :=
    Json.list?_array fun entry hentry => LogEntry.ofJson?_toJson (h.entries entry hentry)
  rw [ofJson?, toJson, Json.fields?_record]
  · simp [Json.required?, Json.word?_nat, Json.duration?_ofDuration, hentries, h.term, h.leader,
      h.prevIndex, h.prevTerm, h.commit, h.lease, h.round]
  · rfl
  · simp

theorem AppendReply.ofJson?_toJson {m : AppendReply} (h : m.Fits) :
    ofJson? m.toJson = some m := by
  rw [ofJson?, toJson, Json.fields?_record]
  · simp [Json.required?, Json.word?_nat, h.term, h.acked, h.round]
  · rfl
  · simp

theorem Message.ofJson?_toJson {message : Message} (h : message.Fits) :
    ofJson? message.toJson = some message := by
  cases message with
  | voteRequest m =>
      simp [ofJson?, toJson, VoteRequest.ofJson?_toJson h]
  | voteReply m =>
      simp [ofJson?, toJson, VoteReply.ofJson?_toJson h]
  | appendRequest m =>
      simp [ofJson?, toJson, AppendRequest.ofJson?_toJson h]
  | appendReply m =>
      simp [ofJson?, toJson, AppendReply.ofJson?_toJson h]

/-- An envelope is read from its JSON form as it was. -/
theorem Envelope.ofJson?_toJson {e : Envelope} (h : e.Fits) : ofJson? e.toJson = some e := by
  rw [ofJson?, toJson, Json.fields?_record]
  · simp [Json.required?, Json.word?_nat, h.sender, Message.ofJson?_toJson h.message]
  · rfl
  · simp

end Quorum
