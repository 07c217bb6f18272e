import Quorum.Proofs.Handlers.Rewriting
import Quorum.Proofs.Protocol.Overlaps
import Quorum.Proofs.Run.Scene

/-!
# Receipts of requests

What comes of a request that is delivered to a member in its term, at any time:
the member takes the entries in and confirms them, refuses them and stays as it
is, or stops because its clock ends (`World.Keeps.receipt`). Which of the first
two it is depends on the record of the member alone, and so does what it
becomes.
-/

namespace Quorum

variable {M : Roster} {w w' : World} {i a : NodeId} {q : AppendRequest} {record : Record}
  {now : Instant} {draw : Nat}

/-- What a member confirms to the sender of a request whose entries fit. -/
def AppendRequest.confirmation (q : AppendRequest) (i a : NodeId) : InFlight :=
  ⟨i, a, .appendReply ⟨q.term, true, q.prevIndex + q.entries.length, q.round⟩⟩

def AppendRequest.refusal (q : AppendRequest) (i a : NodeId) : InFlight :=
  ⟨i, a, .appendReply ⟨q.term, false, 0, q.round⟩⟩

/-- A request of the node's own term is taken over as a whole, or refused. -/
theorem Node.Response.outcome {n n' : Node} {said : List Command}
    (h : Node.Response now draw n a (.appendRequest q) n' said)
    (current : q.term = n.record.currentTerm) (i : NodeId) :
    (¬ q.Suits n.record ∧ n'.record = n.record ∧ sends i said = [q.refusal i a]) ∨
      (q.Suits n.record ∧ n'.record = q.merge n.record ∧ sends i said = [q.confirmation i a]) := by
  have hrecord := n.following_record q now draw
  have haccepts := Node.accepts_following current now draw
  cases h with
  | reject stale => exact absurd current (Nat.ne_of_lt stale)
  | refuse _ refused =>
      refine .inl ⟨fun suits => ?_, hrecord, ?_⟩
      · exact Bool.false_ne_true (refused.symm.trans (haccepts.trans suits))
      · rw [sends_append, Node.sends_farewell, List.nil_append, ← current]
        rfl
  | accept _ accepted =>
      refine .inr ⟨haccepts.symm.trans accepted, ?_, ?_⟩
      · rw [Node.accepting_record, hrecord]
        rfl
      · rw [sends_append, Node.sends_farewell, List.nil_append, ← current]
        rfl

namespace World

/-- A member is up with a record, and has saved it. -/
def Keeps (w : World) (i : NodeId) (record : Record) : Prop :=
  ∃ r, w.slot i = .up r ∧ r.node.record = record ∧ r.storage.record = record

theorem Keeps.record_eq (h : w.Keeps i record) : w.record i = record := by
  obtain ⟨r, up, hrecord, _⟩ := h
  rw [record_of_up up, hrecord]

/-- What a request in its term makes of a member with a record. -/
inductive Receipt (i a : NodeId) (q : AppendRequest) (record : Record) (w w' : World) : Prop
  /-- The clock of the member ends before the deadlines that the request sets. -/
  | stopped (down : ∃ storage, w'.slot i = .down storage ∧ storage.record = record)
      (silent : w'.sent = w.sent)
  | refused (misfit : ¬ q.Suits record) (keeps : w'.Keeps i record)
      (sent : w'.sent = w.sent ++ [q.refusal i a])
  | accepted (suits : q.Suits record) (keeps : w'.Keeps i (q.merge record))
      (sent : w'.sent = w.sent ++ [q.confirmation i a])

/-- Only a request that suits the record of the member changes it. -/
theorem Receipt.record_cases (h : Receipt i a q record w w') :
    w'.record i = record ∨ (q.Suits record ∧ w'.record i = q.merge record) := by
  cases h with
  | stopped down silent =>
      obtain ⟨storage, hslot, hrecord⟩ := down
      refine .inl ?_
      rw [World.record, hslot]
      exact hrecord
  | refused misfit keeps sent => exact .inl keeps.record_eq
  | accepted suits keeps sent => exact .inr ⟨suits, keeps.record_eq⟩

theorem Keeps.receipt (h : w.Keeps i record) {position : Nat}
    (asked : w.sent[position]? = some ⟨a, i, .appendRequest q⟩)
    (current : q.term = record.currentTerm) (now : Instant) (draw : Nat) :
    Receipt i a q record w (w.step M (.deliver position now draw)) := by
  obtain ⟨r, up, hrecord, hstored⟩ := h
  have hstep : w.step M (.deliver position now draw) =
      w.handle i (.message a (.appendRequest q)) now draw := by
    rw [step, asked]
  rw [hstep, handle, up]
  simp only []
  cases hcall : r.handle (.message a (.appendRequest q)) now draw with
  | error e => exact .stopped ⟨r.storage, put_slot_self w i _, hstored⟩ rfl
  | ok result =>
      obtain ⟨n', hnode, hsettled⟩ := Replica.handle_ok hcall
      have hframe : r.node.Frame n' := (Node.handle_deeds hnode).frame
      have hslot : (w.put i (.up result.1)).slot i = .up (r.settle n') := by
        rw [put_slot_self, hsettled]
      -- nothing is sent before it is saved, so the storage has what the node has
      have hkeeps : (w.put i (.up result.1)).Keeps i n'.record := by
        refine ⟨r.settle n', hslot, congrArg Core.record (r.settle_core n'), ?_⟩
        rw [Replica.settle_eq]
        exact Replica.saved_record (hstored.trans hrecord.symm) hframe
      subst hrecord
      have hresponse : Node.Response now draw r.node a (.appendRequest q) n' (always result.2) :=
        Node.handleMessage_response hnode (Nat.le_of_eq current)
      rcases hresponse.outcome current i with
        ⟨misfit, hsame, hsends⟩ | ⟨suits, hmerged, hsends⟩
      · exact .refused misfit (hsame ▸ hkeeps) (congrArg (w.sent ++ ·) hsends)
      · exact .accepted suits (hmerged ▸ hkeeps) (congrArg (w.sent ++ ·) hsends)

end World

end Quorum
