import Quorum.Proofs.Run.Receipts
import Quorum.Proofs.Theorems.Safety

/-!
# Requests out of order and again

The network may deliver the requests of a leader in any order, and each of them
more than once. It makes no difference to a follower that accepts them: in
either order it ends up with the same record and has sent the same
confirmations, and a request that comes twice in a row might as well have come
once (`deliveries_commute`).
-/

namespace Quorum

namespace World

variable {M : Roster} {w w' w₁ w₂ : World} {i a : NodeId} {q : AppendRequest} {record : Record}
  {position : Nat} {m : InFlight} {s : Chronicle} {part : Log} {t : Term}

/-- The message at a position is a request of some term to member `i`. -/
def Asked (w : World) (position : Nat) (i : NodeId) (t : Term) : Prop :=
  ∃ a q, w.sent[position]? = some ⟨a, i, .appendRequest q⟩ ∧ q.term = t

/-- The message at a position reaches its receiver, at whatever time. -/
def Delivers (M : Roster) (w : World) (position : Nat) (w' : World) : Prop :=
  ∃ now draw, w' = w.step M (.deliver position now draw)

/-- The receiver accepts the message at a position: all that it sends is `m`,
which confirms a request. -/
def Accepts (M : Roster) (w : World) (position : Nat) (w' : World) (m : InFlight) : Prop :=
  w.Delivers M position w' ∧ w'.sent = w.sent ++ [m] ∧
    ∃ r, m.message = .appendReply r ∧ r.success = true

/-- What was sent remains at its position. -/
theorem sent_of_append {sent more : List InFlight} (h : sent[position]? = some m) :
    (sent ++ more)[position]? = some m := by
  obtain ⟨hlt, _⟩ := List.getElem?_eq_some_iff.mp h
  rw [List.getElem?_append_left hlt, h]

/-- An accepted request is taken over and confirmed. -/
theorem Keeps.accepts (h : w.Keeps i record)
    (asked : w.sent[position]? = some ⟨a, i, .appendRequest q⟩)
    (current : q.term = record.currentTerm) (accepted : w.Accepts M position w' m) :
    q.Suits record ∧ w'.Keeps i (q.merge record) ∧ m = q.confirmation i a := by
  obtain ⟨⟨now, draw, rfl⟩, hsent, r, hmessage, hsuccess⟩ := accepted
  cases h.receipt (M := M) asked current now draw with
  | stopped _ silent =>
      rw [silent] at hsent
      exact absurd hsent.symm (by simp)
  | refused _ _ sent =>
      rw [sent] at hsent
      obtain rfl : q.refusal i a = m := by simpa using hsent
      obtain rfl := Message.appendReply.inj hmessage
      exact absurd hsuccess Bool.false_ne_true
  | accepted suits keeps sent =>
      rw [sent] at hsent
      exact ⟨suits, keeps, by simpa using hsent.symm⟩

/-- Two accepted requests of one term, in two orders. -/
theorem Keeps.commute {b : NodeId} {q' : AppendRequest} {part' : Log} {position' : Nat}
    {w₁₂ w₂₁ : World} {m₁ m₁₂ m₂ m₂₁ : InFlight} (h : w.Keeps i record) (hh : s.Histories)
    (hlog : s.Sound record.currentTerm record.log)
    (hq : s.Excerpt a q part) (hq' : s.Excerpt b q' part')
    (asked : w.sent[position]? = some ⟨a, i, .appendRequest q⟩)
    (asked' : w.sent[position']? = some ⟨b, i, .appendRequest q'⟩)
    (current : q.term = record.currentTerm) (current' : q'.term = record.currentTerm)
    (h₁ : w.Accepts M position w₁ m₁) (h₁₂ : w₁.Accepts M position' w₁₂ m₁₂)
    (h₂ : w.Accepts M position' w₂ m₂) (h₂₁ : w₂.Accepts M position w₂₁ m₂₁) :
    w₁₂.record i = w₂₁.record i ∧ m₁ = m₂₁ ∧ m₁₂ = m₂ := by
  have hsent₁ : w₁.sent[position']? = some ⟨b, i, .appendRequest q'⟩ :=
    h₁.2.1 ▸ sent_of_append asked'
  have hsent₂ : w₂.sent[position]? = some ⟨a, i, .appendRequest q⟩ :=
    h₂.2.1 ▸ sent_of_append asked
  obtain ⟨suits, hkeeps₁, hm₁⟩ := h.accepts asked current h₁
  obtain ⟨suits', hkeeps₂, hm₂⟩ := h.accepts asked' current' h₂
  obtain ⟨before, hkeeps₁₂, hm₁₂⟩ := hkeeps₁.accepts hsent₁ current' h₁₂
  obtain ⟨behind, hkeeps₂₁, hm₂₁⟩ := hkeeps₂.accepts hsent₂ current h₂₁
  have hmerge := hq.merge_comm hq' hh hlog current current' suits suits' before behind
  refine ⟨?_, hm₁.trans hm₂₁.symm, hm₁₂.trans hm₂.symm⟩
  rw [hkeeps₁₂.record_eq, hkeeps₂₁.record_eq, hmerge]

/-- A request that comes again at once. -/
theorem Keeps.again (h : w.Keeps i record) (hh : s.Histories)
    (hlog : s.Sound record.currentTerm record.log) (hq : s.Excerpt a q part)
    (asked : w.sent[position]? = some ⟨a, i, .appendRequest q⟩)
    (current : q.term = record.currentTerm) (h₁ : w.Delivers M position w₁)
    (h₂ : w₁.Delivers M position w₂) : w₂.record i = w₁.record i := by
  obtain ⟨now, draw, hw₁⟩ := h₁
  obtain ⟨now', draw', hw₂⟩ := h₂
  have hreceipt : Receipt i a q record w w₁ := hw₁ ▸ h.receipt asked current now draw
  cases hreceipt with
  | stopped down silent =>
      -- who is down gets nothing
      obtain ⟨storage, hslot, _⟩ := down
      have hidle : w₁.step M (.deliver position now' draw') = w₁ := by
        simp only [step, silent, asked, handle, hslot]
      rw [hw₂, hidle]
  | refused misfit keeps sent =>
      have hagain : Receipt i a q record w₁ w₂ :=
        hw₂ ▸ keeps.receipt (sent ▸ sent_of_append asked) current now' draw'
      rw [keeps.record_eq]
      rcases hagain.record_cases with hsame | ⟨suits, _⟩
      · exact hsame
      · exact absurd suits misfit
  | accepted suits keeps sent =>
      have hagain : Receipt i a q (q.merge record) w₁ w₂ :=
        hw₂ ▸ keeps.receipt (sent ▸ sent_of_append asked) current now' draw'
      rw [keeps.record_eq]
      rcases hagain.record_cases with hsame | ⟨suits', htwice⟩
      · exact hsame
      · rw [htwice, hq.merge_again hh hlog current suits suits']

end World

/-- The order of two requests of one term does not matter, and neither does a
repetition. Whatever has happened in a run, and whenever the deliveries are: if
the member accepts both requests in either order, it has the same record in the
end, with the same log and the same commit length, and its two confirmations are
the same; and a request that comes twice in a row leaves what it leaves when it
comes once. -/
theorem deliveries_commute {M : Roster} (r : Run M) (k : Nat) {i : NodeId} {n : Node} {p₁ p₂ : Nat}
    (up : (r.state k).node? i = some n)
    (asked₁ : (r.state k).Asked p₁ i n.record.currentTerm)
    (asked₂ : (r.state k).Asked p₂ i n.record.currentTerm) :
    (∀ w₁ w₁₂ w₂ w₂₁ m₁ m₁₂ m₂ m₂₁,
      (r.state k).Accepts M p₁ w₁ m₁ → w₁.Accepts M p₂ w₁₂ m₁₂ →
      (r.state k).Accepts M p₂ w₂ m₂ → w₂.Accepts M p₁ w₂₁ m₂₁ →
        w₁₂.record i = w₂₁.record i ∧ m₁ = m₂₁ ∧ m₁₂ = m₂) ∧
    ∀ p, p = p₁ ∨ p = p₂ → ∀ w₁ w₂, (r.state k).Delivers M p w₁ → w₁.Delivers M p w₂ →
      w₂.record i = w₁.record i := by
  obtain ⟨s, hs⟩ := r.exists_scene k
  obtain ⟨replica, hslot, rfl⟩ := World.exists_up_of_node? up
  have hkeeps : (r.state k).Keeps i replica.node.record :=
    ⟨replica, hslot, rfl, (hs.current i replica hslot).stored⟩
  have hh := hs.lawful.histories
  have hlog : s.Sound replica.node.record.currentTerm replica.node.record.log := by
    have hsound := hh.sound i
    rwa [hs.term i, hs.log i, World.record_of_up hslot] at hsound
  -- whatever is under way was cut out of its sender's log when it was sent
  have hshipped : ∀ {p : Nat} {a : NodeId} {q : AppendRequest},
      (r.state k).sent[p]? = some ⟨a, i, .appendRequest q⟩ → ∃ part, s.Excerpt a q part :=
    fun hsent => hh.shipped _ i _ (hs.sent ▸ List.mem_of_getElem? hsent)
  obtain ⟨a₁, q₁, hsent₁, hterm₁⟩ := asked₁
  obtain ⟨a₂, q₂, hsent₂, hterm₂⟩ := asked₂
  obtain ⟨part₁, hq₁⟩ := hshipped hsent₁
  obtain ⟨part₂, hq₂⟩ := hshipped hsent₂
  refine ⟨fun w₁ w₁₂ w₂ w₂₁ m₁ m₁₂ m₂ m₂₁ h₁ h₁₂ h₂ h₂₁ => ?_, fun p hp w₁ w₂ h₁ h₂ => ?_⟩
  · exact hkeeps.commute hh hlog hq₁ hq₂ hsent₁ hsent₂ hterm₁ hterm₂ h₁ h₁₂ h₂ h₂₁
  · rcases hp with rfl | rfl
    · exact hkeeps.again hh hlog hq₁ hsent₁ hterm₁ h₁ h₂
    · exact hkeeps.again hh hlog hq₂ hsent₂ hterm₂ h₁ h₂

/-! ## A follower with a log of its own -/

/-- Node 0 wins term 1 and crashes with two entries that nobody else has. Node 1
wins term 2. When node 0 has come back and has heard of that term, two requests
of node 1 are under way to it. -/
def overtaken : Run trio where
  actions :=
    [.restart 0 0 0, .restart 1 0 0, .restart 2 0 0, .timer 0 .election 0 0, .deliver 0 0 0,
      .deliver 2 0 0, .request 0 (.set "k" "v") 0, .crash 0, .timer 1 .election 0 0,
      .deliver 6 0 0, .deliver 7 0 0, .deliver 9 0 0, .deliver 10 0 0, .restart 0 0 0,
      .deliver 5 0 0, .request 1 (.set "a" "b") 0, .timer 1 .heartbeat 0 0]
  inRange := by decide +kernel

/-- Both of them conflict with the log of node 0, and the older one is the
shorter one. -/
theorem deliveries_commute_overtaken :
    ((overtaken.state 17).record 0).log = [.noOp 1, .set 1 "k" "v"] ∧
      ∃ w₁ w₁₂ w₂ w₂₁ m₁ m₂, (overtaken.state 17).Accepts trio 8 w₁ m₁ ∧
        w₁.Accepts trio 12 w₁₂ m₂ ∧ (overtaken.state 17).Accepts trio 12 w₂ m₂ ∧
        w₂.Accepts trio 8 w₂₁ m₁ ∧ w₁₂.record 0 = w₂₁.record 0 ∧
        (w₁₂.record 0).log = [.noOp 2, .set 2 "a" "b"] := by
  have hup : ∃ n, (overtaken.state 17).node? 0 = some n ∧ n.record.currentTerm = 2 := by
    decide +kernel
  obtain ⟨n, up, hterm⟩ := hup
  have hasked₁ : (overtaken.state 17).Asked 8 0 2 :=
    ⟨1, ⟨2, 1, 0, 0, [.noOp 2], 0, Duration.ofMilliseconds 2500, 1⟩, by decide +kernel, rfl⟩
  have hasked₂ : (overtaken.state 17).Asked 12 0 2 :=
    ⟨1, ⟨2, 1, 0, 0, [.noOp 2, .set 2 "a" "b"], 1, Duration.ofMilliseconds 2500, 2⟩,
      by decide +kernel, rfl⟩
  have h₁ : (overtaken.state 17).Accepts trio 8
      ((overtaken.state 17).step trio (.deliver 8 0 0)) ⟨0, 1, .appendReply ⟨2, true, 1, 1⟩⟩ :=
    ⟨⟨0, 0, rfl⟩, by decide +kernel, _, rfl, rfl⟩
  have h₁₂ : ((overtaken.state 17).step trio (.deliver 8 0 0)).Accepts trio 12
      (((overtaken.state 17).step trio (.deliver 8 0 0)).step trio (.deliver 12 0 0))
      ⟨0, 1, .appendReply ⟨2, true, 2, 2⟩⟩ :=
    ⟨⟨0, 0, rfl⟩, by decide +kernel, _, rfl, rfl⟩
  have h₂ : (overtaken.state 17).Accepts trio 12
      ((overtaken.state 17).step trio (.deliver 12 0 0)) ⟨0, 1, .appendReply ⟨2, true, 2, 2⟩⟩ :=
    ⟨⟨0, 0, rfl⟩, by decide +kernel, _, rfl, rfl⟩
  have h₂₁ : ((overtaken.state 17).step trio (.deliver 12 0 0)).Accepts trio 8
      (((overtaken.state 17).step trio (.deliver 12 0 0)).step trio (.deliver 8 0 0))
      ⟨0, 1, .appendReply ⟨2, true, 1, 1⟩⟩ :=
    ⟨⟨0, 0, rfl⟩, by decide +kernel, _, rfl, rfl⟩
  obtain ⟨hcommute, _⟩ :=
    deliveries_commute overtaken 17 up (hterm ▸ hasked₁) (hterm ▸ hasked₂)
  obtain ⟨hrecord, _⟩ := hcommute _ _ _ _ _ _ _ _ h₁ h₁₂ h₂ h₂₁
  exact ⟨by decide +kernel, _, _, _, _, _, _, h₁, h₁₂, h₂, h₂₁, hrecord, by decide +kernel⟩

end Quorum
