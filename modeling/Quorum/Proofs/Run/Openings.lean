import Quorum.Proofs.Handlers.Tallies
import Quorum.Proofs.Handlers.Vows
import Quorum.Proofs.Run.Scene

/-!
# The entry that opens a term

Whoever leads has the entry that opened its term behind what it stood for
election with, and every request that it has sent in the term reaches that
entry. So does every reply that confirms one of them, which keeps the tallies
of all leaders in order along a run (`Run.tallied`).
-/

namespace Quorum

namespace Scene

open World

variable {M : Roster} {i x : NodeId} {w : World} {s : Chronicle} {r : Replica MemoryStorage}
  {l : Leader} {q : AppendRequest}

/-- A leader's log goes on, behind what the leader stood with, with the entry
that opened its term. -/
theorem opened_of_leading (h : Scene M w s) (up : w.slot i = .up r)
    (role : r.node.role = .leader l) :
    s.stood i r.node.record.currentTerm ++ [.noOp r.node.record.currentTerm] <+:
        r.node.record.log ∧
      r.node.opening = (s.stood i r.node.record.currentTerm).length + 1 := by
  have hleads : w.Leads i r.node.record.currentTerm :=
    ⟨r.node, congrArg Slot.node? up, Node.isLeader_iff.mpr ⟨l, role⟩, rfl⟩
  obtain ⟨_, hreign⟩ := h.reign_of_leads hleads
  obtain ⟨hsound, hopened, hearlier⟩ := h.lawful.histories.reigned _ _ hreign
  have hlog : s.log i = r.node.record.log := by rw [h.log i, record_of_up up]
  have hcount : r.node.record.log.countP (·.term < r.node.record.currentTerm) =
      (s.stood i r.node.record.currentTerm).length :=
    Log.countP_lt_of_prefix (e := .noOp r.node.record.currentTerm) (hlog ▸ hsound.ordered)
      (hlog ▸ hopened) hearlier
  exact ⟨hlog ▸ hopened, congrArg (· + 1) hcount⟩

theorem opened (h : Scene M w s) (up : w.slot i = .up r) (role : r.node.role = .leader l) :
    r.node.Opened := by
  obtain ⟨hopened, hopening⟩ := h.opened_of_leading up role
  rw [Node.Opened, hopening, ← Log.entry?_of_prefix hopened (by simp)]
  exact Log.entry?_concat _ _

/-- What a leader sends in its term reaches the entry that opened it. -/
theorem opening_le_of_request (h : Scene M w s) (up : w.slot i = .up r)
    (role : r.node.role = .leader l) (hm : ⟨i, x, .appendRequest q⟩ ∈ w.sent)
    (current : q.term = r.node.record.currentTerm) :
    r.node.opening ≤ q.prevIndex + q.entries.length := by
  obtain ⟨_, hopening⟩ := h.opened_of_leading up role
  obtain ⟨part, hpart⟩ := h.lawful.histories.shipped i x q (h.sent ▸ hm)
  obtain ⟨_, _, _, hissued⟩ := hpart.issued
  have hle := hissued.length_le
  rw [current, List.length_append, List.length_singleton, ← hopening] at hle
  rwa [hpart.length_eq]

end Scene

namespace World

variable {M : Roster} {w w' : World} {action : Action} {s s' : Chronicle}

/-! ## Where requests and replies go -/

/-- Requests go to peers, and who confirms one confirms all that the sender
had. -/
structure Posted (M : Roster) (w : World) : Prop where
  requests : ∀ a x q, ⟨a, x, .appendRequest q⟩ ∈ w.sent → x ∈ M.peers a
  replies : ∀ x a r, ⟨x, a, .appendReply r⟩ ∈ w.sent → r.success = true →
    ∃ q, ⟨a, x, .appendRequest q⟩ ∈ w.sent ∧ r.term = q.term ∧
      r.acked = q.prevIndex + q.entries.length

theorem Beat.posted (h : Beat M w action w') (hk : w.Kept M) (hp : w.Posted M) :
    w'.Posted M := by
  cases h with
  | idle aside => exact hp
  | @handle i r event now draw n' commands moment brings up handled =>
      obtain ⟨hid, hseated, _, _⟩ := hk i r up
      constructor
      case requests =>
        intro a x q hm
        rcases List.mem_append.mp hm with hm | hm
        · exact hp.requests a x q hm
        · obtain ⟨rfl, hsaid⟩ := mem_sends hm
          have hpeer := (Node.handle_deeds handled).request_peer hsaid
          rwa [hseated.peers, hid] at hpeer
      case replies =>
        intro x a reply hm success
        rcases List.mem_append.mp hm with hm | hm
        · obtain ⟨q, hq, hsame⟩ := hp.replies x a reply hm success
          exact ⟨q, List.mem_append_left _ hq, hsame⟩
        · obtain ⟨rfl, hsaid⟩ := mem_sends hm
          obtain ⟨q, hevent, hterm, hacked, _⟩ := Node.handle_confirmed handled hsaid success
          exact ⟨q, List.mem_append_left _ (mem_sent_of_brings (hevent ▸ brings)), hterm, hacked⟩
  | submit quiet up => exact ⟨hp.requests, hp.replies⟩
  | report quiet up => exact ⟨hp.requests, hp.replies⟩
  | crash aside up => exact ⟨hp.requests, hp.replies⟩
  | wake quiet member down restored => exact ⟨hp.requests, hp.replies⟩

/-! ## Tallies -/

/-- Every leader has its tallies in order. -/
def Tallied (w : World) : Prop :=
  ∀ i r l, w.slot i = .up r → r.node.role = .leader l → r.node.Tallies l

theorem Tallied.put {i : NodeId} {slot : Slot} (ht : w.Tallied)
    (hslot : ∀ r l, slot = .up r → r.node.role = .leader l → r.node.Tallies l) :
    (w.put i slot).Tallied :=
  (Function.forall_update_iff w.slot fun _ slot =>
      ∀ r l, slot = .up r → r.node.role = .leader l → r.node.Tallies l).mpr
    ⟨hslot, fun j _ r l => ht j r l⟩

/-- Every action keeps the tallies of all leaders in order. -/
theorem Beat.tallied (h : Beat M w action w') (hs : Scene M w s) (hs' : Scene M w' s')
    (hp : w.Posted M) (ht : w.Tallied) : w'.Tallied := by
  cases h with
  | idle aside => exact ht
  | @handle i r event now draw n' commands moment brings up handled =>
      refine ht.put fun r' l' hr' role' => ?_
      obtain rfl := Slot.up.inj hr'
      have hopened := hs'.opened (put_slot_self w i (.up (r.settle n'))) role'
      rw [Replica.settle_eq] at role' hopened ⊢
      have htallies := (Node.handle_led handled role').tallies (fun l role => ht i r l up role)
        (fun l sender reply role hevent success current => ?_) hopened
      · exact ⟨⟨htallies.rows, htallies.nodup, htallies.acked⟩, htallies.committed⟩
      · -- the reply answers a request that went to a peer, with the log to its end
        obtain ⟨q, hq, hterm, hacked⟩ :=
          hp.replies _ _ _ (mem_sent_of_brings (hevent ▸ brings)) success
        obtain ⟨hid, hseated, _, _⟩ := hs.kept i r up
        refine ⟨?_, ?_⟩
        · rw [hseated.peers, hid]
          exact hp.requests _ _ _ hq
        · rw [hacked]
          exact hs.opening_le_of_request up role hq (hterm.symm.trans current)
  | @submit i r operation quiet up =>
      refine ht.put fun r' l' hr' role' => ?_
      obtain rfl := Slot.up.inj hr'
      have hopened := hs'.opened (put_slot_self w i _) role'
      rw [Replica.settle_eq] at role' hopened ⊢
      have role := (congrArg Timing.role (r.node.submit_timing operation)).symm.trans role'
      have htallies := Node.submit_tallies role (ht i r l' up role) hopened
      exact ⟨⟨htallies.rows, htallies.nodup, htallies.acked⟩, htallies.committed⟩
  | @report i r quiet up =>
      refine ht.put fun r' l' hr' role' => ?_
      obtain rfl := Slot.up.inj hr'
      exact ht i r l' up role'
  | crash aside up => exact ht.put fun r l hr => nomatch hr
  | wake quiet member down restored =>
      refine ht.put fun r' l' hr' role' => ?_
      obtain rfl := Slot.up.inj hr'
      obtain ⟨f, role⟩ := Replica.restore_role restored
      exact nomatch role.symm.trans role'

end World

/-- In every state of a run the tallies of all leaders are in order. -/
theorem Run.tallied {M : Roster} (r : Run M) (k : Nat) : (r.state k).Tallied := by
  have hboth : (r.state k).Posted M ∧ (r.state k).Tallied := by
    induction k with
    | zero =>
        exact ⟨⟨fun _ _ _ h => (nomatch h), fun _ _ _ h => (nomatch h)⟩, fun _ _ _ h => nomatch h⟩
    | succ k ih =>
        obtain ⟨hposted, htallied⟩ := ih
        obtain ⟨action, hbeat⟩ := r.exists_beat k
        obtain ⟨s, hs⟩ := r.exists_scene k
        obtain ⟨s', hs'⟩ := r.exists_scene (k + 1)
        exact ⟨hbeat.posted hs.kept hposted, hbeat.tallied hs hs' hposted htallied⟩
  exact hboth.2

end Quorum
