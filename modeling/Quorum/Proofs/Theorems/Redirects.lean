import Quorum.Proofs.Handlers.Hints
import Quorum.Proofs.Run.Scene
import Quorum.Proofs.Theorems.Safety

/-!
# Redirects

A node that is asked for something that only the leader can do names the
leader it knows of. The name it gives is that of a node that has won the very
term the node is in, so no two nodes in one term give different names
(`redirect_truthful`). The name comes from a request, which only a leader
sends, and is lost with the term it belongs to.
-/

namespace Quorum

namespace Replica

/-- Saving and applying leave alone whom a node names. -/
theorem settle_heeds (r : Replica MemoryStorage) {n n' : Node}
    {heard? : Option (NodeId × Message)} (h : n.Heeds heard? n') :
    n.Heeds heard? (r.settle n').node := by
  rw [settle_eq]
  exact h.trans (.of_role rfl rfl rfl)

theorem settle_heads (r : Replica MemoryStorage) {n' : Node} {commands : List Command}
    (h : n'.Heads commands) : (r.settle n').node.Heads commands := by
  rw [settle_eq]
  exact h

end Replica

namespace World

variable {M : Roster} {w w' : World} {action : Action} {i : NodeId} {n : Node}
  {led led' : NodeId → Term → Prop}

/-! ## Names and requests -/

/-- Whoever is named as the leader of a term, by a node that is up or in a
request, has led it. -/
structure Truthful (led : NodeId → Term → Prop) (w : World) : Prop where
  named : ∀ i n l, w.node? i = some n → n.leader? = some l → led l n.record.currentTerm
  asked : ∀ m ∈ w.sent, ∀ q, m.message = .appendRequest q → led q.leader q.term

theorem truthful_start (led : NodeId → Term → Prop) : start.Truthful led where
  named _ _ _ hn := nomatch hn
  asked _ hm := absurd hm List.not_mem_nil

theorem Truthful.mono (h : w.Truthful led) (later : ∀ l t, led l t → led' l t) :
    w.Truthful led' where
  named i n l hn hl := later l _ (h.named i n l hn hl)
  asked m hm q hq := later _ _ (h.asked m hm q hq)

/-- A change of one member that sends nothing. -/
theorem Truthful.put {slot : Slot} (h : w.Truthful led)
    (named : ∀ n l, slot.node? = some n → n.leader? = some l → led l n.record.currentTerm) :
    (w.put i slot).Truthful led where
  named j n l hn hl := by
    by_cases hj : j = i
    · subst hj
      rw [node?, put_slot_self] at hn
      exact named n l hn hl
    · rw [node?, put_slot_of_ne w slot hj] at hn
      exact h.named j n l hn hl
  asked := h.asked

theorem leads_of_node? (hk : w.Kept M) (hn : w.node? i = some n) (leads : n.isLeader = true) :
    w.Leads n.id n.record.currentTerm := by
  obtain ⟨r, up, rfl⟩ := exists_up_of_node? hn
  rw [(hk i r up).id]
  exact ⟨r.node, hn, leads, rfl⟩

/-- A node that heeds what is true names somebody who has led its term. -/
theorem Truthful.heeds {r : Replica MemoryStorage} {n' : Node} {l : NodeId}
    {heard? : Option (NodeId × Message)} (h : w.Truthful led) (up : w.slot i = .up r)
    (heeds : r.node.Heeds heard? n')
    (heard : ∀ sender q, heard? = some (sender, .appendRequest q) → led q.leader q.term)
    (rules : n'.isLeader = true → led n'.id n'.record.currentTerm) (hl : n'.leader? = some l) :
    led l n'.record.currentTerm := by
  cases heeds with
  | none unnamed => exact nomatch unnamed.symm.trans hl
  | leads leads =>
      obtain rfl := Option.some.inj ((Node.leader?_of_leads leads).symm.trans hl)
      exact rules leads
  | keep role named term =>
      rw [term]
      exact h.named i r.node l (congrArg Slot.node? up) (named.symm.trans hl)
  | told hheard named term =>
      obtain rfl := Option.some.inj (named.symm.trans hl)
      rw [term]
      exact heard _ _ hheard

/-- What happens to one member gives nobody a false name, if those who lead
afterwards are among those who have led. -/
theorem Beat.truthful (hb : Beat M w action w') (hk : w.Kept M) (h : w.Truthful led)
    (leads : ∀ i t, w'.Leads i t → led i t) : w'.Truthful led := by
  have hk' : w'.Kept M := (hb.turn hk).kept hk
  -- a member that leads afterwards has led under its own name
  have hrules : ∀ {i n}, w'.node? i = some n → n.isLeader = true →
      led n.id n.record.currentTerm :=
    fun hn hleader => leads _ _ (leads_of_node? hk' hn hleader)
  cases hb with
  | idle aside => exact h
  | @handle i r event now draw n' commands moment brings up handled =>
      have hled := hrules (congrArg Slot.node? (put_slot_self w i (.up (r.settle n'))))
      have hput : (w.put i (.up (r.settle n'))).Truthful led := by
        refine h.put fun n l hn hl => ?_
        obtain rfl := Option.some.inj hn
        have hheeds := r.settle_heeds (Node.handle_heeds handled)
        refine h.heeds up hheeds (fun sender q hheard => ?_) hled hl
        cases event with
        | message sender' message =>
            obtain ⟨rfl, rfl⟩ := Prod.mk.inj (Option.some.inj hheard)
            exact h.asked _ (mem_sent_of_brings brings) q rfl
        | _ => exact nomatch hheard
      refine ⟨hput.named, fun m hm q hq => ?_⟩
      rcases List.mem_append.mp hm with hold | hnew
      · exact h.asked m hold q hq
      · -- a request that has just been sent is that of the member, which leads
        obtain ⟨-, hsaid⟩ := mem_sends hnew
        rw [hq] at hsaid
        obtain ⟨hleader, hterm, hname⟩ := r.settle_heads (Node.handle_heads handled) _ q hsaid
        rw [hterm, hname]
        exact hled hleader
  | @submit i r operation quiet up =>
      refine h.put fun n l hn hl => ?_
      obtain rfl := Option.some.inj hn
      have hled := hrules (congrArg Slot.node? (put_slot_self w i _))
      have hheeds := r.settle_heeds (r.node.submit_heeds operation)
      exact h.heeds up hheeds (fun sender q hheard => nomatch hheard) hled hl
  | @report i r quiet up =>
      refine h.put fun n l hn hl => ?_
      obtain rfl := Option.some.inj hn
      exact h.named i r.node l (congrArg Slot.node? up) hl
  | crash aside up => exact h.put fun n l hn => nomatch hn
  | @wake i storage n now draw quiet member down restored =>
      refine h.put fun m l hm hl => ?_
      obtain rfl := Option.some.inj hm
      obtain ⟨electionAt, _, hn⟩ := exists_of_bind_ok restored
      obtain rfl := Except.ok.inj hn
      exact nomatch hl

end World

variable {M : Roster} {b l : NodeId} {n : Node} {t : Term} {k : Nat}

/-- In every state of a run, whoever is named has led by then. -/
theorem Run.truthful (r : Run M) (k : Nat) :
    (r.state k).Truthful fun l t => ∃ m ≤ k, (r.state m).Leads l t := by
  induction k with
  | zero => exact World.truthful_start _
  | succ k ih =>
      obtain ⟨action, hbeat⟩ := r.exists_beat k
      refine hbeat.truthful (r.state_kept k) (ih.mono fun l t h => ?_) fun i t hleads => ?_
      · obtain ⟨m, hm, hleads⟩ := h
        exact ⟨m, Nat.le_succ_of_le hm, hleads⟩
      · exact ⟨k + 1, Nat.le_refl _, hleads⟩

/-- Who leads at some time has become the leader before, since nobody leads in
the beginning. -/
theorem Run.exists_accession (r : Run M) (h : (r.state k).Leads l t) :
    ∃ m < k, ¬ (r.state m).Leads l t ∧ (r.state (m + 1)).Leads l t := by
  induction k with
  | zero =>
      obtain ⟨n, hn, _⟩ := h
      exact nomatch hn
  | succ k ih =>
      by_cases hbefore : (r.state k).Leads l t
      · obtain ⟨m, hm, hleads⟩ := ih hbefore
        exact ⟨m, Nat.lt_succ_of_lt hm, hleads⟩
      · exact ⟨k, Nat.lt_succ_self k, hbefore, h⟩

/-- Whom a node names as its leader has become the leader of the node's term
before, and nobody who is ever in that term names anybody else. -/
theorem redirect_truthful (r : Run M) (hn : (r.state k).node? b = some n)
    (hl : n.leader? = some l) :
    (∃ m < k, ¬ (r.state m).Leads l n.record.currentTerm ∧
      (r.state (m + 1)).Leads l n.record.currentTerm) ∧
    ∀ k' b' n' l', (r.state k').node? b' = some n' →
      n'.record.currentTerm = n.record.currentTerm → n'.leader? = some l' → l' = l := by
  obtain ⟨m, hm, hleads⟩ := (r.truthful k).named b n l hn hl
  constructor
  · obtain ⟨j, hj, hbecame⟩ := r.exists_accession hleads
    exact ⟨j, Nat.lt_of_lt_of_le hj hm, hbecame⟩
  · intro k' b' n' l' hn' hterm hl'
    obtain ⟨m', _, hleads'⟩ := (r.truthful k').named b' n' l' hn' hl'
    rw [hterm] at hleads'
    obtain ⟨s', s, hs', hs, line⟩ := r.exists_scenes_inLine m' m
    exact hs'.leaders_agree hs line hleads' hleads

/-- Node 0, back from its crash, hears from node 1, and names it from then
on. -/
theorem redirect_truthful_handover :
    ∃ n, (handover.state 15).node? 0 = some n ∧ n.leader? = some 1 ∧ n.record.currentTerm = 2 ∧
      (∃ m < 15, ¬ (handover.state m).Leads 1 2 ∧ (handover.state (m + 1)).Leads 1 2) ∧
      ∀ k' b' n' l', (handover.state k').node? b' = some n' → n'.record.currentTerm = 2 →
        n'.leader? = some l' → l' = 1 := by
  have hnamed : ∃ n, (handover.state 15).node? 0 = some n ∧ n.leader? = some 1 ∧
      n.record.currentTerm = 2 := ⟨_, rfl, by decide +kernel, by decide +kernel⟩
  obtain ⟨n, hn, hl, hterm⟩ := hnamed
  have htruthful := redirect_truthful handover hn hl
  rw [hterm] at htruthful
  exact ⟨n, hn, hl, hterm, htruthful⟩

end Quorum
