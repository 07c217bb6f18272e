import Quorum.Proofs.Handlers.Barriers
import Quorum.Proofs.Handlers.Vows
import Quorum.Proofs.Run.Persistence

/-!
# Schedules

What happens to a cluster under one clock that never goes back, whatever terms
it reaches: the event that each step brings to a node (`Schedule.node_cases`),
the step in which a message was sent (`Schedule.exists_sent`), and the time
until which a node that stays up serves nobody (`Schedule.waits`).
-/

namespace Quorum

namespace World

variable {M : Roster} {w w' : World} {action : Action} {b : NodeId} {n n' : Node} {p : Nat}
  {m : InFlight}

/-! ## What one step does to a node -/

/-- After a change of one member a node is that member's or was there before. -/
theorem node?_put_cases {i : NodeId} {slot : Slot} (h : (w.put i slot).node? b = some n) :
    b = i ∧ slot.node? = some n ∨ b ≠ i ∧ w.node? b = some n := by
  by_cases hb : b = i
  · subst hb
    exact .inl ⟨rfl, (congrArg Slot.node? (put_slot_self w b slot)).symm.trans h⟩
  · exact .inr ⟨hb, (congrArg Slot.node? (put_slot_of_ne w slot hb)).symm.trans h⟩

/-- A change of one member that leaves its timing as it was leaves that of every
node so. -/
theorem timing_of_put {i : NodeId} {r : Replica MemoryStorage} {slot : Slot}
    (up : w.slot i = .up r) (same : ∀ m, slot.node? = some m → m.timing = r.node.timing)
    (hn : w.node? b = some n) (hn' : (w.put i slot).node? b = some n') :
    n'.timing = n.timing := by
  rcases node?_put_cases hn' with ⟨rfl, hslot⟩ | ⟨_, hold⟩
  · have hnode : r.node = n := Option.some.inj ((congrArg Slot.node? up).symm.trans hn)
    exact hnode ▸ same n' hslot
  · exact congrArg Node.timing (Option.some.inj (hold.symm.trans hn))

/-- What an action does to a node that stays up: it handles the event that the
action brings it, or its timing stays what it was. -/
theorem Beat.node_cases (h : Beat M w action w') (hn : w.node? b = some n)
    (hn' : w'.node? b = some n') :
    (∃ event now draw m commands, w.brings action = some (b, event) ∧
      action.instant? = some now ∧ n.handle event now draw = .ok (m, commands) ∧
      n'.timing = m.timing) ∨
    (∀ event, w.brings action ≠ some (b, event)) ∧ n'.timing = n.timing := by
  have hsame : w.node? b = some n' → n'.timing = n.timing := fun hsame =>
    congrArg Node.timing (Option.some.inj (hsame.symm.trans hn))
  have hquiet : w.brings action = none → ∀ event, w.brings action ≠ some (b, event) :=
    fun quiet event hbrings => nomatch quiet.symm.trans hbrings
  cases h with
  | idle aside =>
      exact .inr ⟨fun event hbrings => (nomatch (aside b event hbrings).symm.trans hn),
        hsame hn'⟩
  | @handle i r event now draw m commands moment brings up handled =>
      rcases node?_put_cases (w := w) hn' with ⟨rfl, hslot⟩ | ⟨hb, hold⟩
      · obtain rfl : r.node = n := Option.some.inj ((congrArg Slot.node? up).symm.trans hn)
        obtain rfl := Option.some.inj hslot
        exact .inl ⟨event, now, draw, m, commands, brings, moment, handled, r.settle_timing m⟩
      · refine .inr ⟨fun event' hbrings => hb ?_, hsame hold⟩
        exact (Prod.mk.inj (Option.some.inj (hbrings.symm.trans brings))).1
  | @submit i r operation quiet up =>
      refine .inr ⟨hquiet quiet, timing_of_put up (fun m hm => ?_) hn hn'⟩
      obtain rfl := Option.some.inj hm
      exact (r.settle_timing _).trans (r.node.submit_timing operation)
  | report quiet up =>
      refine .inr ⟨hquiet quiet, timing_of_put up (fun m hm => ?_) hn hn'⟩
      obtain rfl := Option.some.inj hm
      rfl
  | crash aside up =>
      rcases node?_put_cases hn' with ⟨rfl, hslot⟩ | ⟨hb, hold⟩
      · exact nomatch hslot
      · exact .inr ⟨fun event hbrings => hb (aside b event hbrings), hsame hold⟩
  | wake quiet member down restored =>
      refine .inr ⟨hquiet quiet, ?_⟩
      rcases node?_put_cases hn' with ⟨rfl, hslot⟩ | ⟨_, hold⟩
      · exact nomatch (congrArg Slot.node? down).symm.trans hn
      · exact hsame hold

/-- Who wakes up follows. -/
theorem Beat.follower_of_down (h : Beat M w action w') (hn : w.node? b = none)
    (hn' : w'.node? b = some n') : ∃ f, n'.role = .follower f := by
  -- a change of a member that was up is none of `b`
  have hother : ∀ {i r slot}, w.slot i = .up r → (w.put i slot).node? b ≠ some n' := by
    intro i r slot up hput
    rcases node?_put_cases hput with ⟨rfl, _⟩ | ⟨_, hold⟩
    · exact nomatch hn.symm.trans (congrArg Slot.node? up)
    · exact nomatch hn.symm.trans hold
  cases h with
  | idle aside => exact nomatch hn.symm.trans hn'
  | handle moment brings up handled => exact absurd hn' (hother up)
  | submit quiet up => exact absurd hn' (hother up)
  | report quiet up => exact absurd hn' (hother up)
  | crash aside up => exact absurd hn' (hother up)
  | @wake i storage n now draw quiet member down restored =>
      rcases node?_put_cases hn' with ⟨rfl, hslot⟩ | ⟨_, hold⟩
      · obtain rfl := Option.some.inj hslot
        exact Replica.restore_role (n := n) restored
      · exact nomatch hn.symm.trans hold

/-- Messages are only ever added. -/
theorem Beat.sent_prefix (h : Beat M w action w') : w.sent <+: w'.sent := by
  cases h with
  | idle aside => exact List.prefix_rfl
  | handle moment brings up handled => exact List.prefix_append _ _
  | submit quiet up => exact List.prefix_rfl
  | report quiet up => exact List.prefix_rfl
  | crash aside up => exact List.prefix_rfl
  | wake quiet member down restored => exact List.prefix_rfl

/-- A message that was not there before is sent by the node that has handled an
event. -/
theorem Beat.said (h : Beat M w action w') (hm : w'.sent[p]? = some m)
    (hp : w.sent.length ≤ p) :
    ∃ (r : Replica MemoryStorage) (event : Event) (now : Instant) (draw : Nat) (n : Node)
        (commands : List Command), action.instant? = some now ∧
      r.node.handle event now draw = .ok (n, commands) ∧
      .send m.receiver m.message ∈ commands ∧ w'.node? m.sender = some (r.settle n).node := by
  have hold : w.sent[p]? ≠ some m := by
    rw [List.getElem?_eq_none hp]
    exact fun h => nomatch h
  cases h with
  | idle aside => exact absurd hm hold
  | @handle i r event now draw n commands moment brings up handled =>
      have hm : (w.sent ++ sends i commands)[p]? = some m := hm
      rw [List.getElem?_append_right hp] at hm
      obtain ⟨rfl, hsaid⟩ := mem_sends (List.mem_of_getElem? hm)
      exact ⟨r, event, now, draw, n, commands, moment, handled, hsaid,
        congrArg Slot.node? (put_slot_self w m.sender _)⟩
  | submit quiet up => exact absurd hm hold
  | report quiet up => exact absurd hm hold
  | crash aside up => exact absurd hm hold
  | wake quiet member down restored => exact absurd hm hold

end World

/-! ## One clock -/

/-- What happens to a cluster, in its order, under one clock that never goes
back. -/
structure Schedule (M : Roster) where
  actions : List Action
  clocked : (actions.filterMap Action.instant?).Pairwise (· ≤ ·)

namespace Schedule

variable {M : Roster} {s : Schedule M} {b : NodeId} {n n' : Node} {i k k' : Nat} {ending : Instant}
  {m : InFlight} {p : Nat}

/-- The world after the first `k` actions, and the last one from the end on. -/
def state (s : Schedule M) (k : Nat) : World :=
  World.after M (s.actions.take k)

/-- The time that the clock shows after the first `k` actions. -/
def clock (s : Schedule M) (k : Nat) : Instant :=
  ((s.actions.take k).filterMap Action.instant?).getLastD 0

/-- The event that happens in step `k`, and the node that it happens to. -/
def brings (s : Schedule M) (k : Nat) : Option (NodeId × Event) :=
  s.actions[k]?.bind (s.state k).brings

theorem state_succ {a : Action} (h : s.actions[k]? = some a) :
    s.state (k + 1) = (s.state k).step M a :=
  World.after_take_succ h

theorem state_of_length_le (h : s.actions.length ≤ k) : s.state (k + 1) = s.state k :=
  World.after_take_of_length_le h

theorem clock_succ {a : Action} (h : s.actions[k]? = some a) :
    s.clock (k + 1) = a.instant?.getD (s.clock k) := by
  rw [clock, clock, List.take_add_one, h, Option.toList_some, List.filterMap_append]
  cases ha : a.instant? with
  | none => simp [ha]
  | some now => simp [ha]

/-- The clock has not passed what is still to come. -/
theorem clock_le {a : Action} {now : Instant} (h : s.actions[k]? = some a)
    (hnow : a.instant? = some now) : s.clock k ≤ now := by
  have hsorted : ((s.actions.take (k + 1)).filterMap Action.instant?).Pairwise (· ≤ ·) :=
    s.clocked.sublist ((List.take_sublist _ _).filterMap _)
  rw [List.take_add_one, h, Option.toList_some, List.filterMap_append, List.pairwise_append]
    at hsorted
  obtain ⟨_, _, hall⟩ := hsorted
  have hlast : s.clock k ∈ 0 :: (s.actions.take k).filterMap Action.instant? :=
    List.getLastD_mem_cons
  rcases List.mem_cons.mp hlast with hzero | hmem
  · exact hzero ▸ Nat.zero_le _
  · exact hall _ hmem now (by simp [hnow])

/-- Between two states one member does something, or the schedule is over. -/
theorem exists_beat (s : Schedule M) (k : Nat) :
    ∃ action, World.Beat M (s.state k) action (s.state (k + 1)) ∧
      s.clock (k + 1) = action.instant?.getD (s.clock k) ∧
      (∀ now, action.instant? = some now → s.clock k ≤ now) ∧
      s.brings k = (s.state k).brings action := by
  cases ha : s.actions[k]? with
  | none =>
      have hlength := List.getElem?_eq_none_iff.mp ha
      refine ⟨.report 0, ?_, ?_, fun now h => (nomatch h), by rw [brings, ha]; rfl⟩
      · rw [s.state_of_length_le hlength]
        exact .idle fun i event h => nomatch h
      · rw [clock, clock, List.take_of_length_le hlength,
          List.take_of_length_le (Nat.le_succ_of_le hlength)]
        rfl
  | some a =>
      exact ⟨a, by rw [s.state_succ ha]; exact World.step_beat _ a, clock_succ ha,
        fun now h => clock_le ha h, by rw [brings, ha]; rfl⟩

theorem clock_le_succ (s : Schedule M) (k : Nat) : s.clock k ≤ s.clock (k + 1) := by
  obtain ⟨action, _, hclock, hlater, _⟩ := s.exists_beat k
  rw [hclock]
  cases hinstant : action.instant? with
  | none => exact Nat.le_refl _
  | some now => exact hlater now hinstant

theorem clock_mono (s : Schedule M) (h : i ≤ k) : s.clock i ≤ s.clock k := by
  induction h with
  | refl => exact Nat.le_refl _
  | step _ ih => exact Nat.le_trans ih (s.clock_le_succ _)

/-- A node has the identifier of its member. -/
theorem id_eq (hn : (s.state k).node? b = some n) : n.id = b := by
  obtain ⟨replica, up, rfl⟩ := World.exists_up_of_node? hn
  exact ((World.kept_start M).after _ b replica up).id

/-- What a step does to a node that stays up: it handles the event that
happens to it, or its timing stays what it was. -/
theorem node_cases (hn : (s.state k).node? b = some n) (hn' : (s.state (k + 1)).node? b = some n') :
    (∃ event draw m commands, s.brings k = some (b, event) ∧
      n.handle event (s.clock (k + 1)) draw = .ok (m, commands) ∧ n'.timing = m.timing) ∨
    (∀ event, s.brings k ≠ some (b, event)) ∧ n'.timing = n.timing := by
  obtain ⟨action, hbeat, hclock, _, hbrings⟩ := s.exists_beat k
  rw [hbrings]
  refine (hbeat.node_cases hn hn').imp_left ?_
  rintro ⟨event, now, draw, m, commands, hevent, hinstant, handled, same⟩
  rw [hinstant] at hclock
  exact ⟨event, draw, m, commands, hevent, hclock ▸ handled, same⟩

/-! ## Messages -/

theorem sent_prefix (s : Schedule M) (h : i ≤ k) : (s.state i).sent <+: (s.state k).sent := by
  induction h with
  | refl => exact List.prefix_rfl
  | @step k _ ih =>
      obtain ⟨action, hbeat, _⟩ := s.exists_beat k
      exact ih.trans hbeat.sent_prefix

/-- Every message was sent in some earlier step. -/
theorem exists_sent (s : Schedule M) (hp : p < (s.state i).sent.length) :
    ∃ h < i, (s.state h).sent.length ≤ p ∧ p < (s.state (h + 1)).sent.length := by
  induction i with
  | zero => exact absurd hp (Nat.not_lt_zero p)
  | succ i ih =>
      rcases Nat.lt_or_ge p (s.state i).sent.length with hbefore | hnow
      · obtain ⟨h, hlt, hsent⟩ := ih hbefore
        exact ⟨h, Nat.lt_succ_of_lt hlt, hsent⟩
      · exact ⟨i, Nat.lt_succ_self i, hnow, hp⟩

/-- Who sent a message in a step did so when it handled an event. -/
theorem said {h : Nat} (hm : (s.state i).sent[p]? = some m) (hbefore : (s.state h).sent.length ≤ p)
    (hafter : p < (s.state (h + 1)).sent.length) :
    h < i ∧ ∃ (r : Replica MemoryStorage) (event : Event) (draw : Nat) (n : Node)
      (commands : List Command), r.node.handle event (s.clock (h + 1)) draw = .ok (n, commands) ∧
        .send m.receiver m.message ∈ commands ∧
        (s.state (h + 1)).node? m.sender = some (r.settle n).node := by
  have hlt : h < i := by
    by_contra hle
    have hshort := (s.sent_prefix (Nat.le_of_not_lt hle)).length_le
    rw [List.getElem?_eq_none (Nat.le_trans hshort hbefore)] at hm
    exact nomatch hm
  have hthen : (s.state (h + 1)).sent[p]? = some m := by
    obtain ⟨more, hmore⟩ := s.sent_prefix hlt
    rwa [← hmore, List.getElem?_append_left hafter] at hm
  obtain ⟨action, hbeat, hclock, _⟩ := s.exists_beat h
  obtain ⟨r, event, now, draw, n, commands, hinstant, handled, hsaid, hup⟩ :=
    hbeat.said hthen hbefore
  rw [hinstant] at hclock
  exact ⟨hlt, r, event, draw, n, commands, hclock ▸ handled, hsaid, hup⟩

/-! ## Waiting -/

/-- The node is up in every state after the first `k` steps until `k'` are
done. -/
def Stays (s : Schedule M) (b : NodeId) (k k' : Nat) : Prop :=
  ∀ m, k < m → m ≤ k' → ((s.state m).node? b).isSome

/-- A node that waits and stays up goes on waiting. -/
theorem waits_succ (hn : (s.state k).node? b = some n)
    (hn' : (s.state (k + 1)).node? b = some n') (hw : n.timing.Waits (s.clock k) ending) :
    n'.timing.Waits (s.clock (k + 1)) ending := by
  have hlater := hw.mono (s.clock_le_succ k)
  rcases s.node_cases hn hn' with ⟨event, draw, m, commands, _, handled, same⟩ | ⟨_, same⟩
  · exact same ▸ (Node.handle_deeds handled).waits hlater
  · exact same ▸ hlater

theorem waits (hn : (s.state k).node? b = some n) (hw : n.timing.Waits (s.clock k) ending)
    (hle : k ≤ k') (hup : s.Stays b k k') (hn' : (s.state k').node? b = some n') :
    n'.timing.Waits (s.clock k') ending := by
  induction hle generalizing n' with
  | refl =>
      obtain rfl := Option.some.inj (hn.symm.trans hn')
      exact hw
  | @step j hle ih =>
      have hupj : ((s.state j).node? b).isSome := by
        rcases Nat.eq_or_lt_of_le hle with rfl | hlt
        · exact Option.isSome_iff_exists.mpr ⟨n, hn⟩
        · exact hup j hlt (Nat.le_succ j)
      obtain ⟨nj, hnj⟩ := Option.isSome_iff_exists.mp hupj
      exact s.waits_succ hnj hn' (ih (fun m hkm hmj => hup m hkm (Nat.le_succ_of_le hmj)) hnj)

end Schedule

end Quorum
