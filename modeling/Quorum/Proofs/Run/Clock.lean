import Quorum.Proofs.Run.Persistence
import Quorum.Proofs.Run.Watch

/-!
# Runs under one clock

Runs in which all nodes read one clock that never goes back, and in which no
node that is up ever goes down. Every state of such a run can be watched: the
facts of `Watch.Timed` hold in it, and what was seen in an earlier state has
been seen in a later one (`Run.exists_watches`).
-/

namespace Quorum

/-- If the action is that a timer fires, it is due. -/
def Action.Due (a : Action) (w : World) : Prop :=
  match a with
  | .timer i fired now _ => ((w.node? i).bind fun n => n.dueTimer? now) = some fired
  | _ => True

instance (a : Action) (w : World) : Decidable (a.Due w) := by
  cases a <;> simp only [Action.Due] <;> infer_instance

namespace Run

variable {M : Roster}

/-- The clock never goes back. -/
def Clocked (r : Run M) : Prop :=
  (r.actions.filterMap Action.instant?).Pairwise (· ≤ ·)

/-- No node that is up ever goes down, be it by a crash or by a deadline
beyond the end of the clock. -/
def Unbroken (r : Run M) : Prop :=
  ∀ k < r.actions.length, ∀ i ∈ M.ids, ((r.state k).node? i).isSome →
    ((r.state (k + 1)).node? i).isSome

/-- Timers fire only when they are due. -/
def Punctual (r : Run M) : Prop :=
  ∀ k, (h : k < r.actions.length) → r.actions[k].Due (r.state k)

/-- The time that the clock shows after the first `k` actions. -/
def clock (r : Run M) (k : Nat) : Instant :=
  ((r.actions.take k).filterMap Action.instant?).getLastD 0

instance (r : Run M) : Decidable r.Clocked :=
  inferInstanceAs (Decidable (List.Pairwise _ _))

instance (r : Run M) : Decidable r.Unbroken :=
  inferInstanceAs (Decidable (∀ k < r.actions.length, ∀ i ∈ M.ids, _ → _))

instance (r : Run M) : Decidable r.Punctual :=
  inferInstanceAs (Decidable (∀ k, (h : k < r.actions.length) → _))

end Run

/-! ## Watching a world -/

namespace World

variable {M : Roster} {w : World} {now : Instant} {seen : NodeId → Term → Instant → Prop}
  {i : NodeId} {r : Replica MemoryStorage} {n' : Node} {said : List Command}
  {heard? : Option (NodeId × Message)} {draw : Nat}

/-- A world at some instant, with the estimates that were seen. -/
def watch (w : World) (now : Instant) (seen : NodeId → Term → Instant → Prop) : Watch where
  timing? i := (w.node? i).map Node.timing
  sent := w.sent
  now := now
  seen := seen

/-- What is watched of a world in which one node has changed. -/
theorem watch_put (w : World) (i : NodeId) (r : Replica MemoryStorage) (out : List InFlight) :
    ({ w.put i (.up r) with sent := w.sent ++ out } : World).watch now seen =
      { w.watch now seen with
        timing? := Function.update (w.watch now seen).timing? i (some r.node.timing)
        sent := w.sent ++ out } := by
  have htiming : ∀ j, ((w.put i (.up r)).node? j).map Node.timing =
      Function.update (w.watch now seen).timing? i (some r.node.timing) j := by
    intro j
    by_cases hj : j = i
    · subst hj
      simp [node?, put_slot_self, Slot.node?]
    · rw [Function.update_of_ne hj]
      simp [watch, node?, put_slot_of_ne w _ hj]
  exact congrArg (fun timing? => (⟨timing?, w.sent ++ out, now, seen⟩ : Watch)) (funext htiming)

theorem watch_put_silent (w : World) (i : NodeId) (r : Replica MemoryStorage) :
    (w.put i (.up r)).watch now seen =
      { w.watch now seen with
        timing? := Function.update (w.watch now seen).timing? i (some r.node.timing) } := by
  have hput : ({ w.put i (.up r) with sent := w.sent ++ [] } : World).watch now seen = _ :=
    watch_put w i r []
  rwa [List.append_nil] at hput

/-- A node that is up acts. -/
theorem watch_act (hk : w.Kept M) (up : w.slot i = .up r)
    (deeds : Node.Deeds heard? now draw r.node n' said)
    (arrived : ∀ sender message, heard? = some (sender, message) → ⟨sender, i, message⟩ ∈ w.sent)
    (inRange : n'.record.currentTerm < Word.max) (h : (w.watch now seen).Timed M) :
    ∃ seen', (({ w.put i (.up (r.settle n')) with sent := w.sent ++ sends i said } :
        World).watch now seen').Timed M ∧ ∀ v t e, seen v t e → seen' v t e := by
  obtain ⟨hid, hseated, _, _⟩ := hk i r up
  have hup : (w.watch now seen).timing? r.node.id = some r.node.timing := by
    simp [watch, node?, hid, up, Slot.node?]
  obtain ⟨seen', htimed, hseen⟩ := h.deeds deeds hup hseated (hid.symm ▸ arrived) inRange
  refine ⟨seen', ?_, hseen⟩
  rw [hid] at htimed
  rw [watch_put, Replica.settle_timing]
  exact htimed

theorem watch_handle {event : Event} (hk : w.Kept M)
    (harrived : ∀ sender message, event = .message sender message →
      ⟨sender, i, message⟩ ∈ w.sent)
    (hstay : ∀ j, (w.node? j).isSome → ((w.handle i event now draw).node? j).isSome)
    (hrange : (w.handle i event now draw).InRange M) (h : (w.watch now seen).Timed M) :
    ∃ seen', ((w.handle i event now draw).watch now seen').Timed M ∧
      ∀ v t e, seen v t e → seen' v t e := by
  unfold handle at hstay hrange ⊢
  cases up : w.slot i with
  | down storage => exact ⟨seen, h, fun _ _ _ h => h⟩
  | up r =>
      simp only [up] at hstay hrange ⊢
      cases hhandle : r.handle event now draw with
      | error e =>
          have hdown := hstay i (by simp [node?, up, Slot.node?])
          simp [hhandle, node?, put_slot_self, Slot.node?] at hdown
      | ok result =>
          obtain ⟨r', result⟩ := result
          obtain ⟨n', hnode, rfl⟩ := Replica.handle_ok hhandle
          simp only [hhandle] at hrange ⊢
          refine watch_act hk up (Node.handle_deeds hnode) (fun sender message hheard => ?_) ?_ h
          · refine harrived sender message ?_
            cases event <;> simp [Event.heard?] at hheard
            obtain ⟨rfl, rfl⟩ := hheard
            rfl
          · have hterm : ((w.put i (.up (r.settle n'))).record i).currentTerm < Word.max :=
              hrange i (((hk i r up).id) ▸ (hk i r up).seated.member)
            rw [record_of_up (put_slot_self w i _)] at hterm
            exact congrArg (·.record.currentTerm) (r.settle_core n') ▸ hterm

theorem watch_request {i : NodeId} {request : Request} (hk : w.Kept M)
    (hrange : (w.step M (.request i request now)).InRange M) (h : (w.watch now seen).Timed M) :
    ∃ seen', ((w.step M (.request i request now)).watch now seen').Timed M ∧
      ∀ v t e, seen v t e → seen' v t e := by
  revert hrange
  unfold step
  simp only []
  split
  · exact fun _ => ⟨seen, h, fun _ _ _ h => h⟩
  · next r up =>
      intro hrange
      rcases r.serve_cases request now with hsame | ⟨operation, hsettle⟩
      · rw [hsame, ← up, put_slot]
        exact ⟨seen, h, fun _ _ _ h => h⟩
      · rw [hsettle] at hrange ⊢
        have hterm := hrange i ((hk i r up).id ▸ (hk i r up).seated.member)
        rw [record_of_up (put_slot_self w i _)] at hterm
        obtain ⟨seen', htimed, hseen⟩ := watch_act hk up
          (r.node.submit_deeds operation now 0) (fun _ _ h => nomatch h)
          (congrArg (·.record.currentTerm) (r.settle_core _) ▸ hterm) h
        refine ⟨seen', ?_, hseen⟩
        have hnothing : w.sent ++ sends i [] = w.sent := List.append_nil _
        rwa [hnothing] at htimed

/-- A node that starts over has promised nothing of its own. -/
theorem watch_restart {i : NodeId} {draw : Nat} (h : (w.watch now seen).Timed M) :
    ∃ seen', ((w.step M (.restart i now draw)).watch now seen').Timed M ∧
      ∀ v t e, seen v t e → seen' v t e := by
  have hidle : ∃ seen', (w.watch now seen').Timed M ∧ ∀ v t e, seen v t e → seen' v t e :=
    ⟨seen, h, fun _ _ _ h => h⟩
  unfold step
  simp only []
  split
  · exact hidle
  · next storage down =>
      split
      · split
        · exact hidle
        · next result hboot =>
            obtain ⟨n, hn, hwake⟩ := Replica.boot_ok hboot
            obtain ⟨f, hrole⟩ := Replica.restore_role hn
            have hrole : n.timing.role = .follower f := hrole
            have hnone : (w.watch now seen).timing? i = none := by
              simp [watch, node?, down, Slot.node?]
            have hwoken := h.wake hnone hrole
            rw [hwake]
            refine ⟨((w.watch now seen).put i n.timing []).seen, ?_, fun v t e he => Or.inl he⟩
            show ((w.put i (.up (Replica.wake n storage))).watch now _).Timed M
            rw [watch_put_silent]
            unfold Watch.put at hwoken
            rwa [sends_nil, List.append_nil] at hwoken
      · exact hidle

/-- Every step of a world keeps what leases rest on, as long as no node goes
down and the clock does not go back. -/
theorem watch_step {a : Action} (hk : w.Kept M)
    (hstay : ∀ j, (w.node? j).isSome → ((w.step M a).node? j).isSome)
    (hrange : (w.step M a).InRange M) (hclock : ∀ later, a.instant? = some later → now ≤ later)
    (h : (w.watch now seen).Timed M) :
    ∃ seen', ((w.step M a).watch (a.instant?.getD now) seen').Timed M ∧
      ∀ v t e, seen v t e → seen' v t e := by
  have hlater : (w.watch (a.instant?.getD now) seen).Timed M := by
    cases hinstant : a.instant? with
    | none => exact h
    | some later => exact h.tick (hclock later hinstant)
  have hidle : ∃ seen', (w.watch (a.instant?.getD now) seen').Timed M ∧
      ∀ v t e, seen v t e → seen' v t e := ⟨seen, hlater, fun _ _ _ h => h⟩
  cases a with
  | timer i timer later draw =>
      refine watch_handle hk (fun sender message h => ?_) hstay hrange hlater
      cases timer <;> exact nomatch h
  | deliver position later draw =>
      revert hstay hrange
      unfold step
      simp only []
      split
      · exact fun _ _ => hidle
      · next m hm =>
          intro hstay hrange
          refine watch_handle hk (fun sender message h => ?_) hstay hrange hlater
          obtain ⟨rfl, rfl⟩ := Event.message.inj h
          exact List.mem_of_getElem? hm
  | request i request later => exact watch_request hk hrange hlater
  | report i =>
      unfold step
      simp only []
      split
      · exact hidle
      · next r up =>
          have hsame : (w.watch now seen).timing? i = some r.takeApplied.2.node.timing := by
            simp [watch, node?, up, Slot.node?, Replica.takeApplied]
          refine ⟨seen, ?_, fun _ _ _ h => h⟩
          show ((w.put i (.up r.takeApplied.2)).watch now seen).Timed M
          rw [watch_put_silent, ← hsame, Function.update_eq_self]
          exact h
  | crash i =>
      revert hstay
      unfold step
      simp only []
      split
      · exact fun _ => hidle
      · next r up =>
          intro hstay
          have hdown := hstay i (by simp [node?, up, Slot.node?])
          simp [node?, put_slot_self, Slot.node?] at hdown
  | restart i later draw => exact watch_restart hlater

end World

/-! ## Runs -/

namespace Run

variable {M : Roster}

/-- No node outside the cluster is ever up. -/
theorem mem_of_up (r : Run M) {k : Nat} {i : NodeId} (h : ((r.state k).node? i).isSome) :
    i ∈ M.ids := by
  obtain ⟨n, hn⟩ := Option.isSome_iff_exists.mp h
  obtain ⟨replica, hup, _⟩ := World.exists_up_of_node? hn
  obtain ⟨hid, hseated, _, _⟩ := r.state_kept k i replica hup
  exact hid ▸ hseated.member

/-- A state can be watched: up to it the clock has not passed any instant of
the rest of the run. -/
def Watched (r : Run M) (k : Nat) (now : Instant) (seen : NodeId → Term → Instant → Prop) : Prop :=
  ((r.state k).watch now seen).Timed M ∧
    ∀ later ∈ (r.actions.drop k).filterMap Action.instant?, now ≤ later

variable {r : Run M} {k : Nat} {now : Instant} {seen : NodeId → Term → Instant → Prop}

theorem Watched.start (r : Run M) : r.Watched 0 0 fun _ _ _ => False := by
  refine ⟨?_, fun _ _ => Nat.zero_le _⟩
  constructor <;> intros <;>
    simp_all [World.watch, state, World.after, World.start, World.node?, Slot.node?]

theorem Watched.step (hclock : r.Clocked) (hup : r.Unbroken) (h : r.Watched k now seen) :
    ∃ now' seen', r.Watched (k + 1) now' seen' ∧ ∀ v t e, seen v t e → seen' v t e := by
  obtain ⟨htimed, hlater⟩ := h
  cases ha : r.actions[k]? with
  | none =>
      have hend := List.getElem?_eq_none_iff.mp ha
      refine ⟨now, seen, ⟨?_, ?_⟩, fun _ _ _ h => h⟩
      · rw [r.state_of_length_le hend]
        exact htimed
      · rw [List.drop_of_length_le (Nat.le_succ_of_le hend)]
        exact fun _ h => nomatch h
  | some a =>
      obtain ⟨hlt, hget⟩ := List.getElem?_eq_some_iff.mp ha
      have hdrop : r.actions.drop k = a :: r.actions.drop (k + 1) := by
        rw [List.drop_eq_getElem_cons hlt, hget]
      have hstay : ∀ j, ((r.state k).node? j).isSome →
          (((r.state k).step M a).node? j).isSome := by
        intro j hj
        rw [← r.state_succ ha]
        exact hup k hlt j (r.mem_of_up hj) hj
      have hrange := r.state_succ ha ▸ r.state_inRange (k + 1)
      have hnow : ∀ later, a.instant? = some later → now ≤ later := by
        intro later hl
        refine hlater later ?_
        rw [hdrop, List.filterMap_cons, hl]
        exact List.mem_cons_self
      obtain ⟨seen', htimed', hseen⟩ := World.watch_step (r.state_kept k) hstay hrange hnow htimed
      refine ⟨_, seen', ⟨r.state_succ ha ▸ htimed', ?_⟩, hseen⟩
      -- the rest of the run comes no earlier than this action
      intro later hl
      have hsorted : ((r.actions.drop k).filterMap Action.instant?).Pairwise (· ≤ ·) :=
        List.Pairwise.sublist ((List.drop_sublist k r.actions).filterMap _) hclock
      rw [hdrop, List.filterMap_cons] at hsorted
      cases hinstant : a.instant? with
      | none =>
          refine hlater later ?_
          rw [hdrop, List.filterMap_cons, hinstant]
          exact hl
      | some instant =>
          rw [hinstant] at hsorted
          exact (List.pairwise_cons.mp hsorted).1 later hl

/-- Any two states of a run can be watched, and what was seen in the earlier
has been seen in the later. -/
theorem exists_watches (hclock : r.Clocked) (hup : r.Unbroken) {m n : Nat} (hmn : m ≤ n) :
    ∃ now seen now' seen', ((r.state m).watch now seen).Timed M ∧
      ((r.state n).watch now' seen').Timed M ∧ ∀ v t e, seen v t e → seen' v t e := by
  have hgrow : ∀ (d k now seen), r.Watched k now seen → ∃ now' seen',
      r.Watched (k + d) now' seen' ∧ ∀ v t e, seen v t e → seen' v t e := by
    intro d
    induction d with
    | zero => exact fun k now seen h => ⟨now, seen, h, fun _ _ _ h => h⟩
    | succ d ih =>
        intro k now seen h
        obtain ⟨now₁, seen₁, h₁, hseen₁⟩ := ih k now seen h
        obtain ⟨now₂, seen₂, h₂, hseen₂⟩ := h₁.step hclock hup
        exact ⟨now₂, seen₂, h₂, fun v t e he => hseen₂ v t e (hseen₁ v t e he)⟩
  obtain ⟨d, rfl⟩ := Nat.exists_eq_add_of_le hmn
  obtain ⟨now, seen, h, _⟩ := hgrow m 0 _ _ (Watched.start r)
  rw [Nat.zero_add] at h
  obtain ⟨now', seen', h', hseen⟩ := hgrow d m now seen h
  exact ⟨now, seen, now', seen', h.1, h'.1, hseen⟩

end Run

end Quorum
