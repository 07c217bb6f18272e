import Quorum.Proofs.Handlers.Election
import Quorum.Proofs.Handlers.Timing

/-!
# Saving and applying

What a replica does around the handlers of its node: the record is saved
before anything is sent, and whatever is committed is applied
(`Replica.settle`). A step of a world is described in these terms
(`World.step_turn`): one member acts, crashes or wakes up.
-/

namespace Quorum

namespace Replica

variable {r r' : Replica MemoryStorage} {n n' : Node} {event : Event} {now : Instant}
  {draw : Nat} {result : Except Empty (List Command)}

/-- The replica whose node has become `n'`, with its record saved and what it
committed applied. -/
def settle (r : Replica MemoryStorage) (n' : Node) : Replica MemoryStorage :=
  ({ r with node := n' }.persist).1.applyCommitted

/-- The replica that wakes up with a node over its storage. -/
def wake (n : Node) (storage : MemoryStorage) : Replica MemoryStorage :=
  { ({ node := n, store := .empty, storage, applied := [] } : Replica MemoryStorage).applyCommitted
      with applied := [] }

theorem numbered_entries (offset : LogIndex) (entries : List LogEntry) :
    (Node.numbered offset entries).map (·.2) = entries := by
  refine List.ext_getElem? fun i => ?_
  simp [Node.numbered, Function.comp_def]

@[simp] theorem applyCommitted_store (r : Replica MemoryStorage) :
    r.applyCommitted.store = r.store.applyAll r.node.unapplied := by
  show r.store.applyAll ((Node.numbered _ _).map (·.2)) = _
  rw [numbered_entries]

theorem settle_eq (r : Replica MemoryStorage) (n' : Node) :
    r.settle n' = ({ r with
      node := { n' with unsaved := false }
      storage :=
        if n'.unsaved then ⟨n'.record, r.storage.saves + 1⟩ else r.storage } :
      Replica MemoryStorage).applyCommitted := by
  unfold settle persist Node.takeUnsaved
  simp only []
  split <;> rfl

@[simp] theorem settle_core (r : Replica MemoryStorage) (n' : Node) :
    (r.settle n').node.core = n'.core := by
  rw [settle_eq]
  rfl

/-- Saving and applying leave alone what leases rest on. -/
theorem settle_timing (r : Replica MemoryStorage) (n' : Node) :
    (r.settle n').node.timing = n'.timing := by
  rw [settle_eq]
  rfl

theorem handle_ok (h : r.handle event now draw = .ok (r', result)) :
    ∃ n', r.node.handle event now draw = .ok (n', always result) ∧ r' = r.settle n' := by
  obtain ⟨⟨n', commands⟩, hnode, h⟩ := exists_of_bind_ok h
  refine ⟨n', ?_⟩
  simp only [] at h
  split at h
  · next e _ => exact e.elim
  · obtain ⟨rfl, rfl⟩ := h
    exact ⟨hnode, rfl⟩

theorem restore_ok {i : NodeId} {peers : List NodeId} {config : TimerConfig} {record : Record}
    (h : Node.restore i peers config record now draw = .ok n) :
    n.id = i ∧ n.peers = peers ∧ n.lastApplied = 0 ∧ n.unsaved = false ∧
      n.core = ⟨{ record with commitLength := min record.commitLength record.log.length },
        .passive⟩ := by
  obtain ⟨electionAt, _, h⟩ := exists_of_bind_ok h
  obtain rfl := Except.ok.inj h
  exact ⟨rfl, rfl, rfl, rfl, rfl⟩

/-- Who wakes up follows. -/
theorem restore_role {i : NodeId} {peers : List NodeId} {config : TimerConfig} {record : Record}
    (h : Node.restore i peers config record now draw = .ok n) : ∃ f, n.role = .follower f := by
  obtain ⟨electionAt, _, h⟩ := exists_of_bind_ok h
  obtain rfl := Except.ok.inj h
  exact ⟨_, rfl⟩

theorem boot_ok {i : NodeId} {peers : List NodeId} {config : TimerConfig}
    {storage : MemoryStorage} {result : Except Empty (Replica MemoryStorage)}
    (h : boot i peers config storage now draw = .ok result) :
    ∃ n, Node.restore i peers config storage.record now draw = .ok n ∧
      always result = wake n storage := by
  obtain ⟨n, hn, h⟩ := exists_of_bind_ok h
  obtain rfl := Except.ok.inj h
  exact ⟨n, hn, rfl⟩

/-- A request is answered at once or leads to an operation of the node. -/
theorem serve_cases (r : Replica MemoryStorage) (request : Request) (now : Instant) :
    (r.serve request now).1 = r ∨
      ∃ operation, (r.serve request now).1 = r.settle (r.node.submit operation).1 := by
  unfold serve
  split
  · exact .inl rfl
  · split
    · exact .inl rfl
    · split
      · exact .inl rfl
      · next key value _ =>
          split
          · exact .inl rfl
          · next n' index entry hsubmit =>
              split
              · next e _ => exact e.elim
              · next r' hsaved =>
                  refine .inr ⟨.set key value, ?_⟩
                  rw [hsubmit, settle, hsaved]

/-- What holds of a replica at all times, in whatever way it came about: it is
the member that it should be, and its medium knows its term. -/
structure Kept (M : Roster) (i : NodeId) (r : Replica MemoryStorage) : Prop where
  id : r.node.id = i
  seated : r.node.Seated M
  saved : r.node.unsaved = false
  term : r.storage.record.currentTerm = r.node.record.currentTerm

variable {M : Roster} {i : NodeId} {heard : List InFlight} {commands : List Command}

theorem Kept.wake {storage : MemoryStorage} {peers : List NodeId} {config : TimerConfig}
    (hmember : i ∈ M.ids) (hpeers : peers = M.peers i)
    (h : Node.restore i peers config storage.record now draw = .ok n) :
    (Replica.wake n storage).Kept M i := by
  obtain ⟨hid, hpeer, _, hsaved, hcore⟩ := restore_ok h
  have hrecord : n.record.currentTerm = storage.record.currentTerm :=
    congrArg (·.record.currentTerm) hcore
  exact ⟨hid, ⟨hid ▸ hmember, hpeer.trans (hid ▸ hpeers)⟩, hsaved, hrecord.symm⟩

theorem Kept.settle (h : r.Kept M i) (hf : r.node.Frame n') : (r.settle n').Kept M i := by
  rw [settle_eq]
  refine ⟨hf.id.trans h.id, ?_, rfl, ?_⟩
  · exact ⟨hf.id ▸ h.seated.member, by
      show n'.peers = M.peers n'.id
      rw [hf.peers, hf.id]
      exact h.seated.peers⟩
  · show (if n'.unsaved then _ else r.storage).record.currentTerm = n'.record.currentTerm
    -- a record that is not marked for saving is the one that was saved
    split
    · rfl
    · next hno => rw [h.term, (hf.saved (by simpa using hno)).2]

end Replica

/-! ## Steps of a world -/

namespace World

variable {M : Roster} {w w' : World} {i : NodeId}

/-- Every replica of a world is in order. -/
def Kept (M : Roster) (w : World) : Prop :=
  ∀ i r, w.slot i = .up r → r.Kept M i

/-- What one step does. -/
inductive Turn (M : Roster) (w : World) : World → Prop
  | idle : Turn M w w
  /-- A node acts: it saves, applies and sends. -/
  | act {i : NodeId} {r : Replica MemoryStorage} {n' : Node} {commands : List Command}
      (up : w.slot i = .up r) (steps : r.node.Steps M w.sent n' commands) :
      Turn M w { w.put i (.up (r.settle n')) with sent := w.sent ++ sends i commands }
  | report {i : NodeId} {r : Replica MemoryStorage} (up : w.slot i = .up r) :
      Turn M w (w.put i (.up r.takeApplied.2))
  | crash {i : NodeId} {r : Replica MemoryStorage} (up : w.slot i = .up r) :
      Turn M w (w.put i (.down r.storage))
  | wake {i : NodeId} {storage : MemoryStorage} {n : Node} {now : Instant} {draw : Nat}
      (member : i ∈ M.ids) (down : w.slot i = .down storage)
      (restored : Node.restore i (M.peers i) (M.config i) storage.record now draw = .ok n) :
      Turn M w (w.put i (.up (Replica.wake n storage)))

/-- What an action does, in terms of the handlers of the node that acts. -/
inductive Beat (M : Roster) (w : World) (action : Action) : World → Prop
  /-- Nothing happens to a node that is up. -/
  | idle (aside : ∀ i event, w.brings action = some (i, event) → w.node? i = none) :
      Beat M w action w
  /-- An event is handled. -/
  | handle {i : NodeId} {r : Replica MemoryStorage} {event : Event} {now : Instant} {draw : Nat}
      {n' : Node} {commands : List Command} (moment : action.instant? = some now)
      (brings : w.brings action = some (i, event)) (up : w.slot i = .up r)
      (handled : r.node.handle event now draw = .ok (n', commands)) :
      Beat M w action { w.put i (.up (r.settle n')) with sent := w.sent ++ sends i commands }
  /-- A request of a client leads to an operation. -/
  | submit {i : NodeId} {r : Replica MemoryStorage} {operation : Operation}
      (quiet : w.brings action = none) (up : w.slot i = .up r) :
      Beat M w action (w.put i (.up (r.settle (r.node.submit operation).1)))
  | report {i : NodeId} {r : Replica MemoryStorage} (quiet : w.brings action = none)
      (up : w.slot i = .up r) : Beat M w action (w.put i (.up r.takeApplied.2))
  /-- A node crashes, or stops at the end of the clock. -/
  | crash {i : NodeId} {r : Replica MemoryStorage}
      (aside : ∀ j event, w.brings action = some (j, event) → j = i) (up : w.slot i = .up r) :
      Beat M w action (w.put i (.down r.storage))
  | wake {i : NodeId} {storage : MemoryStorage} {n : Node} {now : Instant} {draw : Nat}
      (quiet : w.brings action = none) (member : i ∈ M.ids) (down : w.slot i = .down storage)
      (restored : Node.restore i (M.peers i) (M.config i) storage.record now draw = .ok n) :
      Beat M w action (w.put i (.up (Replica.wake n storage)))

theorem put_slot (w : World) (i : NodeId) : w.put i (w.slot i) = w := by
  rw [put, Function.update_eq_self]

theorem handle_beat {action : Action} {event : Event} {now : Instant}
    (moment : action.instant? = some now) (brings : w.brings action = some (i, event))
    (draw : Nat) : Beat M w action (w.handle i event now draw) := by
  have honly : ∀ j event', w.brings action = some (j, event') → j = i := fun j event' h =>
    (Prod.mk.inj (Option.some.inj (h.symm.trans brings))).1
  unfold handle
  split
  · next storage hdown =>
      refine .idle fun j event' h => ?_
      rw [honly j event' h, node?, hdown]
      rfl
  · next r hr =>
      split
      · exact .crash honly hr
      · next r' result hhandle =>
          obtain ⟨n', hnode, rfl⟩ := Replica.handle_ok hhandle
          exact .handle moment brings hr hnode

/-- Every action is something that one member does. -/
theorem step_beat (w : World) (action : Action) : Beat M w action (w.step M action) := by
  have hidle : w.brings action = none → Beat M w action w := fun quiet =>
    .idle fun i event h => nomatch quiet.symm.trans h
  cases action with
  | timer i timer now draw => exact handle_beat rfl rfl draw
  | deliver position now draw =>
      unfold step
      simp only []
      split
      · next hnone => exact hidle (by rw [brings, hnone]; rfl)
      · next m hm => exact handle_beat rfl (by rw [brings, hm]; rfl) draw
  | request i request now =>
      unfold step
      simp only []
      split
      · exact hidle rfl
      · next r hr =>
          rcases r.serve_cases request now with hsame | ⟨operation, hsettle⟩
          · rw [hsame, ← hr, put_slot]
            exact hidle rfl
          · rw [hsettle]
            exact .submit rfl hr
  | report i =>
      unfold step
      simp only []
      split
      · exact hidle rfl
      · next r hr => exact .report rfl hr
  | crash i =>
      unfold step
      simp only []
      split
      · exact hidle rfl
      · next r hr => exact .crash (fun j event h => nomatch h) hr
  | restart i now draw =>
      unfold step
      simp only []
      split
      · exact hidle rfl
      · next storage hdown =>
          split
          · next hmember =>
              split
              · exact hidle rfl
              · next result hboot =>
                  obtain ⟨n, hn, hwake⟩ := Replica.boot_ok hboot
                  rw [hwake]
                  exact .wake rfl hmember hdown hn
          · exact hidle rfl

theorem Beat.turn {action : Action} (h : Beat M w action w') (hk : w.Kept M) : Turn M w w' := by
  cases h with
  | idle aside => exact .idle
  | handle moment brings up handled =>
      obtain ⟨hid, hseat, _, _⟩ := hk _ _ up
      refine .act up (Node.handle_steps hseat (fun sender message hevent => ?_) handled)
      rw [hid]
      exact mem_sent_of_brings (hevent ▸ brings)
  | @submit i r operation quiet up =>
      have hsteps : r.node.Steps M w.sent (r.node.submit operation).1 [] :=
        Node.submit_steps (hk i r up).seated
      have hact := Turn.act up hsteps
      rwa [sends_nil, List.append_nil] at hact
  | report quiet up => exact .report up
  | crash aside up => exact .crash up
  | wake quiet member down restored => exact .wake member down restored

/-- Every step of a world is a turn of one member. -/
theorem step_turn (hk : w.Kept M) (action : Action) : Turn M w (w.step M action) :=
  (step_beat w action).turn hk

/-! ## What no step changes -/

theorem put_slot_self (w : World) (i : NodeId) (slot : Slot) : (w.put i slot).slot i = slot :=
  Function.update_self ..

theorem put_slot_of_ne {j : NodeId} (w : World) (slot : Slot) (hj : j ≠ i) :
    (w.put i slot).slot j = w.slot j :=
  Function.update_of_ne hj ..

/-- A change of one member keeps a world in order if its new replica is. -/
theorem Kept.put {slot : Slot} (hk : w.Kept M)
    (hslot : ∀ r, slot = .up r → r.Kept M i) : (w.put i slot).Kept M :=
  (Function.forall_update_iff w.slot fun j slot => ∀ r, slot = .up r → r.Kept M j).mpr
    ⟨hslot, fun j _ => hk j⟩

theorem Turn.kept (h : Turn M w w') (hk : w.Kept M) : w'.Kept M := by
  cases h with
  | idle => exact hk
  | act up steps =>
      refine hk.put fun r hr => ?_
      obtain rfl := Slot.up.inj hr
      exact (hk _ _ up).settle steps.frame
  | report up =>
      refine hk.put fun r hr => ?_
      obtain rfl := Slot.up.inj hr
      obtain ⟨hid, hseat, hsaved, hterm⟩ := hk _ _ up
      exact ⟨hid, hseat, hsaved, hterm⟩
  | crash up => exact hk.put fun r hr => nomatch hr
  | wake member down restored =>
      refine hk.put fun r hr => ?_
      obtain rfl := Slot.up.inj hr
      exact .wake member rfl restored

/-- The term of a member never falls, be it up or down. -/
theorem Turn.term_le (h : Turn M w w') (hk : w.Kept M) (j : NodeId) :
    (w.record j).currentTerm ≤ (w'.record j).currentTerm := by
  have hput : ∀ {i slot}, (w.record i).currentTerm ≤ slot.record.currentTerm →
      (w.record j).currentTerm ≤ ((w.put i slot).record j).currentTerm := fun {i slot} hle => by
    by_cases hj : j = i
    · subst hj
      rw [record, record, put_slot_self]
      exact hle
    · exact Nat.le_of_eq (congrArg (·.record.currentTerm) (put_slot_of_ne w slot hj).symm)
  cases h with
  | idle => exact Nat.le_refl _
  | act up steps =>
      refine hput ?_
      rw [record_of_up up]
      refine Nat.le_trans steps.frame.term_le (Nat.le_of_eq ?_)
      exact (congrArg (·.record.currentTerm) (Replica.settle_core _ _)).symm
  | report up =>
      refine hput ?_
      rw [record_of_up up]
      exact Nat.le_refl _
  | crash up =>
      refine hput ?_
      rw [record_of_up up]
      exact Nat.le_of_eq (hk _ _ up).term.symm
  | wake member down restored =>
      refine hput ?_
      rw [record, down]
      obtain ⟨_, _, _, _, hcore⟩ := Replica.restore_ok restored
      exact Nat.le_of_eq (congrArg (·.record.currentTerm) hcore).symm

theorem kept_start (M : Roster) : start.Kept M := fun _ _ h => nomatch h

theorem Kept.after (hk : w.Kept M) (actions : List Action) :
    (actions.foldl (step M) w).Kept M := by
  induction actions generalizing w with
  | nil => exact hk
  | cons action rest ih => exact ih ((step_turn hk action).kept hk)

theorem Kept.term_le_after (hk : w.Kept M) (actions : List Action) (j : NodeId) :
    (w.record j).currentTerm ≤ ((actions.foldl (step M) w).record j).currentTerm := by
  induction actions generalizing w with
  | nil => exact Nat.le_refl _
  | cons action rest ih =>
      have hturn := step_turn hk action
      exact Nat.le_trans (hturn.term_le hk j) (ih (hturn.kept hk))

end World

theorem Run.state_kept {M : Roster} (r : Run M) (k : Nat) : (r.state k).Kept M :=
  (World.kept_start M).after _

/-- Between two states of a run one member does something. -/
theorem Run.exists_beat {M : Roster} (r : Run M) (k : Nat) :
    ∃ action, World.Beat M (r.state k) action (r.state (k + 1)) := by
  cases ha : r.actions[k]? with
  | none =>
      rw [r.state_of_length_le (List.getElem?_eq_none_iff.mp ha)]
      exact ⟨.report 0, .idle fun i event h => nomatch h⟩
  | some a => exact ⟨a, r.state_succ ha ▸ World.step_beat _ a⟩

/-- A run in which no term reaches the largest word at its end has never been
in one. -/
theorem Run.state_inRange {M : Roster} (r : Run M) (k : Nat) : (r.state k).InRange M := by
  intro i hi
  have hk := (World.kept_start M).after (r.actions.take k)
  have hle := hk.term_le_after (r.actions.drop k) i
  rw [← List.foldl_append, List.take_append_drop] at hle
  exact Nat.lt_of_le_of_lt hle (r.inRange i hi)

end Quorum
