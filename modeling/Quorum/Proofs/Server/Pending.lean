import Quorum.PendingWrites

/-!
# Writes that wait

Whoever waits for a write has handed it in, and stays until it is settled or
gives way to another one at its index. With one write at most for each index
(`PendingWrites.Distinct`) nobody is lost on the way or answered twice.
-/

namespace Quorum.PendingWrites

variable {ω : Type} {p : PendingWrites ω} {i : LogIndex} {w : PendingWrite ω} {waiter : ω}
  {entry : LogEntry} {applied : List (LogIndex × LogEntry)}

/-! ## Which writes wait -/

theorem erase_subset (p : PendingWrites ω) (i : LogIndex) : (p.erase i).writes ⊆ p.writes := by
  intro w hw
  exact (List.mem_filter.mp hw).1

theorem at?_mem (h : p.at? i = some w) : w ∈ p.writes ∧ w.index = i := by
  have hindex := List.find?_some h
  exact ⟨List.mem_of_find?_eq_some h, by simpa using hindex⟩

theorem insert_subset (p : PendingWrites ω) (i : LogIndex) (e : LogEntry) (waiter : ω) :
    (p.insert i e waiter).1.writes ⊆ ⟨i, e, waiter⟩ :: p.writes := by
  intro w hw
  rcases List.mem_cons.mp hw with rfl | hw
  · exact List.mem_cons_self
  · exact List.mem_cons_of_mem _ (erase_subset p i hw)

theorem resolve_subset (p : PendingWrites ω) (applied : List (LogIndex × LogEntry)) :
    (p.resolve applied).1.writes ⊆ p.writes := by
  induction applied generalizing p with
  | nil => exact List.Subset.refl _
  | cons entry rest ih =>
      unfold resolve
      split
      · exact ih p
      · exact List.Subset.trans (ih _) (erase_subset p _)

/-- Every settled write has waited, and is told whether the entry applied at
its index is its own. -/
theorem resolve_settled {settled : ω × Bool} (h : settled ∈ (p.resolve applied).2) :
    ∃ w ∈ p.writes, w.waiter = settled.1 ∧
      ∃ e, (w.index, e) ∈ applied ∧ settled.2 = (w.entry == e) := by
  induction applied generalizing p with
  | nil => simp [resolve] at h
  | cons entry rest ih =>
      obtain ⟨i, e⟩ := entry
      unfold resolve at h
      split at h
      · obtain ⟨w, hw, hwaiter, f, hf, htold⟩ := ih h
        exact ⟨w, hw, hwaiter, f, List.mem_cons_of_mem _ hf, htold⟩
      · next w hat =>
          obtain ⟨hw, rfl⟩ := at?_mem hat
          rcases List.mem_cons.mp h with rfl | h
          · exact ⟨w, hw, rfl, e, List.mem_cons_self, rfl⟩
          · obtain ⟨w', hw', hwaiter, f, hf, htold⟩ := ih h
            exact ⟨w', erase_subset p _ hw', hwaiter, f, List.mem_cons_of_mem _ hf, htold⟩

/-! ## Who waits -/

/-- No two writes wait at one index. -/
def Distinct (p : PendingWrites ω) : Prop := (p.writes.map (·.index)).Nodup

/-- Who waits. -/
def waiters (p : PendingWrites ω) : List ω := p.writes.map (·.waiter)

theorem Distinct.erase (h : p.Distinct) (i : LogIndex) : (p.erase i).Distinct :=
  h.sublist (List.filter_sublist.map _)

theorem erase_of_at?_none (h : p.at? i = none) : p.erase i = p := by
  have hother : ∀ w ∈ p.writes, (w.index != i) = true := by
    intro w hw
    have hne := List.find?_eq_none.mp h w hw
    simpa using hne
  show (⟨p.writes.filter (·.index != i)⟩ : PendingWrites ω) = p
  rw [List.filter_eq_self.mpr hother]

/-- Where a write waits, nobody else does: without it the others are left. -/
theorem Distinct.perm_erase (h : p.Distinct) (hat : p.at? i = some w) :
    p.writes.Perm (w :: (p.erase i).writes) := by
  obtain ⟨writes⟩ := p
  show writes.Perm (w :: writes.filter (·.index != i))
  replace h : (writes.map (·.index)).Nodup := h
  replace hat : writes.find? (·.index == i) = some w := hat
  induction writes with
  | nil => cases hat
  | cons a rest ih =>
      rw [List.map_cons, List.nodup_cons] at h
      obtain ⟨hnew, hrest⟩ := h
      by_cases ha : a.index = i
      · rw [List.find?_cons_of_pos (by simpa using ha)] at hat
        obtain rfl := Option.some.inj hat
        have hother : ∀ b ∈ rest, (b.index != i) = true := by
          intro b hb
          have hne : b.index ≠ i := fun hbi =>
            hnew (List.mem_map.mpr ⟨b, hb, hbi.trans ha.symm⟩)
          simpa using hne
        rw [List.filter_cons_of_neg (by simpa using ha), List.filter_eq_self.mpr hother]
      · rw [List.find?_cons_of_neg (by simpa using ha)] at hat
        rw [List.filter_cons_of_pos (by simpa using ha)]
        exact ((ih hrest hat).cons a).trans (.swap w a _)

theorem Distinct.insert (h : p.Distinct) (i : LogIndex) (entry : LogEntry) (waiter : ω) :
    (p.insert i entry waiter).1.Distinct := by
  show (i :: (p.erase i).writes.map (·.index)).Nodup
  refine List.nodup_cons.mpr ⟨fun hi => ?_, h.erase i⟩
  obtain ⟨w, hw, hindex⟩ := List.mem_map.mp hi
  have hkept := (List.mem_filter.mp hw).2
  simp [hindex] at hkept

/-- Who waits after a write has been added, with the one that has given way, is
who waited before and the newcomer. -/
theorem Distinct.insert_perm (h : p.Distinct) (i : LogIndex) (entry : LogEntry) (waiter : ω) :
    ((p.insert i entry waiter).1.waiters ++ (p.insert i entry waiter).2.toList).Perm
      (waiter :: p.waiters) := by
  show (waiter :: ((p.erase i).writes.map (·.waiter) ++ ((p.at? i).map (·.waiter)).toList)).Perm _
  refine .cons waiter ?_
  cases hat : p.at? i with
  | none =>
      rw [erase_of_at?_none hat]
      exact .of_eq (List.append_nil _)
  | some w => exact List.perm_append_singleton _ _ |>.trans ((h.perm_erase hat).map _).symm

theorem Distinct.resolve (h : p.Distinct) (applied : List (LogIndex × LogEntry)) :
    (p.resolve applied).1.Distinct := by
  induction applied generalizing p with
  | nil => exact h
  | cons place rest ih =>
      unfold PendingWrites.resolve
      split
      · exact ih h
      · exact ih (h.erase _)

/-- Who waits after writes have been settled, with those who were settled, is
who waited before. -/
theorem Distinct.resolve_perm (h : p.Distinct) (applied : List (LogIndex × LogEntry)) :
    ((p.resolve applied).1.waiters ++ (p.resolve applied).2.map (·.1)).Perm p.waiters := by
  induction applied generalizing p with
  | nil => exact .of_eq (List.append_nil _)
  | cons place rest ih =>
      unfold PendingWrites.resolve
      split
      · exact ih h
      · next w hat =>
          have hrest := ih (h.erase place.1)
          refine List.perm_middle.trans ?_
          exact (hrest.cons w.waiter).trans ((h.perm_erase hat).map PendingWrite.waiter).symm

theorem Distinct.retain (h : p.Distinct) (keep : ω → Bool) : (p.retain keep).Distinct :=
  h.sublist (List.filter_sublist.map _)

theorem waiters_retain (p : PendingWrites ω) (keep : ω → Bool) :
    (p.retain keep).waiters = p.waiters.filter keep := by
  rw [waiters, waiters, List.filter_map]
  rfl

end Quorum.PendingWrites
