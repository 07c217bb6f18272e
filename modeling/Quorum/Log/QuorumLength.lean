import Quorum.Log.Index

/-!
# What a quorum holds

How much of a log a quorum of the servers hold, from how much each of them
holds: the largest length that enough of the lengths reach (`le_quorumLength_iff`).
It stands at the quorum's place among the lengths in falling order
(`quorumLength_eq_sorted`).
-/

namespace Quorum

/-- The largest length that at least `quorum` of the given lengths reach, and
zero if there is none. -/
def quorumLength (lengths : List LogIndex) (quorum : Nat) : LogIndex :=
  if quorum = 0 then 0
  else (lengths.filter fun l => quorum ≤ lengths.countP (l ≤ ·)).foldl max 0

variable {lengths : List Nat} {n quorum : Nat}

/-- At least a quorum of the lengths reach the quorum's length. -/
theorem quorum_le_countP (hpos : 0 < quorumLength lengths quorum) :
    quorum ≤ lengths.countP (quorumLength lengths quorum ≤ ·) := by
  unfold quorumLength at hpos ⊢
  by_cases hq : quorum = 0
  · rw [if_pos hq] at hpos
    exact absurd hpos (Nat.lt_irrefl 0)
  · rw [if_neg hq, List.foldl_max] at hpos ⊢
    -- the maximum is one of the lengths that a quorum reaches
    cases hmax : (lengths.filter fun l => quorum ≤ lengths.countP (l ≤ ·)).max? with
    | none => rw [hmax] at hpos; exact absurd hpos (Nat.lt_irrefl 0)
    | some l =>
        have hl : quorum ≤ lengths.countP (l ≤ ·) := by
          simpa using (List.mem_filter.mp (List.max?_mem hmax)).2
        simpa using hl

/-- Fewer lengths reach further. -/
theorem countP_le_anti {m : Nat} (h : n ≤ m) :
    lengths.countP (m ≤ ·) ≤ lengths.countP (n ≤ ·) := by
  refine List.countP_mono_left fun l _ hl => ?_
  simp only [decide_eq_true_eq] at hl ⊢
  exact Nat.le_trans h hl

/-- What a quorum of the lengths reach, the quorum's length reaches. -/
theorem le_quorumLength (hquorum : 0 < quorum) (h : quorum ≤ lengths.countP (n ≤ ·)) :
    n ≤ quorumLength lengths quorum := by
  -- the least of the lengths that reach so far is reached by as many
  cases hleast : (lengths.filter (n ≤ ·)).min? with
  | none =>
      rw [List.countP_eq_length_filter, List.min?_eq_none_iff.mp hleast] at h
      exact absurd h (Nat.not_le_of_lt hquorum)
  | some m =>
      obtain ⟨hmem, hall⟩ := List.min?_eq_some_iff.mp hleast
      obtain ⟨hm, hn⟩ := List.mem_filter.mp hmem
      have hreached : quorum ≤ lengths.countP (m ≤ ·) := by
        refine Nat.le_trans h (List.countP_mono_left fun l hl hnl => ?_)
        exact decide_eq_true (hall l (List.mem_filter.mpr ⟨hl, hnl⟩))
      rw [quorumLength, if_neg (Nat.ne_of_gt hquorum), List.foldl_max]
      have hin : m ∈ lengths.filter fun l => quorum ≤ lengths.countP (l ≤ ·) :=
        List.mem_filter.mpr ⟨hm, decide_eq_true hreached⟩
      exact Nat.le_trans (of_decide_eq_true hn)
        (Nat.le_trans (List.le_max?_getD_of_mem hin) (Nat.le_max_right _ _))

/-- The quorum's length is the largest that a quorum of the lengths reach. -/
theorem le_quorumLength_iff (hquorum : 0 < quorum) (hpos : 0 < n) :
    n ≤ quorumLength lengths quorum ↔ quorum ≤ lengths.countP (n ≤ ·) := by
  refine ⟨fun h => ?_, le_quorumLength hquorum⟩
  exact Nat.le_trans (quorum_le_countP (Nat.lt_of_lt_of_le hpos h)) (countP_le_anti h)

/-! ## By sorting -/

/-- Among lengths in falling order the first ones reach furthest. -/
theorem lt_countP_iff {k : Nat} (falling : lengths.Pairwise (· ≥ ·)) :
    k < lengths.countP (n ≤ ·) ↔ ∃ l, lengths[k]? = some l ∧ n ≤ l := by
  induction lengths generalizing k with
  | nil => exact iff_of_false (Nat.not_lt_zero k) fun ⟨_, hl, _⟩ => nomatch hl
  | cons a rest ih =>
      obtain ⟨hfirst, hrest⟩ := List.pairwise_cons.mp falling
      by_cases hreach : n ≤ a
      · rw [List.countP_cons, if_pos (decide_eq_true hreach)]
        cases k with
        | zero => exact iff_of_true (Nat.succ_pos _) ⟨a, rfl, hreach⟩
        | succ k => exact Nat.succ_lt_succ_iff.trans (ih hrest)
      · -- what the first one does not reach, none does
        have hnone : ∀ l ∈ a :: rest, ¬ n ≤ l := by
          intro l hl hle
          rcases List.mem_cons.mp hl with rfl | hl
          · exact hreach hle
          · exact hreach (Nat.le_trans hle (hfirst l hl))
        have hcount : (a :: rest).countP (n ≤ ·) = 0 :=
          List.countP_eq_zero.mpr fun l hl => by simpa using hnone l hl
        rw [hcount]
        exact iff_of_false (Nat.not_lt_zero k) fun ⟨l, hl, hle⟩ =>
          hnone l (List.mem_of_getElem? hl) hle

/-- The quorum's length stands at the quorum's place among the lengths in
falling order. -/
theorem quorumLength_eq_sorted (hquorum : 0 < quorum) :
    quorumLength lengths quorum =
      ((lengths.mergeSort fun a b => decide (b ≤ a))[quorum - 1]?).getD 0 := by
  have hperm : (lengths.mergeSort fun a b => decide (b ≤ a)).Perm lengths :=
    List.mergeSort_perm lengths _
  have hfalling : (lengths.mergeSort fun a b => decide (b ≤ a)).Pairwise (· ≥ ·) := by
    refine (List.pairwise_mergeSort (fun a b c hab hbc => ?_) (fun a b => ?_) lengths).imp
      of_decide_eq_true
    · exact decide_eq_true (Nat.le_trans (of_decide_eq_true hbc) (of_decide_eq_true hab))
    · simpa using Nat.le_total b a
  -- both are reached by the same lengths
  have hsame : ∀ m, m ≤ quorumLength lengths quorum ↔
      m ≤ ((lengths.mergeSort fun a b => decide (b ≤ a))[quorum - 1]?).getD 0 := by
    intro m
    rcases Nat.eq_zero_or_pos m with rfl | hm
    · exact iff_of_true (Nat.zero_le _) (Nat.zero_le _)
    have hplace : quorum ≤ lengths.countP (m ≤ ·) ↔ quorum - 1 < lengths.countP (m ≤ ·) := by
      omega
    rw [le_quorumLength_iff hquorum hm, hplace, ← hperm.countP_eq, lt_countP_iff hfalling]
    cases (lengths.mergeSort fun a b => decide (b ≤ a))[quorum - 1]? with
    | none => exact iff_of_false (fun ⟨_, hl, _⟩ => nomatch hl) (Nat.not_le_of_lt hm)
    | some l => exact ⟨fun ⟨_, hl, hle⟩ => Option.some.inj hl ▸ hle, fun hle => ⟨l, rfl, hle⟩⟩
  exact Nat.le_antisymm ((hsame _).mp (Nat.le_refl _)) ((hsame _).mpr (Nat.le_refl _))

end Quorum
