import Quorum.Proofs.Log.Matching

/-!
# Lagging logs

A leader asks a follower to build on the entry that it believes the follower
to hold, and goes back one entry for each refusal. `Lags` bounds how many
refusals there can be. A refusal takes one of them away (`Lags.lower`), and
entries that fit leave none (`holds_splice`), whatever else the two logs
hold.
-/

namespace Quorum.Log

variable {log source source' : Log} {sent i prev k : Nat}

/-- The follower's log and the leader's agree on the entry at some length, at
most `k` in front of the one that the next request would build on. -/
def Lags (source log : Log) (sent k : Nat) : Prop :=
  ∃ j, j ≤ sent ∧ sent ≤ j + k ∧ j ≤ source.length ∧ log.holds j (source.termAt j) = true

theorem termAt_of_prefix (h : source <+: source') (hi : i ≤ source.length) :
    source.termAt i = source'.termAt i := by
  rw [termAt, termAt, entry?_of_prefix h hi]

theorem Lags.grown (h : Lags source log sent k) (hs : source <+: source') :
    Lags source' log sent k := by
  obtain ⟨j, hle, hk, hj, hholds⟩ := h
  exact ⟨j, hle, hk, Nat.le_trans hj hs.length_le, termAt_of_prefix hs hj ▸ hholds⟩

theorem Lags.mono {k' : Nat} (h : Lags source log sent k) (hk : k ≤ k') :
    Lags source log sent k' := by
  obtain ⟨j, hle, hsent, hrest⟩ := h
  exact ⟨j, hle, Nat.le_trans hsent (Nat.add_le_add_left hk j), hrest⟩

/-- Nobody lags by more than all that it is believed to hold. -/
theorem lags_of_le (h : sent ≤ k) : Lags source log sent k :=
  ⟨0, Nat.zero_le _, (Nat.zero_add k).symm ▸ h, Nat.zero_le _, by simp [holds]⟩

/-- Who holds the whole log does not lag. -/
theorem lags_of_held (h : source <+: log) (k : Nat) : Lags source log source.length k := by
  have hterm : source.termAt source.length = log.termAt source.length :=
    termAt_of_prefix h (Nat.le_refl _)
  refine ⟨source.length, Nat.le_refl _, Nat.le_add_right _ k, Nat.le_refl _, ?_⟩
  rw [hterm, holds, beq_self_eq_true, Bool.or_true, Bool.and_true]
  exact decide_eq_true h.length_le

/-- If what a request builds on is refused, the lag was not over, and going
back one entry makes it less. -/
theorem Lags.lower (h : Lags source log sent k)
    (refused :
      log.holds (min sent source.length) (source.termAt (min sent source.length)) = false) :
    0 < k ∧ Lags source log (sent - 1) (k - 1) := by
  obtain ⟨j, hle, hk, hj, hholds⟩ := h
  have hne : j ≠ min sent source.length := by
    rintro rfl
    exact nomatch refused.symm.trans hholds
  exact ⟨by omega, j, by omega, by omega, hj, hholds⟩

/-- Grafted entries decide the terms of the places they are for. -/
theorem graft_term (old new : Log) : ∀ i, i < new.length →
    ((graft old new)[i]?).map (·.term) = (new[i]?).map (·.term) := by
  fun_induction graft old new with
  | case1 old => exact fun i hi => nomatch hi
  | case2 new _ => exact fun i _ => rfl
  | case3 o old e new hterm ih =>
      intro i hi
      cases i with
      | zero => simp [hterm]
      | succ i => simpa using ih i (by simpa using hi)
  | case4 o old e new hterm => exact fun i _ => rfl

theorem length_le_graft (old new : Log) : new.length ≤ (graft old new).length := by
  fun_induction graft old new with
  | case1 old => exact Nat.zero_le _
  | case2 new _ => exact Nat.le_refl _
  | case3 o old e new hterm ih => exact Nat.succ_le_succ ih
  | case4 o old e new hterm => exact Nat.le_refl _

/-- Entries that fit leave a log that agrees with the leader's on its last
entry. -/
theorem holds_splice (hprev : prev ≤ source.length)
    (fits : log.holds prev (source.termAt prev) = true) :
    (log.splice prev (source.drop prev)).holds source.length (source.termAt source.length) =
      true := by
  by_cases hall : prev = source.length
  · subst hall
    have hsame : log.splice source.length (source.drop source.length) = log := by
      rw [List.drop_length, splice, graft.eq_1, List.take_append_drop]
    rw [hsame]
    exact fits
  · have hlog : prev ≤ log.length := by
      rw [holds, Bool.and_eq_true] at fits
      exact of_decide_eq_true fits.1
    have hlength := length_le_graft (log.drop prev) (source.drop prev)
    rw [List.length_drop] at hlength
    -- the last entry that was sent decides the term at its place
    obtain ⟨s, hs⟩ : ∃ s, source.length = s + 1 := ⟨source.length - 1, by omega⟩
    have hterm := graft_term (log.drop prev) (source.drop prev) (s - prev)
      (by rw [List.length_drop]; omega)
    have hat : (log.splice prev (source.drop prev)).termAt (s + 1) = source.termAt (s + 1) := by
      have htake : (log.take prev).length = prev := List.length_take_of_le hlog
      rw [termAt, termAt, entry?_succ, entry?_succ, splice,
        List.getElem?_append_right (by rw [htake]; omega), htake, hterm, List.getElem?_drop,
        Nat.add_sub_cancel' (by omega)]
    rw [hs, holds, hat, beq_self_eq_true, Bool.or_true, Bool.and_true]
    refine decide_eq_true ?_
    rw [splice, List.length_append, List.length_take_of_le hlog]
    exact Nat.sub_le_iff_le_add'.mp (hs ▸ hlength)

end Quorum.Log
