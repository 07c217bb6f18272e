import Quorum.Log.Basic

/-!
# How far a leader commits

What `commitPoint` promises of the length that a quorum holds: a leader that
moves its commit length forward stops at an entry of its own term, within that
length (`commitPoint_spec`), and at none too early (`le_commitPoint`).
-/

namespace Quorum

variable {log : Log} {term : Term} {committed held : Nat}

namespace Log

theorem lastOfTerm_spec {top : Nat} (h : committed < log.lastOfTerm term committed top) :
    log.termAt (log.lastOfTerm term committed top) = term ∧
      log.lastOfTerm term committed top ≤ top := by
  induction top with
  | zero => exact absurd h (Nat.lt_irrefl committed)
  | succ i ih =>
      unfold lastOfTerm at h ⊢
      by_cases hfloor : i + 1 ≤ committed
      · rw [if_pos hfloor] at h
        exact absurd h (Nat.lt_irrefl committed)
      · rw [if_neg hfloor] at h ⊢
        by_cases hterm : log.termAt (i + 1) = term
        · rw [if_pos hterm]
          exact ⟨hterm, Nat.le_refl _⟩
        · rw [if_neg hterm] at h ⊢
          exact ⟨(ih h).1, Nat.le_succ_of_le (ih h).2⟩

/-- A commit length that moves forward stops at an entry of the leader's own
term, within what the quorum holds. -/
theorem commitPoint_spec (h : committed < log.commitPoint term committed held) :
    log.termAt (log.commitPoint term committed held) = term ∧
      log.commitPoint term committed held ≤ held := by
  unfold commitPoint at h ⊢
  obtain ⟨hterm, hle⟩ := lastOfTerm_spec h
  refine ⟨hterm, Nat.le_trans hle ?_⟩
  split
  · exact Nat.le_refl held
  · exact Nat.min_le_left held _

/-- No term but zero is the term of an index past the end of the log, so a
leader commits no such index. -/
theorem commitPoint_le_length (hterm : term ≠ 0)
    (h : committed < log.commitPoint term committed held) :
    log.commitPoint term committed held ≤ log.length := by
  unfold commitPoint at h ⊢
  rw [if_neg hterm] at h ⊢
  exact Nat.le_trans (lastOfTerm_spec h).2 (Nat.min_le_right held _)

theorem le_lastOfTerm {i top : Nat} (hterm : log.termAt i = term) (htop : i ≤ top) :
    i ≤ log.lastOfTerm term committed top := by
  induction top with
  | zero => exact Nat.le_trans htop (Nat.zero_le _)
  | succ top ih =>
      unfold lastOfTerm
      split
      · next hfloor => exact Nat.le_trans htop hfloor
      · split
        · exact htop
        · next hother =>
            -- the entry at the top is of another term, so it is not the one in question
            refine ih (Nat.le_of_lt_succ (Nat.lt_of_le_of_ne htop ?_))
            rintro rfl
            exact hother hterm

/-- An entry of the leader's own term that a quorum holds is committed. -/
theorem le_commitPoint {i : Nat} (hterm : log.termAt i = term) (hheld : i ≤ held)
    (hlength : i ≤ log.length) : i ≤ log.commitPoint term committed held := by
  refine le_lastOfTerm hterm ?_
  split
  · exact hheld
  · exact Nat.le_min.mpr ⟨hheld, hlength⟩

/-- Once what a quorum holds is committed, looking again finds nothing more. -/
theorem commitPoint_le {least : Nat} (h : log.commitPoint term least held ≤ committed) :
    log.commitPoint term committed held ≤ committed := by
  refine Nat.le_of_not_lt fun hmore => ?_
  obtain ⟨hterm, htop⟩ := lastOfTerm_spec hmore
  have hfound : log.commitPoint term committed held ≤ log.commitPoint term least held :=
    le_lastOfTerm hterm htop
  exact Nat.not_le_of_lt hmore (Nat.le_trans hfound h)

end Log

end Quorum
