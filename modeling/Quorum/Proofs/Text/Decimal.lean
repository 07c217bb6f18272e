import Quorum.Text.Decimal

/-!
# Numbers through decimal text and back

The digits of a number write that number, and a word of a log line is read as
the number that it was written for (`word?_digits`).
-/

namespace Quorum.Text

/-! ## Digits -/

theorem digitChar_isDigit : ∀ d < 10, (digitChar d).isDigit = true := by decide

theorem digitValue?_digitChar : ∀ d < 10, digitValue? (digitChar d) = some d := by decide

theorem digitChar_ne_zero : ∀ d < 10, 0 < d → digitChar d ≠ '0' := by decide

theorem digits_of_lt {n : Nat} (h : n < 10) : digits n = [digitChar n] := by
  rw [digits, if_pos h]

theorem digits_of_le {n : Nat} (h : 10 ≤ n) :
    digits n = digits (n / 10) ++ [digitChar (n % 10)] := by
  rw [digits, if_neg (Nat.not_lt.mpr h)]

/-- What holds of the single digits, and of a number whenever it holds of the
number without its last digit, holds of all numbers. -/
theorem digits_induction {P : Nat → Prop} (single : ∀ n < 10, P n)
    (more : ∀ n, 10 ≤ n → P (n / 10) → P n) (n : Nat) : P n := by
  induction n using Nat.strongRecOn with
  | _ n ih =>
      by_cases h : n < 10
      · exact single n h
      · have hless : n / 10 < n := by omega
        exact more n (Nat.le_of_not_lt h) (ih (n / 10) hless)

theorem isDigit_of_mem_digits (n : Nat) : ∀ c ∈ digits n, c.isDigit = true := by
  induction n using digits_induction with
  | single n h =>
      rw [digits_of_lt h]
      intro c hc
      rw [List.mem_singleton.mp hc]
      exact digitChar_isDigit n h
  | more n h ih =>
      rw [digits_of_le h]
      intro c hc
      rcases List.mem_append.mp hc with hc | hc
      · exact ih c hc
      · rw [List.mem_singleton.mp hc]
        exact digitChar_isDigit _ (Nat.mod_lt n (by decide))

theorem digits_ne_nil (n : Nat) : digits n ≠ [] := by
  induction n using digits_induction with
  | single n h => simp [digits_of_lt h]
  | more n h _ => simp [digits_of_le h]

/-- A number starts with a digit. -/
theorem exists_digits (n : Nat) : ∃ d rest, digits n = d :: rest ∧ d.isDigit = true := by
  obtain ⟨d, rest, hdigits⟩ := List.exists_cons_of_ne_nil (digits_ne_nil n)
  exact ⟨d, rest, hdigits, isDigit_of_mem_digits n d (hdigits ▸ List.mem_cons_self)⟩

/-- Only zero is written with a zero in front. -/
theorem digits_head_ne_zero {n : Nat} (h : 0 < n) : (digits n).head? ≠ some '0' := by
  induction n using digits_induction with
  | single n hn =>
      rw [digits_of_lt hn, List.head?_cons]
      exact fun heq => digitChar_ne_zero n hn h (Option.some.inj heq)
  | more n hn ih =>
      have hfirst := ih (by omega)
      obtain ⟨d, rest, hdigits, _⟩ := exists_digits (n / 10)
      rw [hdigits, List.head?_cons] at hfirst
      rw [digits_of_le hn, hdigits, List.cons_append, List.head?_cons]
      exact hfirst

/-! ## Reading -/

theorem ofDigits?_concat (cs : List Char) (c : Char) :
    ofDigits? (cs ++ [c]) =
      (ofDigits? cs).bind fun n => (digitValue? c).map fun d => 10 * n + d := by
  unfold ofDigits?
  rw [List.foldl_append]
  generalize cs.foldl _ (some 0) = read
  cases read with
  | none => rfl
  | some n => cases hc : digitValue? c <;> simp [hc]

theorem ofDigits?_digits (n : Nat) : ofDigits? (digits n) = some n := by
  induction n using digits_induction with
  | single n h =>
      have hread := ofDigits?_concat [] (digitChar n)
      rw [List.nil_append, digitValue?_digitChar n h] at hread
      rw [digits_of_lt h, hread]
      simp [ofDigits?]
  | more n h ih =>
      rw [digits_of_le h, ofDigits?_concat, ih,
        digitValue?_digitChar _ (Nat.mod_lt n (by decide))]
      show some (10 * (n / 10) + n % 10) = some n
      rw [Nat.div_add_mod]

/-- A word is read as the number that it was written for. -/
theorem word?_digits {n : Nat} (h : Word.fits n = true) : word? (digits n) = some n := by
  have hread : ∀ text : List Char, text ≠ [] → text.head? ≠ some '+' →
      word? text = (ofDigits? text).filter Word.fits := by
    intro text hne hplus
    unfold word?
    split
    · next rest => exact absurd rfl hplus
    · rw [if_neg (by simpa using hne)]
  have hplus : (digits n).head? ≠ some '+' := by
    intro hhead
    have hmem : '+' ∈ digits n := List.mem_of_head? hhead
    exact absurd (isDigit_of_mem_digits n '+' hmem) (by decide)
  rw [hread _ (digits_ne_nil n) hplus, ofDigits?_digits, Option.filter_some, if_pos h]

/-- Whatever is read as a word fits one. -/
theorem fits_of_word? {text : List Char} {n : Nat} (h : word? text = some n) :
    Word.fits n = true := by
  have hread : ∀ body : List Char,
      (if body.isEmpty then none else (ofDigits? body).filter Word.fits) = some n →
        Word.fits n = true := by
    intro body h
    split at h
    · exact nomatch h
    · exact (Option.filter_eq_some_iff.mp h).2
  exact hread _ h

end Quorum.Text
