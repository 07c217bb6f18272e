import Quorum.Proofs.Text.Decimal
import Quorum.Text.Blank

/-!
# Words

What can stand between blanks: a text that has a character and no blank. The
words of a text that was put together from words are these
(`wordsOf_append`), and whatever is read as a word is one (`isWord_of_mem`).
-/

namespace Quorum.Text

/-- A text that is read as one word. -/
structure IsWord (text : List Char) : Prop where
  nonempty : text ≠ []
  solid : ∀ c ∈ text, isBlank c = false

instance (text : List Char) : Decidable (IsWord text) :=
  decidable_of_iff (text ≠ [] ∧ text.all (fun c => !isBlank c) = true) (by
    simp only [List.all_eq_true, Bool.not_eq_true']
    exact ⟨fun ⟨nonempty, solid⟩ => ⟨nonempty, solid⟩, fun h => ⟨h.nonempty, h.solid⟩⟩)

variable {a b : List Char} {c : Char}

theorem pieces_ne_nil (text : List Char) : pieces text ≠ [] := by
  cases text with
  | nil => simp [pieces]
  | cons c rest =>
      unfold pieces
      split
      · simp
      · split <;> simp

/-- A blank ends the piece before it. -/
theorem pieces_append (a b : List Char) (blank : isBlank c = true) :
    pieces (a ++ c :: b) = pieces a ++ pieces b := by
  induction a with
  | nil => simp [pieces, blank]
  | cons d rest ih =>
      rw [List.cons_append, pieces, pieces, ih]
      split
      · rfl
      · cases hpieces : pieces rest with
        | nil => exact absurd hpieces (pieces_ne_nil rest)
        | cons piece others => rfl

theorem pieces_of_solid (solid : ∀ c ∈ a, isBlank c = false) : pieces a = [a] := by
  induction a with
  | nil => rfl
  | cons d rest ih =>
      have hrest := ih fun c hc => solid c (List.mem_cons_of_mem d hc)
      rw [pieces, if_neg (by simp [solid d List.mem_cons_self]), hrest]

theorem solid_of_mem_pieces {piece : List Char} (h : piece ∈ pieces a) :
    ∀ c ∈ piece, isBlank c = false := by
  induction a generalizing piece with
  | nil =>
      rw [pieces, List.mem_singleton] at h
      simp [h]
  | cons d rest ih =>
      unfold pieces at h
      split at h
      · rcases List.mem_cons.mp h with rfl | h
        · simp
        · exact ih h
      · next hd =>
          split at h
          · next hnil => exact absurd hnil (pieces_ne_nil rest)
          · next first others hpieces =>
              rw [hpieces] at ih
              rcases List.mem_cons.mp h with rfl | h
              · intro c hc
                rcases List.mem_cons.mp hc with rfl | hc
                · simpa using hd
                · exact ih List.mem_cons_self c hc
              · exact ih (List.mem_cons_of_mem _ h)

theorem wordsOf_append (a b : List Char) (blank : isBlank c = true) :
    wordsOf (a ++ c :: b) = wordsOf a ++ wordsOf b := by
  rw [wordsOf, pieces_append a b blank, List.filter_append]
  rfl

theorem IsWord.wordsOf (h : IsWord a) : wordsOf a = [a] := by
  rw [Text.wordsOf, pieces_of_solid h.solid]
  simp [h.nonempty]

/-- Words with blanks between them are read one by one. -/
theorem IsWord.wordsOf_append (h : IsWord a) (blank : isBlank c = true) :
    Text.wordsOf (a ++ c :: b) = a :: Text.wordsOf b := by
  rw [Text.wordsOf_append a b blank, h.wordsOf, List.singleton_append]

theorem isWord_of_mem (h : a ∈ wordsOf b) : IsWord a := by
  obtain ⟨hmem, hne⟩ := List.mem_filter.mp h
  exact ⟨by simpa using hne, solid_of_mem_pieces hmem⟩

theorem isWord_of_mem_words {word text : String} (h : word ∈ words text) :
    IsWord word.toList := by
  obtain ⟨w, hw, rfl⟩ := List.mem_map.mp h
  rw [String.toList_ofList]
  exact isWord_of_mem hw

/-- What has a word in it is no blank line. -/
theorem IsWord.not_blankLine (h : IsWord a) (b : List Char) : isBlankLine (a ++ b) = false := by
  obtain ⟨c, rest, rfl⟩ := List.exists_cons_of_ne_nil h.nonempty
  simp [isBlankLine, h.solid c List.mem_cons_self]

theorem digit_not_blank (h : c.isDigit = true) : isBlank c = false := by
  have hrange : 48 ≤ c.toNat ∧ c.toNat ≤ 57 := by
    simpa [Char.isDigit, UInt32.le_iff_toNat_le] using h
  simp only [isBlank, Bool.or_eq_false_iff, Bool.and_eq_false_iff, decide_eq_false_iff_not,
    beq_eq_false_iff_ne]
  omega

theorem isWord_digits (n : Nat) : IsWord (digits n) :=
  ⟨digits_ne_nil n, fun c hc => digit_not_blank (isDigit_of_mem_digits n c hc)⟩

end Quorum.Text
