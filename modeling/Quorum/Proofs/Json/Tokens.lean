import Mathlib.Data.List.Chain
import Quorum.Json.Token
import Quorum.Proofs.Text.Decimal

/-!
# Tokens through text and back

Tokens that are written one behind the other are read one by one as they were,
provided that no two of them run together: a number must not touch another
token that is no mark (`tokens?_write`).
-/

namespace Quorum.Json

open Text (Scanned)

/-! ## String literals -/

namespace Piece

/-- A piece that stands for a character, whatever follows it. -/
def StandsFor (piece : Piece) (c : Char) : Prop :=
  ∀ rest, textOf? (piece :: rest) = (textOf? rest).map (c :: ·)

theorem char_standsFor (c : Char) : (char c).StandsFor c := fun _ => rfl

/-- A code unit outside of the surrogates stands for its character. -/
theorem unit_standsFor {code : Nat} (high : isHighSurrogate code = false)
    (low : isLowSurrogate code = false) : (unit code).StandsFor (Char.ofNat code) := by
  intro rest
  cases rest with
  | nil => simp [textOf?, high, low]
  | cons piece rest => cases piece <;> simp [textOf?, high, low]

end Piece

theorem hexValue?_hexDigit : ∀ n < 16, hexValue? (hexDigit n) = some n := by decide

/-- The escape of a control character names its code. -/
theorem unit?_hexDigits {n : Nat} (h : n < 0x20) :
    unit? (some '0') (some '0') (some (hexDigit (n / 16))) (some (hexDigit (n % 16))) = some n := by
  have hzero : hexValue? '0' = some 0 := by decide
  have hhigh := hexValue?_hexDigit (n / 16) (by omega)
  have hlow := hexValue?_hexDigit (n % 16) (by omega)
  simp [unit?, hzero, hhigh, hlow]
  omega

theorem literal?_plain {c : Char} (rest : Scanned) (quote : c ≠ '"') (backslash : c ≠ '\\')
    (visible : ¬ c.toNat < 0x20) :
    literal? (some c :: rest) =
      (literal? rest).map fun (pieces, rest) => (.char c :: pieces, rest) := by
  cases hrest : literal? rest <;> simp [literal?, backslash, visible, hrest]

/-- What is written for a character is read as a piece that stands for it. -/
theorem literal?_escape (c : Char) : ∃ piece : Piece, piece.StandsFor c ∧ ∀ rest,
    literal? ((escape c).map some ++ rest) =
      (literal? rest).map fun (pieces, rest) => (piece :: pieces, rest) := by
  unfold escape
  split
  case h_8 quote backslash backspace tab newline formFeed carriageReturn =>
    split
    · next control =>
        refine ⟨.unit c.toNat, ?_, fun rest => ?_⟩
        · have high : isHighSurrogate c.toNat = false := by
            simp [isHighSurrogate]
            omega
          have low : isLowSurrogate c.toNat = false := by
            simp [isLowSurrogate]
            omega
          have hstands := Piece.unit_standsFor high low
          rwa [Char.ofNat_toNat] at hstands
        · cases hrest : literal? rest <;> simp [literal?, unit?_hexDigits control, hrest]
    · next visible =>
        exact ⟨.char c, Piece.char_standsFor c, fun rest =>
          literal?_plain rest quote backslash visible⟩
  all_goals
    refine ⟨.char _, Piece.char_standsFor _, fun rest => ?_⟩
    cases hrest : literal? rest <;> simp [literal?, escaped?, hrest]

/-- What is written for some text is read as pieces that stand for it. -/
theorem literal?_escapes (text : List Char) : ∃ pieces, textOf? pieces = some text ∧ ∀ rest,
    literal? ((text.flatMap escape).map some ++ some '"' :: rest) = some (pieces, rest) := by
  induction text with
  | nil => exact ⟨[], rfl, fun rest => by simp [literal?]⟩
  | cons c others ih =>
      obtain ⟨pieces, htext, hread⟩ := ih
      obtain ⟨piece, hstands, hpiece⟩ := literal?_escape c
      refine ⟨piece :: pieces, by rw [hstands, htext]; rfl, fun rest => ?_⟩
      rw [List.flatMap_cons, List.map_append, List.append_assoc, hpiece, hread]
      rfl

/-! ## Numbers -/

/-- A text that does not go on with a number that ends before it. -/
def Stops (rest : Scanned) : Prop :=
  ∀ c more, rest = some c :: more → c.isDigit = false ∧ c ≠ '.' ∧ c ≠ 'e' ∧ c ≠ 'E'

theorem Stops.nil : Stops [] := fun _ _ h => nomatch h

variable {rest : Scanned}

theorem spanDigits_append {ds : List Char} (hds : ∀ d ∈ ds, d.isDigit = true) (h : Stops rest) :
    spanDigits (ds.map some ++ rest) = (ds, rest) := by
  induction ds with
  | nil =>
      rw [List.map_nil, List.nil_append]
      unfold spanDigits
      split
      · next c more => rw [if_neg (by simp [(h c more rfl).1])]
      · rfl
  | cons d ds ih =>
      have hd := hds d List.mem_cons_self
      have hrest := ih fun c hc => hds c (List.mem_cons_of_mem d hc)
      rw [List.map_cons, List.cons_append, spanDigits, if_pos hd, hrest]

theorem Stops.skipFraction? (h : Stops rest) : skipFraction? rest = some rest := by
  unfold Json.skipFraction?
  split
  · next more => exact absurd rfl (h '.' more rfl).2.1
  · rfl

theorem Stops.skipExponent? (h : Stops rest) : skipExponent? rest = some rest := by
  unfold Json.skipExponent?
  split
  · next c more =>
      obtain ⟨_, _, he, hE⟩ := h c more rfl
      rw [if_neg (by simp [he, hE])]
  · rfl

theorem Stops.isContinued (h : Stops rest) : isContinued rest = false := by
  unfold Json.isContinued
  split
  · next c more =>
      obtain ⟨_, hpoint, he, hE⟩ := h c more rfl
      simp [hpoint, he, hE]
  · rfl

theorem whole?_digits (n : Nat) (h : Stops rest) :
    whole? ((Text.digits n).map some ++ rest) = some (n, rest) := by
  by_cases hn : n = 0
  · subst hn
    rw [Text.digits_of_lt (by decide)]
    rfl
  · have hhead := Text.digits_head_ne_zero (Nat.pos_of_ne_zero hn)
    have hspan := spanDigits_append (Text.isDigit_of_mem_digits n) h
    unfold whole?
    split
    · next more heq =>
        -- a positive number is not written with a zero in front
        obtain ⟨d, others, hdigits, _⟩ := Text.exists_digits n
        rw [hdigits, List.map_cons, List.cons_append] at heq
        rw [hdigits, Option.some.inj (List.cons.inj heq).1] at hhead
        exact absurd rfl hhead
    · rw [hspan]
      split
      · next hnil => exact absurd (Prod.mk.inj hnil).1 (Text.digits_ne_nil n)
      · next heq =>
          obtain ⟨rfl, rfl⟩ := Prod.mk.inj heq
          rw [Text.ofDigits?_digits]
          rfl

/-- A number without a sign is its whole part and what may follow it. -/
theorem number?_unsigned {text : Scanned} (h : text.head? ≠ some (some '-')) :
    number? text = (whole? text).bind fun (n, afterWhole) =>
      (skipFraction? afterWhole).bind fun afterFraction =>
        (skipExponent? afterFraction).bind fun rest =>
          some (if isContinued afterWhole then (.decimal, rest) else (.nat n, rest)) := by
  have hsame : ∀ c : Bool, ∀ a b : Token × Scanned,
      (if c = true then some a else some b) = some (if c = true then a else b) := by
    intro c a b
    cases c <;> rfl
  unfold number?
  split
  next signed unsigned hmatch =>
    split at hmatch
    · exact absurd rfl h
    · obtain ⟨rfl, rfl⟩ := Prod.mk.inj hmatch
      simp only [Bool.false_or, ← hsame]
      rfl

theorem number?_digits (n : Nat) (h : Stops rest) :
    number? ((Text.digits n).map some ++ rest) = some (.nat n, rest) := by
  have hunsigned : ((Text.digits n).map some ++ rest).head? ≠ some (some '-') := by
    obtain ⟨d, others, hdigits, hd⟩ := Text.exists_digits n
    rw [hdigits, List.map_cons, List.cons_append, List.head?_cons]
    intro heq
    rw [Option.some.inj (Option.some.inj heq)] at hd
    exact absurd hd (by decide)
  rw [number?_unsigned hunsigned, whole?_digits n h]
  simp [h.skipFraction?, h.skipExponent?, h.isContinued]

theorem number?_decimal (h : Stops rest) :
    number? (Token.decimal.write.map some ++ rest) = some (.decimal, rest) := by
  have hzero : ∀ d ∈ ['0'], d.isDigit = true := List.forall_mem_singleton.mpr (by decide)
  have hspan : spanDigits (some '0' :: rest) = (['0'], rest) := spanDigits_append hzero h
  have hfraction : Json.skipFraction? (some '.' :: some '0' :: rest) = some rest := by
    rw [Json.skipFraction?, hspan]
  have hwritten : Token.decimal.write.map some ++ rest =
      some '0' :: some '.' :: some '0' :: rest := rfl
  rw [hwritten, number?_unsigned (by simp), whole?]
  simp [hfraction, h.skipExponent?, Json.isContinued]

/-! ## Tokens -/

namespace Token

/-- The tokens that are one character, with which no other token goes on. -/
def isMark : Token → Bool
  | .openBrace | .closeBrace | .openBracket | .closeBracket | .comma | .colon => true
  | _ => false

theorem writeText_none : writeText none = ['"', '\\', 'u', 'd', '8', '0', '0', '"'] := rfl

theorem writeText_some (text : String) :
    writeText (some text) = '"' :: (text.toList.flatMap escape ++ ['"']) := rfl

/-- How a token starts. -/
theorem exists_write (t : Token) :
    ∃ c rest, t.write = c :: rest ∧ isBlank c = false := by
  cases t with
  | nat n =>
      obtain ⟨c, rest, hdigits, hc⟩ := Text.exists_digits n
      refine ⟨c, rest, hdigits, ?_⟩
      simp only [isBlank, Bool.or_eq_false_iff, beq_eq_false_iff_ne]
      refine ⟨⟨⟨?_, ?_⟩, ?_⟩, ?_⟩ <;> rintro rfl <;> exact absurd hc (by decide)
  | bool b => cases b <;> exact ⟨_, _, rfl, by decide⟩
  | string text =>
      cases text with
      | none => exact ⟨_, _, writeText_none, by decide⟩
      | some text => exact ⟨_, _, writeText_some text, by decide⟩
  | _ => exact ⟨_, _, rfl, by decide⟩

theorem write_ne_nil (t : Token) : t.write ≠ [] := by
  obtain ⟨c, rest, hwrite, _⟩ := t.exists_write
  rw [hwrite]
  exact List.cons_ne_nil c rest

/-- No token starts with a blank. -/
theorem skipBlanks_write (t : Token) (rest : Scanned) :
    skipBlanks (t.write.map some ++ rest) = t.write.map some ++ rest := by
  obtain ⟨c, more, hwrite, hblank⟩ := t.exists_write
  rw [hwrite, List.map_cons, List.cons_append, skipBlanks, if_neg (by simp [hblank])]

end Token

theorem token?_quote (rest : Scanned) :
    token? (some '"' :: rest) = (literal? rest).map fun (pieces, rest) =>
      (.string ((textOf? pieces).map String.ofList), rest) := by
  rw [token?]
  cases literal? rest <;> rfl

theorem token?_string (text : Literal) (rest : Scanned) :
    token? ((writeText text).map some ++ rest) = some (.string text, rest) := by
  cases text with
  | none =>
      -- half of a surrogate pair is no text
      have hunit : unit? (some 'd') (some '8') (some '0') (some '0') = some 0xD800 := by decide
      have hnone : textOf? [.unit 0xD800] = none := by decide
      rw [Token.writeText_none, List.map_cons, List.cons_append, token?_quote]
      simp [literal?, hunit, hnone]
  | some text =>
      obtain ⟨pieces, htext, hread⟩ := literal?_escapes text.toList
      have hwritten : (writeText (some text)).map some ++ rest =
          some '"' :: ((text.toList.flatMap escape).map some ++ some '"' :: rest) := by
        rw [Token.writeText_some]
        simp
      rw [hwritten, token?_quote, hread]
      simp [htext]

theorem token?_digit {c : Char} (h : c.isDigit = true) (rest : Scanned) :
    token? (some c :: rest) = number? (some c :: rest) := by
  rw [token?.eq_def]
  split
  case h_11 => rfl
  all_goals
    next heq =>
      rw [Option.some.inj (List.cons.inj heq).1] at h
      exact absurd h (by decide)

/-- A token is read as it was written, as long as what follows does not go on
with it. -/
theorem token?_write (t : Token) (h : t.isMark = true ∨ Stops rest) :
    token? (t.write.map some ++ rest) = some (t, rest) := by
  cases t with
  | nat n =>
      obtain ⟨d, others, hdigits, hd⟩ := Text.exists_digits n
      have hnumber := number?_digits n (h.resolve_left (by simp [Token.isMark]))
      rw [Token.write]
      rw [hdigits, List.map_cons, List.cons_append] at hnumber ⊢
      rw [token?_digit hd, hnumber]
  | decimal =>
      have hnumber := number?_decimal (h.resolve_left (by simp [Token.isMark]))
      rw [show Token.decimal.write.map some ++ rest = some '0' :: some '.' :: some '0' :: rest
        from rfl] at hnumber ⊢
      rw [token?_digit (by decide), hnumber]
  | bool b => cases b <;> simp [Token.write, token?]
  | string text => exact token?_string text rest
  | _ => simp [Token.write, token?]

/-! ## Sequences of tokens -/

/-- Tokens of which no two run together. -/
def Apart (tokens : List Token) : Prop :=
  tokens.IsChain fun a b => a.isMark = true ∨ b.isMark = true

/-- A mark stops whatever stands before it. -/
theorem Token.stops_of_isMark {t : Token} (h : t.isMark = true) (rest : Scanned) :
    Stops (t.write.map some ++ rest) := by
  have hmark : ∃ m, t.write = [m] ∧ m.isDigit = false ∧ m ≠ '.' ∧ m ≠ 'e' ∧ m ≠ 'E' := by
    cases t <;> first | exact ⟨_, rfl, by decide⟩ | exact absurd h (by simp [isMark])
  obtain ⟨m, hwrite, hstops⟩ := hmark
  intro c more heq
  rw [hwrite, List.map_singleton, List.singleton_append] at heq
  obtain rfl := Option.some.inj (List.cons.inj heq).1
  exact hstops

theorem Apart.stops {t : Token} {ts : List Token} (h : Apart (t :: ts)) :
    t.isMark = true ∨ Stops ((ts.flatMap Token.write).map some) := by
  cases ts with
  | nil => exact .inr .nil
  | cons t' ts =>
      refine (List.isChain_cons_cons.mp h).1.imp_right fun hmark => ?_
      rw [List.flatMap_cons, List.map_append]
      exact t'.stops_of_isMark hmark _

theorem length_le_flatMap_write (ts : List Token) :
    ts.length ≤ (ts.flatMap Token.write).length := by
  induction ts with
  | nil => exact Nat.le_refl _
  | cons t ts ih =>
      have hpos := List.length_pos_iff.mpr t.write_ne_nil
      rw [List.flatMap_cons, List.length_append, List.length_cons]
      omega

theorem tokensWithin_write {ts : List Token} (h : Apart ts) :
    ∀ fuel, ts.length < fuel →
      tokensWithin fuel ((ts.flatMap Token.write).map some) = some ts := by
  induction ts with
  | nil =>
      intro fuel hfuel
      obtain ⟨fuel, rfl⟩ := Nat.exists_eq_succ_of_ne_zero (Nat.ne_of_gt hfuel)
      rfl
  | cons t ts ih =>
      intro fuel hfuel
      obtain ⟨fuel, rfl⟩ := Nat.exists_eq_succ_of_ne_zero (Nat.ne_zero_of_lt hfuel)
      have hrest := ih (List.IsChain.tail h) fuel (Nat.lt_of_succ_lt_succ hfuel)
      have hread := token?_write t h.stops
      obtain ⟨c, more, hwrite⟩ := List.exists_cons_of_ne_nil t.write_ne_nil
      have hblank := t.skipBlanks_write ((ts.flatMap Token.write).map some)
      rw [hwrite, List.map_cons, List.cons_append] at hread hblank
      rw [List.flatMap_cons, hwrite, List.map_append, List.map_cons, List.cons_append, tokensWithin,
        hblank]
      simp [hread, hrest]

/-- Tokens that do not run together are read as they were written. -/
theorem tokens?_write {ts : List Token} (h : Apart ts) :
    tokens? ((ts.flatMap Token.write).map some) = some ts := by
  refine tokensWithin_write h _ (Nat.lt_succ_of_le ?_)
  rw [List.length_map]
  exact length_le_flatMap_write ts

end Quorum.Json
