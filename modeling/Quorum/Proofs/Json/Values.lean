import Quorum.Json.Reader
import Quorum.Proofs.Json.Tokens
import Quorum.Proofs.Text.Utf8

/-!
# Values through JSON text and back

Every value is read from its written form as it was (`ofOctets?_write`). The
tokens of a value are read one after the other into the innermost open array
or object, so the lemmas speak of the frames around a value, and the values of
an array or an object are taken in from the first to the last.
-/

namespace Quorum.Json

open Text (Scanned)

/-! ## From tokens to values -/

/-- The first token of a value is neither end. -/
theorem exists_tokens (v : Json) : ∃ t more, tokens v = t :: more ∧ t ≠ .closeBracket := by
  cases v with
  | array items =>
      cases items with
      | nil => exact ⟨.openBracket, _, by rw [tokens], by simp⟩
      | cons item items => exact ⟨.openBracket, _, by rw [tokens]; rfl, by simp⟩
  | object members =>
      cases members with
      | nil => exact ⟨.openBrace, _, by rw [tokens], by simp⟩
      | cons member members => exact ⟨.openBrace, _, by rw [tokens]; rfl, by simp⟩
  | _ => exact ⟨_, _, by rw [tokens], by simp⟩

/-- A value may come where an array has just been opened. -/
theorem foldlM_firstItem (v : Json) (frames : List Frame) :
    (tokens v).foldlM Progress.step ⟨.firstItem, frames⟩ =
      (tokens v).foldlM Progress.step ⟨.value, .items [] :: frames⟩ := by
  obtain ⟨t, more, htokens, hne⟩ := exists_tokens v
  rw [htokens, List.foldlM_cons, List.foldlM_cons]
  cases t <;> first | rfl | exact absurd rfl hne

mutual

/-- The tokens of a value deliver it. -/
theorem foldlM_tokens (v : Json) (frames : List Frame) :
    (tokens v).foldlM Progress.step ⟨.value, frames⟩ = some (Progress.deliver v frames) := by
  cases v with
  | array items =>
      cases items with
      | nil => rw [tokens]; rfl
      | cons item items =>
          rw [tokens, List.cons_append, List.cons_append, List.append_assoc, List.foldlM_cons]
          show (tokens item ++ (itemTokens items ++ [Token.closeBracket])).foldlM Progress.step
            ⟨.firstItem, frames⟩ = _
          rw [List.foldlM_append, foldlM_firstItem, foldlM_tokens item]
          exact foldlM_itemTokens items [item] frames
  | object members =>
      cases members with
      | nil => rw [tokens]; rfl
      | cons member members =>
          obtain ⟨name, value⟩ := member
          simp only [tokens, List.cons_append, List.append_assoc, List.foldlM_cons]
          show (tokens value ++ (memberTokens members ++ [Token.closeBrace])).foldlM Progress.step
            ⟨.value, .members [] name :: frames⟩ = _
          rw [List.foldlM_append, foldlM_tokens value]
          exact foldlM_memberTokens members [(name, value)] frames
  | _ => rw [tokens]; rfl

/-- The tokens of further items complete an array. -/
theorem foldlM_itemTokens (items done : List Json) (frames : List Frame) :
    (itemTokens items ++ [Token.closeBracket]).foldlM Progress.step ⟨.afterItem done, frames⟩ =
      some (Progress.deliver (.array (done.reverse ++ items)) frames) := by
  cases items with
  | nil => rw [itemTokens, List.append_nil]; rfl
  | cons item items =>
      rw [itemTokens, List.cons_append, List.cons_append, List.append_assoc, List.foldlM_cons]
      show (tokens item ++ (itemTokens items ++ [Token.closeBracket])).foldlM Progress.step
        ⟨.value, .items done :: frames⟩ = _
      rw [List.foldlM_append, foldlM_tokens item]
      refine (foldlM_itemTokens items (item :: done) frames).trans ?_
      rw [List.reverse_cons, List.append_assoc, List.singleton_append]

/-- The tokens of further members complete an object. -/
theorem foldlM_memberTokens (members done : List (Literal × Json)) (frames : List Frame) :
    (memberTokens members ++ [Token.closeBrace]).foldlM Progress.step ⟨.afterMember done, frames⟩ =
      some (Progress.deliver (.object (done.reverse ++ members)) frames) := by
  cases members with
  | nil => rw [memberTokens, List.append_nil]; rfl
  | cons member members =>
      obtain ⟨name, value⟩ := member
      simp only [memberTokens, List.cons_append, List.append_assoc, List.foldlM_cons]
      show (tokens value ++ (memberTokens members ++ [Token.closeBrace])).foldlM Progress.step
        ⟨.value, .members done name :: frames⟩ = _
      rw [List.foldlM_append, foldlM_tokens value]
      refine (foldlM_memberTokens members ((name, value) :: done) frames).trans ?_
      rw [List.reverse_cons, List.append_assoc, List.singleton_append]

end

theorem ofTokens?_tokens (v : Json) : ofTokens? (tokens v) = some v := by
  rw [ofTokens?, Progress.start, foldlM_tokens]
  rfl

/-! ## From text to tokens -/

/-- Tokens that do not run together, nor with whatever stands before them. -/
def Fenced (ts : List Token) : Prop :=
  Apart ts ∧ ∀ t ∈ ts.head?, t.isMark = true

theorem Apart.cons {t : Token} {rest : List Token} (ht : t.isMark = true) (h : Apart rest) :
    Apart (t :: rest) :=
  List.isChain_cons.mpr ⟨fun _ _ => .inl ht, h⟩

theorem Fenced.cons {t : Token} {rest : List Token} (ht : t.isMark = true) (h : Apart rest) :
    Fenced (t :: rest) := by
  refine ⟨h.cons ht, fun t' ht' => ?_⟩
  obtain rfl := Option.some.inj ht'
  exact ht

/-- Any token may stand before a mark. -/
theorem Fenced.behind {rest : List Token} (t : Token) (h : Fenced rest) : Apart (t :: rest) :=
  List.isChain_cons.mpr ⟨fun t' ht' => .inr (h.2 t' ht'), h.1⟩

mutual

theorem tokens_apart {rest : List Token} (v : Json) (h : Fenced rest) :
    Apart (tokens v ++ rest) := by
  cases v with
  | array items =>
      cases items with
      | nil =>
          rw [tokens]
          exact .cons rfl (.cons rfl h.1)
      | cons item items =>
          rw [tokens]
          simp only [List.append_assoc, List.cons_append, List.nil_append]
          exact .cons rfl (tokens_apart item (itemTokens_fenced items (.cons rfl h.1)))
  | object members =>
      cases members with
      | nil =>
          rw [tokens]
          exact .cons rfl (.cons rfl h.1)
      | cons member members =>
          obtain ⟨name, value⟩ := member
          rw [tokens]
          simp only [List.append_assoc, List.cons_append, List.nil_append]
          exact .cons rfl (Fenced.behind _ (.cons rfl
            (tokens_apart value (memberTokens_fenced members (.cons rfl h.1)))))
  | _ =>
      rw [tokens]
      exact h.behind _

theorem itemTokens_fenced {rest : List Token} (items : List Json) (h : Fenced rest) :
    Fenced (itemTokens items ++ rest) := by
  cases items with
  | nil => rw [itemTokens]; exact h
  | cons item items =>
      rw [itemTokens, List.cons_append, List.cons_append, List.append_assoc]
      exact .cons rfl (tokens_apart item (itemTokens_fenced items h))

theorem memberTokens_fenced {rest : List Token} (members : List (Literal × Json))
    (h : Fenced rest) : Fenced (memberTokens members ++ rest) := by
  cases members with
  | nil => rw [memberTokens]; exact h
  | cons member members =>
      obtain ⟨name, value⟩ := member
      rw [memberTokens]
      simp only [List.append_assoc, List.cons_append]
      exact .cons rfl (Fenced.behind _ (.cons rfl
        (tokens_apart value (memberTokens_fenced members h))))

end

/-- A value is read from the text that it is written as. -/
theorem ofScanned?_write (v : Json) : ofScanned? (v.write.map some) = some v := by
  have hapart : Apart (tokens v ++ []) := tokens_apart v ⟨List.isChain_nil, fun _ h => nomatch h⟩
  rw [List.append_nil] at hapart
  rw [ofScanned?, write, tokens?_write hapart]
  exact ofTokens?_tokens v

/-- A value is read from the octets that it is written as. -/
theorem ofOctets?_write (v : Json) : ofOctets? (Text.Utf8.encode v.write) = some v := by
  rw [ofOctets?, Text.Utf8.scan_encode, ofScanned?_write]

end Quorum.Json
