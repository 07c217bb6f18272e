import Quorum.Text.Utf8

/-!
# Text through octets and back

Whatever is written in UTF-8 is read back as it was, and nothing in it is taken
for a stray octet (`Utf8.scan_encode`).
-/

namespace Quorum.Text.Utf8

@[simp] theorem encode_nil : encode [] = [] := rfl

/-- Octets that start with the encoding of a character start with it. -/
theorem first?_encodeChar (c : Char) (rest : List UInt8) :
    first? (String.utf8EncodeChar c ++ rest) = some c := by
  have hlength : (String.utf8EncodeChar c).length ≤ 4 := by
    rw [String.length_utf8EncodeChar]
    exact c.utf8Size_le_four
  have harray : ∀ octets : List UInt8, (⟨octets.toArray⟩ : ByteArray) = octets.toByteArray :=
    fun octets => by simp [ByteArray.ext_iff]
  rw [first?, List.take_append, List.take_of_length_le hlength, harray, List.toByteArray_append]
  exact ByteArray.utf8DecodeChar?_utf8EncodeChar_append

theorem scan_encodeChar (c : Char) (rest : List UInt8) :
    scan (String.utf8EncodeChar c ++ rest) = some c :: scan rest := by
  have hfirst := first?_encodeChar c rest
  have hlength := String.length_utf8EncodeChar c
  have hpos := c.utf8Size_pos
  cases hoctets : String.utf8EncodeChar c with
  | nil =>
      rw [hoctets, List.length_nil] at hlength
      omega
  | cons octet others =>
      rw [hoctets, List.length_cons] at hlength
      rw [hoctets, List.cons_append] at hfirst
      rw [List.cons_append, scan, hfirst]
      have hothers : others.length = c.utf8Size - 1 := by omega
      simp only []
      rw [← hothers, List.drop_left]

/-- What is written as text is read as that text. -/
theorem scan_encode (text : List Char) : scan (encode text) = text.map some := by
  induction text with
  | nil => rw [encode_nil, scan, List.map_nil]
  | cons c rest ih =>
      have hcons : encode (c :: rest) = String.utf8EncodeChar c ++ encode rest :=
        List.flatMap_cons
      rw [hcons, scan_encodeChar, ih, List.map_cons]

theorem text?_map_some (text : List Char) : text? (text.map some) = some text := by
  unfold text?
  induction text with
  | nil => rfl
  | cons c rest ih => simp [ih]

theorem decode?_encode (text : List Char) : decode? (encode text) = some text := by
  rw [decode?, scan_encode, text?_map_some]

end Quorum.Text.Utf8
