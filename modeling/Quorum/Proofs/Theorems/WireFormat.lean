import Quorum.Proofs.Json.Values
import Quorum.Proofs.Message.Format

/-!
# The wire format

What one node writes to a connection, the other end reads as the same message
from the same sender (`frame_round_trip`). The length in front decides where
the frame ends: what follows it is ignored, and a frame that is cut short
anywhere is never taken for a whole one.
-/

namespace Quorum

namespace Frame

variable {e : Envelope} {octets part content : List UInt8} {a b c d : UInt8}

/-- What the octets of a frame are, and how they are read. -/
structure Carries (octets : List UInt8) (e : Envelope) : Prop where
  /-- Four octets with the length, the most significant first, and then the
  compact JSON of the envelope. -/
  layout : ∃ a b c d, octets = a :: b :: c :: d :: Text.Utf8.encode e.toJson.write ∧
    ((a.toNat * 256 + b.toNat) * 256 + c.toNat) * 256 + d.toNat =
      (Text.Utf8.encode e.toJson.write).length
  /-- The other end reads the envelope, whatever comes behind it. -/
  reads : ∀ rest, Frame.read (octets ++ rest) = .ok e
  /-- It reads nothing until the last octet is there. -/
  whole : ∀ part, part <+: octets → part ≠ octets → Frame.read part = .error .incomplete

/-- Four octets are enough for any length up to the limit. -/
theorem exists_header {length : Nat} (h : length ≤ limit) :
    ∃ a b c d, header length = [a, b, c, d] ∧ lengthOf a b c d = length := by
  refine ⟨_, _, _, _, rfl, ?_⟩
  have hbound : length ≤ 67108864 := h
  simp only [lengthOf, UInt8.toNat_ofNat']
  omega

theorem payload_read (fits : e.Fits) :
    (Json.ofOctets? (payload e)).bind Envelope.ofJson? = some e := by
  rw [payload, Json.ofOctets?_write]
  exact Envelope.ofJson?_toJson fits

/-- Behind a length that is within the limit, as many octets are read. -/
theorem read_append (within : content.length ≤ limit) (hlength : lengthOf a b c d = content.length)
    (hcontent : (Json.ofOctets? content).bind Envelope.ofJson? = some e) (rest : List UInt8) :
    Frame.read (a :: b :: c :: d :: (content ++ rest)) = .ok e := by
  rw [Frame.read, hlength, if_neg (Nat.not_lt.mpr within),
    if_neg (by rw [List.length_append]; omega), List.take_left, hcontent]

/-- A part of a frame that does not reach to its end is not read. -/
theorem read_part (within : content.length ≤ limit) (hlength : lengthOf a b c d = content.length)
    (hpart : part <+: a :: b :: c :: d :: content) (hne : part ≠ a :: b :: c :: d :: content) :
    Frame.read part = .error .incomplete := by
  match part with
  | [] | [_] | [_, _] | [_, _, _] => rfl
  | a' :: b' :: c' :: d' :: rest =>
      simp only [List.cons_prefix_cons] at hpart
      obtain ⟨rfl, rfl, rfl, rfl, hrest⟩ := hpart
      -- the length is complete, so it is the content that is not
      have hshort : rest.length < content.length := by
        refine Nat.lt_of_le_of_ne hrest.length_le fun heq => hne ?_
        rw [hrest.eq_of_length heq]
      rw [Frame.read, hlength, if_neg (Nat.not_lt.mpr within), if_pos hshort]

end Frame

/-- A frame carries its envelope. Whoever sends it and whatever the message is,
as long as its numbers fit into their words and its JSON is within the limit,
the frame is written, it reads back as the same envelope, and no shorter part
of it is read as anything. -/
theorem frame_round_trip {e : Envelope} (fits : e.Fits)
    (within : (Frame.payload e).length ≤ Frame.limit) :
    ∃ octets, Frame.write e = .ok octets ∧ Frame.Carries octets e := by
  obtain ⟨a, b, c, d, hheader, hlength⟩ := Frame.exists_header within
  have hwrite : Frame.write e = .ok (a :: b :: c :: d :: Frame.payload e) := by
    rw [Frame.write, if_neg (Nat.not_lt.mpr within), hheader]
    rfl
  refine ⟨_, hwrite, ⟨⟨a, b, c, d, rfl, hlength⟩, fun rest => ?_, fun part => ?_⟩⟩
  · exact Frame.read_append within hlength (Frame.payload_read fits) rest
  · exact Frame.read_part within hlength

/-- The largest numbers and the longest lease, and texts with a quote, a
backslash, a NUL, a line end and a character beyond the first plane. -/
def Envelope.extreme : Envelope where
  sender := Word.max
  message := .appendRequest {
    term := Word.max
    leader := Word.max
    prevIndex := 1
    prevTerm := 1
    entries := [⟨1, .noOp⟩, ⟨Word.max, .set "\"\\\x00" "é\n😀"⟩]
    commit := 2
    lease := Duration.max
    round := 7 }

theorem frame_round_trip_of_extreme :
    Envelope.extreme.Fits ∧ (Frame.payload Envelope.extreme).length ≤ Frame.limit ∧
      ∃ octets, Frame.write Envelope.extreme = .ok octets ∧
        Frame.Carries octets Envelope.extreme := by
  have fits : Envelope.extreme.Fits := by
    refine ⟨by decide, ?_⟩
    constructor <;> decide
  have within : (Frame.payload Envelope.extreme).length ≤ Frame.limit := by decide +kernel
  exact ⟨fits, within, frame_round_trip fits within⟩

end Quorum
