import TickBatch.Engine.Assemble

/-!
# Reading a frame back

What the codec reads off the bytes of an encoded frame: the checksum of its body, the keyframe bit
and the other fields of the header. `decode_encodeFrame` is the round trip of a raw frame.
-/

namespace TickBatch

open Codec (or_and_distrib tag bodyCrc Tagged headerOf keyframeBit crcMask)

theorem bodyCrc_and_mask (body : List UInt8) : bodyCrc body &&& crcMask = bodyCrc body := by
  have hlt : (bodyCrc body).toNat < 2 ^ 15 := by
    unfold bodyCrc
    rw [UInt32.toNat_toUInt16, UInt32.toNat_and]
    have hle : (Codec.checksumIEEE body).toNat &&& crcMask.toUInt32.toNat ≤ 32767 :=
      Nat.and_le_right
    omega
  apply UInt16.toNat_inj.mp
  rw [UInt16.toNat_and, show crcMask.toNat = 2 ^ 15 - 1 from rfl, Nat.and_two_pow_sub_one_eq_mod,
    Nat.mod_eq_of_lt hlt]

theorem bodyCrc_and_keyframeBit (body : List UInt8) : bodyCrc body &&& keyframeBit = 0 := by
  rw [← bodyCrc_and_mask, UInt16.and_assoc, show crcMask &&& keyframeBit = 0 from rfl,
    UInt16.and_zero]

namespace Batcher

/-- The low bits of the integrity tag are the truncated checksum. -/
theorem integrityTag_and_mask (body : List UInt8) (keyframe : Bool) :
    integrityTag body keyframe &&& crcMask = bodyCrc body := by
  cases keyframe with
  | false => exact bodyCrc_and_mask body
  | true =>
      show (bodyCrc body ||| keyframeBit) &&& crcMask = _
      rw [or_and_distrib, bodyCrc_and_mask, show keyframeBit &&& crcMask = 0 from rfl,
        UInt16.or_zero]

/-- Bit 15 of the integrity tag marks the keyframes. -/
theorem integrityTag_and_keyframeBit (body : List UInt8) (keyframe : Bool) :
    integrityTag body keyframe &&& keyframeBit ≠ 0 ↔ keyframe = true := by
  cases keyframe with
  | false =>
      show bodyCrc body &&& keyframeBit ≠ 0 ↔ _
      simp [bodyCrc_and_keyframeBit]
  | true =>
      show (bodyCrc body ||| keyframeBit) &&& keyframeBit ≠ 0 ↔ _
      rw [or_and_distrib, bodyCrc_and_keyframeBit, UInt16.and_self, UInt16.zero_or]
      exact ⟨fun _ => rfl, fun _ => by decide⟩

section Encoded

variable (seq : UInt32) (count : UInt16) (keyframe : Bool) (body : List UInt8)

@[simp] theorem drop_encodeFrame :
    (encodeFrame seq count keyframe body).drop headerSize = body := rfl

@[simp] theorem tag_encodeFrame :
    tag (encodeFrame seq count keyframe body) = integrityTag body keyframe :=
  Bytes.leUint16_put _

/-- An encoded frame carries the checksum of its body. -/
theorem tagged_encodeFrame : Tagged (encodeFrame seq count keyframe body) := by
  rw [Codec.tagged_iff, tag_encodeFrame, integrityTag_and_mask]
  rfl

/-- The header of an encoded frame is read back. -/
theorem headerOf_encodeFrame : headerOf (encodeFrame seq count keyframe body) =
    { seq, count, crc := bodyCrc body, keyframe } := by
  unfold headerOf
  rw [tag_encodeFrame, integrityTag_and_mask]
  congr 1
  · exact Bytes.leUint32_put seq
  · exact Bytes.leUint16_put count
  · rw [Bool.eq_iff_iff, bne_iff_ne, integrityTag_and_keyframeBit]

/-- An encoded frame is decoded. -/
theorem decode_encodeFrame : Codec.decode (encodeFrame seq count keyframe body) =
    .ok ({ seq, count, crc := bodyCrc body, keyframe }, body) := by
  have hlen : ¬ (encodeFrame seq count keyframe body).length < Codec.headerSize := by
    rw [length_encodeFrame, Nat.not_lt]
    exact Nat.le_add_right _ _
  have hcrc := (Codec.crcOK_header (encodeFrame seq count keyframe body)).mpr
    (tagged_encodeFrame seq count keyframe body)
  unfold Codec.decode Codec.parseHeader
  rw [if_neg hlen]
  simp only [bind, Except.bind]
  rw [if_pos hcrc, headerOf_encodeFrame]
  rfl

end Encoded

end Batcher

end TickBatch
