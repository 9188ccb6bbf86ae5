import Mathlib.Data.List.Nodup
import TickBatch.Lib.CrcErrors
import TickBatch.Wire.Codec

/-!
# What the truncated checksum detects

The integrity tag keeps 15 bits of CRC-32, and `Decode` compares nothing else. Whether it notices
damage to a frame depends on the damaged bits alone and not on the frame (`tagged_damaged`), and
each bit contributes its own 15-bit mark (`mark_of_bit`): bits of the sequence number, of the count
and the keyframe bit contribute nothing, the tag's bits themselves, and a bit of the body the
register of a one shifted from there to the end. So single damaged bits are noticed up to the
length at which that register first has its low 15 bits clear, and two damaged bits up to the
length at which two marks first agree (`bit_errors`).
-/

namespace TickBatch.Codec

/-- The low 15 bits of a register, as a tag. -/
def lowTag (c : BitVec 32) : UInt16 := ((⟨c⟩ : UInt32) &&& crcMask.toUInt32).toUInt16

/-- What damage adds to the difference between tag and checksum. -/
def mark (damage : List UInt8) : UInt16 :=
  lowTag (Crc.update 0xedb88320#32 0 (damage.drop headerSize)) ^^^ (tag damage &&& crcMask)

/-- The bits of a frame that the check depends on: the body and the low 15 bits of the tag. -/
def Guarded (frame : List UInt8) (i : Nat) : Prop := 48 ≤ i ∧ i ≠ 63 ∧ i < 8 * frame.length

instance (frame : List UInt8) (i : Nat) : Decidable (Guarded frame i) :=
  inferInstanceAs (Decidable (_ ∧ _))

theorem lowTag_xor (a b : BitVec 32) : lowTag (a ^^^ b) = lowTag a ^^^ lowTag b := by
  apply UInt16.toBitVec_inj.mp
  apply BitVec.eq_of_getLsbD_eq
  intro i hi
  simp only [lowTag, UInt32.toBitVec_toUInt16, UInt32.toBitVec_and, UInt16.toBitVec_xor,
    BitVec.getLsbD_setWidth, BitVec.getLsbD_and, BitVec.getLsbD_xor, hi, decide_true,
    Bool.true_and, Bool.and_xor_distrib_right]

theorem toNat_lowTag (c : BitVec 32) : (lowTag c).toNat = c.toNat % 2 ^ 15 := by
  have hmask : (crcMask.toUInt32).toNat = 2 ^ 15 - 1 := rfl
  unfold lowTag
  rw [UInt32.toNat_toUInt16, UInt32.toNat_and, hmask, Nat.and_two_pow_sub_one_eq_mod]
  show c.toNat % 2 ^ 15 % 2 ^ 16 = _
  omega

/-- Marks add up. -/
theorem mark_xor {a b : List UInt8} (ha : headerSize ≤ a.length) (hb : a.length = b.length) :
    mark (Bytes.xor a b) = mark a ^^^ mark b := by
  have hupdate := Crc.update_xor 0xedb88320#32 0 0
    (show (a.drop headerSize).length = (b.drop headerSize).length by simp [hb])
  have hdrop : Crc.update 0xedb88320#32 0 ((Bytes.xor a b).drop headerSize) =
      Crc.update 0xedb88320#32 0 (a.drop headerSize) ^^^
        Crc.update 0xedb88320#32 0 (b.drop headerSize) := by
    rw [Bytes.drop_xor, ← hupdate]
    rfl
  unfold mark
  rw [hdrop, lowTag_xor, tag_xor ha (by omega), xor_and_distrib]
  ac_rfl

/-- The mark of damage is how far it moves the syndrome of the zero frame. -/
theorem mark_eq (damage : List UInt8) :
    mark damage = syndrome damage ^^^ syndrome (List.replicate damage.length 0) := by
  have hsplit : Crc.update 0xedb88320#32 0 (damage.drop headerSize) =
      Crc.checksum 0xedb88320#32 (damage.drop headerSize) ^^^
        Crc.checksum 0xedb88320#32 (List.replicate (damage.length - headerSize) 0) := by
    have hlen : (damage.drop headerSize).length = damage.length - headerSize := List.length_drop
    have hupdate := Crc.update_xor 0xedb88320#32 (BitVec.allOnes 32) (BitVec.allOnes 32)
      (show (damage.drop headerSize).length =
        (List.replicate (damage.length - headerSize) (0 : UInt8)).length by simp)
    rw [BitVec.xor_self, show List.zipWith (· ^^^ ·) _ _ = _ from
      Bytes.xor_zeros (Nat.le_of_eq hlen)] at hupdate
    unfold Crc.checksum
    rw [← BitVec.not_xor_left, ← BitVec.not_xor_right, BitVec.not_not]
    exact hupdate
  unfold mark syndrome
  rw [hsplit, lowTag_xor, tag_zeros, UInt16.zero_and, UInt16.xor_zero, List.drop_replicate]
  show bodyCrc _ ^^^ bodyCrc _ ^^^ _ = _
  ac_rfl

/-- The check of a damaged frame depends on the damage alone. -/
theorem tagged_damaged {frame damage : List UInt8} (htagged : Tagged frame)
    (hframe : headerSize ≤ frame.length) (hdamage : damage.length = frame.length) :
    Tagged (Bytes.xor frame damage) ↔ mark damage = 0 := by
  have hzeros : Bytes.xor frame damage =
      Bytes.xor (Bytes.xor frame damage) (List.replicate damage.length 0) := by
    rw [Bytes.xor_zeros (by simp [hdamage])]
  unfold Tagged at htagged ⊢
  rw [hzeros, syndrome_xor₃ hframe hdamage.symm (by simp [hdamage]), htagged, UInt16.zero_xor,
    mark_eq]

/-- `Decode` on a frame that has a header. -/
theorem decode_of_header {frame : List UInt8} (hframe : headerSize ≤ frame.length) :
    decode frame = if Tagged frame then .ok (headerOf frame, frame.drop headerSize)
      else .error .crcMismatch := by
  have hparse : parseHeader frame = .ok (headerOf frame) := if_neg (by omega)
  have hcheck := crcOK_header frame
  unfold decode
  rw [hparse]
  show (if crcOK (frame.drop headerSize) (headerOf frame).crc = true then _ else _) = _
  simp only [hcheck]
  rfl

/-- `Decode` rejects the frames that are not tagged. -/
theorem decode_error_iff {frame : List UInt8} (hframe : headerSize ≤ frame.length) :
    decode frame = .error .crcMismatch ↔ ¬ Tagged frame := by
  rw [decode_of_header hframe]
  by_cases htagged : Tagged frame <;> simp [htagged]

/-- The frames that `Decode` accepts. -/
theorem decode_ok {frame body : List UInt8} {h : Header} (hok : decode frame = .ok (h, body)) :
    headerSize ≤ frame.length ∧ Tagged frame ∧ body = frame.drop headerSize := by
  by_cases hframe : frame.length < headerSize
  · have hparse : parseHeader frame = .error .shortFrame := if_pos hframe
    unfold decode at hok
    rw [hparse] at hok
    cases hok
  · have hlen : headerSize ≤ frame.length := by omega
    rw [decode_of_header hlen] at hok
    split at hok
    · rename_i htagged
      cases hok
      exact ⟨hlen, htagged, rfl⟩
    · cases hok

/-! ## The marks of single bits -/

/-- The mark of a guarded bit as a number: first the bits of the tag, then those of the body, from
its last bit on. -/
def bitMark (place : Nat) : Nat :=
  if place < 15 then 2 ^ place else Crc.shifts 0xedb88320 (place - 14) 1 % 2 ^ 15

/-- Where a guarded bit of a frame of `n` bytes stands among the marks. -/
def place (n i : Nat) : Nat := if i < 64 then i - 48 else 8 * n - i + 14

section Marks

variable {n i : Nat}

theorem tag_bit (hn : headerSize ≤ n) (hi : 48 ≤ i) (hi' : i < 64) :
    tag (Bytes.bit n i) = ⟨1#16 <<< (i - 48)⟩ := by
  have hword : ∀ k : Fin 16, Bytes.leUint16 (if k.val < 8 then ⟨1#8 <<< (k.val % 8)⟩ else 0)
      (if k.val < 8 then 0 else ⟨1#8 <<< (k.val % 8)⟩) = ⟨1#16 <<< k.val⟩ := by
    decide
  have hlow : (i - 48) % 8 = i % 8 := by omega
  unfold headerSize at hn
  rw [← hword ⟨i - 48, by omega⟩, hlow]
  unfold tag
  rw [Bytes.getD_bit, Bytes.getD_bit]
  by_cases hbyte : i < 56
  · simp only [show i / 8 = 6 by omega, show i - 48 < 8 by omega, show 6 < n by omega, and_self,
      if_true, Nat.reduceEqDiff, false_and, if_false]
  · simp only [show i / 8 = 7 by omega, show ¬ i - 48 < 8 by omega, show 7 < n by omega, and_self,
      if_true, Nat.reduceEqDiff, false_and, if_false]

theorem tag_bit_of_not (hi : ¬ (48 ≤ i ∧ i < 64)) : tag (Bytes.bit n i) = 0 := by
  unfold tag
  rw [Bytes.getD_bit, Bytes.getD_bit, if_neg (by omega), if_neg (by omega)]
  rfl

/-- Bits of the header leave the body's register alone. -/
theorem mark_bit_of_lt (hi : i < 64) : mark (Bytes.bit n i) = tag (Bytes.bit n i) &&& crcMask := by
  unfold mark
  rw [Bytes.drop_bit_of_lt hi, Crc.update_zeros, Crc.bitSteps_zero]
  exact UInt16.zero_xor

/-- Bits of the sequence number, of the count and the keyframe bit have no mark. -/
theorem mark_bit_eq_zero (hn : headerSize ≤ n) (hi : i < 48 ∨ i = 63) :
    mark (Bytes.bit n i) = 0 := by
  rw [mark_bit_of_lt (by omega)]
  rcases hi with hi | rfl
  · rw [tag_bit_of_not (by omega)]
    rfl
  · rw [tag_bit hn (by decide) (by decide)]
    rfl

/-- The mark of a guarded bit. -/
theorem toNat_mark_bit (hn : headerSize ≤ n) (hi : 48 ≤ i) (hi' : i ≠ 63) (hlt : i < 8 * n) :
    (mark (Bytes.bit n i)).toNat = bitMark (place n i) := by
  by_cases htag : i < 64
  · have hpow : ∀ k : Fin 15, ((⟨1#16 <<< k.val⟩ : UInt16) &&& crcMask).toNat = 2 ^ k.val := by
      decide
    rw [mark_bit_of_lt htag, tag_bit hn hi htag, hpow ⟨i - 48, by omega⟩, place, if_pos htag,
      bitMark, if_pos (by omega)]
  · have hdist : 8 * (n - headerSize) - (i - 8 * headerSize) = 8 * n - i := by
      unfold headerSize
      omega
    unfold mark
    rw [tag_bit_of_not (by omega), Bytes.drop_bit_of_ge (by unfold headerSize; omega),
      Crc.update_bit _ (by decide) (by unfold headerSize; omega), hdist, UInt16.zero_and,
      UInt16.xor_zero, toNat_lowTag, Crc.toNat_bitSteps, place, if_neg htag, bitMark,
      if_neg (by omega), Nat.add_sub_cancel]
    rfl

end Marks

/-! ## The lengths at which marks vanish and agree -/

/-- The register of a one, through 10732 bytes. -/
theorem scan_body : Crc.scan 0xedb88320 8 10732 1 = some 2637045183 := by decide +kernel

/-- Single marks do not vanish in a body of at most 10732 bytes. -/
theorem bitMark_ne_zero {p : Nat} (h : p ≤ 8 * 10732 + 14) : bitMark p ≠ 0 := by
  unfold bitMark
  split
  · exact Nat.ne_of_gt (Nat.two_pow_pos p)
  · exact (Crc.scan_spec scan_body).2 (p - 14) (by omega) (by omega)

/-- The first bit behind them that has no mark. -/
theorem bitMark_vanishes : bitMark (85863 + 14) = 0 := by
  have hsplit : 85863 = 8 * 10732 + 7 := rfl
  unfold bitMark
  rw [if_neg (by decide), Nat.add_sub_cancel, hsplit, Crc.shifts_add,
    (Crc.scan_spec scan_body).1]
  decide +kernel

/-- Marks differ in a body of at most 15 bytes. -/
theorem bitMark_nodup : ((List.range 135).map bitMark).Nodup := by decide +kernel

theorem bitMark_injective {p q : Nat} (hp : p < 135) (hq : q < 135) (h : bitMark p = bitMark q) :
    p = q :=
  List.inj_on_of_nodup_map bitMark_nodup (List.mem_range.mpr hp) (List.mem_range.mpr hq) h

/-- The first two bits that have the same mark. -/
theorem bitMark_agrees : bitMark (114 + 14) = bitMark (123 + 14) := by decide +kernel

/-! ## Damaged frames -/

section Damaged

variable {frame : List UInt8} {i j : Nat}

/-- A flipped bit goes unnoticed exactly when it has no mark. -/
theorem tagged_flip (htagged : Tagged frame) (hframe : headerSize ≤ frame.length) :
    Tagged (Bytes.flip frame i) ↔ mark (Bytes.bit frame.length i) = 0 := by
  rw [Bytes.flip_eq]
  exact tagged_damaged htagged hframe (by simp)

/-- Two flipped bits go unnoticed exactly when they have the same mark. -/
theorem tagged_flip_flip (htagged : Tagged frame) (hframe : headerSize ≤ frame.length) :
    Tagged (Bytes.flip (Bytes.flip frame i) j) ↔
      mark (Bytes.bit frame.length i) = mark (Bytes.bit frame.length j) := by
  rw [Bytes.flip_flip, tagged_damaged htagged hframe (by simp), mark_xor (by simpa) (by simp)]
  exact xor_eq_zero

/-- A flipped guarded bit goes unnoticed exactly when its mark vanishes. -/
theorem tagged_flip_guarded (htagged : Tagged frame) (hframe : headerSize ≤ frame.length)
    (hi : Guarded frame i) :
    Tagged (Bytes.flip frame i) ↔ bitMark (place frame.length i) = 0 := by
  have hmark := toNat_mark_bit hframe hi.1 hi.2.1 hi.2.2
  rw [tagged_flip htagged hframe, ← hmark, ← UInt16.toNat_inj]
  rfl

/-- Two flipped guarded bits go unnoticed exactly when their marks agree. -/
theorem tagged_flip_flip_guarded (htagged : Tagged frame) (hframe : headerSize ≤ frame.length)
    (hi : Guarded frame i) (hj : Guarded frame j) :
    Tagged (Bytes.flip (Bytes.flip frame i) j) ↔
      bitMark (place frame.length i) = bitMark (place frame.length j) := by
  have hmark := toNat_mark_bit hframe hi.1 hi.2.1 hi.2.2
  have hmark' := toNat_mark_bit hframe hj.1 hj.2.1 hj.2.2
  rw [tagged_flip_flip htagged hframe, ← hmark, ← hmark', UInt16.toNat_inj]

end Damaged

/-- What `Decode` notices of damage to a frame that it accepts. It notices every single flipped bit
of the body and of the 15 bits of the tag exactly when the body has at most 10732 bytes, and every
two flipped bits exactly when it has at most 15; it notices no flipped bit of the sequence number,
of the count or of the keyframe flag. For a receiver of a delta stream with the right baseline the
damage reaches the recovered frame: in bodies of that length a single flipped bit is an error that
leaves the baseline alone, unless the damaged frame reads as a keyframe. -/
theorem bit_errors {frame body : List UInt8} {h : Header} (hok : decode frame = .ok (h, body)) :
    ((∀ i, Guarded frame i → decode (Bytes.flip frame i) = .error .crcMismatch) ↔
      body.length ≤ 10732) ∧
    ((∀ i j, Guarded frame i → Guarded frame j → i ≠ j →
      decode (Bytes.flip (Bytes.flip frame i) j) = .error .crcMismatch) ↔ body.length ≤ 15) ∧
    (∀ i, i < 48 ∨ i = 63 →
      decode (Bytes.flip frame i) = .ok (headerOf (Bytes.flip frame i), body)) ∧
    (body.length ≤ 10732 → ∀ base i, Guarded frame i →
      ¬ ReadsAsKeyframe (Bytes.flip (Bytes.delta frame base) i) →
      DeltaReconstructor.reconstruct { prev := base } (Bytes.flip (Bytes.delta frame base) i) =
        ({ prev := base }, .error .crcMismatch)) := by
  obtain ⟨hframe, htagged, rfl⟩ := decode_ok hok
  have hlen : (frame.drop headerSize).length = frame.length - 8 := List.length_drop
  have hsize : headerSize = 8 := rfl
  have hdecode : ∀ damaged : List UInt8, damaged.length = frame.length →
      (decode damaged = .error .crcMismatch ↔ ¬ Tagged damaged) :=
    fun damaged hsame => decode_error_iff (by omega)
  have hsingle : (frame.drop headerSize).length ≤ 10732 → ∀ i, Guarded frame i →
      ¬ Tagged (Bytes.flip frame i) := by
    intro hshort i hi
    rw [tagged_flip_guarded htagged hframe hi]
    obtain ⟨hi, hi', hlt⟩ := hi
    apply bitMark_ne_zero
    unfold place
    split <;> omega
  -- a bit of the body, counted from the end
  have hplace : ∀ d, d + 64 ≤ 8 * frame.length →
      place frame.length (8 * frame.length - d) = d + 14 := by
    intro d hd
    unfold place
    rw [if_neg (by omega)]
    omega
  refine ⟨⟨fun hall => ?_, fun hshort i hi => ?_⟩, ⟨fun hall => ?_, fun hshort i j hi hj hij => ?_⟩,
    fun i hi => ?_, fun hshort base i hi hkey => ?_⟩
  · by_contra hlong
    have hi : Guarded frame (8 * frame.length - 85863) := ⟨by omega, by omega, by omega⟩
    apply (hdecode _ (by simp)).mp (hall _ hi)
    rw [tagged_flip_guarded htagged hframe hi, hplace 85863 (by omega)]
    exact bitMark_vanishes
  · exact (hdecode _ (by simp)).mpr (hsingle hshort i hi)
  · by_contra hlong
    have hi : Guarded frame (8 * frame.length - 114) := ⟨by omega, by omega, by omega⟩
    have hj : Guarded frame (8 * frame.length - 123) := ⟨by omega, by omega, by omega⟩
    apply (hdecode _ (by simp)).mp (hall _ _ hi hj (by omega))
    rw [tagged_flip_flip_guarded htagged hframe hi hj, hplace 114 (by omega),
      hplace 123 (by omega)]
    exact bitMark_agrees
  · rw [hdecode _ (by simp), tagged_flip_flip_guarded htagged hframe hi hj]
    intro hsame
    obtain ⟨hi, hi', hlt⟩ := hi
    obtain ⟨hj, hj', hlt'⟩ := hj
    unfold place at hsame
    have hplaces := bitMark_injective (by split <;> omega) (by split <;> omega) hsame
    split at hplaces <;> split at hplaces <;> omega
  · have hflip := (tagged_flip htagged hframe).mpr (mark_bit_eq_zero hframe hi)
    have hbody : (Bytes.flip frame i).drop headerSize = frame.drop headerSize := by
      rw [Bytes.flip_eq, Bytes.drop_xor, Bytes.drop_bit_of_lt (by omega),
        Bytes.xor_zeros (by simp)]
    rw [decode_of_header (by simpa), if_pos hflip, hbody]
  · have hback : Bytes.delta (Bytes.flip (Bytes.delta frame base) i) base =
        Bytes.flip frame i := by
      rw [Bytes.delta_flip, Bytes.delta_delta]
    rw [reconstruct_eq _ (by simpa), if_neg hkey, hback, if_neg (hsingle hshort i hi)]

/-- A keyframe with a body of one byte and its damage. -/
theorem bit_errors_one_byte :
    decode oneByteKeyframe = .ok (headerOf oneByteKeyframe, [2]) ∧
      decode (Bytes.flip oneByteKeyframe 65) = .error .crcMismatch ∧
      decode (Bytes.flip (Bytes.flip oneByteKeyframe 48) 71) = .error .crcMismatch ∧
      decode (Bytes.flip oneByteKeyframe 0) =
        .ok (headerOf (Bytes.flip oneByteKeyframe 0), [2]) := by
  have hok : decode oneByteKeyframe = .ok (headerOf oneByteKeyframe, [2]) := by
    rw [decode_of_header (by decide), if_pos (by decide +kernel)]
    rfl
  obtain ⟨hone, htwo, hfree, -⟩ := bit_errors hok
  exact ⟨hok, hone.mpr (by decide) 65 (by decide),
    htwo.mpr (by decide) 48 71 (by decide) (by decide) (by decide), hfree 0 (.inl (by decide))⟩

end TickBatch.Codec
