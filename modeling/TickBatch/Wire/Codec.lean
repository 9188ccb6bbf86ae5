import TickBatch.Lib.Bytes
import TickBatch.Lib.Crc

/-!
# The reference decoder of the wire format

A model of package `codec`: the 8-byte header, the truncated CRC of the body, `Decode` for raw
frames and `DeltaReconstructor` for delta-encoded streams. The integrity tag and the checksum both
commute with exclusive or up to the affine part of CRC-32 (`tag_xor`, `bodyCrc_xor₃`), and
`reconstruct_eq` says in one place what `Reconstruct` does with a frame. For a delta between two
frames of one length the outcome depends on that length alone (`same_length_delta`).
-/

namespace TickBatch.Codec

open Bytes (leUint16 leUint32)

/-- The length of the fixed wire header. -/
def headerSize : Nat := 8

/-- Bit 15 of the integrity tag: a delta baseline reset. -/
def keyframeBit : UInt16 := 0x8000

/-- The low 15 bits of the integrity tag: the truncated CRC. -/
def crcMask : UInt16 := 0x7fff

/-- The errors of the decoder. -/
inductive Error where
  | shortFrame
  | crcMismatch
  deriving DecidableEq, Repr

/-- The texts of the errors. -/
def Error.message : Error → String
  | .shortFrame => "tickbatch/codec: frame shorter than header"
  | .crcMismatch => "tickbatch/codec: CRC mismatch"

/-- The decoded fixed header of a frame. -/
structure Header where
  seq : UInt32
  count : UInt16
  crc : UInt16
  keyframe : Bool
  deriving DecidableEq, Repr

/-- CRC-32/IEEE. -/
def checksumIEEE (bs : List UInt8) : UInt32 := ⟨Crc.checksum 0xedb88320#32 bs⟩

example : checksumIEEE [0x31, 0x32, 0x33, 0x34, 0x35, 0x36, 0x37, 0x38, 0x39] = 0xcbf43926 := by
  decide +kernel

/-- The integrity tag of a frame that has a header. -/
def tag (frame : List UInt8) : UInt16 := leUint16 (frame.getD 6 0) (frame.getD 7 0)

/-- The header at the start of a frame that is long enough to have one. -/
def headerOf (frame : List UInt8) : Header where
  seq := leUint32 (frame.getD 0 0) (frame.getD 1 0) (frame.getD 2 0) (frame.getD 3 0)
  count := leUint16 (frame.getD 4 0) (frame.getD 5 0)
  crc := tag frame &&& crcMask
  keyframe := tag frame &&& keyframeBit != 0

/-- Decode the header without verifying the CRC or interpreting the body. -/
def parseHeader (frame : List UInt8) : Except Error Header :=
  if frame.length < headerSize then .error .shortFrame else .ok (headerOf frame)

/-- Whether the CRC of a body matches a truncated CRC. -/
def crcOK (body : List UInt8) (want : UInt16) : Bool :=
  checksumIEEE body &&& crcMask.toUInt32 == want.toUInt32

/-- Parse a raw frame and verify its CRC. -/
def decode (frame : List UInt8) : Except Error (Header × List UInt8) := do
  let h ← parseHeader frame
  let body := frame.drop headerSize
  if crcOK body h.crc then pure (h, body) else throw .crcMismatch

/-- The receiver of a delta-encoded stream: the previous raw frame. -/
structure DeltaReconstructor where
  prev : List UInt8 := []
  deriving DecidableEq, Repr

/-- A frame combined with the previous raw frame, zero-extended. -/
def undelta (frame prev : List UInt8) : List UInt8 :=
  frame.mapIdx fun i x => x ^^^ if i < prev.length then prev.getD i 0 else 0

/-- Recover the raw frame from a transmitted frame. A frame that reads as a keyframe and whose CRC
validates directly resets the baseline; any other frame is combined with the previous raw frame,
and the recovered frame's CRC is verified. On an error the baseline stays. -/
def DeltaReconstructor.reconstruct (d : DeltaReconstructor) (frame : List UInt8) :
    DeltaReconstructor × Except Error (List UInt8 × Header) :=
  if frame.length < headerSize then (d, .error .shortFrame)
  else
    match parseHeader frame with
    | .ok hk =>
        if hk.keyframe && crcOK (frame.drop headerSize) hk.crc then
          ({ prev := frame }, .ok (frame, hk))
        else deltaPath
    | .error _ => deltaPath
where
  /-- The delta path of `reconstruct`. -/
  deltaPath :=
    let raw := undelta frame d.prev
    match parseHeader raw with
    | .error e => (d, .error e)
    | .ok h =>
        if crcOK (raw.drop headerSize) h.crc then ({ prev := raw }, .ok (raw, h))
        else (d, .error .crcMismatch)

/-! ## The truncated checksum -/

/-- The low 15 bits of the CRC of a body, as the tag carries them. -/
def bodyCrc (body : List UInt8) : UInt16 := (checksumIEEE body &&& crcMask.toUInt32).toUInt16

/-- How far a frame's tag is from the checksum of its body. -/
def syndrome (frame : List UInt8) : UInt16 :=
  bodyCrc (frame.drop headerSize) ^^^ (tag frame &&& crcMask)

/-- The frame's body has the checksum that its tag announces. -/
def Tagged (frame : List UInt8) : Prop := syndrome frame = 0

instance (frame : List UInt8) : Decidable (Tagged frame) :=
  inferInstanceAs (Decidable (_ = _))

/-- Two words differ by nothing exactly when they are equal. -/
theorem xor_eq_zero {a b : UInt16} : a ^^^ b = 0 ↔ a = b := by
  constructor
  · intro h
    have hcancel : a ^^^ b ^^^ b = 0 ^^^ b := by rw [h]
    simpa [UInt16.xor_assoc] using hcancel
  · rintro rfl
    exact UInt16.xor_self

theorem or_and_distrib (a b c : UInt16) : (a ||| b) &&& c = (a &&& c) ||| (b &&& c) := by
  apply UInt16.toBitVec_inj.mp
  apply BitVec.eq_of_getLsbD_eq
  intro i _
  simp only [UInt16.toBitVec_and, UInt16.toBitVec_or, BitVec.getLsbD_and, BitVec.getLsbD_or,
    Bool.and_or_distrib_right]

theorem xor_and_distrib (a b c : UInt16) : (a ^^^ b) &&& c = (a &&& c) ^^^ (b &&& c) := by
  apply UInt16.toBitVec_inj.mp
  apply BitVec.eq_of_getLsbD_eq
  intro i _
  simp only [UInt16.toBitVec_and, UInt16.toBitVec_xor, BitVec.getLsbD_and, BitVec.getLsbD_xor,
    Bool.and_xor_distrib_right]

theorem tagged_iff (frame : List UInt8) :
    Tagged frame ↔ bodyCrc (frame.drop headerSize) = tag frame &&& crcMask :=
  xor_eq_zero

/-- The receiver's comparison in 32 bits is the comparison of the 15-bit tags. -/
theorem crcOK_iff (body : List UInt8) (want : UInt16) :
    crcOK body want = true ↔ bodyCrc body = want := by
  have hmask : (checksumIEEE body &&& crcMask.toUInt32).toNat < 2 ^ 16 := by
    rw [UInt32.toNat_and]
    exact Nat.lt_of_le_of_lt Nat.and_le_right (by decide)
  unfold crcOK bodyCrc
  rw [beq_iff_eq, ← UInt32.toNat_inj, ← UInt16.toNat_inj, UInt16.toNat_toUInt32,
    UInt32.toNat_toUInt16]
  omega

/-- A frame passes the decoder's check exactly when it is tagged. -/
theorem crcOK_header (frame : List UInt8) :
    crcOK (frame.drop headerSize) (headerOf frame).crc = true ↔ Tagged frame := by
  rw [crcOK_iff, tagged_iff]
  rfl

/-- The tag of combined frames is the combination of the tags. -/
theorem tag_xor {a b : List UInt8} (ha : headerSize ≤ a.length) (hb : headerSize ≤ b.length) :
    tag (Bytes.xor a b) = tag a ^^^ tag b := by
  unfold headerSize at ha hb
  have hbyte : ∀ i < 8, (Bytes.xor a b).getD i 0 = a.getD i 0 ^^^ b.getD i 0 := by
    intro i hi
    simp [Bytes.xor, List.getD_eq_getElem?_getD, List.getElem?_zipWith,
      List.getElem?_eq_getElem (show i < a.length by omega),
      List.getElem?_eq_getElem (show i < b.length by omega)]
  unfold tag
  rw [hbyte 6 (by omega), hbyte 7 (by omega), Bytes.leUint16_xor]

/-- The zero frame has the zero tag. -/
theorem tag_zeros (n : Nat) : tag (List.replicate n 0) = 0 := by
  have hbyte : ∀ i, (List.replicate n (0 : UInt8)).getD i 0 = 0 := by
    intro i
    rw [List.getD_eq_getElem?_getD, List.getElem?_replicate]
    split <;> rfl
  unfold tag
  rw [hbyte, hbyte]
  rfl

/-- The syndrome of the zero frame is the checksum of its body. -/
theorem syndrome_zeros (length : Nat) :
    syndrome (List.replicate (headerSize + length) 0) = bodyCrc (List.replicate length 0) := by
  unfold syndrome
  rw [List.drop_replicate, Nat.add_sub_cancel_left, tag_zeros, UInt16.zero_and, UInt16.xor_zero]

/-- The checksum of the combination of three bodies of one length. -/
theorem bodyCrc_xor₃ {a b c : List UInt8} (hb : a.length = b.length) (hc : a.length = c.length) :
    bodyCrc (Bytes.xor (Bytes.xor a b) c) = bodyCrc a ^^^ bodyCrc b ^^^ bodyCrc c := by
  have hsum : checksumIEEE (Bytes.xor (Bytes.xor a b) c) =
      checksumIEEE a ^^^ checksumIEEE b ^^^ checksumIEEE c :=
    congrArg UInt32.ofBitVec (Crc.checksum_xor₃ 0xedb88320#32 hb hc)
  unfold bodyCrc
  rw [hsum]
  apply UInt16.toBitVec_inj.mp
  apply BitVec.eq_of_getLsbD_eq
  intro i hi
  simp only [UInt32.toBitVec_toUInt16, UInt32.toBitVec_and, UInt32.toBitVec_xor,
    UInt16.toBitVec_xor, BitVec.getLsbD_setWidth, BitVec.getLsbD_and, BitVec.getLsbD_xor, hi,
    decide_true, Bool.true_and, Bool.and_xor_distrib_right]

/-- The syndrome of the combination of three frames of one length. -/
theorem syndrome_xor₃ {a b c : List UInt8} (ha : headerSize ≤ a.length)
    (hb : a.length = b.length) (hc : a.length = c.length) :
    syndrome (Bytes.xor (Bytes.xor a b) c) = syndrome a ^^^ syndrome b ^^^ syndrome c := by
  have htag : tag (Bytes.xor (Bytes.xor a b) c) &&& crcMask =
      (tag a &&& crcMask) ^^^ (tag b &&& crcMask) ^^^ (tag c &&& crcMask) := by
    rw [tag_xor (by simp; omega) (by omega), tag_xor ha (by omega), xor_and_distrib,
      xor_and_distrib]
  unfold syndrome
  rw [Bytes.drop_xor, Bytes.drop_xor, bodyCrc_xor₃ (by simp [hb]) (by simp [hc]), htag]
  ac_rfl

/-- A tagged frame sent as a delta validates directly exactly when its base, fitted to its length,
has the syndrome of the zero frame. -/
theorem tagged_delta {raw base : List UInt8} (hraw : Tagged raw)
    (hlen : headerSize ≤ raw.length) :
    Tagged (Bytes.delta raw base) ↔
      syndrome (Bytes.fit raw.length base) = syndrome (List.replicate raw.length 0) := by
  have hzeros : Bytes.delta raw base =
      Bytes.xor (Bytes.xor raw (Bytes.fit raw.length base)) (List.replicate raw.length 0) := by
    rw [Bytes.xor_zeros (by simp)]
    rfl
  unfold Tagged at hraw ⊢
  rw [hzeros, syndrome_xor₃ hlen (by simp) (by simp), hraw, UInt16.zero_xor]
  exact xor_eq_zero

/-- A tagged frame sent as a delta of one base and decoded with another validates exactly when the
two bases, fitted to its length, have the same syndrome. -/
theorem tagged_delta_delta {raw base other : List UInt8} (hraw : Tagged raw)
    (hlen : headerSize ≤ raw.length) :
    Tagged (Bytes.delta (Bytes.delta raw base) other) ↔
      syndrome (Bytes.fit raw.length base) = syndrome (Bytes.fit raw.length other) := by
  have hdelta : Bytes.delta (Bytes.delta raw base) other =
      Bytes.xor (Bytes.xor raw (Bytes.fit raw.length base)) (Bytes.fit raw.length other) := by
    unfold Bytes.delta
    rw [Bytes.length_xor, Bytes.length_fit, Nat.min_self]
  unfold Tagged at hraw ⊢
  rw [hdelta, syndrome_xor₃ hlen (by simp) (by simp), hraw, UInt16.zero_xor]
  exact xor_eq_zero

/-- Fitting a frame to a length that has room for the header keeps the tag. -/
theorem tag_fit {n : Nat} {frame : List UInt8} (hn : headerSize ≤ n)
    (hlen : headerSize ≤ frame.length) : tag (Bytes.fit n frame) = tag frame := by
  unfold headerSize at hn hlen
  have hbyte : ∀ i < 8, (Bytes.fit n frame).getD i 0 = frame.getD i 0 := by
    intro i hi
    simp only [Bytes.fit, List.getD_eq_getElem?_getD]
    rw [List.getElem?_append_left (by simp; omega), List.getElem?_take_of_lt (by omega)]
  unfold tag
  rw [hbyte 6 (by omega), hbyte 7 (by omega)]

/-! ## What `Reconstruct` does with a frame -/

/-- Combining with the zero-extended previous frame is taking the delta. -/
theorem undelta_eq (frame prev : List UInt8) : undelta frame prev = Bytes.delta frame prev := by
  apply List.ext_getElem
  · simp [undelta]
  · intro i hi hi'
    simp only [undelta, List.length_mapIdx] at hi
    simp only [undelta, Bytes.delta, Bytes.xor, Bytes.fit, List.getElem_mapIdx,
      List.getElem_zipWith]
    congr 1
    by_cases h : i < prev.length
    · rw [if_pos h, List.getElem_append_left (by simp; omega)]
      simp [h]
    · rw [if_neg h, List.getElem_append_right (by simp; omega)]
      simp

/-- A frame that reads as a keyframe and validates directly. -/
def ReadsAsKeyframe (frame : List UInt8) : Prop :=
  tag frame &&& keyframeBit ≠ 0 ∧ Tagged frame

instance (frame : List UInt8) : Decidable (ReadsAsKeyframe frame) :=
  inferInstanceAs (Decidable (_ ∧ _))

/-- `Reconstruct` on a frame that has a header. -/
theorem reconstruct_eq (d : DeltaReconstructor) {frame : List UInt8}
    (h : headerSize ≤ frame.length) :
    d.reconstruct frame =
      if ReadsAsKeyframe frame then ({ prev := frame }, .ok (frame, headerOf frame))
      else if Tagged (Bytes.delta frame d.prev) then
        ({ prev := Bytes.delta frame d.prev },
          .ok (Bytes.delta frame d.prev, headerOf (Bytes.delta frame d.prev)))
      else (d, .error .crcMismatch) := by
  have hparse : ∀ f : List UInt8, f.length = frame.length → parseHeader f = .ok (headerOf f) := by
    intro f hf
    unfold parseHeader
    rw [if_neg (by omega)]
  have hdelta : DeltaReconstructor.reconstruct.deltaPath d frame =
      if Tagged (Bytes.delta frame d.prev) then
        ({ prev := Bytes.delta frame d.prev },
          .ok (Bytes.delta frame d.prev, headerOf (Bytes.delta frame d.prev)))
      else (d, .error .crcMismatch) := by
    unfold DeltaReconstructor.reconstruct.deltaPath
    simp only [undelta_eq, hparse _ (Bytes.length_delta frame d.prev), crcOK_header]
  have hkey : ((headerOf frame).keyframe &&
      crcOK (frame.drop headerSize) (headerOf frame).crc) = true ↔ ReadsAsKeyframe frame := by
    rw [Bool.and_eq_true, crcOK_header]
    simp [ReadsAsKeyframe, headerOf]
  unfold DeltaReconstructor.reconstruct
  rw [if_neg (by omega), hparse frame rfl, hdelta]
  simp only [hkey]

/-! ## Frames of one length -/

section SameLength

variable {raw base : List UInt8} {n : Nat}

/-- The combination of two tagged frames of one length validates exactly when the checksum of a
body of zeros vanishes. -/
theorem tagged_xor (hraw : raw.length = headerSize + n)
    (hbase : base.length = headerSize + n) (htagged : Tagged raw) (htagged' : Tagged base) :
    Tagged (Bytes.xor raw base) ↔ bodyCrc (List.replicate n 0) = 0 := by
  have hsame : base.length = raw.length := by omega
  have hfit : syndrome (Bytes.fit raw.length base) = 0 := by
    rw [Bytes.fit_of_length hsame]
    exact htagged'
  rw [← Bytes.delta_of_length hsame, tagged_delta htagged (by omega), hfit, hraw, syndrome_zeros]
  exact eq_comm

/-- The combination of a keyframe with a delta frame of the same length reads as a keyframe. -/
theorem keyframe_xor (hraw : headerSize ≤ raw.length) (hbase : headerSize ≤ base.length)
    (hkey : (headerOf base).keyframe = true) (hkey' : (headerOf raw).keyframe = false) :
    tag (Bytes.xor raw base) &&& keyframeBit ≠ 0 := by
  have hzero : tag raw &&& keyframeBit = 0 := by simpa [headerOf] using hkey'
  have hone : tag base &&& keyframeBit ≠ 0 := by simpa [headerOf] using hkey
  rw [tag_xor hraw hbase, xor_and_distrib, hzero, UInt16.zero_xor]
  exact hone

/-- A delta between two tagged frames of one length, whatever their bodies, sequence numbers and
counts. A receiver without a baseline accepts it exactly when the checksum of a body of zeros of
that length has its low 15 bits clear; and a receiver in step takes the delta frame after a
keyframe for a keyframe exactly then. -/
theorem same_length_delta (hraw : raw.length = headerSize + n)
    (hbase : base.length = headerSize + n) (htagged : Tagged raw) (htagged' : Tagged base) :
    (DeltaReconstructor.reconstruct {} (Bytes.xor raw base)).2 =
        (if checksumIEEE (List.replicate n 0) &&& 0x7fff = 0 then
          .ok (Bytes.xor raw base, headerOf (Bytes.xor raw base))
        else .error .crcMismatch) ∧
      ((headerOf base).keyframe = true → (headerOf raw).keyframe = false →
        (headerOf (Bytes.xor raw base)).keyframe = true ∧
        DeltaReconstructor.reconstruct { prev := base } (Bytes.xor raw base) =
          if checksumIEEE (List.replicate n 0) &&& 0x7fff = 0 then
            ({ prev := Bytes.xor raw base },
              .ok (Bytes.xor raw base, headerOf (Bytes.xor raw base)))
          else ({ prev := raw }, .ok (raw, headerOf raw))) := by
  have hlen : headerSize ≤ (Bytes.xor raw base).length := by
    rw [Bytes.length_xor]
    omega
  have hcrc : checksumIEEE (List.replicate n 0) &&& 0x7fff = 0 ↔
      Tagged (Bytes.xor raw base) := by
    rw [tagged_xor hraw hbase htagged htagged', ← crcOK_iff]
    exact beq_iff_eq.symm
  have hback : Bytes.delta (Bytes.xor raw base) base = raw := by
    have hsame : base.length = raw.length := by omega
    rw [← Bytes.delta_of_length hsame, Bytes.delta_delta]
  refine ⟨?_, fun hkey hkey' => ?_⟩
  · rw [reconstruct_eq _ hlen, Bytes.delta_nil]
    simp only [hcrc, ReadsAsKeyframe]
    -- a frame that validates is accepted on either path, and returned as it is
    by_cases h : Tagged (Bytes.xor raw base)
    · simp only [h, and_true, if_true]
      split <;> rfl
    · simp only [h, and_false, if_false]
  · have hbit := keyframe_xor (by omega) (by omega) hkey hkey'
    refine ⟨by simpa [headerOf] using hbit, ?_⟩
    rw [reconstruct_eq _ hlen, hback]
    simp only [hcrc, ReadsAsKeyframe, ne_eq, hbit, not_false_eq_true, true_and, htagged, if_true]

end SameLength

/-- A delta frame with a body of one byte. -/
def oneByteFrame : List UInt8 := [2, 0, 0, 0, 1, 0, 0x1b, 0x5f, 1]

/-- A keyframe with a body of one byte. -/
def oneByteKeyframe : List UInt8 := [1, 0, 0, 0, 1, 0, 0xa1, 0x8e, 2]

/-- With bodies of one byte the delta is rejected without a baseline, and decoded with the right
one. -/
theorem same_length_delta_one_byte :
    (DeltaReconstructor.reconstruct {} (Bytes.xor oneByteFrame oneByteKeyframe)).2 =
        .error .crcMismatch ∧
      DeltaReconstructor.reconstruct { prev := oneByteKeyframe }
          (Bytes.xor oneByteFrame oneByteKeyframe) =
        ({ prev := oneByteFrame }, .ok (oneByteFrame, headerOf oneByteFrame)) := by
  have hcrc : checksumIEEE (List.replicate 1 0) &&& 0x7fff ≠ 0 := by decide +kernel
  have h := same_length_delta (n := 1) (show oneByteFrame.length = headerSize + 1 from rfl)
    (show oneByteKeyframe.length = headerSize + 1 from rfl) (by decide +kernel)
    (by decide +kernel)
  rw [if_neg hcrc, if_neg hcrc] at h
  exact ⟨h.1, (h.2 rfl rfl).2⟩

end TickBatch.Codec
