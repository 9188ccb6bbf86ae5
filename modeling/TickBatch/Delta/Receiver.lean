import TickBatch.Delta.Resync
import TickBatch.Wire.Detection

/-!
# The receiver on arbitrary input

What `Decode` and `Reconstruct` make of bytes that no sender may have produced. A frame is well
formed when it is the encoding of a header and a body; `decode_iff` says that `Decode` accepts
exactly the well-formed frames, each with the only header and body it encodes. `Reading` says what
a receiver of a delta-encoded stream makes of a list of payloads, in terms of well-formed frames
alone, and `reading_iff` that `Reconstruct` does just that from every state. `arbitrary_stream`
draws the consequences for a whole stream.
-/

namespace TickBatch

open Batcher (encodeFrame integrityTag headerBytes tagBytes receive)

namespace Codec

/-- The frame is the encoding of the header and some body. -/
def WellFormed (frame : List UInt8) (h : Header) : Prop :=
  ∃ body, frame = encodeFrame h.seq h.count h.keyframe body ∧ h.crc = bodyCrc body

/-- The frame is a well-formed keyframe. -/
def WellFormedKeyframe (frame : List UInt8) : Prop :=
  ∃ h, WellFormed frame h ∧ h.keyframe = true

/-! ## Well-formed frames are the tagged ones -/

/-- A tag is put together from the truncated checksum and the keyframe bit. -/
theorem mask_or_keyframeBit (t : UInt16) :
    (t &&& crcMask) ||| (if (t &&& keyframeBit != 0) = true then keyframeBit else 0) = t := by
  have hbit : t &&& keyframeBit = if t.toNat.testBit 15 then keyframeBit else 0 := by
    apply UInt16.toNat_inj.mp
    rw [UInt16.toNat_and, show keyframeBit.toNat = 2 ^ 15 from rfl, Nat.and_two_pow]
    split <;> simp [*, keyframeBit]
  have hread : (if (t &&& keyframeBit != 0) = true then keyframeBit else 0) =
      t &&& keyframeBit := by
    rw [hbit]
    cases t.toNat.testBit 15 <;> rfl
  have hsplit : (t &&& crcMask) ||| (t &&& keyframeBit) = t := by
    rw [UInt16.and_comm t crcMask, UInt16.and_comm t keyframeBit, ← or_and_distrib]
    show -1 &&& t = t
    exact UInt16.neg_one_and
  rw [hread, hsplit]

/-- The tag of a tagged frame is the integrity tag of its body. -/
theorem Tagged.integrityTag_eq {frame : List UInt8} (h : Tagged frame) :
    integrityTag (frame.drop headerSize) (headerOf frame).keyframe = tag frame := by
  have hbody := (tagged_iff frame).mp h
  have hput := mask_or_keyframeBit (tag frame)
  show (if (tag frame &&& keyframeBit != 0) = true then
      bodyCrc (frame.drop headerSize) ||| keyframeBit else bodyCrc (frame.drop headerSize)) = _
  rw [hbody]
  split at hput
  · rename_i hkey
    rw [if_pos hkey, hput]
  · rename_i hkey
    rw [if_neg hkey]
    simpa using hput

/-- A tagged frame is the encoding of what is read off it. -/
theorem encodeFrame_headerOf {frame : List UInt8} (hlen : headerSize ≤ frame.length)
    (h : Tagged frame) :
    encodeFrame (headerOf frame).seq (headerOf frame).count (headerOf frame).keyframe
      (frame.drop headerSize) = frame := by
  unfold encodeFrame
  rw [h.integrityTag_eq]
  match frame, hlen with
  | b0 :: b1 :: b2 :: b3 :: b4 :: b5 :: b6 :: b7 :: body, _ =>
      obtain ⟨h0, h1, h2, h3⟩ := Bytes.put_leUint32 b0 b1 b2 b3
      obtain ⟨h4, h5⟩ := Bytes.put_leUint16 b4 b5
      obtain ⟨h6, h7⟩ := Bytes.put_leUint16 b6 b7
      simp only [headerBytes, tagBytes, headerOf, tag, headerSize, List.getD_cons_zero,
        List.getD_cons_succ, h0, h1, h2, h3, h4, h5, h6, h7]
      rfl

/-- The well-formed frames are the tagged ones, and a frame encodes only one header. -/
theorem wellFormed_iff {frame : List UInt8} {h : Header} :
    WellFormed frame h ↔ headerSize ≤ frame.length ∧ Tagged frame ∧ h = headerOf frame := by
  constructor
  · rintro ⟨body, rfl, hcrc⟩
    refine ⟨?_, Batcher.tagged_encodeFrame _ _ _ _, ?_⟩
    · rw [Batcher.length_encodeFrame]
      exact Nat.le_add_right _ _
    · rw [Batcher.headerOf_encodeFrame, ← hcrc]
  · rintro ⟨hlen, htagged, rfl⟩
    exact ⟨frame.drop headerSize, (encodeFrame_headerOf hlen htagged).symm,
      ((tagged_iff frame).mp htagged).symm⟩

theorem wellFormedKeyframe_iff {frame : List UInt8} (hlen : headerSize ≤ frame.length) :
    WellFormedKeyframe frame ↔ ReadsAsKeyframe frame := by
  have hread : (headerOf frame).keyframe = true ↔ tag frame &&& keyframeBit ≠ 0 := bne_iff_ne
  constructor
  · rintro ⟨h, hform, hkey⟩
    obtain ⟨_, htagged, rfl⟩ := wellFormed_iff.mp hform
    exact ⟨hread.mp hkey, htagged⟩
  · rintro ⟨hbit, htagged⟩
    exact ⟨headerOf frame, wellFormed_iff.mpr ⟨hlen, htagged, rfl⟩, hread.mpr hbit⟩

/-- `Decode` accepts exactly the well-formed frames. -/
theorem decode_iff (frame body : List UInt8) (h : Header) :
    decode frame = .ok (h, body) ↔
      frame = encodeFrame h.seq h.count h.keyframe body ∧ h.crc = bodyCrc body := by
  constructor
  · intro hok
    obtain ⟨hlen, htagged, rfl⟩ := decode_ok hok
    rw [decode_of_header hlen, if_pos htagged] at hok
    cases hok
    exact ⟨(encodeFrame_headerOf hlen htagged).symm, ((tagged_iff frame).mp htagged).symm⟩
  · rintro ⟨rfl, hcrc⟩
    rw [Batcher.decode_encodeFrame, ← hcrc]

/-! ## A stream of arbitrary payloads -/

/-- What a receiver with the baseline `prev` makes of a list of payloads. A well-formed keyframe is
taken as it is; any other payload is taken for the delta of a well-formed frame against the last
frame accepted, if it is one; what is neither is rejected and changes nothing. -/
inductive Reading : List UInt8 → List (List UInt8) →
    List (Except Error (List UInt8 × Header)) → Prop where
  | nil {prev : List UInt8} : Reading prev [] []
  | keyframe {prev payload : List UInt8} {h : Header} {rest : List (List UInt8)}
      {outs : List (Except Error (List UInt8 × Header))} (hform : WellFormed payload h)
      (hkey : h.keyframe = true) (hrest : Reading payload rest outs) :
      Reading prev (payload :: rest) (.ok (payload, h) :: outs)
  | delta {prev payload raw : List UInt8} {h : Header} {rest : List (List UInt8)}
      {outs : List (Except Error (List UInt8 × Header))} (hform : WellFormed raw h)
      (hpayload : payload = Bytes.delta raw prev) (hkey : ¬ WellFormedKeyframe payload)
      (hrest : Reading raw rest outs) :
      Reading prev (payload :: rest) (.ok (raw, h) :: outs)
  | short {prev payload : List UInt8} {rest : List (List UInt8)}
      {outs : List (Except Error (List UInt8 × Header))} (hlen : payload.length < headerSize)
      (hrest : Reading prev rest outs) :
      Reading prev (payload :: rest) (.error .shortFrame :: outs)
  | mismatch {prev payload : List UInt8} {rest : List (List UInt8)}
      {outs : List (Except Error (List UInt8 × Header))} (hlen : headerSize ≤ payload.length)
      (hkey : ¬ WellFormedKeyframe payload)
      (hdelta : ∀ raw h, payload = Bytes.delta raw prev → ¬ WellFormed raw h)
      (hrest : Reading prev rest outs) :
      Reading prev (payload :: rest) (.error .crcMismatch :: outs)

/-- One payload, read by `Reconstruct`. -/
theorem reading_cons (d : DeltaReconstructor) (payload : List UInt8) {rest : List (List UInt8)}
    {outs : List (Except Error (List UInt8 × Header))}
    (hrest : Reading (d.reconstruct payload).1.prev rest outs) :
    Reading d.prev (payload :: rest) ((d.reconstruct payload).2 :: outs) := by
  by_cases hlen : headerSize ≤ payload.length
  · rw [reconstruct_eq d hlen] at hrest ⊢
    by_cases hkey : ReadsAsKeyframe payload
    · rw [if_pos hkey] at hrest ⊢
      exact .keyframe (wellFormed_iff.mpr ⟨hlen, hkey.2, rfl⟩) (bne_iff_ne.mpr hkey.1) hrest
    · have hkey' := mt (wellFormedKeyframe_iff hlen).mp hkey
      rw [if_neg hkey] at hrest ⊢
      by_cases htagged : Tagged (Bytes.delta payload d.prev)
      · rw [if_pos htagged] at hrest ⊢
        have hform : WellFormed (Bytes.delta payload d.prev)
            (headerOf (Bytes.delta payload d.prev)) :=
          wellFormed_iff.mpr ⟨by simpa using hlen, htagged, rfl⟩
        exact .delta hform (Bytes.delta_delta payload d.prev).symm hkey' hrest
      · rw [if_neg htagged] at hrest ⊢
        refine .mismatch hlen hkey' ?_ hrest
        intro raw h hpayload hform
        apply htagged
        rw [hpayload, Bytes.delta_delta]
        exact (wellFormed_iff.mp hform).2.1
  · have hshort : d.reconstruct payload = (d, .error .shortFrame) :=
      if_pos (Nat.lt_of_not_le hlen)
    rw [hshort] at hrest ⊢
    exact .short (Nat.lt_of_not_le hlen) hrest

/-- Every list of payloads is read. -/
theorem reading_receive (payloads : List (List UInt8)) :
    ∀ d : DeltaReconstructor, Reading d.prev payloads (receive d payloads) := by
  induction payloads with
  | nil =>
      intro d
      exact .nil
  | cons payload rest ih =>
      intro d
      exact reading_cons d payload (ih _)

/-- A list of payloads is read in one way only, which is what the receiver returns. -/
theorem Reading.eq_receive {prev : List UInt8} {payloads : List (List UInt8)}
    {outs : List (Except Error (List UInt8 × Header))} (h : Reading prev payloads outs) :
    receive { prev } payloads = outs := by
  induction h with
  | nil => rfl
  | @keyframe prev payload h rest outs hform hkey _ ih =>
      obtain ⟨hlen, htagged, rfl⟩ := wellFormed_iff.mp hform
      have hreads : ReadsAsKeyframe payload := ⟨bne_iff_ne.mp hkey, htagged⟩
      have hstep := reconstruct_eq { prev } hlen
      rw [if_pos hreads] at hstep
      rw [receive, hstep, ih]
  | @delta prev payload raw h rest outs hform hpayload hkey _ ih =>
      obtain ⟨hlen, htagged, rfl⟩ := wellFormed_iff.mp hform
      have hlen' : headerSize ≤ payload.length := by rw [hpayload, Bytes.length_delta]; exact hlen
      have hraw : Bytes.delta payload prev = raw := by rw [hpayload, Bytes.delta_delta]
      have hstep := reconstruct_eq { prev } hlen'
      rw [if_neg (mt (wellFormedKeyframe_iff hlen').mpr hkey), hraw, if_pos htagged] at hstep
      rw [receive, hstep, ih]
  | @short prev payload rest outs hlen _ ih =>
      have hstep : DeltaReconstructor.reconstruct { prev } payload =
          ({ prev }, .error .shortFrame) := if_pos hlen
      rw [receive, hstep, ih]
  | @mismatch prev payload rest outs hlen hkey hdelta _ ih =>
      have hraw : ¬ Tagged (Bytes.delta payload prev) := by
        intro htagged
        refine hdelta _ (headerOf (Bytes.delta payload prev))
          (Bytes.delta_delta payload prev).symm (wellFormed_iff.mpr ⟨?_, htagged, rfl⟩)
        rw [Bytes.length_delta]
        exact hlen
      have hstep := reconstruct_eq { prev } hlen
      rw [if_neg (mt (wellFormedKeyframe_iff hlen).mpr hkey), if_neg hraw] at hstep
      rw [receive, hstep, ih]

theorem reading_iff (d : DeltaReconstructor) (payloads : List (List UInt8))
    (outs : List (Except Error (List UInt8 × Header))) :
    receive d payloads = outs ↔ Reading d.prev payloads outs := by
  constructor
  · rintro rfl
    exact reading_receive payloads d
  · exact Reading.eq_receive

/-! ## What is accepted -/

/-- The payloads that a receiver accepts. -/
def accepted (d : DeltaReconstructor) (payloads : List (List UInt8)) : List (List UInt8) :=
  ((payloads.zip (receive d payloads)).filter fun p => p.2.isOk).map Prod.fst

/-- What a receiver accepts is well formed and has the length of its payload. -/
theorem Reading.wellFormed {prev : List UInt8} {payloads : List (List UInt8)}
    {outs : List (Except Error (List UInt8 × Header))} (hread : Reading prev payloads outs)
    {payload raw : List UInt8} {h : Header} (hmem : (payload, .ok (raw, h)) ∈ payloads.zip outs) :
    WellFormed raw h ∧ raw.length = payload.length := by
  induction hread with
  | nil => cases hmem
  | keyframe hform hkey _ ih =>
      rcases List.mem_cons.mp hmem with heq | hmem
      · cases heq
        exact ⟨hform, rfl⟩
      · exact ih hmem
  | delta hform hpayload hkey _ ih =>
      rcases List.mem_cons.mp hmem with heq | hmem
      · cases heq
        exact ⟨hform, by rw [hpayload, Bytes.length_delta]⟩
      · exact ih hmem
  | short hlen _ ih | mismatch hlen hkey hdelta _ ih =>
      rcases List.mem_cons.mp hmem with heq | hmem
      · cases heq
      · exact ih hmem

/-- A receiver that is given only the payloads it accepts returns the same frames: what it rejects
leaves no trace. -/
theorem receive_accepted (payloads : List (List UInt8)) :
    ∀ d : DeltaReconstructor,
      receive d (accepted d payloads) = (receive d payloads).filter Except.isOk := by
  induction payloads with
  | nil =>
      intro d
      rfl
  | cons payload rest ih =>
      intro d
      have hout : receive d (payload :: rest) =
          (d.reconstruct payload).2 :: receive (d.reconstruct payload).1 rest := rfl
      unfold accepted at ih ⊢
      rw [hout, List.zip_cons_cons, List.filter_cons, List.filter_cons]
      cases hstep : (d.reconstruct payload).2 with
      | ok out =>
          simp only [Except.isOk, Except.toBool, if_true, List.map_cons]
          rw [receive, hstep]
          exact congrArg _ (ih _)
      | error e =>
          rw [reconstruct_error hstep]
          exact ih d

/-- From a well-formed keyframe on, what a receiver returns does not depend on what came before. -/
theorem receive_keyframe (d : DeltaReconstructor) (before rest : List (List UInt8))
    {key : List UInt8} (hkey : WellFormedKeyframe key) :
    receive d (before ++ key :: rest) = receive d before ++ receive {} (key :: rest) := by
  induction before generalizing d with
  | nil =>
      obtain ⟨h, hform, hbit⟩ := hkey
      obtain ⟨hlen, htagged, rfl⟩ := wellFormed_iff.mp hform
      have hreads : ReadsAsKeyframe key := ⟨bne_iff_ne.mp hbit, htagged⟩
      simp only [List.nil_append, receive, reconstruct_eq _ hlen, if_pos hreads]
  | cons payload before ih =>
      simp only [List.cons_append, receive, ih]

/-- The receiver on arbitrary payloads, from every state. It returns what the wire format allows
and nothing else: a well-formed keyframe as it is, the well-formed frame that a payload is the delta
of, or an error. What it returns is a frame that `Decode` accepts too, as long as its payload; a
rejected payload changes nothing; and after a well-formed keyframe nothing of the past matters. -/
theorem arbitrary_stream (d : DeltaReconstructor) (payloads : List (List UInt8)) :
    (∀ outs, receive d payloads = outs ↔ Reading d.prev payloads outs) ∧
      (∀ payload raw h, (payload, .ok (raw, h)) ∈ payloads.zip (receive d payloads) →
        decode raw = .ok (h, raw.drop headerSize) ∧ raw.length = payload.length) ∧
      receive d (accepted d payloads) = (receive d payloads).filter Except.isOk ∧
      ∀ before key rest, payloads = before ++ key :: rest → WellFormedKeyframe key →
        receive d payloads = receive d before ++ receive {} (key :: rest) := by
  refine ⟨reading_iff d payloads, ?_, receive_accepted payloads d, ?_⟩
  · intro payload raw h hmem
    obtain ⟨⟨body, hraw, hcrc⟩, hlen⟩ := (reading_receive payloads d).wellFormed hmem
    have hbody : raw.drop headerSize = body := by rw [hraw]; rfl
    exact ⟨(decode_iff raw _ h).mpr ⟨hbody ▸ hraw, hbody ▸ hcrc⟩, hlen⟩
  · rintro before key rest rfl hkey
    exact receive_keyframe d before rest hkey

end Codec

end TickBatch
