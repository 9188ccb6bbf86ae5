import TickBatch.Engine.Drain

/-!
# What a drain assembles

The buffers of a batcher keep the sizes with which they were allocated (`Sized`), so no slice
expression of a drain is out of range. `fill_ok` says what the marshaling loop leaves alone and
where it stops, and `assemble_eq` turns the rest of `assemble` into a function without checks: a
frame is the header, the integrity tag and the body (`encodeFrame`), and what is sent of it is the
frame itself or its exclusive or with the delta baseline.
-/

namespace TickBatch

variable {T : Type}

/-- A sequence of two computations returns only if both do. -/
theorem bind_eq_ok {ε α β : Type} {x : Except ε α} {f : α → Except ε β} {v : β}
    (h : x >>= f = .ok v) : ∃ a, x = .ok a ∧ f a = .ok v :=
  match x, h with
  | .ok a, h => ⟨a, rfl, h⟩

@[simp] theorem attempts_append (es es' : List (Effect T)) :
    attempts (es ++ es') = attempts es ++ attempts es' := List.filterMap_append

@[simp] theorem delivered_append (es es' : List (Effect T)) :
    delivered (es ++ es') = delivered es ++ delivered es' := by
  simp [delivered, successes]

@[simp] theorem attempts_map_pushed (items : List T) : attempts (items.map .pushed) = [] := by
  simp [attempts, List.filterMap_map]

namespace Batcher

/-- The buffers have the sizes with which they were allocated. -/
structure Sized (b : Batcher T) : Prop where
  header : headerSize ≤ b.byteBuffer.length
  item : 0 < b.cfg.maxItemSize.toInt
  previous : b.cfg.deltaEncoding = true → b.previousState.length = b.byteBuffer.length
  delta : b.cfg.deltaEncoding = true → b.deltaBuffer.length = b.byteBuffer.length
  compress : b.cfg.compressor = true → b.compressBuffer.length = b.byteBuffer.length
  timeout : b.cfg.flushTimeout > 0 → b.timeoutBuf.length = b.byteBuffer.length

@[simp] theorem length_makeBytes (size : Int64) : (makeBytes size).length = size.toInt.toNat := by
  simp [makeBytes]

/-- `New` allocates the buffers. -/
theorem new_sized [Inhabited T] {sizeofT : Int64} {cfg : Config} {b : Batcher T}
    (h : Batcher.new sizeofT cfg = .ok b) : b.Sized := by
  obtain ⟨_, haccepted, _, hbyte, hprevious, hdelta, hcompress, htimeout, _⟩ := new_ok h
  have hheader : 8 ≤ b.cfg.maxBatchSize.toInt := Int64.le_iff_toInt_le.mp haccepted.header
  refine ⟨?_, Int64.lt_iff_toInt_lt.mp haccepted.item, ?_, ?_, ?_, ?_⟩
  · rw [hbyte, length_makeBytes]
    unfold headerSize
    omega
  · intro hd
    rw [hprevious, hbyte, if_pos hd]
  · intro hd
    rw [hdelta, hbyte, if_pos hd]
  · intro hc
    rw [hcompress, hbyte, if_pos hc]
  · intro ht
    rw [htimeout, hbyte, if_pos ht]

/-! ## Filling the buffer -/

theorem store_ok {buf bytes : List UInt8} {lo : Nat} (h : lo + bytes.length ≤ buf.length) :
    store buf lo bytes = .ok (splice buf lo bytes) := if_pos h

theorem sliceTo_ok {buf : List UInt8} {hi : Nat} (h : hi ≤ buf.length) :
    sliceTo buf hi = .ok (buf.take hi) := if_pos h

theorem sliceFrom_ok {buf : List UInt8} {lo : Nat} (h : lo ≤ buf.length) :
    sliceFrom buf lo = .ok (buf.drop lo) := if_pos h

/-- A push touches the ring and the drop counter only. -/
theorem push_eq {b b' : Batcher T} {item : T} (h : b.push item = .ok b') :
    b' = { b with ring := b'.ring, dropped := b'.dropped } := by
  unfold push at h
  split at h
  · cases h
  · cases h
    rfl
  · cases h
    rfl

theorem pushAll_eq {b b' : Batcher T} {items : List T} (h : b.pushAll items = .ok b') :
    b' = { b with ring := b'.ring, dropped := b'.dropped } := by
  unfold pushAll at h
  induction items generalizing b with
  | nil =>
      cases h
      rfl
  | cons item items ih =>
      rw [List.foldlM_cons] at h
      obtain ⟨b₁, hfirst, hrest⟩ := bind_eq_ok h
      have hb' := ih hrest
      rw [push_eq hfirst] at hb'
      exact hb'

theorem pushAll_cfg {b b' : Batcher T} {items : List T} (h : b.pushAll items = .ok b') :
    b'.cfg = b.cfg := by
  rw [pushAll_eq h]

/-- The invariant of the marshaling loop of a drain that started with `b`. -/
structure FillOk (b : Batcher T) (f : Fill T) : Prop where
  same : f.b = { b with ring := f.b.ring, byteBuffer := f.b.byteBuffer, dropped := f.b.dropped,
                        truncated := f.b.truncated }
  length : f.b.byteBuffer.length = b.byteBuffer.length
  offset_le : f.offset ≤ b.byteBuffer.length
  offset_ge : headerSize + f.n ≤ f.offset
  count : f.items.length = f.n
  quiet : attempts f.effects = []

theorem FillOk.initial {b : Batcher T} (hs : b.Sized) :
    FillOk b { b, offset := headerSize, n := 0, items := [], effects := [] } :=
  ⟨rfl, rfl, hs.header, le_rfl, rfl, rfl⟩

theorem FillOk.cfg {b : Batcher T} {f : Fill T} (h : FillOk b f) : f.b.cfg = b.cfg := by
  rw [h.same]

theorem FillOk.previousState {b : Batcher T} {f : Fill T} (h : FillOk b f) :
    f.b.previousState = b.previousState := by
  rw [h.same]

section Marshal

variable [Serializable T]

/-- `popMarshal` returns a buffer of the size it was given. -/
theorem popMarshal_length {r r' : Ringbuf T} {buf : List UInt8} {m : Ringbuf.Marshaled T}
    (h : r.popMarshal buf = some (r', some m)) : m.buf.length = buf.length := by
  simp only [Ringbuf.popMarshal, bind, Option.bind_eq_some_iff, pure, Option.some.injEq,
    Prod.mk.injEq, Option.map_eq_some_iff] at h
  obtain ⟨_, _, _, item, _, rfl⟩ := h
  exact Serializable.marshal_length item buf

/-- One more iteration of the marshaling loop stops, or takes an item and goes on. -/
theorem fillLoop_succ {arrivals : Nat → List T} {left : Nat} {f f' : Fill T}
    (h : fillLoop arrivals (left + 1) f = .ok f') :
    f' = f ∨ ∃ b buf r out, f.b.pushAll (arrivals f.n) = .ok b ∧
      sliceFrom b.byteBuffer f.offset = .ok buf ∧ b.ring.popMarshal buf = some (r, out) ∧
      match out with
      | none => f' = { f with b := { b with ring := r },
                              effects := f.effects ++ (arrivals f.n).map .pushed }
      | some m =>
          if m.written ≤ 0 ∨ m.written > (f.b.byteBuffer.length : Int) - f.offset then
            f' = { f with
              b := { b with ring := r, byteBuffer := b.byteBuffer.take f.offset ++ m.buf,
                            truncated := b.truncated + 1 }
              effects := f.effects ++ (arrivals f.n).map .pushed ++ [.truncated m.item] }
          else
            fillLoop arrivals left
              { b := { b with ring := r, byteBuffer := b.byteBuffer.take f.offset ++ m.buf },
                offset := f.offset + m.written.toNat, n := f.n + 1, items := f.items ++ [m.item],
                effects := f.effects ++ (arrivals f.n).map .pushed } = .ok f' := by
  unfold fillLoop at h
  simp only at h
  split at h
  · exact Or.inl (Except.ok.inj h).symm
  · obtain ⟨b, hpush, h⟩ := bind_eq_ok h
    obtain ⟨buf, hbuf, h⟩ := bind_eq_ok h
    refine Or.inr ⟨b, buf, ?_⟩
    split at h
    · cases h
    · rename_i r hpop
      exact ⟨r, none, hpush, hbuf, hpop, (Except.ok.inj h).symm⟩
    · rename_i r m hpop
      refine ⟨r, some m, hpush, hbuf, hpop, ?_⟩
      split at h
      · rename_i hbad
        simp only [hbad, if_true]
        exact (Except.ok.inj h).symm
      · rename_i hgood
        simp only [hgood, if_false]
        exact h

/-- What `Marshal` leaves in the buffer has the length of the buffer. -/
theorem FillOk.marshaled_length {b b₁ : Batcher T} {f : Fill T} {buf : List UInt8}
    {r : Ringbuf T} {m : Ringbuf.Marshaled T} (h : FillOk b f)
    (hbuffer : b₁.byteBuffer = f.b.byteBuffer) (hbuf : sliceFrom b₁.byteBuffer f.offset = .ok buf)
    (hpop : b₁.ring.popMarshal buf = some (r, some m)) :
    (b₁.byteBuffer.take f.offset ++ m.buf).length = b.byteBuffer.length := by
  have hoffset := h.offset_le
  have hle : f.offset ≤ b₁.byteBuffer.length := by
    rw [hbuffer, h.length]
    exact hoffset
  rw [sliceFrom_ok hle] at hbuf
  have hmlen : m.buf.length = b.byteBuffer.length - f.offset := by
    rw [popMarshal_length hpop, ← Except.ok.inj hbuf, List.length_drop, hbuffer, h.length]
  rw [List.length_append, List.length_take, hbuffer, h.length, hmlen]
  omega

/-- Taking one item keeps the invariant of the marshaling loop. -/
theorem FillOk.take {b b₁ : Batcher T} {f : Fill T} {items : List T} {buf : List UInt8}
    {r : Ringbuf T} {m : Ringbuf.Marshaled T} (h : FillOk b f)
    (hpush : f.b.pushAll items = .ok b₁) (hbuf : sliceFrom b₁.byteBuffer f.offset = .ok buf)
    (hpop : b₁.ring.popMarshal buf = some (r, some m))
    (hgood : ¬ (m.written ≤ 0 ∨ m.written > (f.b.byteBuffer.length : Int) - f.offset)) :
    FillOk b
      { b := { b₁ with ring := r, byteBuffer := b₁.byteBuffer.take f.offset ++ m.buf },
        offset := f.offset + m.written.toNat, n := f.n + 1, items := f.items ++ [m.item],
        effects := f.effects ++ items.map .pushed } := by
  have hb₁ := pushAll_eq hpush
  have hge := h.offset_ge
  have hcount := h.count
  rw [not_or, not_le, not_lt, h.length] at hgood
  refine ⟨?_, h.marshaled_length (by rw [hb₁]) hbuf hpop, ?_, ?_, ?_, by simp [h.quiet]⟩
  · rw [hb₁, h.same]
  · show f.offset + m.written.toNat ≤ b.byteBuffer.length
    omega
  · show headerSize + (f.n + 1) ≤ f.offset + m.written.toNat
    -- an item takes at least one byte, which bounds the count by the offset
    omega
  · show (f.items ++ [m.item]).length = f.n + 1
    rw [List.length_append, hcount]
    rfl

/-- The marshaling loop keeps its invariant and never exceeds the item limit. -/
theorem fillLoop_ok {b : Batcher T} {arrivals : Nat → List T} {left : Nat} {f f' : Fill T}
    (h : FillOk b f) (hloop : fillLoop arrivals left f = .ok f') :
    FillOk b f' ∧ f'.n ≤ f.n + left := by
  induction left generalizing f with
  | zero =>
      cases hloop
      exact ⟨h, le_rfl⟩
  | succ left ih =>
      obtain rfl | ⟨b₁, buf, r, out, hpush, hbuf, hpop, hout⟩ := fillLoop_succ hloop
      · exact ⟨h, by omega⟩
      have hb₁ := pushAll_eq hpush
      have hbuffer : b₁.byteBuffer = f.b.byteBuffer := by rw [hb₁]
      cases out with
      | none =>
          simp only at hout
          subst hout
          refine ⟨⟨?_, ?_, h.offset_le, h.offset_ge, h.count, by simp [h.quiet]⟩, by simp⟩
          · rw [hb₁, h.same]
          · simpa only [hbuffer] using h.length
      | some m =>
          simp only at hout
          split at hout
          · subst hout
            have hquiet : attempts (f.effects ++ (arrivals f.n).map .pushed ++
                [.truncated m.item]) = [] := by
              rw [attempts_append, attempts_append, h.quiet, attempts_map_pushed]
              rfl
            refine ⟨⟨?_, h.marshaled_length hbuffer hbuf hpop, h.offset_le, h.offset_ge, h.count,
              hquiet⟩, by simp⟩
            rw [hb₁, h.same]
          · rename_i hgood
            obtain ⟨hf', hn⟩ := ih (h.take hpush hbuf hpop hgood) hout
            exact ⟨hf', by simp only at hn; omega⟩

/-- What the marshaling loop of a drain leaves behind. -/
theorem fill_ok {b : Batcher T} (hs : b.Sized) {arrivals : Nat → List T} {f : Fill T}
    (h : b.fill arrivals = .ok f) : FillOk b f ∧ f.n ≤ 65535 := by
  simpa using fillLoop_ok (.initial hs) h

end Marshal

/-! ## The frame -/

/-- The bytes of a frame: header, integrity tag and body. -/
def encodeFrame (seq : UInt32) (count : UInt16) (keyframe : Bool) (body : List UInt8) :
    List UInt8 :=
  headerBytes seq count ++ tagBytes (integrityTag body keyframe) ++ body

/-- The body that the marshaling loop has written. -/
def Fill.body (f : Fill T) : List UInt8 := (f.b.byteBuffer.take f.offset).drop headerSize

/-- What a drain sends of a raw frame, before compression. -/
def payloadOf (b : Batcher T) (keyframe : Bool) (raw : List UInt8) : List UInt8 :=
  if !b.cfg.deltaEncoding || keyframe then raw
  else Bytes.xor raw (b.previousState.take raw.length)

/-- The batcher once a drain has built a frame, before compression. -/
def Fill.built (f : Fill T) (keyframe : Bool) (raw payload : List UInt8) : Batcher T :=
  { f.b with
    sequenceID := f.b.sequenceID + 1
    byteBuffer := raw ++ f.b.byteBuffer.drop f.offset
    deltaBuffer := if !f.b.cfg.deltaEncoding || keyframe then f.b.deltaBuffer
                   else payload ++ f.b.deltaBuffer.drop raw.length }

/-- The raw frame of a filled buffer. -/
def Fill.raw (f : Fill T) (keyframe : Bool) : List UInt8 :=
  encodeFrame (f.b.sequenceID + 1) (UInt16.ofNat f.n) keyframe f.body

@[simp] theorem length_splice {buf bytes : List UInt8} {lo : Nat}
    (h : lo + bytes.length ≤ buf.length) : (splice buf lo bytes).length = buf.length := by
  simp only [splice, List.length_append, List.length_take, List.length_drop]
  omega

@[simp] theorem length_encodeFrame (seq : UInt32) (count : UInt16) (keyframe : Bool)
    (body : List UInt8) :
    (encodeFrame seq count keyframe body).length = headerSize + body.length := by
  simp [encodeFrame, headerBytes, tagBytes, headerSize]
  omega

/-- Writing the header makes the buffer start with the frame. -/
theorem writeHeader_eq {buf : List UInt8} {offset : Nat} (hlo : headerSize ≤ offset)
    (hhi : offset ≤ buf.length) (seq : UInt32) (count : UInt16) (keyframe : Bool) :
    writeHeader buf offset seq count keyframe =
      .ok (encodeFrame seq count keyframe ((buf.take offset).drop headerSize) ++
        buf.drop offset) := by
  unfold headerSize at hlo ⊢
  -- the first six bytes do not reach the body
  have hhead : splice buf 0 (headerBytes seq count) = headerBytes seq count ++ buf.drop 6 := by
    simp [splice, headerBytes]
  have hbody : ((headerBytes seq count ++ buf.drop 6).take offset).drop 8 =
      (buf.take offset).drop 8 := by
    rw [List.drop_take, List.drop_take, List.drop_append, List.drop_drop,
      List.drop_eq_nil_of_le (by simp [headerBytes])]
    rfl
  have hrest : (buf.take offset).drop 8 ++ buf.drop offset = buf.drop 8 := by
    calc (buf.take offset).drop 8 ++ buf.drop offset
        = (buf.take offset ++ buf.drop offset).drop 8 :=
          (List.drop_append_of_le_length (by simp; omega)).symm
      _ = buf.drop 8 := by rw [List.take_append_drop]
  unfold writeHeader
  rw [store_ok (by simp [headerBytes]; omega), hhead]
  simp only [bind, Except.bind]
  rw [sliceTo_ok (by simp [headerBytes]; omega)]
  simp only []
  rw [sliceFrom_ok (by simp [headerBytes]; omega)]
  simp only []
  rw [hbody, store_ok (by simp [headerBytes, tagBytes]; omega)]
  unfold encodeFrame
  rw [List.append_assoc, List.append_assoc, hrest]
  simp [splice, headerBytes, tagBytes]

/-- Taking the delta of a frame that fits into the buffers. -/
theorem writeDelta_eq {host : ByteOrder} {b : Batcher T} {raw : List UInt8}
    (hdelta : raw.length ≤ b.deltaBuffer.length) (hprevious : raw.length ≤ b.previousState.length) :
    writeDelta host b raw =
      .ok ({ b with deltaBuffer := Bytes.xor raw (b.previousState.take raw.length) ++
                      b.deltaBuffer.drop raw.length },
        Bytes.xor raw (b.previousState.take raw.length)) := by
  have hdst : (b.deltaBuffer.take raw.length).drop raw.length = [] :=
    List.drop_eq_nil_of_le (by simp)
  unfold writeDelta
  rw [sliceTo_ok hdelta, sliceTo_ok hprevious]
  simp only [bind, Except.bind]
  rw [xorBytes_eq, if_neg (by simp; omega), hdst, List.append_nil]
  rfl

/-- Building the frame never panics. -/
theorem build_eq {host : ByteOrder} {b : Batcher T} {f : Fill T} (hs : b.Sized) (hf : FillOk b f)
    (keyframe : Bool) :
    f.build host keyframe =
      .ok (f.built keyframe (f.raw keyframe) (f.b.payloadOf keyframe (f.raw keyframe)),
        f.raw keyframe, f.b.payloadOf keyframe (f.raw keyframe)) := by
  have hlen := hf.length
  have hlo : headerSize ≤ f.offset := by have := hf.offset_ge; omega
  have hhi : f.offset ≤ f.b.byteBuffer.length := by have := hf.offset_le; omega
  have hraw : (f.raw keyframe).length = f.offset := by
    simp [Fill.raw, Fill.body]
    omega
  have hheader : writeHeader f.b.byteBuffer f.offset (f.b.sequenceID + 1) (UInt16.ofNat f.n)
      keyframe = .ok (f.raw keyframe ++ f.b.byteBuffer.drop f.offset) :=
    writeHeader_eq hlo hhi _ _ _
  have hslice : sliceTo (f.raw keyframe ++ f.b.byteBuffer.drop f.offset) f.offset =
      .ok (f.raw keyframe) := by
    rw [sliceTo_ok (by simp; omega), List.take_left' hraw]
  unfold Fill.build
  simp only [hheader, hslice, bind, Except.bind]
  by_cases hfull : (!f.b.cfg.deltaEncoding || keyframe) = true
  · simp only [hfull, if_true, Fill.built, payloadOf]
    rfl
  · have hdelta : b.cfg.deltaEncoding = true := by
      rw [hf.cfg] at hfull
      cases h : b.cfg.deltaEncoding with
      | true => rfl
      | false => simp [h] at hfull
    have hd : f.b.deltaBuffer.length = b.byteBuffer.length := by
      rw [hf.same]
      exact hs.delta hdelta
    have hp : f.b.previousState.length = b.byteBuffer.length := by
      rw [hf.previousState, hs.previous hdelta]
    rw [if_neg hfull, writeDelta_eq (by simp only; omega) (by simp only; omega)]
    simp only [hfull, Fill.built, payloadOf]
    rfl

/-- The frame that a drain assembles from a filled buffer. -/
def Fill.finish (f : Fill T) (loop : Loop) (tick : Tick T) :
    Batcher T × Option (Frame T) × List (Effect T) :=
  let keyframe := f.b.isKeyframe loop
  let raw := f.raw keyframe
  let payload := f.b.payloadOf keyframe raw
  f.pack tick keyframe (f.built keyframe raw payload) raw payload

/-- What `assemble` does, once the marshaling loop has stopped. -/
theorem assemble_eq [Serializable T] {host : ByteOrder} {b : Batcher T} {loop : Loop}
    {tick : Tick T} {f : Fill T} (hs : b.Sized) (hfill : b.fill tick.arrivals = .ok f) :
    b.assemble host loop tick =
      .ok (if f.n = 0 then (f.b, none, f.effects)
        else if f.b.cfg.sink = none then (f.b, none, f.effects ++ [.discarded f.items])
        else f.finish loop tick) := by
  obtain ⟨hf, _⟩ := fill_ok hs hfill
  unfold assemble
  rw [hfill]
  simp only [bind, Except.bind, build_eq hs hf]
  split
  · rfl
  · split
    · rfl
    · rfl

/-- How a frame that a drain hands to the flush was made. -/
structure Built (b : Batcher T) (loop : Loop) (tick : Tick T) (frame : Frame T) : Prop where
  body : ∃ body, body ≠ [] ∧
    frame.raw = encodeFrame frame.seq frame.count frame.keyframe body
  seq : frame.seq = b.sequenceID + 1
  count : frame.count = UInt16.ofNat frame.items.length
  items_pos : 1 ≤ frame.items.length
  items_le : frame.items.length ≤ 65535
  length : frame.raw.length ≤ b.byteBuffer.length
  keyframe : frame.keyframe = b.isKeyframe loop
  payload : frame.payload = b.payloadOf frame.keyframe frame.raw
  plain : b.cfg.compressor = false → frame.sent = frame.payload
  packed : b.cfg.compressor = true → ∃ dst, (tick.compress dst frame.payload).err = none ∧
    0 ≤ (tick.compress dst frame.payload).n ∧
    (tick.compress dst frame.payload).n ≤ (tick.compress dst frame.payload).dst.length ∧
    frame.sent =
      (tick.compress dst frame.payload).dst.take (tick.compress dst frame.payload).n.toNat
  sent_length : frame.sent.length ≤ b.byteBuffer.length

/-- What `assemble` and `settle` leave alone. -/
structure Keeps (b b' : Batcher T) : Prop where
  cfg : b'.cfg = b.cfg
  length : b'.byteBuffer.length = b.byteBuffer.length
  deltaBuffer : b'.deltaBuffer.length = b.deltaBuffer.length
  compressBuffer : b'.compressBuffer.length = b.compressBuffer.length
  timeoutBuf : b'.timeoutBuf = b.timeoutBuf
  flushInFlight : b'.flushInFlight = b.flushInFlight

/-- Reporting an error changes the log time only. -/
theorem reportError_eq (b : Batcher T) (now : Int64) (err : Error) :
    (b.reportError now err).1 = { b with lastLogTime := (b.reportError now err).1.lastLogTime } ∧
      attempts (b.reportError now err).2 = [] := by
  unfold reportError
  split
  · exact ⟨rfl, rfl⟩
  · split
    · exact ⟨rfl, rfl⟩
    · exact ⟨rfl, rfl⟩

/-- Compression changes the compression buffer only. -/
theorem compress_eq (b : Batcher T) (tick : Tick T) (payload : List UInt8) :
    (b.compress tick payload).1 =
        { b with compressBuffer := (b.compress tick payload).1.compressBuffer } ∧
      (b.compress tick payload).1.compressBuffer.length = b.compressBuffer.length := by
  have hlen := tick.compress_length b.compressBuffer payload
  unfold compress
  split
  · simp only
    split
    · exact ⟨rfl, hlen⟩
    · split
      · exact ⟨rfl, hlen⟩
      · exact ⟨rfl, hlen⟩
  · exact ⟨rfl, rfl⟩

/-- What compression yields when it succeeds. -/
theorem compress_ok {b b' : Batcher T} {tick : Tick T} {payload sent : List UInt8}
    (h : b.compress tick payload = (b', .ok sent)) :
    (b.cfg.compressor = false → sent = payload) ∧
      (b.cfg.compressor = true → ∃ dst, (tick.compress dst payload).err = none ∧
        0 ≤ (tick.compress dst payload).n ∧
        (tick.compress dst payload).n ≤ (tick.compress dst payload).dst.length ∧
        sent = (tick.compress dst payload).dst.take (tick.compress dst payload).n.toNat) := by
  unfold compress at h
  split at h
  · rename_i hc
    refine ⟨fun hf => absurd (hc.symm.trans hf) (by simp), fun _ => ⟨b.compressBuffer, ?_⟩⟩
    simp only at h
    split at h
    · cases h
    · rename_i herr
      split at h
      · cases h
      · rename_i hrange
        rw [not_or, not_lt, not_lt] at hrange
        cases h
        exact ⟨herr, hrange.1, hrange.2, rfl⟩
  · rename_i hc
    cases h
    exact ⟨fun _ => rfl, fun ht => absurd ht hc⟩

/-- What is sent is no longer than the payload, or fits into the compression buffer. -/
theorem compress_length_le {b b' : Batcher T} {tick : Tick T} {payload sent : List UInt8} {n : Nat}
    (h : b.compress tick payload = (b', .ok sent)) (hpayload : payload.length ≤ n)
    (hbuffer : b.cfg.compressor = true → b.compressBuffer.length ≤ n) : sent.length ≤ n := by
  have hlen := tick.compress_length b.compressBuffer payload
  unfold compress at h
  split at h
  · rename_i hc
    have := hbuffer hc
    simp only at h
    split at h
    · cases h
    · split at h
      · cases h
      · cases h
        rw [List.length_take, hlen]
        omega
  · cases h
    exact hpayload

/-- A built frame keeps the sizes of the buffers. -/
theorem built_keeps {b : Batcher T} {f : Fill T} (hs : b.Sized) (hf : FillOk b f)
    (keyframe : Bool) :
    b.Keeps (f.built keyframe (f.raw keyframe) (f.b.payloadOf keyframe (f.raw keyframe))) := by
  have hlen := hf.length
  have hle := hf.offset_le
  have hge := hf.offset_ge
  have hraw : (f.raw keyframe).length = f.offset := by
    simp [Fill.raw, Fill.body]
    omega
  refine ⟨hf.cfg, ?_, ?_, ?_, ?_, ?_⟩
  · simp only [Fill.built, List.length_append, List.length_drop]
    omega
  · have hdelta : f.b.deltaBuffer = b.deltaBuffer := by rw [hf.same]
    simp only [Fill.built]
    split
    · rw [hdelta]
    · rename_i hfull
      have hd : b.cfg.deltaEncoding = true := by
        rw [hf.cfg] at hfull
        cases h : b.cfg.deltaEncoding with
        | true => rfl
        | false => simp [h] at hfull
      have hp := hs.previous hd
      have hd := hs.delta hd
      rw [← hf.previousState] at hp
      simp only [payloadOf, hfull, hdelta, List.length_append, List.length_drop]
      simp only [Bool.false_eq_true, if_false, Bytes.length_xor, List.length_take]
      omega
  · simp only [Fill.built]
    rw [hf.same]
  · simp only [Fill.built]
    rw [hf.same]
  · simp only [Fill.built]
    rw [hf.same]

theorem Keeps.trans {b b' b'' : Batcher T} (h : b.Keeps b') (h' : b'.Keeps b'') : b.Keeps b'' :=
  ⟨h'.cfg.trans h.cfg, h'.length.trans h.length, h'.deltaBuffer.trans h.deltaBuffer,
    h'.compressBuffer.trans h.compressBuffer, h'.timeoutBuf.trans h.timeoutBuf,
    h'.flushInFlight.trans h.flushInFlight⟩

theorem reportError_keeps (b : Batcher T) (now : Int64) (err : Error) :
    b.Keeps (b.reportError now err).1 := by
  rw [(reportError_eq b now err).1]
  exact ⟨rfl, rfl, rfl, rfl, rfl, rfl⟩

theorem compress_keeps (b : Batcher T) (tick : Tick T) (payload : List UInt8) :
    b.Keeps (b.compress tick payload).1 := by
  obtain ⟨heq, hlen⟩ := compress_eq b tick payload
  rw [heq]
  exact ⟨rfl, rfl, rfl, hlen, rfl, rfl⟩

/-- The outcome of `Fill.finish`: what it leaves alone, and how its frame was made. -/
theorem finish_ok {b b' : Batcher T} {loop : Loop} {tick : Tick T} {f : Fill T}
    {out : Option (Frame T)} {effects : List (Effect T)} (hs : b.Sized) (hf : FillOk b f)
    (hn : f.n ≠ 0) (hmax : f.n ≤ 65535) (h : f.finish loop tick = (b', out, effects)) :
    b.Keeps b' ∧ b'.previousState = b.previousState ∧ attempts effects = [] ∧
      ∀ frame, out = some frame → Built b loop tick frame ∧ b'.sequenceID = frame.seq := by
  have hbuilt := built_keeps hs hf (f.b.isKeyframe loop)
  have hprevious : (f.built (f.b.isKeyframe loop) (f.raw (f.b.isKeyframe loop))
      (f.b.payloadOf (f.b.isKeyframe loop) (f.raw (f.b.isKeyframe loop)))).previousState =
      b.previousState := hf.previousState
  unfold Fill.finish Fill.pack at h
  simp only at h
  generalize hb₁ : f.built _ _ _ = b₁ at h hbuilt hprevious
  have hseq : b₁.sequenceID = b.sequenceID + 1 := by
    rw [← hb₁]
    simp only [Fill.built]
    rw [hf.same]
  have hkey : f.b.isKeyframe loop = b.isKeyframe loop := by rw [isKeyframe, hf.cfg]; rfl
  have hpayload : ∀ raw, f.b.payloadOf (b.isKeyframe loop) raw =
      b.payloadOf (b.isKeyframe loop) raw := by
    intro raw
    unfold payloadOf
    rw [hf.cfg, hf.previousState]
  rw [hkey, hpayload] at h
  have hlength : (b.payloadOf (b.isKeyframe loop) (f.raw (b.isKeyframe loop))).length ≤
      b.byteBuffer.length := by
    have hraw : (f.raw (b.isKeyframe loop)).length ≤ b.byteBuffer.length := by
      have := hf.length
      have := hf.offset_le
      have := hf.offset_ge
      simp [Fill.raw, Fill.body]
      omega
    unfold payloadOf
    split
    · exact hraw
    · rw [Bytes.length_xor]
      omega
  have hcompress := compress_eq b₁ tick
    (b.payloadOf (b.isKeyframe loop) (f.raw (b.isKeyframe loop)))
  have hkeeps := hbuilt.trans (compress_keeps b₁ tick
    (b.payloadOf (b.isKeyframe loop) (f.raw (b.isKeyframe loop))))
  split at h
  · rename_i b₂ err hc
    rw [hc] at hcompress hkeeps
    -- the compressor fails: the batch is gone and its sequence number is used up
    obtain ⟨hreport, hquiet⟩ := reportError_eq b₂ tick.now err
    cases h
    refine ⟨hkeeps.trans (reportError_keeps b₂ tick.now err), ?_, ?_, by simp⟩
    · rw [hreport]
      exact (congrArg previousState hcompress.1).trans hprevious
    · rw [attempts_append, hf.quiet]
      exact hquiet
  · rename_i b₂ sent hc
    have hsent := compress_ok hc
    have hsize := compress_length_le hc hlength fun hcomp => by
      rw [hbuilt.compressBuffer, hs.compress (hbuilt.cfg ▸ hcomp)]
    rw [hc] at hcompress hkeeps
    rw [hbuilt.cfg] at hsent
    have hseq₂ : b₂.sequenceID = b.sequenceID + 1 :=
      (congrArg sequenceID hcompress.1).trans hseq
    cases h
    refine ⟨hkeeps, (congrArg previousState hcompress.1).trans hprevious, hf.quiet, ?_⟩
    · rintro frame hframe
      cases hframe
      have hlen := hf.length
      have hle := hf.offset_le
      have hge := hf.offset_ge
      have hcount := hf.count
      refine ⟨⟨⟨f.body, ?_, ?_⟩, hseq₂, by rw [hcount], by simp only; omega, by simp only; omega,
        ?_, rfl, rfl, hsent.1, hsent.2, hsize⟩, rfl⟩
      · intro hempty
        have hzero := congrArg List.length hempty
        simp [Fill.body] at hzero
        omega
      · show f.raw (b.isKeyframe loop) = _
        rw [hseq₂]
        unfold Fill.raw
        rw [hf.same]
      · simp [Fill.raw, Fill.body]
        omega

/-- What `assemble` leaves alone, and how its frame was made. -/
theorem assemble_ok [Serializable T] {host : ByteOrder} {b b' : Batcher T} {loop : Loop}
    {tick : Tick T} {out : Option (Frame T)} {effects : List (Effect T)} (hs : b.Sized)
    (h : b.assemble host loop tick = .ok (b', out, effects)) :
    b.Keeps b' ∧ b'.previousState = b.previousState ∧ attempts effects = [] ∧
      ∀ frame, out = some frame → Built b loop tick frame ∧ b'.sequenceID = frame.seq := by
  obtain ⟨f, hfill, _⟩ := bind_eq_ok h
  obtain ⟨hf, hmax⟩ := fill_ok hs hfill
  have hkeeps : b.Keeps f.b := by
    refine ⟨hf.cfg, hf.length, ?_, ?_, ?_, ?_⟩ <;> rw [hf.same]
  rw [assemble_eq hs hfill] at h
  have h := Except.ok.inj h
  split at h
  · cases h
    exact ⟨hkeeps, hf.previousState, hf.quiet, by simp⟩
  · split at h
    · cases h
      refine ⟨hkeeps, hf.previousState, ?_, by simp⟩
      rw [attempts_append, hf.quiet]
      rfl
    · rename_i hn _
      exact finish_ok hs hf hn hmax h

end Batcher

end TickBatch
