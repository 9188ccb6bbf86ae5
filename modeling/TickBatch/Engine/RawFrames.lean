import TickBatch.Engine.Header
import TickBatch.Engine.Outcome
import TickBatch.Engine.Shutdown

/-!
# Raw frames

Without delta encoding and without a compressor, what a drain hands to the flush is the frame that
the codec decodes. `raw_frame` holds for any `Marshal` whatever, which may report any length.
`repeated_drains` assumes that `Marshal` keeps its contract, and then nothing is lost: an item that
does not fit into a frame stays queued for the next one.
-/

namespace TickBatch

open QueueHistory (Exit History taken lost)

variable {T : Type}

namespace Batcher

open TickBatch.Ring (Represents contents depth)

/-- A ring of at least two slots on which no call is in progress represents a queue. -/
theorem Idle.represents {b : Batcher T} {loop : Loop} (h : b.Idle loop)
    (hsize : 2 ≤ b.cfg.queueSize) :
    ∃ k H, 1 ≤ k ∧ k ≤ 63 ∧ Represents k H b.ring (contents b.ring) := by
  rcases h.ring with ⟨hone, _⟩ | ⟨k, H, items, hk, hk', _, hrep⟩
  · rw [hone] at hsize
    exact absurd hsize (by decide)
  · refine ⟨k, H, hk, hk', ?_⟩
    rw [hrep.contents_eq hk']
    exact hrep

/-- What is sent of a frame without delta encoding is the frame itself. -/
theorem payload_raw {b : Batcher T} {f : Fill T} (loop : Loop) (hf : FillOk b f)
    (hdelta : b.cfg.deltaEncoding = false) :
    f.payload loop =
      encodeFrame (b.sequenceID + 1) (UInt16.ofNat f.items.length) false f.body := by
  have hkey : f.b.isKeyframe loop = false := by
    unfold isKeyframe
    rw [hf.cfg, hdelta]
    rfl
  unfold Fill.payload payloadOf Fill.raw
  rw [hkey, hf.cfg, hdelta, hf.count, show f.b.sequenceID = b.sequenceID by rw [hf.same]]
  rfl

/-- What a drain without delta encoding and without a compressor flushes: nothing, or one frame. -/
theorem attempts_raw {b b' : Batcher T} {f : Fill T} {loop : Loop} {tick : Tick T}
    {effects : List (Effect T)} (hf : FillOk b f) (hdelta : b.cfg.deltaEncoding = false)
    (hcompressor : b.cfg.compressor = false) (hsink : b.cfg.sink ≠ none)
    (hends : Ends f loop tick b' effects) :
    f.items = [] ∧ attempts effects = [] ∧ b'.sequenceID = b.sequenceID ∨
      f.items ≠ [] ∧ b'.sequenceID = b.sequenceID + 1 ∧
        ∃ frame, attempts effects = [(frame, tick.flush frame.sent)] ∧ frame.items = f.items ∧
          frame.sent =
            encodeFrame (b.sequenceID + 1) (UInt16.ofNat f.items.length) false f.body := by
  have hseq : f.b.sequenceID = b.sequenceID := by rw [hf.same]
  have hpayload := payload_raw loop hf hdelta
  have hne : f.n ≠ 0 → f.items ≠ [] := fun hn h => hn (by rw [← hf.count, h]; rfl)
  have hc : b'.sequenceID = b'.counters.sequenceID := rfl
  have houtcome := hends.outcome
  rw [hc]
  generalize b'.counters = c at houtcome
  generalize attempts effects = flushes at houtcome
  generalize discards effects = batches at houtcome
  rw [← hf.cfg] at hcompressor hsink
  cases houtcome with
  | nothing hn =>
      exact Or.inl ⟨List.length_eq_zero_iff.mp (hf.count.trans hn), rfl, hseq⟩
  | noSink hn hnone => exact absurd hnone hsink
  | notCompressed hn _ hsome => exact absurd (hcompressor.symm.trans hsome) (by decide)
  | failed hn _ sent hplain err hflush =>
      refine Or.inr ⟨hne hn, congrArg (· + 1) hseq, f.frame loop sent, ?_, rfl, ?_⟩
      · rw [← hflush]
        rfl
      · rw [← hpayload]
        exact hplain hcompressor
  | flushed hn _ sent hplain hflush =>
      refine Or.inr ⟨hne hn, congrArg (· + 1) hseq, f.frame loop sent, ?_, rfl, ?_⟩
      · rw [← hflush]
        rfl
      · rw [← hpayload]
        exact hplain hcompressor

variable [Serializable T]

/-- While nothing is pushed, the marshaling loop takes a front part of the queue. -/
theorem fill_front {k H : Nat} {b : Batcher T} {queue : List T} {f : Fill T} (hk : k ≤ 63)
    (hrep : Represents k H b.ring queue) (hs : b.Sized) (hfill : b.fill (fun _ => []) = .ok f) :
    queue = f.items ++ truncations f.effects ++ contents f.b.ring := by
  obtain ⟨f', H', rest, hfill', hrep', hdrained⟩ := fillLoop_alone 65535
    (f := { b, offset := headerSize, n := 0, items := [], effects := [] }) hk hrep (Nat.le_refl _)
    hs.header rfl
  cases hfill.symm.trans hfill'
  rw [hrep'.contents_eq hk]
  exact hdrained.account.symm

/-- The body of the frame of a filled buffer. -/
theorem fill_marshals {b : Batcher T} (hs : b.Sized) {arrivals : Nat → List T} {f : Fill T}
    (h : b.fill arrivals = .ok f) :
    (encodings b.bodyBuffer f.items).length = f.items.length ∧
      f.body = (encodings b.bodyBuffer f.items).flatten := by
  obtain ⟨new, hitems, hcount, hbody⟩ := fillLoop_marshals (Nat.le_refl _) hs.header h
  rw [List.nil_append] at hitems
  have hempty : ({ b, offset := headerSize, n := 0, items := [], effects := [] } : Fill T).body =
      [] := by
    simp [Fill.body]
  rw [hempty, List.nil_append] at hbody
  rw [hitems]
  exact ⟨hcount, hbody⟩

/-- Every raw frame is well formed. Whatever is in a ring of at least two slots, whatever producers
push in the meantime and whatever `Marshal` writes and reports, a drain returns, that is, no slice
expression is out of range. Let `f` be the state in which its marshaling loop stops. The items that
the loop has dequeued are those it has accepted into the frame and at most one more, which is
counted as truncated; without pushes they are a front part of the queue. There is no flush if it has
accepted none, and else one flush, of bytes that the codec decodes to the next sequence number, the
number of items and the byte ranges that their `Marshal` calls have reported, in order. -/
theorem raw_frame (host : ByteOrder) {b : Batcher T} {loop : Loop} (hidle : b.Idle loop)
    (hsize : 2 ≤ b.cfg.queueSize) (hdelta : b.cfg.deltaEncoding = false)
    (_hflush : b.cfg.flushTimeout = 0) (hcompressor : b.cfg.compressor = false)
    (hsink : b.cfg.sink ≠ none) (tick : Tick T) :
    ∃ f b' loop' effects exits, b.fill tick.arrivals = .ok f ∧
      b.drainAndFlush host loop tick = .ok (b', loop', effects) ∧
      History (contents b.ring) (acceptedItems (b.drainVerdicts tick.arrivals)) exits
        (contents b'.ring) ∧
      b'.ring.evicted = b.ring.evicted + UInt64.ofNat (lost exits).length ∧
      taken exits = f.items ++ truncations effects ∧ (truncations effects).length ≤ 1 ∧
      b'.truncated = b.truncated + UInt64.ofNat (truncations effects).length ∧
      (tick.arrivals = (fun _ => []) →
        contents b.ring = f.items ++ truncations effects ++ contents b'.ring) ∧
      (f.items = [] → attempts effects = []) ∧
      (f.items ≠ [] → ∃ frame header,
        attempts effects = [(frame, tick.flush frame.sent)] ∧
        Codec.decode frame.sent = .ok (header, (encodings b.bodyBuffer f.items).flatten) ∧
        header.seq = b.sequenceID + 1 ∧ b'.sequenceID = b.sequenceID + 1 ∧
        header.keyframe = false ∧ header.count.toNat = f.items.length ∧
        1 ≤ f.items.length ∧ f.items.length ≤ 65535 ∧
        (encodings b.bodyBuffer f.items).length = f.items.length) := by
  obtain ⟨k, H, hk, hk', hrep⟩ := hidle.represents hsize
  obtain ⟨f, queue, exits, hfill, hfilling, hone⟩ :=
    fill_ledger tick.arrivals hk hk' hrep hidle.sized
  obtain ⟨b', loop', effects, hdrain, _, hring, htruncated, _⟩ := drain_ok host hidle hfill
  obtain ⟨hf, hmax⟩ := fill_ok hidle.sized hfill
  obtain ⟨hranges, hbody⟩ := fill_marshals hidle.sized hfill
  have hends := drain_ends hidle hfill hfilling.discards hdrain
  obtain ⟨H', hrep'⟩ := hfilling.ledger.ring
  have hqueue : contents b'.ring = queue := by
    rw [hring]
    exact hrep'.contents_eq hk'
  have hcase := attempts_raw hf hdelta hcompressor hsink hends
  refine ⟨f, b', loop', effects, exits, hfill, hdrain, ?_, ?_, ?_, ?_, ?_, ?_, ?_, ?_⟩
  · rw [hqueue]
    exact hfilling.ledger.history
  · rw [hring]
    exact hfilling.ledger.evicted
  · rw [hends.truncations]
    exact hfilling.taken
  · rw [hends.truncations]
    exact hone
  · rw [htruncated, hends.truncations]
    exact hfilling.truncated
  · intro halone
    rw [hends.truncations, hring]
    exact fill_front hk' hrep hidle.sized (halone ▸ hfill)
  · intro hnone
    rcases hcase with ⟨_, hquiet, _⟩ | ⟨hsome, _⟩
    · exact hquiet
    · exact absurd hnone hsome
  · intro hsome
    rcases hcase with ⟨hnone, _⟩ | ⟨_, hseq, frame, hattempt, _, hsent⟩
    · exact absurd hnone hsome
    have hcount : f.items.length ≤ 65535 := hf.count.trans_le hmax
    rw [hbody] at hsent
    refine ⟨frame, ⟨b.sequenceID + 1, UInt16.ofNat f.items.length,
      Codec.bodyCrc (encodings b.bodyBuffer f.items).flatten, false⟩, hattempt, ?_, rfl, hseq, rfl,
      ?_, List.length_pos_of_ne_nil hsome, hcount, hranges⟩
    · rw [hsent]
      exact decode_encodeFrame _ _ _ _
    -- the count of a frame fits into its 16 bits
    · show (UInt16.ofNat f.items.length).toNat = _
      rw [UInt16.toNat_ofNat', Nat.mod_eq_of_lt (by omega)]

/-- A drain of two items with an encoding and one without, which leaves a fourth one queued. -/
theorem raw_frame_two : ∃ b b' : Batcher (List UInt8), ∃ loop' effects frame header,
    contents b.ring = [[1], [2, 3], [], [4]] ∧
    b.drainAndFlush .little Loop.initial (plainTick [] none) = .ok (b', loop', effects) ∧
    contents b'.ring = [[4]] ∧ truncations effects = [[]] ∧
    attempts effects = [(frame, none)] ∧
    Codec.decode frame.sent = .ok (header, [1, 2, 3]) ∧ header.count.toNat = 2 := by
  obtain ⟨b₀, b, hnew, hpushed, hcfg, htest⟩ := exists_of_testNew shortConfig
    (fun b₀ : Batcher (List UInt8) => (b₀.pushAll [[1], [2, 3], [], [4]]).toOption)
    (fun _ b =>
      contents b.ring == [[1], [2, 3], [], [4]] &&
        match b.fill (plainTick [] none).arrivals,
          b.drainAndFlush .little Loop.initial (plainTick [] none) with
        | .ok f, .ok (b', _, effects) =>
            f.items == [[1], [2, 3]] && contents b'.ring == [[4]] && truncations effects == [[]] &&
              (encodings b.bodyBuffer f.items).flatten == [1, 2, 3]
        | _, _ => false) (by decide +kernel)
  have hpush := toOption_eq_some.mp hpushed
  rw [← pushAll_cfg hpush] at hcfg
  obtain ⟨f, b', loop', effects, exits, hfill, hdrain, _, _, _, _, _, _, _, hframe⟩ :=
    raw_frame .little ((new_idle hnew).pushAll hpush) (by rw [hcfg]; decide) (by rw [hcfg]; rfl)
      (by rw [hcfg]; rfl) (by rw [hcfg]; rfl) (by rw [hcfg]; decide) (plainTick [] none)
  rw [hfill, hdrain] at htest
  simp only [Bool.and_eq_true, beq_iff_eq] at htest
  obtain ⟨hcontents, ⟨⟨hitems, hrest⟩, hcut⟩, hbody⟩ := htest
  obtain ⟨frame, header, hattempt, hdecode, _, _, _, hcount, _⟩ := hframe (by rw [hitems]; decide)
  rw [hbody] at hdecode
  rw [hitems] at hcount
  exact ⟨b, b', loop', effects, frame, header, hcontents, hdrain, hrest, hcut, hattempt, hdecode,
    hcount⟩

/-! ## Repeated drains -/

/-- `Marshal` keeps its contract: given at least `maxItemSize` bytes, it writes an encoding that
depends on the item only, of at least one and at most `maxItemSize` bytes, and returns its
length. -/
structure Contract (maxItemSize : Int) (encode : T → List UInt8) : Prop where
  pos : ∀ item, 1 ≤ (encode item).length
  le : ∀ item, ((encode item).length : Int) ≤ maxItemSize
  written : ∀ item (buf : List UInt8), maxItemSize ≤ buf.length →
    (Serializable.marshal item buf).1 = (encode item).length
  bytes : ∀ item (buf : List UInt8), maxItemSize ≤ buf.length →
    (Serializable.marshal item buf).2.take (encode item).length = encode item

/-- What the marshaling loop makes of a queue whose items keep the contract: it packs the items
`new` and leaves the others queued. -/
structure Packs (encode : T → List UInt8) (left : Nat) (f : Fill T) (queue : List T) (f' : Fill T)
    (new rest : List T) : Prop where
  split : queue = new ++ rest
  items : f'.items = f.items ++ new
  body : f'.body = f.body ++ (new.map encode).flatten
  effects : f'.effects = f.effects
  truncated : f'.b.truncated = f.b.truncated
  progress : left ≠ 0 → f.b.cfg.maxItemSize.toInt ≤ (f.b.byteBuffer.drop f.offset).length →
    queue ≠ [] → new ≠ []

/-- The marshaling loop over items that keep the contract. -/
theorem fillLoop_contract {k H : Nat} {encode : T → List UInt8} (left : Nat) {f : Fill T}
    {queue : List T} (hk : k ≤ 63) (hcontract : Contract f.b.cfg.maxItemSize.toInt encode)
    (hrep : Represents k H f.b.ring queue) (hlo : headerSize ≤ f.offset)
    (hhi : f.offset ≤ f.b.byteBuffer.length) :
    ∃ f' H' new rest, fillLoop (fun _ => []) left f = .ok f' ∧
      Represents k H' f'.b.ring rest ∧ Packs encode left f queue f' new rest := by
  induction left generalizing f H queue with
  | zero =>
      exact ⟨f, H, [], queue, rfl, hrep, rfl, (List.append_nil _).symm, (List.append_nil _).symm,
        rfl, rfl, fun h => absurd rfl h⟩
  | succ left ih =>
      by_cases hroom : (f.b.byteBuffer.drop f.offset).length < f.b.cfg.maxItemSize.toInt
      · exact ⟨f, H, [], queue, fillLoop_full hhi hroom _, hrep, rfl, (List.append_nil _).symm,
          (List.append_nil _).symm, rfl, rfl, fun _ h => absurd hroom (Int.not_lt.mpr h)⟩
      cases queue with
      | nil =>
          have hloop : fillLoop (fun _ => []) (left + 1) f = .ok (f.arrive f.b []) :=
            fillLoop_empty hhi hroom rfl (hrep.take_nil hk) left
          rw [Fill.arrive_nil] at hloop
          exact ⟨f, H, [], [], hloop, hrep, rfl, (List.append_nil _).symm, (List.append_nil _).symm,
            rfl, rfl, fun _ _ h => absurd rfl h⟩
      | cons item queue =>
          obtain ⟨ring, htake, hrep', _⟩ := hrep.take_cons hk
          have hwritten := hcontract.written item _ (Int.not_lt.mp hroom)
          have hbytes := hcontract.bytes item _ (Int.not_lt.mp hroom)
          have hpos := hcontract.pos item
          have hle := hcontract.le item
          cases fillLoop_takes_alone hhi hroom htake with
          | cut written buf hm hbad hloop =>
              rw [hm] at hwritten
              simp only at hwritten
              omega
          | accept written buf hm hgood hhi' hloop =>
              rw [hm] at hwritten hbytes
              simp only at hwritten hbytes
              obtain ⟨f', H', new, rest, hrun, hrest, hsplit, hitems, hbody, heffects, htruncated,
                _⟩ := ih (f := f.accept ring item written buf) hcontract hrep'
                  (Nat.le_add_right_of_le hlo) hhi'
              rw [Fill.accept_body hlo hhi, hwritten, Int.toNat_natCast, hbytes] at hbody
              refine ⟨f', H', item :: new, rest, (hloop left).trans hrun, hrest, ?_, ?_, ?_,
                heffects, htruncated, fun _ _ _ => List.cons_ne_nil _ _⟩
              · rw [hsplit]
                rfl
              · rw [hitems]
                exact List.append_assoc _ _ _
              · rw [hbody, List.append_assoc]
                rfl

/-- The codec decodes the frames, and together they carry the encodings of the items, in order. -/
def Carries (encode : T → List UInt8) (items : List T) (frames : List (Frame T)) : Prop :=
  ∃ decoded : List (Codec.Header × List UInt8),
    frames.map (fun frame => Codec.decode frame.sent) = decoded.map Except.ok ∧
    (decoded.map fun frame => frame.2).flatten = (items.map encode).flatten ∧
    (decoded.map fun frame => frame.1.count.toNat).sum = items.length

omit [Serializable T] in
theorem Carries.append {encode : T → List UInt8} {items items' : List T}
    {frames frames' : List (Frame T)} (h : Carries encode items frames)
    (h' : Carries encode items' frames') :
    Carries encode (items ++ items') (frames ++ frames') := by
  obtain ⟨decoded, hdecode, hbody, hcount⟩ := h
  obtain ⟨decoded', hdecode', hbody', hcount'⟩ := h'
  refine ⟨decoded ++ decoded', ?_, ?_, ?_⟩
  · rw [List.map_append, hdecode, hdecode', List.map_append]
  · rw [List.map_append, List.flatten_append, hbody, hbody', List.map_append, List.flatten_append]
  · rw [List.map_append, List.sum_append, hcount, hcount', List.length_append]

/-- The setting in which nothing is lost: frames are sent raw, there is room for an item of the
maximal size, as integers, and `Marshal` keeps its contract. -/
structure Lossless (b : Batcher T) (encode : T → List UInt8) : Prop where
  buffer : b.byteBuffer.length = b.cfg.maxBatchSize.toInt.toNat
  room : 8 + b.cfg.maxItemSize.toInt ≤ b.cfg.maxBatchSize.toInt
  queueSize : 2 ≤ b.cfg.queueSize
  flushTimeout : b.cfg.flushTimeout = 0
  deltaEncoding : b.cfg.deltaEncoding = false
  compressor : b.cfg.compressor = false
  sink : b.cfg.sink ≠ none
  contract : Contract b.cfg.maxItemSize.toInt encode

theorem Lossless.keeps {b b' : Batcher T} {encode : T → List UInt8} (h : b.Lossless encode)
    (hkeeps : b.Keeps b') : b'.Lossless encode := by
  refine ⟨?_, ?_, ?_, ?_, ?_, ?_, ?_, ?_⟩ <;> rw [hkeeps.cfg]
  · rw [hkeeps.length]
    exact h.buffer
  · exact h.room
  · exact h.queueSize
  · exact h.flushTimeout
  · exact h.deltaEncoding
  · exact h.compressor
  · exact h.sink
  · exact h.contract

/-- One drain with no producer running: it takes a front part of the queue, not an empty one unless
the queue is empty, and delivers exactly that. -/
theorem drain_lossless (host : ByteOrder) {b : Batcher T} {loop : Loop} {encode : T → List UInt8}
    {tick : Tick T} (hidle : b.Idle loop) (h : b.Lossless encode) (hquiet : tick.Quiet) :
    ∃ b' loop' effects new, b.drainAndFlush host loop tick = .ok (b', loop', effects) ∧
      b'.Idle loop' ∧ b'.Lossless encode ∧ contents b.ring = new ++ contents b'.ring ∧
      (contents b.ring ≠ [] → new ≠ []) ∧ b'.truncated = b.truncated ∧
      Carries encode new (delivered effects) := by
  obtain ⟨k, H, _, hk, hrep⟩ := hidle.represents h.queueSize
  obtain ⟨f, H', new, rest, hfill, hrep', hpacks⟩ := fillLoop_contract 65535
    (f := { b, offset := headerSize, n := 0, items := [], effects := [] }) hk h.contract hrep
    (Nat.le_refl _) hidle.sized.header
  have hfill : b.fill tick.arrivals = .ok f := by
    rw [hquiet.arrivals]
    exact hfill
  obtain ⟨hf, hmax⟩ := fill_ok hidle.sized hfill
  obtain ⟨b', loop', effects, hdrain, hidle', hring, htruncated, _⟩ := drain_ok host hidle hfill
  have hitems : f.items = new := hpacks.items
  have hbody : f.body = (new.map encode).flatten := by
    rw [hpacks.body]
    simp [Fill.body]
  have hroom : b.cfg.maxItemSize.toInt ≤ (b.byteBuffer.drop headerSize).length := by
    have := h.room
    rw [List.length_drop, h.buffer]
    unfold headerSize
    omega
  have hkept : discards f.effects = [] := by rw [hpacks.effects]; rfl
  have hends := drain_ends hidle hfill hkept hdrain
  refine ⟨b', loop', effects, new, hdrain, hidle', h.keeps (drain_keeps hidle.sized hdrain), ?_,
    hpacks.progress (by decide) hroom, htruncated.trans hpacks.truncated, ?_⟩
  · rw [hring, hrep'.contents_eq hk]
    exact hpacks.split
  rcases attempts_raw hf h.deltaEncoding h.compressor h.sink hends with
    ⟨hnone, hattempts, _⟩ | ⟨_, _, frame, hattempts, _, hsent⟩
  · refine ⟨[], ?_, ?_, ?_⟩
    · unfold delivered
      rw [hattempts]
      rfl
    · rw [← hitems, hnone]
      rfl
    · rw [← hitems, hnone]
      rfl
  · have hdelivered : delivered effects = [frame] := by
      unfold delivered
      rw [hattempts, hquiet.flush]
      rfl
    rw [hitems, hbody] at hsent
    refine ⟨[(⟨b.sequenceID + 1, UInt16.ofNat new.length, Codec.bodyCrc (new.map encode).flatten,
      false⟩, (new.map encode).flatten)], ?_, ?_, ?_⟩
    · rw [hdelivered, List.map_singleton, hsent, decode_encodeFrame]
      rfl
    · exact List.append_nil _
    · have hcount : new.length ≤ 65535 := by
        rw [← hitems, hf.count]
        exact hmax
      show (UInt16.ofNat new.length).toNat + 0 = _
      rw [UInt16.toNat_ofNat', Nat.mod_eq_of_lt (by omega)]
      rfl

/-- Repeated drains deliver everything exactly once, in order. With no further pushes and a
transport that does not fail, as many drains as there are items leave the ring empty; nothing is
truncated, and the frames carry the encodings of the items. -/
theorem repeated_drains (host : ByteOrder) {b : Batcher T} {loop : Loop}
    {encode : T → List UInt8} {ticks : List (Tick T)} (hidle : b.Idle loop)
    (h : b.Lossless encode) (hquiet : ∀ tick ∈ ticks, tick.Quiet)
    (hlen : (contents b.ring).length ≤ ticks.length) :
    ∃ b' loop' effects, b.drains host loop ticks = .ok (b', loop', effects) ∧
      depth b'.ring = 0 ∧ b'.truncated = b.truncated ∧
      Carries encode (contents b.ring) (delivered effects) := by
  induction ticks generalizing b loop with
  | nil =>
      have hempty : contents b.ring = [] := List.length_eq_zero_iff.mp (Nat.le_zero.mp hlen)
      obtain ⟨k, H, _, hk, hrep⟩ := hidle.represents h.queueSize
      refine ⟨b, loop, [], rfl, (hrep.depth_eq_zero hk).mpr hempty, rfl, ?_⟩
      rw [hempty]
      exact ⟨[], rfl, rfl, rfl⟩
  | cons tick ticks ih =>
      obtain ⟨b₁, loop₁, es, new, hfirst, hidle₁, h₁, hsplit, hprogress, htruncated₁, hcarries⟩ :=
        drain_lossless host hidle h (hquiet tick List.mem_cons_self)
      have hlen₁ : (contents b₁.ring).length ≤ ticks.length := by
        by_cases hempty : contents b.ring = []
        · rw [hempty] at hsplit
          rw [(List.append_eq_nil_iff.mp hsplit.symm).2]
          exact Nat.zero_le _
        · have hpos := List.length_pos_of_ne_nil (hprogress hempty)
          rw [hsplit, List.length_append, List.length_cons] at hlen
          omega
      obtain ⟨b', loop', rest, hrest, hdepth, htruncated, hcarries'⟩ :=
        ih hidle₁ h₁ (fun t ht => hquiet t (List.mem_cons_of_mem _ ht)) hlen₁
      refine ⟨b', loop', es ++ rest, ?_, hdepth, htruncated.trans htruncated₁, ?_⟩
      · unfold drains
        rw [hfirst]
        simp only [bind, Except.bind, hrest]
        rfl
      · rw [hsplit, delivered_append]
        exact hcarries.append hcarries'

/-- An item of one to four bytes that is its own encoding. -/
structure ShortItem where
  bytes : List UInt8
  pos : 1 ≤ bytes.length
  le : bytes.length ≤ 4
  deriving DecidableEq

instance : Inhabited ShortItem := ⟨⟨[0], by decide, by decide⟩⟩

instance : Serializable ShortItem where
  marshal item buf := Serializable.marshal item.bytes buf
  marshal_length item buf := Serializable.marshal_length item.bytes buf

theorem shortItem_contract : Contract 4 ShortItem.bytes := by
  have hmarshal : ∀ (item : ShortItem) (buf : List UInt8), (4 : Int) ≤ buf.length →
      Serializable.marshal item buf =
        ((item.bytes.length : Int), item.bytes ++ buf.drop item.bytes.length) := by
    intro item buf hbuf
    exact if_pos (item.le.trans (Int.ofNat_le.mp hbuf))
  refine ⟨ShortItem.pos, fun item => Int.ofNat_le.mpr item.le, fun item buf hbuf => ?_,
    fun item buf hbuf => ?_⟩
  · rw [hmarshal item buf hbuf]
  · rw [hmarshal item buf hbuf, List.take_left]

/-- Three items of which only two fit into one frame: the third one is in the second frame. -/
theorem repeated_drains_three : ∃ (b b' : Batcher ShortItem) (loop' : Loop)
    (effects : List (Effect ShortItem)),
    (contents b.ring).map ShortItem.bytes = [[1, 2, 3], [4, 5, 6], [7, 8, 9]] ∧
    b.drains .little Loop.initial (List.replicate 3 (plainTick [] none)) =
      .ok (b', loop', effects) ∧
    depth b'.ring = 0 ∧ b'.truncated = 0 ∧
    Carries ShortItem.bytes (contents b.ring) (delivered effects) ∧
    (delivered effects).length = 2 := by
  obtain ⟨b₀, b, hnew, hpushed, hcfg, htest⟩ := exists_of_testNew shortConfig
    (fun b₀ : Batcher ShortItem => (b₀.pushAll [⟨[1, 2, 3], by decide, by decide⟩,
      ⟨[4, 5, 6], by decide, by decide⟩, ⟨[7, 8, 9], by decide, by decide⟩]).toOption)
    (fun _ b => b.byteBuffer.length == 16 && b.truncated == 0 &&
      (contents b.ring).map ShortItem.bytes == [[1, 2, 3], [4, 5, 6], [7, 8, 9]] &&
      (b.drains .little Loop.initial (List.replicate 3 (plainTick [] none))).toOption.any
        fun out => (delivered out.2.2).length == 2) (by decide +kernel)
  have hpush := toOption_eq_some.mp hpushed
  rw [← pushAll_cfg hpush] at hcfg
  simp only [Bool.and_eq_true, beq_iff_eq] at htest
  obtain ⟨⟨⟨hbuffer, htruncated⟩, hcontents⟩, hframes⟩ := htest
  have hlossless : b.Lossless ShortItem.bytes := by
    refine ⟨?_, ?_, ?_, ?_, ?_, ?_, ?_, ?_⟩ <;> rw [hcfg]
    · exact hbuffer
    · decide
    · decide
    · rfl
    · rfl
    · rfl
    · decide
    · exact shortItem_contract
  have hthree : (contents b.ring).length ≤
      (List.replicate 3 (plainTick ([] : List ShortItem) none)).length := by
    rw [← List.length_map ShortItem.bytes, hcontents]
    decide
  obtain ⟨b', loop', effects, hrun, hdepth, hsame, hcarries⟩ := repeated_drains .little
    ((new_idle hnew).pushAll hpush) hlossless
    (fun tick htick => List.eq_of_mem_replicate htick ▸ plainTick_quiet) hthree
  rw [hrun] at hframes
  exact ⟨b, b', loop', effects, hcontents, hrun, hdepth, hsame.trans htruncated, hcarries,
    beq_iff_eq.mp hframes⟩

end Batcher

end TickBatch
