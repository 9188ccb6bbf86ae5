import Mathlib.Data.List.Flatten
import TickBatch.Delta.Recovery
import TickBatch.Engine.RawFrames
import TickBatch.Wire.TcpSink

/-!
# From a push to the receiver

The parts put together: producers push items, the engine packs them into frames in some
interleaving, the frames go through a `TCPSink`, and a receiver cuts the stream into frames and
decodes them. As long as no frame is left torn on the stream, the receiver gets exactly the frames
whose flush has returned nil, and reads from them encodings of pushed items, each at most once and
in push order (`Received`): without delta encoding for every `FlushTimeout` that is not negative
(`raw_end_to_end`), with it for calls of `Sink.Flush` without a deadline, unless the receiver takes
a frame for a keyframe (`delta_end_to_end`).
-/

namespace TickBatch

variable {T : Type}

/-- The raw frame consists of the header and the encodings of the items. -/
structure Frame.Holds (encode : T → List UInt8) (frame : Frame T) : Prop where
  raw : frame.raw =
    Batcher.encodeFrame frame.seq frame.count frame.keyframe (frame.items.map encode).flatten
  count : frame.count.toNat = frame.items.length
  pos : 1 ≤ frame.items.length

/-- What the codec reads from a frame whose items have these encodings. -/
def Frame.decoded (encode : T → List UInt8) (frame : Frame T) : Codec.Header × List UInt8 :=
  ({ seq := frame.seq, count := frame.count, keyframe := frame.keyframe
     crc := Codec.bodyCrc (frame.items.map encode).flatten }, (frame.items.map encode).flatten)

/-- The codec reads the encodings of the items from the raw frame. -/
theorem Frame.Holds.decode {encode : T → List UInt8} {frame : Frame T} (h : frame.Holds encode) :
    Codec.decode frame.raw = .ok (frame.decoded encode) := by
  rw [h.raw]
  exact Batcher.decode_encodeFrame _ _ _ _

namespace Batcher

variable [Serializable T] {encode : T → List UInt8} {arrivals : Nat → List T}

/-! ## What a frame holds -/

omit [Serializable T] in
/-- Pushes leave the body alone. -/
theorem Fill.arrive_body {f : Fill T} {b : Batcher T} {items : List T} (ring : Ringbuf T)
    (hpush : f.b.pushAll items = .ok b) : (f.arrive { b with ring } items).body = f.body := by
  rw [pushAll_eq hpush]
  rfl

/-- What `Marshal` puts into a frame is an encoding that depends on the item only: given at least
`maxItemSize` bytes, it has written the encoding whenever it returns a length that the engine
accepts. For an item that it does not encode it may return zero, or anything else that the engine
rejects. -/
structure Encodes (maxItemSize : Int) (encode : T → List UInt8) : Prop where
  bytes : ∀ item (buf : List UInt8), maxItemSize ≤ buf.length →
    0 < (Serializable.marshal item buf).1 → (Serializable.marshal item buf).1 ≤ buf.length →
      (Serializable.marshal item buf).2.take (Serializable.marshal item buf).1.toNat = encode item

/-- Whatever is pushed meanwhile, the marshaling loop appends the encodings of the items it
takes. -/
theorem fillLoop_encodes {left : Nat} {f f' : Fill T}
    (hencodes : Encodes f.b.cfg.maxItemSize.toInt encode) (hlo : headerSize ≤ f.offset)
    (hhi : f.offset ≤ f.b.byteBuffer.length) (h : fillLoop arrivals left f = .ok f') :
    ∃ new, f'.items = f.items ++ new ∧ f'.body = f.body ++ (new.map encode).flatten := by
  -- a loop that stops has added nothing
  have hstop : ∀ {f g : Fill T}, g.items = f.items → g.body = f.body →
      ∃ new, g.items = f.items ++ new ∧ g.body = f.body ++ (new.map encode).flatten := by
    intro f g hitems hbody
    refine ⟨[], ?_, ?_⟩
    · rw [hitems, List.append_nil]
    · rw [hbody, List.map_nil, List.flatten_nil, List.append_nil]
  induction left generalizing f with
  | zero =>
      cases h
      exact hstop rfl rfl
  | succ left ih =>
      by_cases hroom : (f.b.byteBuffer.drop f.offset).length < f.b.cfg.maxItemSize.toInt
      · rw [fillLoop_full hhi hroom] at h
        cases h
        exact hstop rfl rfl
      obtain rfl | ⟨b, _, _, _, hpush, _⟩ := fillLoop_succ h
      · exact hstop rfl rfl
      have hb := pushAll_eq hpush
      cases htake : b.ring.take with
      | none =>
          rw [fillLoop_iterate hhi hpush, if_neg hroom, htake] at h
          cases h
      | some out =>
          obtain ⟨ring, item⟩ := out
          cases item with
          | none =>
              rw [fillLoop_empty hhi hroom hpush htake] at h
              cases h
              exact hstop rfl (Fill.arrive_body ring hpush)
          | some item =>
              let g := f.arrive b (arrivals f.n)
              have hhi₁ : g.offset ≤ g.b.byteBuffer.length := by
                show f.offset ≤ b.byteBuffer.length
                rw [hb]
                exact hhi
              have hbody : g.body = f.body := Fill.arrive_body b.ring hpush
              cases fillLoop_takes hhi hroom hpush htake with
              | cut written buf hm hbad hloop =>
                  rw [hloop] at h
                  cases h
                  exact hstop rfl ((Fill.cut_body hhi₁).trans hbody)
              | accept written buf hm hgood hhi' hloop =>
                  have hbytes := hencodes.bytes item _ (Int.not_lt.mp hroom)
                  rw [hm] at hbytes
                  have hgrow : (g.accept ring item written buf).body = f.body ++ encode item := by
                    rw [Fill.accept_body (f := g) hlo hhi₁, hbody]
                    exact congrArg (f.body ++ ·) (hbytes (by omega) (by omega))
                  have hcfg : (g.accept ring item written buf).b.cfg = f.b.cfg := by
                    show b.cfg = _
                    rw [hb]
                  rw [hloop] at h
                  obtain ⟨new, hitems, hnew⟩ :=
                    ih (hcfg ▸ hencodes) (Nat.le_add_right_of_le hlo) hhi' h
                  refine ⟨item :: new, ?_, ?_⟩
                  · rw [hitems]
                    exact List.append_assoc _ _ _
                  · rw [hnew, hgrow, List.append_assoc]
                    rfl

/-- The frame that a drain assembles holds its items. -/
theorem assemble_holds {host : ByteOrder} {b b' : Batcher T} {loop : Loop} {tick : Tick T}
    {frame : Frame T} {es : List (Effect T)} (hs : b.Sized)
    (hencodes : Encodes b.cfg.maxItemSize.toInt encode)
    (h : b.assemble host loop tick = .ok (b', some frame, es)) : frame.Holds encode := by
  obtain ⟨hbuilt, _⟩ := (assemble_ok hs h).2.2.2 frame rfl
  obtain ⟨f, hfill, _⟩ := bind_eq_ok h
  obtain ⟨new, hitems, hbody⟩ := fillLoop_encodes hencodes (Nat.le_refl _) hs.header hfill
  have hempty : ({ b, offset := headerSize, n := 0, items := [], effects := [] } : Fill T).body =
      [] := by
    simp [Fill.body]
  rw [List.nil_append] at hitems
  rw [hempty, List.nil_append, ← hitems] at hbody
  rw [assemble_eq hs hfill] at h
  have h := Except.ok.inj h
  split at h
  · cases h
  split at h
  · cases h
  obtain ⟨_, ⟨hnone, _⟩ | ⟨sent, hframe, _⟩⟩ := Fill.finish_outcome h
  · cases hnone
  cases hframe
  refine ⟨?_, ?_, hbuilt.items_pos⟩
  · show encodeFrame _ _ _ f.body = _
    rw [hbody]
    rfl
  · have hle := hbuilt.items_le
    rw [hbuilt.count, UInt16.toNat_ofNat', Nat.mod_eq_of_lt (by omega)]

omit [Serializable T] in
/-- Without delta encoding, what is sent is the raw frame, once it is decompressed. -/
theorem Built.unpack_sent {b : Batcher T} {loop : Loop} {tick : Tick T} {frame : Frame T}
    {decompress : List UInt8 → List UInt8} (h : Built b loop tick frame)
    (hdelta : b.cfg.deltaEncoding = false) (hinv : Inverts decompress tick) :
    unpack b.cfg decompress frame.sent = frame.raw := by
  have hpayload : frame.payload = frame.raw := by
    rw [h.payload, payloadOf, hdelta]
    rfl
  rw [← hpayload]
  unfold unpack
  split
  · rename_i hcompressor
    obtain ⟨dst, herr, hlo, hhi, hsent⟩ := h.packed hcompressor
    rw [hsent]
    exact hinv dst frame.payload herr hlo hhi
  · rename_i hcompressor
    exact h.plain (Bool.eq_false_iff.mpr hcompressor)

end Batcher

namespace Engine

open TickBatch.Ring (depth)
open Batcher (Encodes Inverts Unconfused receive recovered unpack)

variable [Serializable T] [Inhabited T] {encode : T → List UInt8} {host : ByteOrder}
  {sizeofT : Int64} {cfg : Config} {b : Batcher T} {e e' : Engine T} {a : Action T}
  {actions : List (Action T)} {events new : List (Event T)} {writes : List TcpFlush}

/-- Every frame has been assembled by one of the drains, from a batcher with this configuration. -/
def AssembledBy (host : ByteOrder) (cfg : Config) (actions : List (Action T))
    (events : List (Event T)) (e : Engine T) : Prop :=
  ∀ frame ∈ assembled events e, ∃ tick ∈ drainsOf actions, ∃ b loop b' es, Batcher.Sized b ∧
    b.cfg = cfg ∧ b.assemble host loop tick = .ok (b', some frame, es)

omit [Inhabited T] in
/-- One step assembles at most one frame. -/
theorem step_assembledBy (hinv : FlightInv cfg e) (h : AssembledBy host cfg actions events e)
    (hstep : step host e a = some (e', new)) :
    AssembledBy host cfg (actions ++ [a]) (events ++ new) e' := by
  intro frame hframe
  have hdrains : drainsOf (actions ++ [a]) = drainsOf actions ++ drainsOf [a] :=
    List.filterMap_append
  rw [hdrains]
  obtain ⟨out, hassembled, hout⟩ := step_assembled events hinv hstep
  rw [hassembled, List.mem_append, Option.mem_toList] at hframe
  rcases hframe with hold | hlast
  · obtain ⟨tick, htick, hbuilt⟩ := h frame hold
    exact ⟨tick, List.mem_append_left _ htick, hbuilt⟩
  · rcases hout with ⟨_, hnone⟩ | ⟨tick, hdrain, _, hbuilt⟩
    · rw [hnone] at hlast
      cases hlast
    · obtain ⟨_, b₂, es, hassemble⟩ := hbuilt frame hlast
      refine ⟨tick, List.mem_append_right _ ?_, e.b, e.loop, b₂, es, hinv.sized, hinv.cfg_eq,
        hassemble⟩
      rw [hdrain]
      exact List.mem_singleton_self _

/-- Every frame of a run has what its drains give to the frames they assemble. -/
theorem run_assembled {P : Frame T → Prop} (hnew : Batcher.new sizeofT cfg = .ok b)
    (hP : ∀ tick ∈ drainsOf actions, ∀ b₁ loop b₂ frame es, Batcher.Sized b₁ → b₁.cfg = b.cfg →
      b₁.assemble host loop tick = .ok (b₂, some frame, es) → P frame)
    (hrun : run host (initial b) actions = some (e, events)) :
    ∀ frame ∈ assembled events e, P frame := by
  have hassembled : AssembledBy host b.cfg actions events e :=
    (Transition.run_invariant
      (I := fun acts events e => FlightInv b.cfg e ∧ AssembledBy host b.cfg acts events e)
      (fun _ _ _ _ _ _ ⟨hinv, h⟩ hstep =>
        ⟨step_flightInv hinv hstep, step_assembledBy hinv h hstep⟩)
      ⟨initial_flightInv hnew, fun frame hframe => (by cases hframe)⟩ hrun).2
  intro frame hframe
  obtain ⟨tick, htick, b₁, loop, b₂, es, hs, hcfg, hassemble⟩ := hassembled frame hframe
  exact hP tick htick b₁ loop b₂ frame es hs hcfg hassemble

omit [Serializable T] [Inhabited T] in
/-- The payloads that the sink has accepted. -/
theorem accepted_returns (events : List (Event T)) :
    TCPSink.accepted ((returns events).map fun r => (r.1.2, r.2)) =
      (deliveries events).map Prod.snd := by
  induction events with
  | nil => rfl
  | cons event events ih =>
      cases event with
      | effect effect => exact ih
      | called frame bytes => exact ih
      | returned frame bytes err =>
          cases err with
          | none => exact congrArg (bytes :: ·) ih
          | some err => exact ih

/-! ## The transport -/

/-- The sink of the run is a `TCPSink`: its calls have returned what the calls `writes` of
`TCPSink.Flush` return for these bytes. -/
def OverTcp (writes : List TcpFlush) (events : List (Event T)) : Prop :=
  (TCPSink.new.flushes writes).2 = (returns events).map fun r => (r.1.2, r.2)

instance (writes : List TcpFlush) (events : List (Event T)) : Decidable (OverTcp writes events) :=
  inferInstanceAs (Decidable (_ = _))

/-- A receiver cuts the stream into the frames that were delivered. -/
theorem readFrames_deliveries (hnew : Batcher.new sizeofT cfg = .ok b)
    (htimeout : 0 ≤ b.cfg.flushTimeout) (hrun : run host (initial b) actions = some (e, events))
    (hsink : OverTcp writes events) (hunbroken : Unbroken writes) :
    Framing.readFrames (TCPSink.new.flushes writes).1.conn.stream =
      ((deliveries events).map Prod.fst).map Frame.sent := by
  obtain ⟨hstream, haccepted⟩ := TCPSink.new.flushes_spec writes
  have hempty : TCPSink.new.conn.stream = [] := rfl
  have hsent : (deliveries events).map Prod.snd =
      ((deliveries events).map Prod.fst).map Frame.sent := by
    rw [List.map_map]
    refine List.map_congr_left fun delivery hdelivery => ?_
    exact deliveries_sent hnew htimeout hrun delivery hdelivery
  rw [hstream, hempty, List.nil_append, TCPSink.readFrames_unbroken hunbroken, ← haccepted, hsink,
    accepted_returns, hsent]

/-! ## What is received -/

/-- What holds of the frames that have been received when a run of `actions` has led to `e`. -/
structure Received (encode : T → List UInt8) (actions : List (Action T)) (events : List (Event T))
    (e : Engine T) (frames : List (Frame T)) : Prop where
  /-- the frames hold the encodings of their items -/
  content : ∀ frame ∈ frames, frame.Holds encode
  /-- the items are pushed ones, each at most once and in push order -/
  order : (frames.flatMap Frame.items).Sublist (pushes (effects events))
  /-- the sequence numbers increase, up to the last one given out, at most one for each drain -/
  numbers : ∃ n, n ≤ (drainsOf actions).length ∧ e.b.sequenceID = UInt32.ofNat n ∧
    (frames.map Frame.seq).Sublist ((List.range' 1 n).map UInt32.ofNat)
  /-- what the counters count as flushed has been received -/
  flushed : (advances events).Sublist frames
  /-- every item has been received, if none has been lost on the way or is still to come -/
  complete : e.b.dropped = 0 → e.b.ring.evicted = 0 → e.b.truncated = 0 →
    undelivered (effects events) = [] → depth e.b.ring = 0 → e.drain.frame? = none →
    (pushes (effects events)).length < 2 ^ 64 →
      frames.flatMap Frame.items = pushes (effects events)

omit [Serializable T] [Inhabited T] in
/-- The frames that were flushed without an error are some of those flushed. -/
theorem successes_sublist (flushes : List (Frame T × Option Error)) :
    (successes flushes).Sublist (flushes.map Prod.fst) := by
  induction flushes with
  | nil => exact .slnil
  | cons flush flushes ih =>
      obtain ⟨frame, err⟩ := flush
      cases err with
      | none => exact ih.cons_cons frame
      | some err => exact ih.cons frame

omit [Serializable T] [Inhabited T] in
/-- The frames delivered are some of those given to the sink. -/
theorem Paired.deliveries_sublist (h : Paired events e) :
    ((deliveries events).map Prod.fst).Sublist ((calls events).map Prod.fst) := by
  have hreturned := successes_sublist ((returns events).map fun r => (r.1.1, r.2))
  rw [successes_returns, List.map_map] at hreturned
  rw [h, List.map_append, List.map_map]
  exact hreturned.trans (List.sublist_append_left _ _)

/-- In every state of every interleaving, the frames delivered are received as they should be. -/
theorem run_received (hnew : Batcher.new sizeofT cfg = .ok b) (hsize : 2 ≤ b.cfg.queueSize)
    (hencodes : Encodes b.cfg.maxItemSize.toInt encode)
    (hrun : run host (initial b) actions = some (e, events)) :
    Received encode actions events e ((deliveries events).map Prod.fst) := by
  obtain ⟨_, hpaired, honce, n, hle, hn, hnumbered⟩ := run_ordered hnew hrun
  obtain ⟨_, _, _, _, hserial⟩ := run_serial hnew hrun
  have hbalanced := hserial.balanced hnew hsize
  have hframes := hpaired.deliveries_sublist.trans honce.calls_sublist
  have hholds : ∀ frame ∈ assembled events e, frame.Holds encode :=
    run_assembled hnew (fun _ _ _ _ _ _ _ hs hcfg hassemble =>
      Batcher.assemble_holds hs (hcfg ▸ hencodes) hassemble) hrun
  have hadvances := (run_truthful hnew hrun).advances_sublist
  have horder : (((deliveries events).map Prod.fst).flatMap Frame.items).Sublist
      (pushes (effects events)) := by
    refine (hframes.flatMap Frame.items).trans ?_
    rw [assembled, List.flatMap_append, List.flatMap_map]
    exact hbalanced.order
  refine ⟨fun frame hframe => hholds frame (hframes.subset hframe), horder,
    ⟨n, hle, hn, (hframes.map Frame.seq).trans hnumbered⟩, hadvances, ?_⟩
  intro hdropped hevicted htruncated hundelivered hdepth hidle hpushes
  -- as many items are counted as flushed as have been pushed
  have hitems := hbalanced.items
  rw [hdropped, hevicted, htruncated, hundelivered, hdepth, hidle, hbalanced.flushed] at hitems
  have hfewer := (hadvances.flatMap Frame.items).length_le.trans horder.length_le
  have hcount : (pushes (effects events)).length =
      ((advances events).flatMap Frame.items).length := by
    have hmod : UInt64.ofNat (pushes (effects events)).length =
        UInt64.ofNat ((advances events).flatMap Frame.items).length := hitems.trans (by simp; rfl)
    have hmod := congrArg UInt64.toNat hmod
    rwa [UInt64.toNat_ofNat', UInt64.toNat_ofNat', Nat.mod_eq_of_lt hpushes,
      Nat.mod_eq_of_lt (hfewer.trans_lt hpushes)] at hmod
  refine horder.eq_of_length_le ?_
  rw [hcount]
  exact (hadvances.flatMap Frame.items).length_le

/-- Without delta encoding, every frame of a run is read back once it is decompressed. -/
theorem run_decoded {decompress : List UInt8 → List UInt8} (hnew : Batcher.new sizeofT cfg = .ok b)
    (hdelta : b.cfg.deltaEncoding = false) (hencodes : Encodes b.cfg.maxItemSize.toInt encode)
    (hinv : ∀ a ∈ actions, ∀ tick, a.tick? = some tick → Inverts decompress tick)
    (hrun : run host (initial b) actions = some (e, events)) :
    ∀ frame ∈ assembled events e,
      Codec.decode (unpack b.cfg decompress frame.sent) = .ok (frame.decoded encode) := by
  refine run_assembled hnew (fun tick htick b₁ loop b₂ frame es hs hcfg hassemble => ?_) hrun
  obtain ⟨a, ha, hsome⟩ := List.mem_filterMap.mp htick
  obtain ⟨hbuilt, _⟩ := (Batcher.assemble_ok hs hassemble).2.2.2 frame rfl
  have hsent := hbuilt.unpack_sent (hcfg ▸ hdelta) (hinv a ha tick hsome)
  rw [hcfg] at hsent
  rw [hsent]
  exact (Batcher.assemble_holds hs (hcfg ▸ hencodes) hassemble).decode

/-- For every configuration without delta encoding, with two slots or more and a `FlushTimeout` that
is not negative, every interleaving of the drain goroutine, the flush goroutines, the deadlines and
the shutdown, and every behaviour of the connection that leaves no torn frame before other bytes: a
receiver decodes exactly the frames whose flush has returned nil, in this order, late ones included,
and gets from each the encodings of its items. -/
theorem raw_end_to_end {decompress : List UInt8 → List UInt8}
    (hnew : Batcher.new sizeofT cfg = .ok b) (hsize : 2 ≤ b.cfg.queueSize)
    (hdelta : b.cfg.deltaEncoding = false) (htimeout : 0 ≤ b.cfg.flushTimeout)
    (hencodes : Encodes b.cfg.maxItemSize.toInt encode)
    (hinv : ∀ a ∈ actions, ∀ tick, a.tick? = some tick → Inverts decompress tick)
    (hrun : run host (initial b) actions = some (e, events)) (hsink : OverTcp writes events)
    (hunbroken : Unbroken writes) :
    (Framing.readFrames (TCPSink.new.flushes writes).1.conn.stream).map
          (fun payload => Codec.decode (unpack b.cfg decompress payload)) =
        ((deliveries events).map Prod.fst).map (fun frame => .ok (frame.decoded encode)) ∧
      Received encode actions events e ((deliveries events).map Prod.fst) := by
  obtain ⟨_, hpaired, honce, _⟩ := run_ordered hnew hrun
  have hframes := hpaired.deliveries_sublist.trans honce.calls_sublist
  refine ⟨?_, run_received hnew hsize hencodes hrun⟩
  rw [readFrames_deliveries hnew htimeout hrun hsink hunbroken, List.map_map]
  exact List.map_congr_left fun frame hframe =>
    run_decoded hnew hdelta hencodes hinv hrun frame (hframes.subset hframe)

/-! ## Delta encoding -/

/-- Without a `FlushTimeout`, a flush is settled with what `Sink.Flush` returns as soon as it
returns. -/
theorem run_settled (hnew : Batcher.new sizeofT cfg = .ok b) (hzero : b.cfg.flushTimeout = 0)
    (hrun : run host (initial b) actions = some (e, events)) :
    attempts (effects events) = (returns events).map fun r => (r.1.1, r.2) := by
  refine (Transition.run_invariant
    (I := fun _ events e => (FlightInv b.cfg e ∧ Truthful events e) ∧
      attempts (effects events) = (returns events).map fun r => (r.1.1, r.2))
    (fun _ events e a e' new ⟨⟨hinv, htruthful⟩, h⟩ hstep =>
      ⟨⟨step_flightInv hinv hstep, step_truthful htruthful hinv hstep⟩, ?_⟩)
    ⟨⟨initial_flightInv hnew, initial_truthful b⟩, rfl⟩ hrun).2
  have hnone : ∀ {i : Nat} {flight : Flight T}, e.flights[i]? ≠ some flight := by
    intro i flight hflight
    rw [hinv.direct hzero] at hflight
    cases hflight
  rw [effects_append, attempts_append, returns_append, List.map_append, h]
  refine congrArg _ ?_
  cases step_cases hstep with
  | assemble stage ha hidle hassemble =>
      rw [effects_map, (Batcher.assemble_ok hinv.sized hassemble).2.2.1, returns_map]
      rfl
  | direct => rfl
  | reject _ hpositive => exact absurd (hinv.cfg_eq ▸ hzero) hpositive
  | handOver _ hpositive => exact absurd (hinv.cfg_eq ▸ hzero) hpositive
  | callReturn hdrain hsettle =>
      refine (attempts_settled hsettle).trans ?_
      exact congrArg (_ :: ·) (congrArg (List.map _) (returns_map _)).symm
  | launch hflight | flushReturn hflight | send hflight | clear hflight =>
      exact absurd hflight hnone
  | receive _ hflight => exact absurd hflight hnone
  | deadline hdrain =>
      obtain ⟨flight, hflight, _⟩ := htruthful.own _ _ hdrain
      exact absurd hflight hnone
  | @shutdownDeadline now _ _ =>
      rw [effects_map, returns_map]
      exact (Batcher.reportError_eq e.b now (.shutdownTimeout e.b.cfg.shutdownTimeout)).2

/-- Without a `FlushTimeout`, the frames delivered are those that have become the baseline. -/
theorem run_deliveries (hnew : Batcher.new sizeofT cfg = .ok b) (hzero : b.cfg.flushTimeout = 0)
    (hrun : run host (initial b) actions = some (e, events)) :
    (deliveries events).map Prod.fst = advances events := by
  rw [← successes_returns, ← run_settled hnew hzero hrun]
  rfl

omit [Inhabited T] in
/-- A drain that is not settled has delivered nothing. -/
theorem Serial.advances_eq {b₀ : Batcher T} {ticks rest : List (Tick T)} {es : List (Effect T)}
    (h : Serial host b₀ actions events e ticks rest b es) (hidle₀ : b₀.Idle Loop.initial) :
    advances events = delivered es := by
  unfold advances delivered
  cases h.resumes with
  | idle _ _ heffects => rw [attempts_congr heffects]
  | flushing _ hassemble _ heffects =>
      have hsized := (Batcher.drains_idle hidle₀ h.drains).sized
      have hquiet := (Batcher.assemble_ok hsized hassemble).2.2.1
      rw [attempts_congr heffects, attempts_append, hquiet, List.append_nil]

/-- For every configuration with delta encoding, with two slots or more and no `FlushTimeout`, every
interleaving, and every behaviour of the connection that leaves no torn frame before other bytes:
the frames whose flush has returned nil are those that have become the baseline, and a receiver that
reconstructs what it reads, once it is decompressed, recovers exactly these, if and only if it takes
no delta frame for a keyframe. -/
theorem delta_end_to_end {decompress : List UInt8 → List UInt8}
    (hnew : Batcher.new sizeofT cfg = .ok b) (hsize : 2 ≤ b.cfg.queueSize)
    (hdelta : b.cfg.deltaEncoding = true) (hzero : b.cfg.flushTimeout = 0)
    (hencodes : Encodes b.cfg.maxItemSize.toInt encode)
    (hinv : ∀ a ∈ actions, ∀ tick, a.tick? = some tick → Inverts decompress tick)
    (hrun : run host (initial b) actions = some (e, events)) (hsink : OverTcp writes events)
    (hunbroken : Unbroken writes) :
    (receive {} ((Framing.readFrames (TCPSink.new.flushes writes).1.conn.stream).map
          (unpack b.cfg decompress)) = (advances events).map recovered ↔
        Unconfused [] (advances events)) ∧
      (deliveries events).map Prod.fst = advances events ∧
      Received encode actions events e (advances events) := by
  have hreceived := run_received hnew hsize hencodes hrun
  have hdelivered := run_deliveries hnew hzero hrun
  obtain ⟨_, _, _, _, hserial⟩ := run_serial hnew hrun
  have hchain := Batcher.delivered_chain hnew hdelta
    (fun tick htick => hserial.inverts hinv tick (List.mem_append_left _ htick)) hserial.drains
  rw [← hserial.advances_eq (Batcher.new_idle hnew)] at hchain
  have htimeout : 0 ≤ b.cfg.flushTimeout := by
    rw [hzero]
    decide
  rw [readFrames_deliveries hnew htimeout hrun hsink hunbroken, hdelivered, List.map_map]
  exact ⟨hchain.receive_iff, rfl, hdelivered ▸ hreceived⟩

/-! ## Concrete streams -/

/-- A write of nothing is not a whole one. -/
theorem zero_ne_whole (payload : List UInt8) : 0 ≠ 4 + payload.length := by omega

/-- What the connection makes of a call that returns with `err`: it writes the frame, or nothing. -/
def writeAll (payload : List UInt8) (err : Option Error) : TcpFlush :=
  match err with
  | none => TCPSink.wholeWrite payload
  | some err =>
      { payload, deadline := none, write := { n := 0, err := some err }
        prefix_le := Nat.zero_le _
        nil_iff := ⟨nofun, fun h => absurd h (zero_ne_whole payload)⟩ }

/-- The calls of `TCPSink.Flush` that return what the calls of the run have returned. -/
def tcpWrites (events : List (Event T)) : List TcpFlush :=
  (returns events).map fun r => writeAll r.1.2 r.2

/-- Byte strings are their own encoding, and the empty one is never put into a frame. -/
theorem bytes_encodes (maxItemSize : Int) :
    Encodes maxItemSize (id : List UInt8 → List UInt8) := by
  refine ⟨fun item buf _ hpos _ => ?_⟩
  simp only [Serializable.marshal] at hpos ⊢
  split at hpos
  · rename_i hfits
    rw [if_pos hfits]
    exact List.take_left' rfl
  · cases hpos

/-- Two items in a frame that is delivered after its deadline, and in time a third one, with an item
that has nothing to encode behind it. -/
def lateStream : List (Action (List UInt8)) :=
  [.tick (plainTick [[1, 2], [3]] none), .enter 0, .launch 0, .deadline 0, .flushReturn 0 none,
    .send 0, .clear 0, .tick (plainTick [[4], []] none), .enter 0, .launch 1, .flushReturn 1 none,
    .send 1, .receive 0, .clear 1]

/-- The receiver gets both frames, of which the engine knows one to be delivered. -/
theorem raw_end_to_end_late : ∃ b e events writes,
    Batcher.new 24 { Batcher.shortConfig with flushTimeout := 1 } = .ok b ∧
    run .little (initial b) lateStream = some (e, events) ∧ OverTcp writes events ∧
    (Framing.readFrames (TCPSink.new.flushes writes).1.conn.stream).map
        (fun payload => Codec.decode (unpack b.cfg id payload)) =
      ((deliveries events).map Prod.fst).map (fun frame => .ok (frame.decoded id)) ∧
    (deliveries events).map (fun delivery => (delivery.1.decoded id).2) = [[1, 2, 3], [4]] ∧
    (advances events).length = 1 ∧ e.b.truncated = 1 := by
  obtain ⟨b, ⟨e, events⟩, hnew, hrun, hcfg, htest⟩ := exists_of_testNew
    { Batcher.shortConfig with flushTimeout := 1 } (fun b => run .little (initial b) lateStream)
    (fun _ out => decide (OverTcp (tcpWrites out.2) out.2) &&
      decide (Unbroken (tcpWrites out.2)) &&
      (deliveries out.2).map (fun delivery => (delivery.1.decoded id).2) == [[1, 2, 3], [4]] &&
      (advances out.2).length == 1 && out.1.b.truncated == 1) (by decide +kernel)
  simp only [Bool.and_eq_true, decide_eq_true_eq, beq_iff_eq] at htest
  obtain ⟨⟨⟨⟨hsink, hunbroken⟩, hbodies⟩, hone⟩, hcut⟩ := htest
  refine ⟨b, e, events, tcpWrites events, hnew, hrun, hsink, ?_, hbodies, hone, hcut⟩
  refine (raw_end_to_end hnew ?_ ?_ ?_ (bytes_encodes _) (inverts_of_plain 2 rfl) hrun hsink
    hunbroken).1
  · rw [hcfg]
    decide
  · rw [hcfg]
    rfl
  · rw [hcfg]
    decide

/-- The second of three frames is not accepted by the connection. -/
def lossyStream : List (Action (List UInt8)) :=
  [.tick (plainTick [[1, 2]] none), .enter 0, .callReturn 0 none,
    .tick (plainTick [[3]] none), .enter 0, .callReturn 0 (some (.other "i/o timeout")),
    .tick (plainTick [[4, 5]] none), .enter 0, .callReturn 0 none]

/-- The receiver recovers the two frames that were delivered, and confuses none. -/
theorem delta_end_to_end_lossy : ∃ b e events writes,
    Batcher.new 24 { Batcher.shortConfig with deltaEncoding := true } = .ok b ∧
    run .little (initial b) lossyStream = some (e, events) ∧ OverTcp writes events ∧
    receive {} (Framing.readFrames (TCPSink.new.flushes writes).1.conn.stream) =
      (advances events).map recovered ∧
    (advances events).map Frame.items = [[[1, 2]], [[4, 5]]] ∧ Unconfused [] (advances events) := by
  obtain ⟨b, ⟨e, events⟩, hnew, hrun, hcfg, htest⟩ := exists_of_testNew
    { Batcher.shortConfig with deltaEncoding := true }
    (fun b => run .little (initial b) lossyStream)
    (fun _ out => decide (OverTcp (tcpWrites out.2) out.2) &&
      decide (Unbroken (tcpWrites out.2)) &&
      decide (receive {} (Framing.readFrames
        (TCPSink.new.flushes (tcpWrites out.2)).1.conn.stream) =
          (advances out.2).map recovered) &&
      (advances out.2).map Frame.items == [[[1, 2]], [[4, 5]]]) (by decide +kernel)
  simp only [Bool.and_eq_true, decide_eq_true_eq, beq_iff_eq] at htest
  obtain ⟨⟨⟨hsink, hunbroken⟩, hreceived⟩, hitems⟩ := htest
  have hplain : ∀ bytes, unpack b.cfg id bytes = bytes := by
    intro bytes
    unfold unpack
    rw [hcfg]
    rfl
  have hsame : ∀ frames : List (List UInt8), frames.map (unpack b.cfg id) = frames := by
    intro frames
    rw [List.map_congr_left fun bytes _ => hplain bytes, List.map_id']
  refine ⟨b, e, events, tcpWrites events, hnew, hrun, hsink, hreceived, hitems, ?_⟩
  rw [← hsame (Framing.readFrames _)] at hreceived
  refine (delta_end_to_end hnew ?_ ?_ ?_ (bytes_encodes _) (inverts_of_plain 3 rfl) hrun hsink
    hunbroken).1.mp hreceived
  · rw [hcfg]
    decide
  · rw [hcfg]
  · rw [hcfg]
    rfl

end Engine

end TickBatch
