import TickBatch.Engine.Header
import TickBatch.Engine.Stream

/-!
# The delta round trip

A receiver with an empty `DeltaReconstructor` is fed the payloads of a stream in the order of their
delivery. In step with the sender it recovers each raw frame with one exception: a delta frame that
reads as a keyframe and whose bytes validate directly is taken for one. Without keyframes bit 15 is
never set, so the exception cannot occur (`delta_round_trip`). With keyframes it is exactly the
collision of `Confusable`, between a keyframe and the length of the next delivered frame
(`keyframe_round_trip_iff`); `keyframe_confused` is a stream of two short frames in which it
happens.
-/

namespace TickBatch

open Codec (xor_and_distrib tag bodyCrc syndrome Tagged ReadsAsKeyframe headerOf
  keyframeBit crcMask)

variable {T : Type}

namespace Batcher

/-! ## A delta frame that reads as a keyframe -/

/-- What fitting a body to another length does to its checksum. -/
def residue (body : List UInt8) (length : Nat) : UInt16 :=
  bodyCrc (Bytes.fit length body) ^^^ bodyCrc body

/-- The body of a keyframe and the length of the next body for which the delta frame between them
validates directly. -/
def Confusable (body : List UInt8) (length : Nat) : Prop :=
  residue body length = bodyCrc (List.replicate length 0)

instance (body : List UInt8) (length : Nat) : Decidable (Confusable body length) :=
  inferInstanceAs (Decidable (_ = _))

/-- The syndrome of an encoded frame that is fitted to another length. -/
theorem syndrome_fit_encodeFrame (seq : UInt32) (count : UInt16) (keyframe : Bool)
    (body : List UInt8) (length : Nat) :
    syndrome (Bytes.fit (8 + length) (encodeFrame seq count keyframe body)) =
      residue body length := by
  have hlen : Codec.headerSize ≤ (encodeFrame seq count keyframe body).length := by
    rw [length_encodeFrame]
    exact Nat.le_add_right _ _
  have hfit : Codec.headerSize ≤ 8 + length := Nat.le_add_right _ _
  unfold syndrome
  rw [Codec.tag_fit hfit hlen, tag_encodeFrame, integrityTag_and_mask, Bytes.drop_fit hfit hlen,
    show 8 + length - Codec.headerSize = length from Nat.add_sub_cancel_left _ _]
  rfl

/-- A delta frame is taken for a keyframe exactly when its base is one and their lengths and the
base's body are confusable. -/
theorem readsAsKeyframe_delta {raw base body body' : List UInt8} {seq seq' : UInt32}
    {count count' : UInt16} {keyframe : Bool} (hraw : raw = encodeFrame seq' count' false body')
    (hbase : base = encodeFrame seq count keyframe body) :
    ReadsAsKeyframe (Bytes.delta raw base) ↔ keyframe = true ∧ Confusable body body'.length := by
  have hlen : raw.length = 8 + body'.length := by rw [hraw, length_encodeFrame]; rfl
  have hlen' : base.length = 8 + body.length := by rw [hbase, length_encodeFrame]; rfl
  have h8 : Codec.headerSize ≤ raw.length := by rw [hlen]; exact Nat.le_add_right _ _
  have h8' : Codec.headerSize ≤ base.length := by rw [hlen']; exact Nat.le_add_right _ _
  have hfit : tag (Bytes.fit raw.length base) = integrityTag body keyframe := by
    rw [Codec.tag_fit h8 h8', hbase, tag_encodeFrame]
  have hbit : tag (Bytes.delta raw base) &&& keyframeBit ≠ 0 ↔ keyframe = true := by
    unfold Bytes.delta
    rw [Codec.tag_xor h8 (by rw [Bytes.length_fit]; exact h8), hfit, hraw, tag_encodeFrame,
      xor_and_distrib, show integrityTag body' false = bodyCrc body' from rfl,
      bodyCrc_and_keyframeBit, UInt16.zero_xor, integrityTag_and_keyframeBit]
  have hsyndrome : syndrome (Bytes.fit raw.length base) = residue body body'.length := by
    rw [hbase, hlen, syndrome_fit_encodeFrame]
  have hzero : syndrome (List.replicate raw.length 0) =
      bodyCrc (List.replicate body'.length 0) := by
    rw [hlen]
    exact Codec.syndrome_zeros body'.length
  unfold ReadsAsKeyframe
  rw [hbit, Codec.tagged_delta (hraw ▸ tagged_encodeFrame _ _ _ _) h8, hsyndrome, hzero]
  rfl

/-! ## The receiver -/

/-- Feed payloads to a receiver, one after the other. -/
def receive (d : Codec.DeltaReconstructor) :
    List (List UInt8) → List (Except Codec.Error (List UInt8 × Codec.Header))
  | [] => []
  | payload :: rest => (d.reconstruct payload).2 :: receive (d.reconstruct payload).1 rest

/-- What a receiver in step with the sender returns for a frame: the raw frame, with the header
fields that the sender has written. -/
def recovered (frame : Frame T) : Except Codec.Error (List UInt8 × Codec.Header) :=
  .ok (frame.raw, { seq := frame.seq, count := frame.count,
                    crc := bodyCrc (frame.raw.drop headerSize), keyframe := frame.keyframe })

/-- A delta frame that its receiver takes for a keyframe. -/
def Confused (prev : List UInt8) (frame : Frame T) : Prop :=
  frame.keyframe = false ∧ ReadsAsKeyframe (Bytes.delta frame.raw prev)

instance (prev : List UInt8) (frame : Frame T) : Decidable (Confused prev frame) :=
  inferInstanceAs (Decidable (_ ∧ _))

variable {cfg : Config} {decompress : List UInt8 → List UInt8} {prev : List UInt8} {j : Nat}
  {frame : Frame T}

theorem Link.length (h : Link cfg decompress prev j frame) : headerSize < frame.raw.length := by
  obtain ⟨body, hne, hraw⟩ := h.body
  have := List.length_pos_of_ne_nil hne
  rw [hraw, length_encodeFrame]
  omega

/-- What a receiver should return for a linked frame is what the codec reads off its raw bytes. -/
theorem Link.recovered_eq (h : Link cfg decompress prev j frame) :
    recovered frame = .ok (frame.raw, headerOf frame.raw) := by
  obtain ⟨body, _, hraw⟩ := h.body
  unfold recovered
  rw [hraw, headerOf_encodeFrame, drop_encodeFrame]

/-- A keyframe is recovered by every receiver and becomes its baseline. -/
theorem Link.reconstruct_keyframe (h : Link cfg decompress prev j frame)
    (hkey : frame.keyframe = true) (d : Codec.DeltaReconstructor) :
    d.reconstruct (unpack cfg decompress frame.sent) =
      ({ prev := frame.raw }, recovered frame) := by
  obtain ⟨body, _, hraw⟩ := h.body
  have hreads : ReadsAsKeyframe frame.raw := by
    refine ⟨?_, hraw ▸ tagged_encodeFrame _ _ _ _⟩
    rw [hraw, tag_encodeFrame, integrityTag_and_keyframeBit]
    exact hkey
  rw [h.unpacked, h.payload, if_pos hkey, Codec.reconstruct_eq d h.length.le, if_pos hreads,
    h.recovered_eq]

/-- A receiver in step with the sender recovers the raw frame, unless it confuses it. -/
theorem Link.reconstruct (h : Link cfg decompress prev j frame) :
    Codec.DeltaReconstructor.reconstruct { prev } (unpack cfg decompress frame.sent) =
      if Confused prev frame then
        ({ prev := frame.payload }, .ok (frame.payload, headerOf frame.payload))
      else ({ prev := frame.raw }, recovered frame) := by
  by_cases hkey : frame.keyframe = true
  · have hclear : ¬ Confused prev frame := fun hc => by rw [hc.1] at hkey; cases hkey
    rw [if_neg hclear, h.reconstruct_keyframe hkey]
  · obtain ⟨body, _, hraw⟩ := h.body
    have htagged : Tagged frame.raw := hraw ▸ tagged_encodeFrame _ _ _ _
    have hdelta : frame.payload = Bytes.delta frame.raw prev := by rw [h.payload, if_neg hkey]
    have hpayload : headerSize ≤ frame.payload.length := by
      rw [hdelta, Bytes.length_delta]
      exact h.length.le
    have hconfused : ReadsAsKeyframe frame.payload ↔ Confused prev frame := by
      rw [hdelta]
      exact ⟨fun hr => ⟨by simpa using hkey, hr⟩, And.right⟩
    rw [h.unpacked, Codec.reconstruct_eq _ hpayload, h.recovered_eq]
    by_cases hc : Confused prev frame
    · rw [if_pos hc, if_pos (hconfused.mpr hc)]
    · rw [if_neg hc, if_neg (fun hr => hc (hconfused.mp hr)), hdelta, Bytes.delta_delta,
        if_pos htagged]

/-- A confused frame is not recovered. -/
theorem Link.confused_ne (h : Link cfg decompress prev j frame) (hc : Confused prev frame) :
    frame.payload ≠ frame.raw := by
  obtain ⟨body, _, hraw⟩ := h.body
  intro hsame
  have hpayload : frame.payload = Bytes.delta frame.raw prev := by
    rw [h.payload, hc.1]
    rfl
  have hbit := hc.2.1
  rw [← hpayload, hsame, hraw, tag_encodeFrame, integrityTag_and_keyframeBit, hc.1] at hbit
  cases hbit

/-- The delivered frames of a stream, each linked to the one before it. -/
def Chain (cfg : Config) (decompress : List UInt8 → List UInt8) :
    List UInt8 → Nat → List (Frame T) → Prop
  | _, _, [] => True
  | prev, j, frame :: rest =>
      Link cfg decompress prev j frame ∧ Chain cfg decompress frame.raw (j + 1) rest

/-- The delivered frames of a stream form a chain. -/
theorem Stream.chain {flushes : List (Frame T × Option Error)}
    (h : Stream cfg decompress prev j flushes) :
    Chain cfg decompress prev j (successes flushes) := by
  induction flushes generalizing prev j with
  | nil => trivial
  | cons flush rest ih =>
      obtain ⟨frame, err⟩ := flush
      cases err with
      | none => exact ⟨h.1, ih h.2⟩
      | some e => exact ih h.2

/-- No delta frame of the chain is taken for a keyframe. -/
def Unconfused : List UInt8 → List (Frame T) → Prop
  | _, [] => True
  | prev, frame :: rest => ¬ Confused prev frame ∧ Unconfused frame.raw rest

/-- A receiver in step recovers a chain of frames exactly when it confuses none of them. -/
theorem Chain.receive_iff {frames : List (Frame T)} (h : Chain cfg decompress prev j frames) :
    receive { prev } (frames.map fun frame => unpack cfg decompress frame.sent) =
      frames.map recovered ↔ Unconfused prev frames := by
  induction frames generalizing prev j with
  | nil => exact ⟨fun _ => trivial, fun _ => rfl⟩
  | cons frame rest ih =>
      simp only [List.map_cons, receive, h.1.reconstruct, List.cons.injEq, Unconfused]
      by_cases hc : Confused prev frame
      · simp only [hc, if_true, not_true_eq_false, false_and, iff_false, not_and]
        intro hhead
        exact absurd (congrArg Prod.fst (Except.ok.inj hhead)) (h.1.confused_ne hc)
      · simp only [hc, if_false, true_and, not_false_eq_true]
        exact ih h.2

/-! ## Adjacent frames -/

/-- The first frame of a stream is never confused: there is no baseline yet. -/
theorem Link.not_confused_nil (h : Link cfg decompress [] j frame) : ¬ Confused [] frame := by
  intro hc
  obtain ⟨body, _, hraw⟩ := h.body
  have hbit := hc.2.1
  rw [Bytes.delta_nil, hraw, tag_encodeFrame, integrityTag_and_keyframeBit, hc.1] at hbit
  cases hbit

/-- A frame is confused after a keyframe only, when their lengths and the keyframe's body are
confusable. -/
theorem Link.confused_iff {next : Frame T} (h : Link cfg decompress prev j frame)
    (hnext : Link cfg decompress frame.raw (j + 1) next) :
    Confused frame.raw next ↔ keyframeAt cfg j = true ∧ keyframeAt cfg (j + 1) = false ∧
      Confusable (frame.raw.drop headerSize) (next.raw.length - headerSize) := by
  obtain ⟨body, _, hraw⟩ := h.body
  obtain ⟨body', _, hraw'⟩ := hnext.body
  have hlen : next.raw.length - headerSize = body'.length := by
    rw [hraw', length_encodeFrame, Nat.add_sub_cancel_left]
  have hdrop : frame.raw.drop headerSize = body := by rw [hraw, drop_encodeFrame]
  unfold Confused
  rw [hlen, hdrop, ← h.keyframe, ← hnext.keyframe]
  constructor
  · rintro ⟨hkey, hreads⟩
    rw [hkey] at hraw'
    obtain ⟨hbase, hconf⟩ := (readsAsKeyframe_delta hraw' hraw).mp hreads
    exact ⟨hbase, hkey, hconf⟩
  · rintro ⟨hbase, hkey, hconf⟩
    rw [hkey] at hraw'
    exact ⟨hkey, (readsAsKeyframe_delta hraw' hraw).mpr ⟨hbase, hconf⟩⟩

/-- Adjacent frames of a chain are linked. -/
theorem Chain.adjacent {frames : List (Frame T)} (h : Chain cfg decompress prev j frames) {i : Nat}
    {p r : Frame T} (hp : frames[i]? = some p) (hr : frames[i + 1]? = some r) :
    ∃ q, Link cfg decompress q (j + i) p ∧ Link cfg decompress p.raw (j + i + 1) r := by
  induction frames generalizing prev j i with
  | nil => cases hp
  | cons frame rest ih =>
      cases i with
      | zero =>
          cases hp
          cases rest with
          | nil => cases hr
          | cons next rest =>
              cases hr
              exact ⟨prev, h.1, h.2.1⟩
      | succ i =>
          obtain ⟨q, hlink, hlink'⟩ := ih h.2 hp hr
          rw [show j + 1 + i = j + (i + 1) by omega] at hlink hlink'
          exact ⟨q, hlink, hlink'⟩

/-- Whether frames are confused is a question about adjacent ones. -/
theorem unconfused_iff {frames : List (Frame T)} :
    Unconfused prev frames ↔ (∀ f, frames[0]? = some f → ¬ Confused prev f) ∧
      ∀ i p r, frames[i]? = some p → frames[i + 1]? = some r → ¬ Confused p.raw r := by
  induction frames generalizing prev with
  | nil => simp [Unconfused]
  | cons frame rest ih =>
      unfold Unconfused
      rw [ih]
      constructor
      · rintro ⟨hhead, hnext, hrest⟩
        refine ⟨fun f hf => by cases hf; exact hhead, ?_⟩
        intro i p r hp hr
        cases i with
        | zero =>
            cases hp
            exact hnext r hr
        | succ i => exact hrest i p r hp hr
      · rintro ⟨hhead, hrest⟩
        exact ⟨hhead frame rfl, fun f hf => hrest 0 frame f rfl hf,
          fun i p r hp hr => hrest (i + 1) p r hp hr⟩

/-- The frames of a stream from its start are unconfused exactly when no keyframe is confusable
with the length of the next frame. -/
theorem Chain.unconfused_iff {frames : List (Frame T)} (h : Chain cfg decompress [] 0 frames) :
    Unconfused [] frames ↔ ∀ i p r, frames[i]? = some p → frames[i + 1]? = some r →
      keyframeAt cfg i = true → keyframeAt cfg (i + 1) = false →
      ¬ Confusable (p.raw.drop headerSize) (r.raw.length - headerSize) := by
  rw [Batcher.unconfused_iff]
  have hhead : ∀ f, frames[0]? = some f → ¬ Confused [] f := by
    intro f hf
    cases frames with
    | nil => cases hf
    | cons frame rest =>
        cases hf
        exact h.1.not_confused_nil
  constructor
  · rintro ⟨_, hall⟩ i p r hp hr hkey hkey' hconf
    obtain ⟨q, hlink, hlink'⟩ := h.adjacent hp hr
    rw [Nat.zero_add] at hlink hlink'
    exact hall i p r hp hr ((hlink.confused_iff hlink').mpr ⟨hkey, hkey', hconf⟩)
  · intro hall
    refine ⟨hhead, fun i p r hp hr hc => ?_⟩
    obtain ⟨q, hlink, hlink'⟩ := h.adjacent hp hr
    rw [Nat.zero_add] at hlink hlink'
    obtain ⟨hkey, hkey', hconf⟩ := (hlink.confused_iff hlink').mp hc
    exact hall i p r hp hr hkey hkey' hconf

/-! ## Whole runs -/

section Runs

variable [Inhabited T] [Serializable T] {sizeofT : Int64} {b b' : Batcher T} {host : ByteOrder}
  {ticks : List (Tick T)} {loop : Loop} {effects : List (Effect T)}

/-- The frames that a new batcher delivers form a chain. -/
theorem delivered_chain (hnew : Batcher.new sizeofT cfg = .ok b)
    (hdelta : b.cfg.deltaEncoding = true) (hinv : ∀ tick ∈ ticks, Inverts decompress tick)
    (hrun : b.drains host Loop.initial ticks = .ok (b', loop, effects)) :
    Chain b.cfg decompress [] 0 (delivered effects) :=
  (drains_stream (new_sender hnew hdelta) hinv hrun).chain

/-- Without keyframes, a receiver that is fed the payloads whose flush succeeded, in order, recovers
every raw frame with its header, whatever flushes and compressions have failed in between. -/
theorem delta_round_trip (hnew : Batcher.new sizeofT cfg = .ok b)
    (hdelta : b.cfg.deltaEncoding = true) (hinterval : b.cfg.keyframeInterval = 0)
    (hinv : ∀ tick ∈ ticks, Inverts decompress tick)
    (hrun : b.drains host Loop.initial ticks = .ok (b', loop, effects)) :
    receive {} ((delivered effects).map fun frame => unpack b.cfg decompress frame.sent) =
      (delivered effects).map recovered := by
  have hchain := delivered_chain hnew hdelta hinv hrun
  refine hchain.receive_iff.mpr (hchain.unconfused_iff.mpr ?_)
  intro i p r _ _ hkey
  unfold keyframeAt at hkey
  rw [hinterval] at hkey
  simp at hkey

end Runs

/-! ## Concrete streams -/

/-- A small delta-encoding configuration without compression. -/
def deltaConfig (keyframeInterval : UInt32) : Config :=
  { shortConfig with maxBatchSize := 32, maxItemSize := 8, deltaEncoding := true, keyframeInterval }

/-- Without a compressor there is nothing to undo. -/
theorem inverts_of_plain {ticks : List (Tick T)} (n : Nat)
    (h : ticks.map Tick.compress = List.replicate n (plainTick ([] : List T) none).compress) :
    ∀ tick ∈ ticks, Inverts decompress tick := by
  intro tick htick dst src herr
  have hcompress : tick.compress ∈ ticks.map Tick.compress := List.mem_map_of_mem htick
  rw [h] at hcompress
  rw [List.eq_of_mem_replicate hcompress] at herr
  cases herr

/-- A long frame, one whose flush fails, and a shorter one. -/
def lossyTicks : List (Tick (List UInt8)) :=
  [plainTick [[1, 2, 3], [4, 5]] none, plainTick [[6]] (some (.other "down")),
    plainTick [[7]] none, plainTick [[8, 9]] none]

theorem delta_round_trip_lossy : ∃ b b' loop effects,
    Batcher.new 24 (deltaConfig 0) = .ok b ∧
    b.drains .little Loop.initial lossyTicks = .ok (b', loop, effects) ∧
    (delivered effects).length = 3 ∧
    receive {} ((delivered effects).map fun frame => unpack b.cfg id frame.sent) =
      (delivered effects).map recovered := by
  obtain ⟨b, ⟨b', loop, effects⟩, hnew, hdrains, hcfg, htest⟩ := exists_of_testNew (deltaConfig 0)
    (fun b => (b.drains .little Loop.initial lossyTicks).toOption)
    (fun _ out => (delivered out.2.2).length == 3) (by decide +kernel)
  have hrun := toOption_eq_some.mp hdrains
  exact ⟨b, b', loop, effects, hnew, hrun, beq_iff_eq.mp htest,
    delta_round_trip hnew (by rw [hcfg]; rfl) (by rw [hcfg]; rfl) (inverts_of_plain 4 rfl) hrun⟩

section Runs

variable [Inhabited T] [Serializable T] {sizeofT : Int64} {b b' : Batcher T} {host : ByteOrder}
  {ticks : List (Tick T)} {loop : Loop} {effects : List (Effect T)}

/-- With a keyframe at every `KeyframeInterval`-th delivered frame, the receiver recovers every raw
frame exactly when no delivered keyframe is confusable with the length of the delta frame delivered
next. -/
theorem keyframe_round_trip_iff (hnew : Batcher.new sizeofT cfg = .ok b)
    (hdelta : b.cfg.deltaEncoding = true) (hinterval : 0 < b.cfg.keyframeInterval)
    (hinv : ∀ tick ∈ ticks, Inverts decompress tick)
    (hrun : b.drains host Loop.initial ticks = .ok (b', loop, effects)) :
    receive {} ((delivered effects).map fun frame => unpack b.cfg decompress frame.sent) =
        (delivered effects).map recovered ↔
      ∀ i p r, (delivered effects)[i]? = some p → (delivered effects)[i + 1]? = some r →
        i % b.cfg.keyframeInterval.toNat = 0 → (i + 1) % b.cfg.keyframeInterval.toNat ≠ 0 →
        ¬ Confusable (p.raw.drop headerSize) (r.raw.length - headerSize) := by
  have hchain := delivered_chain hnew hdelta hinv hrun
  have hkey : ∀ i, keyframeAt b.cfg i = true ↔ i % b.cfg.keyframeInterval.toNat = 0 := by
    intro i
    simp [keyframeAt, hinterval]
  rw [hchain.receive_iff, hchain.unconfused_iff]
  refine forall_congr' fun i => forall_congr' fun p => forall_congr' fun r =>
    imp_congr_right fun _ => imp_congr_right fun _ => ?_
  rw [hkey, ← Bool.not_eq_true, hkey]

end Runs

/-- A keyframe and a delta frame of another length. -/
def keyframeTicks (body : List UInt8) : List (Tick (List UInt8)) :=
  [plainTick [body] none, plainTick [[1, 2, 3]] none]

theorem keyframe_round_trip_plain : ∃ b b' loop effects,
    Batcher.new 24 (deltaConfig 2) = .ok b ∧
    b.drains .little Loop.initial (keyframeTicks [0, 254]) = .ok (b', loop, effects) ∧
    (delivered effects).length = 2 ∧
    (receive {} ((delivered effects).map fun frame => unpack b.cfg id frame.sent) =
        (delivered effects).map recovered ↔
      ∀ i p r, (delivered effects)[i]? = some p → (delivered effects)[i + 1]? = some r →
        i % b.cfg.keyframeInterval.toNat = 0 → (i + 1) % b.cfg.keyframeInterval.toNat ≠ 0 →
        ¬ Confusable (p.raw.drop headerSize) (r.raw.length - headerSize)) := by
  obtain ⟨b, ⟨b', loop, effects⟩, hnew, hdrains, hcfg, htest⟩ := exists_of_testNew (deltaConfig 2)
    (fun b => (b.drains .little Loop.initial (keyframeTicks [0, 254])).toOption)
    (fun _ out => (delivered out.2.2).length == 2) (by decide +kernel)
  have hrun := toOption_eq_some.mp hdrains
  exact ⟨b, b', loop, effects, hnew, hrun, beq_iff_eq.mp htest, keyframe_round_trip_iff hnew
    (by rw [hcfg]; rfl) (by rw [hcfg]; decide) (inverts_of_plain 2 rfl) hrun⟩

/-- A keyframe with the body `00 ff` followed by a delta frame with a body of three bytes: the
receiver takes the delta frame for a keyframe and returns its bytes as they are. -/
theorem keyframe_confused : ∃ b b' loop effects,
    Batcher.new 24 (deltaConfig 2) = .ok b ∧
    b.drains .little Loop.initial (keyframeTicks [0, 255]) = .ok (b', loop, effects) ∧
    b.cfg.deltaEncoding = true ∧ b.cfg.keyframeInterval = 2 ∧
    receive {} ((delivered effects).map fun frame => unpack b.cfg id frame.sent) ≠
      (delivered effects).map recovered := by
  obtain ⟨b, ⟨b', loop, effects⟩, hnew, hdrains, hcfg, htest⟩ := exists_of_testNew (deltaConfig 2)
    (fun b => (b.drains .little Loop.initial (keyframeTicks [0, 255])).toOption)
    (fun b out => decide (
      receive {} ((delivered out.2.2).map fun frame => unpack b.cfg id frame.sent) ≠
        (delivered out.2.2).map recovered)) (by decide +kernel)
  exact ⟨b, b', loop, effects, hnew, toOption_eq_some.mp hdrains, by rw [hcfg]; rfl,
    by rw [hcfg]; rfl, decide_eq_true_eq.mp htest⟩

end Batcher

end TickBatch
