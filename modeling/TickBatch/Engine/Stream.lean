import TickBatch.Engine.Assemble

/-!
# The stream that a delta-encoding sender produces

The sender keeps its baseline in a buffer of fixed size, followed by zeros; `Baseline` says which
byte string it stands for. `Sender` adds the position in the keyframe cycle, and `Sender.drain`
shows that one drain flushes at most one frame, made from that baseline, and that exactly a
delivered frame becomes the next one. `Stream` is what remains of a whole sequence of drains: the
frames in the order of their flushes, each linked to the last one delivered before it
(`drains_stream`).
-/

namespace TickBatch

variable {T : Type}

namespace Batcher

/-! ## The baseline buffer -/

/-- The baseline buffer holds `prev`, followed by zeros. -/
structure Baseline (b : Batcher T) (loop : Loop) (prev : List UInt8) : Prop where
  state : b.previousState = prev ++ List.replicate (b.previousState.length - prev.length) 0
  offset : loop.prevOffset = prev.length

theorem store_eq_ok {buf bytes buf' : List UInt8} {lo : Nat} (h : store buf lo bytes = .ok buf') :
    lo + bytes.length ≤ buf.length ∧ buf' = splice buf lo bytes := by
  unfold store at h
  split at h
  · rename_i hle
    exact ⟨hle, (Except.ok.inj h).symm⟩
  · cases h

/-- A prefix of the baseline buffer is the baseline, fitted to its length. -/
theorem Baseline.take {b : Batcher T} {loop : Loop} {prev : List UInt8} (h : b.Baseline loop prev)
    {n : Nat} (hn : n ≤ b.previousState.length) :
    b.previousState.take n = Bytes.fit n prev := by
  rw [h.state, Bytes.take_append_zeros (by omega)]

/-- Copying a frame over the old baseline and clearing the stale bytes of a longer one leaves the
frame followed by zeros. -/
theorem overwrite_baseline {prev raw : List UInt8} {m : Nat} (hraw : raw.length ≤ m)
    (hprev : prev.length ≤ m) :
    let old := prev ++ List.replicate (m - prev.length) (0 : UInt8)
    (if prev.length > raw.length then
        splice (splice old 0 raw) raw.length (List.replicate (prev.length - raw.length) 0)
      else splice old 0 raw) = raw ++ List.replicate (m - raw.length) 0 := by
  have hcopy : splice (prev ++ List.replicate (m - prev.length) 0) 0 raw =
      raw ++ (prev ++ List.replicate (m - prev.length) 0).drop raw.length := by
    simp [splice]
  simp only [hcopy]
  split
  · rename_i hlonger
    have hclear :
        (raw ++ (prev ++ List.replicate (m - prev.length) (0 : UInt8)).drop raw.length).drop
          (raw.length + (prev.length - raw.length)) = List.replicate (m - prev.length) 0 := by
      rw [List.drop_append, List.drop_eq_nil_of_le (by omega), List.nil_append, List.drop_drop,
        show raw.length + (raw.length + (prev.length - raw.length) - raw.length) = prev.length
          by omega]
      exact List.drop_left
    unfold splice
    rw [List.take_left, List.length_replicate, hclear, List.append_assoc,
      List.replicate_append_replicate]
    congr 2
    omega
  · rename_i hshorter
    rw [List.drop_append, List.drop_eq_nil_of_le (by omega), List.nil_append, List.drop_replicate]
    congr 2
    omega

/-! ## The keyframe cycle -/

/-- The position in the keyframe cycle counts the delivered frames. -/
def Cycle (cfg : Config) (loop : Loop) (j : Nat) : Prop :=
  0 < cfg.keyframeInterval → loop.keyframeN.toNat = j % cfg.keyframeInterval.toNat

/-- Every `KeyframeInterval`-th frame is a keyframe, starting with the first. -/
def keyframeAt (cfg : Config) (j : Nat) : Bool :=
  decide (0 < cfg.keyframeInterval ∧ j % cfg.keyframeInterval.toNat = 0)

theorem Cycle.isKeyframe {b : Batcher T} {loop : Loop} {j : Nat} (h : Cycle b.cfg loop j)
    (hdelta : b.cfg.deltaEncoding = true) : b.isKeyframe loop = keyframeAt b.cfg j := by
  unfold Batcher.isKeyframe keyframeAt
  rw [hdelta, Bool.true_and, Bool.eq_iff_iff]
  simp only [Bool.and_eq_true, decide_eq_true_eq, beq_iff_eq]
  refine and_congr_right fun hpos => ?_
  rw [← h hpos, ← UInt32.toNat_inj]
  rfl

/-- The cycle moves on by one with each delivered frame, and starts over after the last. -/
theorem Cycle.advance {cfg : Config} {loop loop' : Loop} {j : Nat} (h : Cycle cfg loop j)
    (hloop : loop'.keyframeN = nextKeyframe cfg loop.keyframeN) : Cycle cfg loop' (j + 1) := by
  intro hpos
  have hn := h hpos
  have hpos' : 0 < cfg.keyframeInterval.toNat := hpos
  have hlt : j % cfg.keyframeInterval.toNat < cfg.keyframeInterval.toNat := Nat.mod_lt _ hpos'
  have hmax := cfg.keyframeInterval.toNat_lt
  have hsucc : (loop.keyframeN + 1).toNat = j % cfg.keyframeInterval.toNat + 1 := by
    rw [UInt32.toNat_add, UInt32.toNat_one, hn]
    omega
  unfold nextKeyframe at hloop
  rw [if_pos hpos] at hloop
  rw [hloop, ← Nat.mod_add_mod]
  split
  · rename_i hge
    -- the counter returns to zero exactly when the cycle is complete
    have hge' : cfg.keyframeInterval.toNat ≤ (loop.keyframeN + 1).toNat := hge
    have hlast : j % cfg.keyframeInterval.toNat + 1 = cfg.keyframeInterval.toNat := by omega
    rw [hlast, Nat.mod_self]
    rfl
  · rename_i hlt'
    have hlt'' : (loop.keyframeN + 1).toNat < cfg.keyframeInterval.toNat :=
      UInt32.lt_iff_toNat_lt.mp (UInt32.not_le.mp hlt')
    rw [hsucc] at hlt'' ⊢
    exact (Nat.mod_eq_of_lt hlt'').symm

/-! ## The sender -/

/-- A delta-encoding sender whose last delivered frame is `prev`, after `j` delivered frames. -/
structure Sender (b : Batcher T) (loop : Loop) (prev : List UInt8) (j : Nat) : Prop where
  sized : b.Sized
  delta : b.cfg.deltaEncoding = true
  baseline : b.Baseline loop prev
  cycle : Cycle b.cfg loop j

/-- A new batcher with delta encoding is a sender without a baseline. -/
theorem new_sender [Inhabited T] {sizeofT : Int64} {cfg : Config} {b : Batcher T}
    (h : Batcher.new sizeofT cfg = .ok b) (hdelta : b.cfg.deltaEncoding = true) :
    b.Sender Loop.initial [] 0 := by
  obtain ⟨_, _, _, _, hprevious, _⟩ := new_ok h
  refine ⟨new_sized h, hdelta, ⟨?_, rfl⟩, fun _ => (Nat.zero_mod _).symm⟩
  rw [hprevious, if_pos hdelta]
  simp [makeBytes]

/-- Undo the compression of a payload, if there is one. -/
def unpack (cfg : Config) (decompress : List UInt8 → List UInt8) (bytes : List UInt8) :
    List UInt8 :=
  if cfg.compressor then decompress bytes else bytes

/-- The decompressor inverts every successful compression of a drain. -/
def Inverts (decompress : List UInt8 → List UInt8) (tick : Tick T) : Prop :=
  ∀ dst src, (tick.compress dst src).err = none → 0 ≤ (tick.compress dst src).n →
    (tick.compress dst src).n ≤ (tick.compress dst src).dst.length →
    decompress ((tick.compress dst src).dst.take (tick.compress dst src).n.toNat) = src

/-- A frame as the sender makes it, before compression: its raw bytes are well formed, it is a
keyframe when its turn has come, and its payload is the raw frame or its delta to the last delivered
one. -/
structure Placed (cfg : Config) (prev : List UInt8) (j : Nat) (frame : Frame T) : Prop where
  body : ∃ body, body ≠ [] ∧ frame.raw = encodeFrame frame.seq frame.count frame.keyframe body
  keyframe : frame.keyframe = keyframeAt cfg j
  payload : frame.payload = if frame.keyframe then frame.raw else Bytes.delta frame.raw prev

/-- A frame of the stream: what the receiver unpacks is the payload. -/
structure Link (cfg : Config) (decompress : List UInt8 → List UInt8) (prev : List UInt8) (j : Nat)
    (frame : Frame T) : Prop extends Placed cfg prev j frame where
  unpacked : unpack cfg decompress frame.sent = frame.payload

/-- The frame is unpacked by whatever inverts the compressor of its drain. -/
def Unpacks (cfg : Config) (tick : Tick T) (frame : Frame T) : Prop :=
  ∀ decompress, Inverts decompress tick → unpack cfg decompress frame.sent = frame.payload

theorem Keeps.sized {b b' : Batcher T} (h : b.Keeps b') (hs : b.Sized)
    (hprev : b'.previousState.length = b.previousState.length) : b'.Sized where
  header := by rw [h.length]; exact hs.header
  item := by rw [h.cfg]; exact hs.item
  previous hd := by rw [hprev, h.length]; exact hs.previous (h.cfg ▸ hd)
  delta hd := by rw [h.deltaBuffer, h.length]; exact hs.delta (h.cfg ▸ hd)
  compress hc := by rw [h.compressBuffer, h.length]; exact hs.compress (h.cfg ▸ hc)
  timeout ht := by rw [h.timeoutBuf, h.length]; exact hs.timeout (h.cfg ▸ ht)

/-- A sender of which only fields that do not concern the delta encoding have changed. -/
theorem Sender.of_keeps {b b' : Batcher T} {loop : Loop} {prev : List UInt8} {j : Nat}
    (h : b.Sender loop prev j) (hkeeps : b.Keeps b')
    (hprev : b'.previousState = b.previousState) : b'.Sender loop prev j where
  sized := hkeeps.sized h.sized (by rw [hprev])
  delta := by rw [hkeeps.cfg]; exact h.delta
  baseline := ⟨by rw [hprev]; exact h.baseline.state, h.baseline.offset⟩
  cycle := by rw [hkeeps.cfg]; exact h.cycle

/-- Assembling a frame relates it to the last delivered one and leaves the sender as it was. -/
theorem Sender.assemble [Serializable T] {host : ByteOrder} {b b' : Batcher T} {loop : Loop}
    {prev : List UInt8} {j : Nat} {tick : Tick T} {out : Option (Frame T)}
    {effects : List (Effect T)} (h : b.Sender loop prev j)
    (hrun : b.assemble host loop tick = .ok (b', out, effects)) :
    b.Keeps b' ∧ b'.Sender loop prev j ∧ attempts effects = [] ∧
      ∀ frame, out = some frame → Placed b.cfg prev j frame ∧ Unpacks b.cfg tick frame := by
  obtain ⟨hkeeps, hprev, hquiet, hframe⟩ := assemble_ok h.sized hrun
  refine ⟨hkeeps, h.of_keeps hkeeps hprev, hquiet, fun frame hout => ?_⟩
  obtain ⟨hb, _⟩ := hframe frame hout
  have hfits : frame.raw.length ≤ b.previousState.length := by
    rw [h.sized.previous h.delta]
    exact hb.length
  refine ⟨⟨hb.body, ?_, ?_⟩, fun decompress hinv => ?_⟩
  · rw [hb.keyframe]
    exact h.cycle.isKeyframe h.delta
  · rw [hb.payload]
    unfold payloadOf
    rw [h.delta, Bool.not_true, Bool.false_or, h.baseline.take hfits]
    rfl
  · unfold unpack
    split
    · rename_i hc
      obtain ⟨dst, herr, hlo, hhi, hsent⟩ := hb.packed hc
      rw [hsent]
      exact hinv dst frame.payload herr hlo hhi
    · rename_i hc
      exact hb.plain (by simpa using hc)

/-- Advancing the baseline. -/
theorem Sender.advance {b b' : Batcher T} {loop loop' : Loop} {prev raw : List UInt8} {j : Nat}
    (h : b.Sender loop prev j) (hrun : b.advance loop raw = .ok (b', loop')) :
    b.Keeps b' ∧ b'.Sender loop' raw (j + 1) := by
  obtain ⟨copied, hcopy, hrun⟩ := bind_eq_ok hrun
  obtain ⟨hfits, rfl⟩ := store_eq_ok hcopy
  obtain ⟨cleared, hclear, hrun⟩ := bind_eq_ok hrun
  have hstate := h.baseline.state
  have hprev : prev.length ≤ b.previousState.length := by
    have hlen := congrArg List.length hstate
    simp only [List.length_append, List.length_replicate] at hlen
    omega
  rw [Nat.zero_add] at hfits
  have hcleared : cleared = raw ++ List.replicate (b.previousState.length - raw.length) 0 := by
    -- the copy overwrites the old frame as far as the new one reaches, the clearing does the rest
    have hover := overwrite_baseline hfits hprev
    simp only [← hstate] at hover
    rw [← hover, ← h.baseline.offset]
    unfold clearStale at hclear
    split at hclear
    · rename_i hlonger
      obtain ⟨_, rfl⟩ := store_eq_ok hclear
      rw [if_pos hlonger]
    · rename_i hshorter
      rw [if_neg hshorter]
      exact (Except.ok.inj hclear).symm
  have hlength : cleared.length = b.previousState.length := by
    rw [hcleared]
    simp only [List.length_append, List.length_replicate]
    omega
  cases hrun
  have hkeeps : b.Keeps { b with previousState := cleared } := ⟨rfl, rfl, rfl, rfl, rfl, rfl⟩
  refine ⟨hkeeps, hkeeps.sized h.sized hlength, h.delta, ⟨?_, rfl⟩, h.cycle.advance rfl⟩
  simp only [hlength]
  exact hcleared

/-- The sender after a flush: a delivered frame is the new baseline, a failed one changes
nothing. -/
def Settled (b : Batcher T) (loop : Loop) (prev : List UInt8) (j : Nat) (frame : Frame T) :
    Option Error → Prop
  | none => b.Sender loop frame.raw (j + 1)
  | some _ => b.Sender loop prev j

/-- A delivered frame becomes the baseline; a failed flush changes nothing. -/
theorem Sender.settle {b b' : Batcher T} {loop loop' : Loop} {prev : List UInt8} {j : Nat}
    {now : Int64} {frame : Frame T} {err : Option Error} {effects : List (Effect T)}
    (h : b.Sender loop prev j) (hrun : b.settle loop now frame err = .ok (b', loop', effects)) :
    b.Keeps b' ∧ attempts effects = [] ∧
      Settled b' loop' prev j frame err := by
  unfold Batcher.settle at hrun
  cases err with
  | some err =>
      simp only [Except.ok.injEq, Prod.mk.injEq] at hrun
      obtain ⟨hb', rfl, rfl⟩ := hrun
      have hcount : b.Keeps { b with flushErrs := b.flushErrs + 1 } :=
        ⟨rfl, rfl, rfl, rfl, rfl, rfl⟩
      have hkeeps := hcount.trans (reportError_keeps _ now err)
      obtain ⟨hreport, hquiet⟩ := reportError_eq { b with flushErrs := b.flushErrs + 1 } now err
      rw [← hb']
      exact ⟨hkeeps, hquiet, h.of_keeps hkeeps (by rw [hreport])⟩
  | none =>
      simp only [h.delta, if_true] at hrun
      obtain ⟨⟨b₁, loop₁⟩, hadvance, hrun⟩ := bind_eq_ok hrun
      obtain ⟨hkeeps, hsender⟩ := h.advance hadvance
      cases hrun
      have hcount : b₁.Keeps { b₁ with
          flushedBatches := b₁.flushedBatches + 1
          flushedItems := b₁.flushedItems + UInt64.ofNat frame.items.length
          bytesFlushed := b₁.bytesFlushed + UInt64.ofNat frame.sent.length
          lastFlushAt := now } := ⟨rfl, rfl, rfl, rfl, rfl, rfl⟩
      exact ⟨hkeeps.trans hcount, rfl, hsender.of_keeps hcount rfl⟩

/-- One drain flushes at most one frame, and a delivered frame becomes the baseline. -/
theorem Sender.drain [Serializable T] {host : ByteOrder} {b b' : Batcher T} {loop loop' : Loop}
    {prev : List UInt8} {j : Nat} {tick : Tick T} {effects : List (Effect T)}
    (h : b.Sender loop prev j)
    (hrun : b.drainAndFlush host loop tick = .ok (b', loop', effects)) :
    b'.cfg = b.cfg ∧
      (attempts effects = [] ∧ b'.Sender loop' prev j ∨
        ∃ frame err, attempts effects = [(frame, err)] ∧ Placed b.cfg prev j frame ∧
          Unpacks b.cfg tick frame ∧ Settled b' loop' prev j frame err) := by
  obtain ⟨⟨b₁, out, es⟩, hassemble, hrun⟩ := bind_eq_ok hrun
  obtain ⟨hkeeps, hsender, hquiet, hframe⟩ := h.assemble hassemble
  cases out with
  | none =>
      cases hrun
      exact ⟨hkeeps.cfg, Or.inl ⟨hquiet, hsender⟩⟩
  | some frame =>
      obtain ⟨⟨b₂, loop₂, reports⟩, hsettle, hrun⟩ := bind_eq_ok hrun
      obtain ⟨hkeeps', hquiet', hsender'⟩ := hsender.settle hsettle
      cases hrun
      refine ⟨hkeeps'.cfg.trans hkeeps.cfg, Or.inr ⟨frame, tick.flush frame.sent, ?_,
        (hframe frame rfl).1, (hframe frame rfl).2, hsender'⟩⟩
      rw [attempts_append, hquiet]
      simp only [attempts, List.filterMap_cons, List.nil_append]
      rw [show reports.filterMap _ = attempts reports from rfl, hquiet']

/-! ## The stream -/

/-- The flushes of a sequence of drains, each linked to the last frame delivered before it. -/
def Stream (cfg : Config) (decompress : List UInt8 → List UInt8) :
    List UInt8 → Nat → List (Frame T × Option Error) → Prop
  | _, _, [] => True
  | prev, j, (frame, none) :: rest =>
      Link cfg decompress prev j frame ∧ Stream cfg decompress frame.raw (j + 1) rest
  | prev, j, (frame, some _) :: rest =>
      Link cfg decompress prev j frame ∧ Stream cfg decompress prev j rest

/-- A sequence of drains produces a stream. -/
theorem drains_stream [Serializable T] {host : ByteOrder} {ticks : List (Tick T)}
    {b b' : Batcher T} {loop loop' : Loop} {prev : List UInt8} {j : Nat}
    {decompress : List UInt8 → List UInt8} {effects : List (Effect T)}
    (h : b.Sender loop prev j) (hinv : ∀ tick ∈ ticks, Inverts decompress tick)
    (hrun : b.drains host loop ticks = .ok (b', loop', effects)) :
    Stream b.cfg decompress prev j (attempts effects) := by
  induction ticks generalizing b loop prev j effects with
  | nil =>
      cases hrun
      trivial
  | cons tick ticks ih =>
      obtain ⟨⟨b₁, loop₁, es⟩, hfirst, hrun⟩ := bind_eq_ok hrun
      obtain ⟨⟨b₂, loop₂, rest⟩, hrest, hrun⟩ := bind_eq_ok hrun
      cases hrun
      have hinv' : ∀ t ∈ ticks, Inverts decompress t :=
        fun t ht => hinv t (List.mem_cons_of_mem _ ht)
      obtain ⟨hcfg, hcase⟩ := h.drain hfirst
      rw [attempts_append]
      rcases hcase with ⟨hnone, hsender⟩ | ⟨frame, err, hone, hplaced, hunpacks, hsender⟩
      · rw [hnone, ← hcfg]
        exact ih hsender hinv' hrest
      · have hlink : Link b.cfg decompress prev j frame :=
          ⟨hplaced, hunpacks decompress (hinv tick List.mem_cons_self)⟩
        rw [hone, List.singleton_append]
        cases err with
        | none => exact ⟨hlink, hcfg ▸ ih hsender hinv' hrest⟩
        | some e => exact ⟨hlink, hcfg ▸ ih hsender hinv' hrest⟩

end Batcher

end TickBatch
