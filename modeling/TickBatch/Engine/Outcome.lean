import TickBatch.Engine.Ledger

/-!
# What becomes of a batch

Once its marshaling loop has stopped, a drain ends in one of five ways: it has nothing to send, it
has no sink, its compressor fails, its flush fails, or the frame is delivered. `Outcome` lists them
with what each does to the counters and to the batch, for the raw and the delta path alike;
`drain_ends` is the inversion of `drainAndFlush` on which all accounting rests.
-/

namespace TickBatch

variable {T : Type}

/-- Effects that only report an error. -/
structure Silent (effects : List (Effect T)) : Prop where
  attempts : attempts effects = []
  truncations : truncations effects = []
  pushes : pushes effects = []
  discards : discards effects = []

/-- The counters that a drain updates. -/
structure Counters where
  dropped : UInt64
  truncated : UInt64
  sequenceID : UInt32
  flushedBatches : UInt64
  flushedItems : UInt64
  flushErrs : UInt64
  bytesFlushed : UInt64

namespace Batcher

/-- The counters of a batcher. -/
def counters (b : Batcher T) : Counters where
  dropped := b.dropped
  truncated := b.truncated
  sequenceID := b.sequenceID
  flushedBatches := b.flushedBatches
  flushedItems := b.flushedItems
  flushErrs := b.flushErrs
  bytesFlushed := b.bytesFlushed

/-- The frame of a filled buffer, of which the bytes `sent` are given to the flush. -/
def Fill.frame (f : Fill T) (loop : Loop) (sent : List UInt8) : Frame T where
  items := f.items
  seq := f.b.sequenceID + 1
  count := UInt16.ofNat f.n
  raw := f.raw (f.b.isKeyframe loop)
  keyframe := f.b.isKeyframe loop
  payload := f.payload loop
  sent := sent

/-- How a drain ends: the counters after it, its flushes and the batches it has discarded. A
sequence number is used up as soon as there is a sink, whether or not the frame is delivered. -/
inductive Outcome (f : Fill T) (loop : Loop) (tick : Tick T) :
    Counters → List (Frame T × Option Error) → List (List T) → Prop where
  | nothing (hn : f.n = 0) : Outcome f loop tick f.b.counters [] []
  | noSink (hn : f.n ≠ 0) (hsink : f.b.cfg.sink = none) :
      Outcome f loop tick f.b.counters [] [f.items]
  | notCompressed (hn : f.n ≠ 0) (hsink : f.b.cfg.sink ≠ none)
      (hcompressor : f.b.cfg.compressor = true) :
      Outcome f loop tick { f.b.counters with sequenceID := f.b.sequenceID + 1 } [] [f.items]
  | failed (hn : f.n ≠ 0) (hsink : f.b.cfg.sink ≠ none) (sent : List UInt8)
      (hplain : f.b.cfg.compressor = false → sent = f.payload loop) (err : Error)
      (hflush : tick.flush sent = some err) :
      Outcome f loop tick
        { f.b.counters with
          sequenceID := f.b.sequenceID + 1
          flushErrs := f.b.flushErrs + 1 }
        [(f.frame loop sent, some err)] []
  | flushed (hn : f.n ≠ 0) (hsink : f.b.cfg.sink ≠ none) (sent : List UInt8)
      (hplain : f.b.cfg.compressor = false → sent = f.payload loop)
      (hflush : tick.flush sent = none) :
      Outcome f loop tick
        { f.b.counters with
          sequenceID := f.b.sequenceID + 1
          flushedBatches := f.b.flushedBatches + 1
          flushedItems := f.b.flushedItems + UInt64.ofNat f.items.length
          bytesFlushed := f.b.bytesFlushed + UInt64.ofNat sent.length }
        [(f.frame loop sent, none)] []

/-- How a drain with these effects has ended. After the marshaling loop nothing is pushed or
truncated. -/
structure Ends (f : Fill T) (loop : Loop) (tick : Tick T) (b' : Batcher T)
    (effects : List (Effect T)) : Prop where
  outcome : Outcome f loop tick b'.counters (attempts effects) (discards effects)
  truncations : truncations effects = truncations f.effects
  pushes : pushes effects = pushes f.effects

/-- Reporting an error changes no counter. -/
theorem reportError_silent (b : Batcher T) (now : Int64) (err : Error) :
    (b.reportError now err).1.counters = b.counters ∧ Silent (b.reportError now err).2 := by
  unfold reportError
  split
  · exact ⟨rfl, rfl, rfl, rfl, rfl⟩
  · split
    · exact ⟨rfl, rfl, rfl, rfl, rfl⟩
    · exact ⟨rfl, rfl, rfl, rfl, rfl⟩

/-- Advancing the baseline changes nothing else. -/
theorem advance_eq {b b' : Batcher T} {loop loop' : Loop} {raw : List UInt8}
    (h : b.advance loop raw = .ok (b', loop')) :
    b' = { b with previousState := b'.previousState } := by
  unfold advance at h
  obtain ⟨_, _, h⟩ := bind_eq_ok h
  obtain ⟨_, _, h⟩ := bind_eq_ok h
  cases h
  rfl

/-- The counters after a flush that has failed. -/
theorem settle_failed {b b' : Batcher T} {loop loop' : Loop} {now : Int64} {frame : Frame T}
    {err : Error} {reports : List (Effect T)}
    (h : b.settle loop now frame (some err) = .ok (b', loop', reports)) :
    b'.counters = { b.counters with flushErrs := b.flushErrs + 1 } ∧ Silent reports := by
  cases h
  exact reportError_silent { b with flushErrs := b.flushErrs + 1 } now err

/-- The counters after a flush that has returned no error. -/
theorem settle_flushed {b b' : Batcher T} {loop loop' : Loop} {now : Int64} {frame : Frame T}
    {reports : List (Effect T)} (h : b.settle loop now frame none = .ok (b', loop', reports)) :
    b'.counters =
        { b.counters with
          flushedBatches := b.flushedBatches + 1
          flushedItems := b.flushedItems + UInt64.ofNat frame.items.length
          bytesFlushed := b.bytesFlushed + UInt64.ofNat frame.sent.length } ∧ reports = [] := by
  unfold settle at h
  simp only at h
  split at h
  · obtain ⟨⟨b₁, loop₁⟩, hadvance, h⟩ := bind_eq_ok h
    rw [advance_eq hadvance] at h
    cases h
    exact ⟨rfl, rfl⟩
  · cases h
    exact ⟨rfl, rfl⟩

/-- The bookkeeping after a flush leaves the configuration and the sizes of the buffers alone. -/
theorem settle_keeps {b b' : Batcher T} {loop loop' : Loop} {now : Int64} {frame : Frame T}
    {err : Option Error} {reports : List (Effect T)}
    (h : b.settle loop now frame err = .ok (b', loop', reports)) : b.Keeps b' := by
  cases err with
  | some err =>
      have hcount : b.Keeps { b with flushErrs := b.flushErrs + 1 } :=
        ⟨rfl, rfl, rfl, rfl, rfl, rfl⟩
      cases h
      exact hcount.trans (reportError_keeps { b with flushErrs := b.flushErrs + 1 } now err)
  | none =>
      unfold settle at h
      simp only at h
      split at h
      · obtain ⟨⟨b₁, loop₁⟩, hadvance, h⟩ := bind_eq_ok h
        rw [advance_eq hadvance] at h
        cases h
        exact ⟨rfl, rfl, rfl, rfl, rfl, rfl⟩
      · cases h
        exact ⟨rfl, rfl, rfl, rfl, rfl, rfl⟩

/-- Only a compressor can fail. -/
theorem compress_error {b b' : Batcher T} {tick : Tick T} {payload : List UInt8} {err : Error}
    (h : b.compress tick payload = (b', .error err)) : b.cfg.compressor = true := by
  unfold compress at h
  split at h
  · assumption
  · cases h

/-- Packing a frame uses up a sequence number. The compressor fails, or the frame is ready. -/
theorem Fill.finish_outcome {f : Fill T} {loop : Loop} {tick : Tick T} {b' : Batcher T}
    {out : Option (Frame T)} {effects : List (Effect T)}
    (h : f.finish loop tick = (b', out, effects)) :
    b'.counters = { f.b.counters with sequenceID := f.b.sequenceID + 1 } ∧
      (out = none ∧ f.b.cfg.compressor = true ∧
          (∃ reports, Silent reports ∧ effects = f.effects ++ .discarded f.items :: reports) ∨
        ∃ sent, out = some (f.frame loop sent) ∧ effects = f.effects ∧
          (f.b.cfg.compressor = false → sent = f.payload loop)) := by
  unfold Fill.finish Fill.pack at h
  simp only at h
  have hcounters := congrArg counters (compress_eq (f.built (f.b.isKeyframe loop)
    (f.raw (f.b.isKeyframe loop)) (f.payload loop)) tick (f.payload loop)).1
  have hseq := congrArg sequenceID (compress_eq (f.built (f.b.isKeyframe loop)
    (f.raw (f.b.isKeyframe loop)) (f.payload loop)) tick (f.payload loop)).1
  split at h
  · rename_i b₁ err hc
    rw [show f.payload loop = f.b.payloadOf _ _ from rfl, hc] at hcounters
    obtain ⟨hreport, hsilent⟩ := reportError_silent b₁ tick.now err
    have hcompressor := compress_error hc
    cases h
    exact ⟨hreport.trans hcounters, Or.inl ⟨rfl, hcompressor, _, hsilent, rfl⟩⟩
  · rename_i b₁ sent hc
    rw [show f.payload loop = f.b.payloadOf _ _ from rfl, hc] at hcounters hseq
    have hplain := (compress_ok hc).1
    cases h
    refine ⟨hcounters, Or.inr ⟨sent, ?_, rfl, hplain⟩⟩
    rw [show b'.sequenceID = f.b.sequenceID + 1 from hseq]
    rfl

/-- What follows the marshaling loop among the effects of a drain. -/
theorem ends_of_outcome {f : Fill T} {loop : Loop} {tick : Tick T} {b' : Batcher T}
    {rest : List (Effect T)} (hquiet : attempts f.effects = []) (hkept : discards f.effects = [])
    (houtcome : Outcome f loop tick b'.counters (attempts rest) (discards rest))
    (htruncations : truncations rest = []) (hpushes : pushes rest = []) :
    Ends f loop tick b' (f.effects ++ rest) := by
  refine ⟨?_, ?_, ?_⟩
  · rw [attempts_append, hquiet, discards_append, hkept]
    exact houtcome
  · rw [truncations_append, htruncations, List.append_nil]
  · rw [pushes_append, hpushes, List.append_nil]

/-- A push leaves the configuration and the buffers alone. -/
theorem push_keeps {b b' : Batcher T} {item : T} (h : b.push item = .ok b') : b.Keeps b' := by
  rw [push_eq h]
  exact ⟨rfl, rfl, rfl, rfl, rfl, rfl⟩

variable [Serializable T]

/-- A drain leaves the configuration and the sizes of the buffers alone. -/
theorem drain_keeps {host : ByteOrder} {b b' : Batcher T} {loop loop' : Loop} {tick : Tick T}
    {effects : List (Effect T)} (hs : b.Sized)
    (hdrain : b.drainAndFlush host loop tick = .ok (b', loop', effects)) : b.Keeps b' := by
  obtain ⟨⟨b₁, out, es⟩, hassemble, hrest⟩ := bind_eq_ok hdrain
  have hkeeps := (assemble_ok hs hassemble).1
  cases out with
  | none =>
      cases hrest
      exact hkeeps
  | some frame =>
      obtain ⟨⟨b₂, loop₂, reports⟩, hsettle, hrest⟩ := bind_eq_ok hrest
      cases hrest
      exact hkeeps.trans (settle_keeps hsettle)

/-- Every way in which a drain of an idle batcher can end. -/
theorem drain_ends {host : ByteOrder} {b b' : Batcher T} {loop loop' : Loop} {tick : Tick T}
    {f : Fill T} {effects : List (Effect T)} (h : b.Idle loop)
    (hfill : b.fill tick.arrivals = .ok f) (hkept : discards f.effects = [])
    (hdrain : b.drainAndFlush host loop tick = .ok (b', loop', effects)) :
    Ends f loop tick b' effects := by
  have hquiet := (fill_ok h.sized hfill).1.quiet
  obtain ⟨⟨b₁, out, es⟩, hassemble, hrest⟩ := bind_eq_ok hdrain
  rw [assemble_eq h.sized hfill] at hassemble
  have hassemble := Except.ok.inj hassemble
  by_cases hn : f.n = 0
  · rw [if_pos hn] at hassemble
    cases hassemble
    cases hrest
    refine ⟨?_, rfl, rfl⟩
    rw [hquiet, hkept]
    exact .nothing hn
  by_cases hsink : f.b.cfg.sink = none
  · rw [if_neg hn, if_pos hsink] at hassemble
    cases hassemble
    cases hrest
    exact ends_of_outcome hquiet hkept (.noSink hn hsink) rfl rfl
  rw [if_neg hn, if_neg hsink] at hassemble
  obtain ⟨hcounters, hcase⟩ := Fill.finish_outcome hassemble
  rcases hcase with ⟨rfl, hcompressor, reports, hreports, rfl⟩ | ⟨sent, rfl, rfl, hplain⟩
  · cases hrest
    refine ends_of_outcome hquiet hkept ?_ hreports.truncations hreports.pushes
    show Outcome f loop tick b'.counters (attempts reports) (f.items :: discards reports)
    rw [hcounters, hreports.attempts, hreports.discards]
    exact .notCompressed hn hsink hcompressor
  obtain ⟨⟨b₂, loop₂, reports⟩, hsettle, hrest⟩ := bind_eq_ok hrest
  cases hrest
  obtain ⟨h₁, h₂, h₃, h₄, h₅, h₆, h₇⟩ := Counters.mk.inj hcounters
  change b₁.settle loop tick.now (f.frame loop sent) (tick.flush sent) = _ at hsettle
  change Ends f loop tick b' (f.effects ++ .flush (f.frame loop sent) (tick.flush sent) :: reports)
  have hflushed : Outcome f loop tick b'.counters [(f.frame loop sent, tick.flush sent)] [] ∧
      Silent reports := by
    cases hflush : tick.flush sent with
    | none =>
        rw [hflush] at hsettle
        obtain ⟨hsettled, rfl⟩ := settle_flushed hsettle
        rw [hsettled, hcounters, h₄, h₅, h₇]
        exact ⟨.flushed hn hsink sent hplain hflush, rfl, rfl, rfl, rfl⟩
    | some err =>
        rw [hflush] at hsettle
        obtain ⟨hsettled, hsilent⟩ := settle_failed hsettle
        rw [hsettled, hcounters, h₆]
        exact ⟨.failed hn hsink sent hplain err hflush, hsilent⟩
  refine ends_of_outcome hquiet hkept ?_ hflushed.2.truncations hflushed.2.pushes
  show Outcome f loop tick b'.counters ((f.frame loop sent, tick.flush sent) :: attempts reports)
    (discards reports)
  rw [hflushed.2.attempts, hflushed.2.discards]
  exact hflushed.1

end Batcher

end TickBatch
