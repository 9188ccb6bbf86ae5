import TickBatch.Lib.Transition
import TickBatch.Ring.Basic

/-!
# Configuration and construction of the batching engine

`Config` has the construction parameters with the source's fixed-width integers, `Batcher` the
state of the engine, and `Batcher.new` the validation of `New` in the source's order, with the
texts of its errors. What the transport, the compressor and the error callback do when they are
called is not part of the state: it comes with each drain, see `TickBatch.Engine.Drain`.
-/

namespace TickBatch

/-- The byte length of the fixed header of every flushed batch. -/
def headerSize : Nat := 8

/-- A transport, as far as construction can tell: whether it implements `ReliableSink`. -/
structure Sink where
  reliable : Bool
  deriving DecidableEq, Repr

/-- The construction parameters. `compressor` and `onFlushError` say whether the field is set. -/
structure Config where
  sink : Option Sink
  compressor : Bool
  onFlushError : Bool
  queueSize : UInt64
  maxBatchSize : Int64
  maxItemSize : Int64
  tickRate : Int64
  backpressure : BackpressurePolicy
  shutdownTimeout : Int64
  flushTimeout : Int64
  deltaEncoding : Bool
  keyframeInterval : UInt32
  deriving DecidableEq

/-- The reasons for which `New` rejects a configuration. -/
inductive ConfigError where
  | queueSize (got : UInt64)
  | batchSmallerThanHeader
  | backpressure
  | maxItemSize
  | batchSmallerThanItem (maxItemSize : Int64)
  | tickRateNotPositive
  | tickRateTooHigh
  | unreliableSink
  deriving DecidableEq

/-- The texts of the errors, each wrapping `ErrInvalidConfig`. -/
def ConfigError.message (e : ConfigError) : String :=
  "tickbatch: invalid config: " ++ match e with
  | .queueSize got => "QueueSize must be a positive power of two, got " ++ toString got
  | .batchSmallerThanHeader =>
      "MaxBatchSize must be at least " ++ toString headerSize ++ " bytes (the fixed batch header)"
  | .backpressure => "Backpressure is not a valid BackpressurePolicy"
  | .maxItemSize => "MaxItemSize must be positive"
  | .batchSmallerThanItem size =>
      "MaxBatchSize must be >= headerSize + MaxItemSize (" ++ toString headerSize ++ " + " ++
        toString size ++ " = " ++ toString (8 + size) ++ " minimum)"
  | .tickRateNotPositive => "TickRate must be positive"
  | .tickRateTooHigh =>
      "TickRate must not exceed 1_000_000_000 (1 GHz; interval would round to zero)"
  | .unreliableSink =>
      "DeltaEncoding requires a ReliableSink; " ++
        "UDPSink and other fire-and-forget sinks are incompatible"

/-- The batching engine. A buffer that was not allocated is empty. -/
structure Batcher (T : Type) where
  byteBuffer : List UInt8
  previousState : List UInt8
  deltaBuffer : List UInt8
  compressBuffer : List UInt8
  timeoutBuf : List UInt8
  ring : Ringbuf T
  cfg : Config
  dropped : UInt64
  sequenceID : UInt32
  truncated : UInt64
  flushedBatches : UInt64
  flushedItems : UInt64
  flushErrs : UInt64
  bytesFlushed : UInt64
  lastFlushAt : Int64
  coalescedTicks : UInt64
  lastLogTime : Int64
  flushInFlight : Bool

variable {T : Type}

/-- `MaxItemSize` with its default, the size of the item type. -/
def Config.withItemSize (cfg : Config) (sizeofT : Int64) : Config :=
  if cfg.maxItemSize = 0 then { cfg with maxItemSize := sizeofT } else cfg

/-- The first reason to reject a configuration, in the order of the checks of `New`. The sum in
the fifth wraps like the source's. -/
def Config.check (cfg : Config) : Option ConfigError :=
  if !acceptsQueueSize cfg.queueSize then some (.queueSize cfg.queueSize)
  else if cfg.maxBatchSize < 8 then some .batchSmallerThanHeader
  else if cfg.backpressure ≠ .dropNewest ∧ cfg.backpressure ≠ .dropOldest then some .backpressure
  else if cfg.maxItemSize ≤ 0 then some .maxItemSize
  else if cfg.maxBatchSize < 8 + cfg.maxItemSize then some (.batchSmallerThanItem cfg.maxItemSize)
  else if cfg.tickRate ≤ 0 then some .tickRateNotPositive
  else if cfg.tickRate > 1000000000 then some .tickRateTooHigh
  else if cfg.deltaEncoding ∧ cfg.sink = some { reliable := false } then some .unreliableSink
  else none

/-- A zeroed buffer of a given size. -/
def makeBytes (size : Int64) : List UInt8 := List.replicate size.toInt.toNat 0

/-- Allocate a batcher, or reject its configuration. The default of `MaxItemSize` comes before the
checks that read it. -/
def Batcher.new [Inhabited T] (sizeofT : Int64) (cfg : Config) : Except ConfigError (Batcher T) :=
  let cfg := cfg.withItemSize sizeofT
  match cfg.check, newRingbuf cfg.queueSize with
  | some e, _ => .error e
  -- not reached: the ring repeats the first check
  | none, none => .error (.queueSize cfg.queueSize)
  | none, some ring => .ok {
      ring, cfg
      byteBuffer := makeBytes cfg.maxBatchSize
      previousState := if cfg.deltaEncoding then makeBytes cfg.maxBatchSize else []
      deltaBuffer := if cfg.deltaEncoding then makeBytes cfg.maxBatchSize else []
      compressBuffer := if cfg.compressor then makeBytes cfg.maxBatchSize else []
      timeoutBuf := if cfg.flushTimeout > 0 then makeBytes cfg.maxBatchSize else []
      dropped := 0, sequenceID := 0, truncated := 0, flushedBatches := 0, flushedItems := 0
      flushErrs := 0, bytesFlushed := 0, lastFlushAt := 0, coalescedTicks := 0, lastLogTime := 0
      flushInFlight := false }

/-- What the checks of `New` guarantee. The last bound is on the wrapped sum. -/
structure Config.Accepted (cfg : Config) : Prop where
  queueSize : acceptsQueueSize cfg.queueSize = true
  header : 8 ≤ cfg.maxBatchSize
  backpressure : cfg.backpressure = .dropNewest ∨ cfg.backpressure = .dropOldest
  item : 0 < cfg.maxItemSize
  room : 8 + cfg.maxItemSize ≤ cfg.maxBatchSize

theorem Config.check_eq_none {cfg : Config} (h : cfg.check = none) : cfg.Accepted := by
  unfold Config.check at h
  split at h
  · cases h
  rename_i hqueue
  split at h
  · cases h
  rename_i hheader
  split at h
  · cases h
  rename_i hpolicy
  split at h
  · cases h
  rename_i hitem
  split at h
  · cases h
  rename_i hroom
  refine ⟨by simpa using hqueue, Int64.not_lt.mp hheader, ?_, Int64.not_le.mp hitem,
    Int64.not_lt.mp hroom⟩
  by_cases hnewest : cfg.backpressure = .dropNewest
  · exact Or.inl hnewest
  · exact Or.inr (by simpa [hnewest] using hpolicy)

/-- A batcher made by `New` has an accepted configuration, empty counters and zeroed buffers. -/
theorem Batcher.new_ok [Inhabited T] {sizeofT : Int64} {cfg : Config} {b : Batcher T}
    (h : Batcher.new sizeofT cfg = .ok b) :
    b.cfg = cfg.withItemSize sizeofT ∧ b.cfg.Accepted ∧ newRingbuf b.cfg.queueSize = some b.ring ∧
      b.byteBuffer = makeBytes b.cfg.maxBatchSize ∧
      b.previousState = (if b.cfg.deltaEncoding then makeBytes b.cfg.maxBatchSize else []) ∧
      b.deltaBuffer = (if b.cfg.deltaEncoding then makeBytes b.cfg.maxBatchSize else []) ∧
      b.compressBuffer = (if b.cfg.compressor then makeBytes b.cfg.maxBatchSize else []) ∧
      b.timeoutBuf = (if b.cfg.flushTimeout > 0 then makeBytes b.cfg.maxBatchSize else []) ∧
      b.flushInFlight = false := by
  unfold Batcher.new at h
  simp only at h
  split at h
  · cases h
  · cases h
  · rename_i ring hcheck hring
    cases h
    exact ⟨rfl, Config.check_eq_none hcheck, hring, rfl, rfl, rfl, rfl, rfl, rfl⟩

/-- A batcher made by `New` has passed every check, coalesced no ticks and logged nothing. -/
theorem Batcher.new_fresh [Inhabited T] {sizeofT : Int64} {cfg : Config} {b : Batcher T}
    (h : Batcher.new sizeofT cfg = .ok b) :
    b.cfg.check = none ∧ b.coalescedTicks = 0 ∧ b.lastLogTime = 0 := by
  unfold Batcher.new at h
  simp only at h
  split at h
  · cases h
  · cases h
  · rename_i hcheck _
    cases h
    exact ⟨hcheck, rfl, rfl⟩

/-! ## Concrete batchers -/

/-- A configuration whose frames have a body of at most eight bytes. -/
def Batcher.shortConfig : Config :=
  { sink := some { reliable := true }, compressor := false, onFlushError := true, queueSize := 4
    maxBatchSize := 16, maxItemSize := 4, tickRate := 60, backpressure := .dropNewest
    shutdownTimeout := 0, flushTimeout := 0, deltaEncoding := false, keyframeInterval := 0 }

/-- Make a batcher, compute something from it, and test the outcome. -/
def testNew [Inhabited T] {α : Type} (cfg : Config) (compute : Batcher T → Option α)
    (test : Batcher T → α → Bool) : Bool :=
  Transition.testFrom (Batcher.new 24 cfg).toOption compute
    fun b out => decide (b.cfg = cfg) && test b out

theorem toOption_eq_some {ε α : Type} {result : Except ε α} {out : α} :
    result.toOption = some out ↔ result = .ok out := by
  cases result <;> simp [Except.toOption]

theorem exists_of_testNew [Inhabited T] {α : Type} (cfg : Config) (compute : Batcher T → Option α)
    (test : Batcher T → α → Bool) (h : testNew cfg compute test = true) :
    ∃ b out, Batcher.new 24 cfg = .ok b ∧ compute b = some out ∧ b.cfg = cfg ∧
      test b out = true := by
  obtain ⟨b, out, hnew, hcompute, htest⟩ := Transition.exists_of_testFrom h
  rw [Bool.and_eq_true, decide_eq_true_eq] at htest
  exact ⟨b, out, toOption_eq_some.mp hnew, hcompute, htest⟩

end TickBatch
