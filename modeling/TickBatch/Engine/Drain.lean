import TickBatch.Engine.Config
import TickBatch.Wire.Codec
import TickBatch.Wire.Encode

/-!
# Draining the ring and flushing a frame

`drainAndFlush` as the source has it, in three parts. `assemble` dequeues and marshals items, writes
the header, takes the delta and compresses; `settle` does the bookkeeping once the flush has
returned; what happens in between is the flush itself. `Tick` is everything a drain meets from
outside: the items that producers push between two `popMarshal` calls, the compressor, the outcome
of the flush, and the clock. Every slice expression that could be out of range is checked, so that
a panic is a result (`Fault.panic`) and can be excluded by proof. `Effect`s record what a drain does
to the outside, with the items concerned.
-/

namespace TickBatch

/-- Why a call does not return: a retry loop of the ring that spins forever, or a panic. -/
inductive Fault where
  | hang
  | panic
  deriving DecidableEq

/-- The errors that the drain loop reports. `other` is an error of the transport or of the
compressor. -/
inductive Error where
  | flushTimeout
  | compressorRange (n : Int)
  | shutdownTimeout (timeout : Int64)
  | other (text : String)
  deriving DecidableEq

/-- The fraction `v / 10 ^ prec` below one, without trailing zeros. -/
def fractionString (v prec : Nat) : String :=
  let digits := (toString (10 ^ prec + v % 10 ^ prec)).toList.tail
  let digits := (digits.reverse.dropWhile (· == '0')).reverse
  if digits.isEmpty then "" else "." ++ String.ofList digits

/-- A duration in nanoseconds as `time.Duration` prints it. -/
def durationString (d : Int64) : String :=
  let ns := d.toInt.natAbs
  let second := 1000000000
  let text :=
    if ns = 0 then "0s"
    else if ns < 1000 then toString ns ++ "ns"
    else if ns < 1000000 then toString (ns / 1000) ++ fractionString ns 3 ++ "µs"
    else if ns < second then toString (ns / 1000000) ++ fractionString ns 6 ++ "ms"
    else
      let s := ns / second
      (if s < 3600 then "" else toString (s / 3600) ++ "h") ++
        (if s < 60 then "" else toString (s / 60 % 60) ++ "m") ++
        toString (s % 60) ++ fractionString ns 9 ++ "s"
  if d < 0 then "-" ++ text else text

/-- The texts of the errors. -/
def Error.message : Error → String
  | .flushTimeout => "tickbatch: flush timeout exceeded"
  | .compressorRange n => "tickbatch: compressor returned out-of-range n=" ++ toString n
  | .shutdownTimeout timeout =>
      "tickbatch: shutdown flush did not complete within " ++ durationString timeout ++
        "; drain goroutine still running"
  | .other text => text

/-- What a call of `Compress` returns, and the destination buffer afterwards. -/
structure Compressed where
  n : Int
  err : Option Error
  dst : List UInt8

/-- What a drain meets from outside. `arrivals i` are the items pushed just before its `popMarshal`
call number `i`; `compress` and `flush` are the calls of the compressor and of the flush; `now` is
the clock. -/
structure Tick (T : Type) where
  arrivals : Nat → List T
  compress : List UInt8 → List UInt8 → Compressed
  flush : List UInt8 → Option Error
  now : Int64
  compress_length : ∀ dst src, (compress dst src).dst.length = dst.length

/-- A drain that finds some new items and whose flush returns `err`. -/
def plainTick {T : Type} (items : List T) (err : Option Error) : Tick T where
  arrivals := fun i => if i = 0 then items else []
  compress := fun dst _ => { n := 0, err := some (.other "no compressor"), dst }
  flush := fun _ => err
  now := 0
  compress_length := fun _ _ => rfl

/-- A frame that is ready to be flushed: its items, its sequence number and count, the raw bytes
`byteBuffer[:offset]`, whether it is a keyframe, the payload before compression and the bytes given
to the flush. -/
structure Frame (T : Type) where
  items : List T
  seq : UInt32
  count : UInt16
  raw : List UInt8
  keyframe : Bool
  payload : List UInt8
  sent : List UInt8

/-- What a drain does to the outside, in order. `pushed` is a `Push` by a producer, `truncated` an
item whose `Marshal` failed, `discarded` the items of a batch that never reached the flush, because
there is no sink or because compression failed. -/
inductive Effect (T : Type) where
  | pushed (item : T)
  | truncated (item : T)
  | discarded (items : List T)
  | flush (frame : Frame T) (err : Option Error)
  | onFlushError (err : Error)
  | slogError (err : Error)

/-- The flushes among the effects, each with the error it returned. -/
def attempts {T : Type} (effects : List (Effect T)) : List (Frame T × Option Error) :=
  effects.filterMap fun
    | .flush frame err => some (frame, err)
    | _ => none

/-- The frames whose flush returned no error. -/
def successes {T : Type} (flushes : List (Frame T × Option Error)) : List (Frame T) :=
  flushes.filterMap fun
    | (frame, none) => some frame
    | (_, some _) => none

/-- The frames that a drain, or several, have delivered. -/
def delivered {T : Type} (effects : List (Effect T)) : List (Frame T) :=
  successes (attempts effects)

/-- The variables of `runLoop` that a drain updates. -/
structure Loop where
  prevOffset : Nat
  keyframeN : UInt32
  deriving DecidableEq

/-- The loop variables when `runLoop` starts. -/
def Loop.initial : Loop := { prevOffset := 0, keyframeN := 0 }

variable {T : Type}

/-! ## Slices -/

/-- `buf[lo:]`. -/
def sliceFrom (buf : List UInt8) (lo : Nat) : Except Fault (List UInt8) :=
  if lo ≤ buf.length then .ok (buf.drop lo) else .error .panic

/-- `buf[:hi]`. -/
def sliceTo (buf : List UInt8) (hi : Nat) : Except Fault (List UInt8) :=
  if hi ≤ buf.length then .ok (buf.take hi) else .error .panic

/-- Overwrite `buf[lo:lo+len(bytes)]`. -/
def store (buf : List UInt8) (lo : Nat) (bytes : List UInt8) : Except Fault (List UInt8) :=
  if lo + bytes.length ≤ buf.length then .ok (splice buf lo bytes) else .error .panic

/-! ## Pushing and reporting -/

namespace Batcher

/-- Enqueue an item; a rejected one is counted. -/
def push (b : Batcher T) (item : T) : Except Fault (Batcher T) :=
  match b.ring.push item b.cfg.backpressure with
  | none => .error .hang
  | some (ring, true) => .ok { b with ring }
  | some (ring, false) => .ok { b with ring, dropped := b.dropped + 1 }

/-- Enqueue several items. -/
def pushAll (b : Batcher T) (items : List T) : Except Fault (Batcher T) :=
  items.foldlM push b

/-- Route an error to the callback, or else to the log, at most once a second. -/
def reportError (b : Batcher T) (now : Int64) (err : Error) : Batcher T × List (Effect T) :=
  if b.cfg.onFlushError then (b, [.onFlushError err])
  else if now - b.lastLogTime > 1000000000 then
    ({ b with lastLogTime := now }, [.slogError err])
  else (b, [])

/-! ## Assembling a frame -/

/-- The state of the loop that fills the byte buffer. -/
structure Fill (T : Type) where
  b : Batcher T
  offset : Nat
  n : Nat
  items : List T
  effects : List (Effect T)

/-- The loop of `drainAndFlush` that dequeues and marshals items, with `left` of the 65535 items of
a frame still allowed. -/
def fillLoop [Serializable T] (arrivals : Nat → List T) : Nat → Fill T → Except Fault (Fill T)
  | 0, f => .ok f
  | left + 1, f =>
      let avail : Int := f.b.byteBuffer.length - f.offset
      if avail < f.b.cfg.maxItemSize.toInt then .ok f
      else do
        let b ← f.b.pushAll (arrivals f.n)
        let effects := f.effects ++ (arrivals f.n).map .pushed
        let buf ← sliceFrom b.byteBuffer f.offset
        match b.ring.popMarshal buf with
        | none => .error .hang
        | some (ring, none) => .ok { f with b := { b with ring }, effects }
        | some (ring, some m) =>
            let byteBuffer := b.byteBuffer.take f.offset ++ m.buf
            if m.written ≤ 0 ∨ m.written > avail then
              let b := { b with ring, byteBuffer, truncated := b.truncated + 1 }
              .ok { f with b, effects := effects ++ [.truncated m.item] }
            else
              fillLoop arrivals left
                { b := { b with ring, byteBuffer }, offset := f.offset + m.written.toNat,
                  n := f.n + 1, items := f.items ++ [m.item], effects }

/-- Dequeue and marshal what fits into one frame. -/
def fill [Serializable T] (b : Batcher T) (arrivals : Nat → List T) : Except Fault (Fill T) :=
  fillLoop arrivals 65535 { b, offset := headerSize, n := 0, items := [], effects := [] }

/-- Bytes 0 to 5 of the header: sequence number and item count, little-endian. -/
def headerBytes (seq : UInt32) (count : UInt16) : List UInt8 :=
  [seq.toUInt8, (seq >>> 8).toUInt8, (seq >>> 16).toUInt8, (seq >>> 24).toUInt8,
    count.toUInt8, (count >>> 8).toUInt8]

/-- Bytes 6 and 7 of the header: the integrity tag, little-endian. -/
def tagBytes (crc16 : UInt16) : List UInt8 := [crc16.toUInt8, (crc16 >>> 8).toUInt8]

/-- The integrity tag: the low 15 bits of the CRC of the body, and bit 15 for a keyframe. -/
def integrityTag (body : List UInt8) (isKeyframe : Bool) : UInt16 :=
  let crc16 := (Codec.checksumIEEE body &&& 0x7fff).toUInt16
  if isKeyframe then crc16 ||| 0x8000 else crc16

/-- Write the header of a frame that ends at `offset` into the byte buffer. The tag is computed over
the raw body, before any exclusive or. -/
def writeHeader (buf : List UInt8) (offset : Nat) (seq : UInt32) (count : UInt16)
    (isKeyframe : Bool) : Except Fault (List UInt8) := do
  let buf ← store buf 0 (headerBytes seq count)
  let body ← sliceTo buf offset >>= (sliceFrom · 8)
  store buf 6 (tagBytes (integrityTag body isKeyframe))

/-- Write the exclusive or of the frame with the delta baseline into the delta buffer. -/
def writeDelta (host : ByteOrder) (b : Batcher T) (raw : List UInt8) :
    Except Fault (Batcher T × List UInt8) := do
  let dst ← sliceTo b.deltaBuffer raw.length
  let previous ← sliceTo b.previousState raw.length
  match xorBytes host dst raw previous with
  | none => throw .panic
  | some delta =>
      pure ({ b with deltaBuffer := delta ++ b.deltaBuffer.drop raw.length }, delta)

/-- Whether the next frame is a keyframe. -/
def isKeyframe (b : Batcher T) (loop : Loop) : Bool :=
  b.cfg.deltaEncoding && decide (b.cfg.keyframeInterval > 0) && loop.keyframeN == 0

/-- Apply the compressor, if there is one. The result is the bytes to flush, or the error. -/
def compress (b : Batcher T) (tick : Tick T) (payload : List UInt8) :
    Batcher T × Except Error (List UInt8) :=
  if b.cfg.compressor then
    let c := tick.compress b.compressBuffer payload
    let b := { b with compressBuffer := c.dst }
    match c.err with
    | some err => (b, .error err)
    | none =>
        if c.n < 0 ∨ c.n > b.compressBuffer.length then (b, .error (.compressorRange c.n))
        else (b, .ok (b.compressBuffer.take c.n.toNat))
  else (b, .ok payload)

/-- Build the frame of a filled buffer: write its header, and take the delta unless the frame is
sent as it is. The result has the raw frame and the payload. -/
def Fill.build (host : ByteOrder) (f : Fill T) (keyframe : Bool) :
    Except Fault (Batcher T × List UInt8 × List UInt8) := do
  let seq := f.b.sequenceID + 1
  let byteBuffer ← writeHeader f.b.byteBuffer f.offset seq (UInt16.ofNat f.n) keyframe
  let b := { f.b with sequenceID := seq, byteBuffer }
  let raw ← sliceTo byteBuffer f.offset
  if !b.cfg.deltaEncoding || keyframe then pure (b, raw, raw)
  else do
    let (b, payload) ← writeDelta host b raw
    pure (b, raw, payload)

/-- Compress the payload of a frame; a failure is reported and discards the batch. -/
def Fill.pack (f : Fill T) (tick : Tick T) (keyframe : Bool) (b : Batcher T)
    (raw payload : List UInt8) : Batcher T × Option (Frame T) × List (Effect T) :=
  match b.compress tick payload with
  | (b, .error err) =>
      let (b, reports) := b.reportError tick.now err
      (b, none, f.effects ++ .discarded f.items :: reports)
  | (b, .ok sent) =>
      (b, some { items := f.items, seq := b.sequenceID, count := UInt16.ofNat f.n, raw, keyframe,
                 payload, sent }, f.effects)

/-- The part of `drainAndFlush` before the flush: the frame to flush, if any. -/
def assemble [Serializable T] (host : ByteOrder) (b : Batcher T) (loop : Loop) (tick : Tick T) :
    Except Fault (Batcher T × Option (Frame T) × List (Effect T)) := do
  let f ← b.fill tick.arrivals
  if f.n = 0 then pure (f.b, none, f.effects)
  else if f.b.cfg.sink = none then pure (f.b, none, f.effects ++ [.discarded f.items])
  else
    let keyframe := f.b.isKeyframe loop
    let (b, raw, payload) ← f.build host keyframe
    pure (f.pack tick keyframe b raw payload)

/-! ## After the flush -/

/-- Clear the bytes of the baseline buffer that a longer frame before this one has left. -/
def clearStale (buf : List UInt8) (offset prevOffset : Nat) : Except Fault (List UInt8) :=
  if prevOffset > offset then store buf offset (List.replicate (prevOffset - offset) 0)
  else .ok buf

/-- The position in the keyframe cycle after a delivered frame. -/
def nextKeyframe (cfg : Config) (keyframeN : UInt32) : UInt32 :=
  if cfg.keyframeInterval > 0 then
    if keyframeN + 1 ≥ cfg.keyframeInterval then 0 else keyframeN + 1
  else keyframeN

/-- Make a delivered frame the delta baseline and count it in the keyframe cycle. -/
def advance (b : Batcher T) (loop : Loop) (raw : List UInt8) :
    Except Fault (Batcher T × Loop) := do
  let previousState ← store b.previousState 0 raw
  let previousState ← clearStale previousState raw.length loop.prevOffset
  pure ({ b with previousState },
    { prevOffset := raw.length, keyframeN := nextKeyframe b.cfg loop.keyframeN })

/-- The part of `drainAndFlush` after the flush has returned `err`. -/
def settle (b : Batcher T) (loop : Loop) (now : Int64) (frame : Frame T) (err : Option Error) :
    Except Fault (Batcher T × Loop × List (Effect T)) :=
  match err with
  | some err =>
      let (b, reports) := { b with flushErrs := b.flushErrs + 1 }.reportError now err
      .ok (b, loop, reports)
  | none => do
      let (b, loop) ←
        if b.cfg.deltaEncoding then b.advance loop frame.raw else pure (b, loop)
      pure ({ b with
        flushedBatches := b.flushedBatches + 1
        flushedItems := b.flushedItems + UInt64.ofNat frame.items.length
        bytesFlushed := b.bytesFlushed + UInt64.ofNat frame.sent.length
        lastFlushAt := now }, loop, [])

/-- Drain the ring into one frame and flush it. The outcome of the flush is that of
`flushWithTimeout`; with a zero `FlushTimeout` it is what `Sink.Flush` returns. -/
def drainAndFlush [Serializable T] (host : ByteOrder) (b : Batcher T) (loop : Loop)
    (tick : Tick T) : Except Fault (Batcher T × Loop × List (Effect T)) := do
  match ← b.assemble host loop tick with
  | (b, none, effects) => pure (b, loop, effects)
  | (b, some frame, effects) =>
      let err := tick.flush frame.sent
      let (b, loop, reports) ← b.settle loop tick.now frame err
      pure (b, loop, effects ++ .flush frame err :: reports)

/-- Successive drains. -/
def drains [Serializable T] (host : ByteOrder) :
    Batcher T → Loop → List (Tick T) → Except Fault (Batcher T × Loop × List (Effect T))
  | b, loop, [] => .ok (b, loop, [])
  | b, loop, tick :: ticks => do
      let (b, loop, effects) ← b.drainAndFlush host loop tick
      let (b, loop, rest) ← drains host b loop ticks
      pure (b, loop, effects ++ rest)

end Batcher

end TickBatch
