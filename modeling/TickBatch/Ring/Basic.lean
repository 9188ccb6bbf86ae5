import Mathlib.Logic.Function.Basic
import TickBatch.Lib.Words

/-!
# The ring buffer and its operations run alone

`Ringbuf` is the data structure of `ringbuf.go`: two free-running 64-bit cursors, a power-of-two
mask, one sequence number and one item for each slot, and the eviction counter. The operations of
this module are complete calls with no other thread running. Every compare-and-swap then succeeds,
and a retry branch that reloads a cursor finds the ring unchanged: such a call never returns, and
the result is `none`. `TickBatch.Ring.Machine` has the same operations cut into atomic steps.
-/

namespace TickBatch

/-- What happens when an item is pushed on a full ring. The type is an integer in the source, so
values other than the two constants exist until `New` has rejected them. -/
inductive BackpressurePolicy where
  | dropNewest
  | dropOldest
  | other (value : Int)
  deriving DecidableEq, Repr

/-- The contract of the items: `marshal` encodes the item into the slice it is given and reports
the number of bytes written, which may be any integer. A slice keeps its length. -/
class Serializable (T : Type) where
  marshal : T → List UInt8 → Int × List UInt8
  marshal_length : ∀ item buf, (marshal item buf).2.length = buf.length

/-- Byte strings are items that are their own encoding. -/
instance : Serializable (List UInt8) where
  marshal item buf :=
    if item.length ≤ buf.length then (item.length, item ++ buf.drop item.length) else (0, buf)
  marshal_length item buf := by
    split
    · simp only [List.length_append, List.length_drop]
      omega
    · rfl

/-- The lock-free ring. The slices `seqs` and `data` are maps from slot indices; only the indices
below `mask + 1` are ever used. -/
structure Ringbuf (T : Type) where
  head : UInt64
  tail : UInt64
  mask : UInt64
  seqs : Nat → UInt64
  data : Nat → T
  evicted : UInt64

variable {T : Type}

/-- The slot of a position: `pos & r.mask`. -/
def Ringbuf.slot (r : Ringbuf T) (pos : UInt64) : Nat := (pos &&& r.mask).toNat

/-- `QueueSize` passes the validation of `New` and of `newRingbuf`. -/
def acceptsQueueSize (size : UInt64) : Bool := !(size == 0 || size &&& (size - 1) != 0)

/-- Allocate a ring: each slot's initial sequence number is its index. A size that is not a
positive power of two panics. -/
def newRingbuf [Inhabited T] (size : UInt64) : Option (Ringbuf T) :=
  if acceptsQueueSize size then
    some { head := 0, tail := 0, mask := size - 1, seqs := fun i => UInt64.ofNat i,
           data := fun _ => default, evicted := 0 }
  else none

/-- A ring made by `newRingbuf` is empty, and each slot waits for its own index. -/
theorem newRingbuf_eq_some [Inhabited T] {size : UInt64} {r : Ringbuf T}
    (h : newRingbuf size = some r) :
    acceptsQueueSize size = true ∧
      r = { head := 0, tail := 0, mask := size - 1, seqs := fun i => UInt64.ofNat i,
            data := fun _ => default, evicted := 0 } := by
  unfold newRingbuf at h
  split at h
  · rename_i hsize
    exact ⟨hsize, (Option.some.inj h).symm⟩
  · cases h

/-- The mask of a ring of `2 ^ k` slots. -/
theorem toNat_mask {k : Nat} (hk : k ≤ 63) :
    (UInt64.ofNat (2 ^ k) - 1).toNat = 2 ^ k - 1 := by
  have hpos : 1 ≤ 2 ^ k := Nat.one_le_two_pow
  have hlt : 2 ^ k ≤ 2 ^ 63 := Nat.pow_le_pow_right (by omega) hk
  rw [UInt64.toNat_sub_of_le, UInt64.toNat_ofNat', UInt64.toNat_one]
  · omega
  · rw [UInt64.le_iff_toNat_le, UInt64.toNat_ofNat', UInt64.toNat_one]
    omega

/-- The cap on consecutive eviction attempts in `push`. -/
def maxEvictRetries : Nat := 128

namespace Ringbuf

/-- Store a sequence number in the slot of a position. -/
def storeSeq (r : Ringbuf T) (pos value : UInt64) : Ringbuf T :=
  { r with seqs := Function.update r.seqs (r.slot pos) value }

/-- Store an item in the slot of a position. -/
def storeData (r : Ringbuf T) (pos : UInt64) (item : T) : Ringbuf T :=
  { r with data := Function.update r.data (r.slot pos) item }

@[simp] theorem storeSeq_head (r : Ringbuf T) (pos v : UInt64) :
    (r.storeSeq pos v).head = r.head := rfl

@[simp] theorem storeSeq_tail (r : Ringbuf T) (pos v : UInt64) :
    (r.storeSeq pos v).tail = r.tail := rfl

@[simp] theorem storeSeq_mask (r : Ringbuf T) (pos v : UInt64) :
    (r.storeSeq pos v).mask = r.mask := rfl

@[simp] theorem storeSeq_seqs (r : Ringbuf T) (pos v : UInt64) :
    (r.storeSeq pos v).seqs = Function.update r.seqs (r.slot pos) v := rfl

@[simp] theorem storeSeq_data (r : Ringbuf T) (pos v : UInt64) :
    (r.storeSeq pos v).data = r.data := rfl

@[simp] theorem storeData_tail (r : Ringbuf T) (pos : UInt64) (item : T) :
    (r.storeData pos item).tail = r.tail := rfl

@[simp] theorem storeData_seqs (r : Ringbuf T) (pos : UInt64) (item : T) :
    (r.storeData pos item).seqs = r.seqs := rfl

@[simp] theorem storeData_data (r : Ringbuf T) (pos : UInt64) (item : T) :
    (r.storeData pos item).data = Function.update r.data (r.slot pos) item := rfl

@[simp] theorem slot_storeData (r : Ringbuf T) (pos : UInt64) (item : T) :
    (r.storeData pos item).slot = r.slot := rfl

/-- The signed distance `int64(seqs[idx] - pos)` of the tail path. -/
def pushDiff (r : Ringbuf T) (pos : UInt64) : Int64 := (r.seqs (r.slot pos) - pos).toInt64

/-- The signed distance `int64(seqs[idx] - (pos + 1))` of the head path. -/
def popDiff (r : Ringbuf T) (pos : UInt64) : Int64 := (r.seqs (r.slot pos) - (pos + 1)).toInt64

/-- Advance the head over a published item and recycle its slot; a head slot that is not published
is left alone. -/
def evictOldest (r : Ringbuf T) : Ringbuf T :=
  let headPos := r.head
  if r.seqs (r.slot headPos) = headPos + 1 then
    { { r with head := headPos + 1 }.storeSeq headPos (headPos + r.mask + 1) with
      evicted := r.evicted + 1 }
  else r

/-- The loop of `push` with `left` eviction attempts still allowed. -/
def pushLoop (item : T) (policy : BackpressurePolicy) (left : Nat) (r : Ringbuf T) :
    Option (Ringbuf T × Bool) :=
  let pos := r.tail
  if r.pushDiff pos = 0 then
    some ((({ r with tail := pos + 1 }.storeData pos item).storeSeq pos (pos + 1)), true)
  else if r.pushDiff pos < 0 then
    if policy = .dropNewest then some (r, false)
    else match left with
      | 0 => some (r, false)
      | left + 1 => pushLoop item policy left r.evictOldest
  else none

/-- Enqueue an item. -/
def push (r : Ringbuf T) (item : T) (policy : BackpressurePolicy) : Option (Ringbuf T × Bool) :=
  pushLoop item policy maxEvictRetries r

/-- The loop that `pop` and `popMarshal` share: claim the head position, take its item, recycle
the slot. The inner `none` is the verdict that the ring is empty. -/
def take (r : Ringbuf T) : Option (Ringbuf T × Option T) :=
  let pos := r.head
  if r.popDiff pos = 0 then
    some ({ r with head := pos + 1 }.storeSeq pos (pos + r.mask + 1), some (r.data (r.slot pos)))
  else if r.popDiff pos < 0 then some (r, none)
  else none

/-- Dequeue an item. -/
def pop (r : Ringbuf T) : Option (Ringbuf T × Option T) := r.take

/-- What a successful `popMarshal` did: the item it dequeued, the number of bytes its `Marshal`
reported and the buffer afterwards. -/
structure Marshaled (T : Type) where
  item : T
  written : Int
  buf : List UInt8

/-- Dequeue an item and marshal it into `buf` before its slot is recycled. The inner `none` is the
result `(0, false)`. -/
def popMarshal [Serializable T] (r : Ringbuf T) (buf : List UInt8) :
    Option (Ringbuf T × Option (Marshaled T)) := do
  let (r', item) ← r.take
  pure (r', item.map fun item =>
    let (written, buf') := Serializable.marshal item buf
    { item, written, buf := buf' })

end Ringbuf

/-- The operations of the ring. -/
inductive Call (T : Type) where
  | push (item : T) (policy : BackpressurePolicy)
  | pop
  | popMarshal (buf : List UInt8)

/-- What the operations return: `pop` the item it stored, if any, and `popMarshal` the number of
bytes, whether an item was available, and the buffer it has written to. `queueDepth` is the result
of `Batcher.QueueDepth`, which reads both cursors. -/
inductive Result (T : Type) where
  | push (accepted : Bool)
  | pop (item : Option T)
  | popMarshal (written : Int) (ok : Bool) (buf : List UInt8)
  | queueDepth (depth : UInt64)
  deriving DecidableEq

/-- One complete call with no other thread running. -/
def Ringbuf.exec [Serializable T] (r : Ringbuf T) : Call T → Option (Ringbuf T × Result T)
  | .push item policy => do
      let (r', accepted) ← r.push item policy
      pure (r', .push accepted)
  | .pop => do
      let (r', item) ← r.pop
      pure (r', .pop item)
  | .popMarshal buf => do
      let (r', out) ← r.popMarshal buf
      match out with
      | some m => pure (r', .popMarshal m.written true m.buf)
      | none => pure (r', .popMarshal 0 false buf)

end TickBatch
