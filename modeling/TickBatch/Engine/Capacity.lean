import TickBatch.Engine.Assemble
import TickBatch.Ring.Quiescent

/-!
# How much one drain takes

`fillLoop_iterate` is one iteration of the marshaling loop, with whatever producers push before it;
`fillLoop_full`, `fillLoop_empty` and `fillLoop_takes` are its cases. With no producer running, the
loop works through the queue that the ring represents. `fitsFrame` is the condition on the queue and
on the free part of the byte buffer under which it empties the ring, and `fillLoop_alone` says what
the loop does in either case: every item of the queue is in the frame, or was truncated, or is still
queued.
-/

namespace TickBatch

variable {T : Type}

/-- The items whose `Marshal` failed. -/
def truncations (effects : List (Effect T)) : List T :=
  effects.filterMap fun
    | .truncated item => some item
    | _ => none

@[simp] theorem truncations_append (es es' : List (Effect T)) :
    truncations (es ++ es') = truncations es ++ truncations es' := List.filterMap_append

@[simp] theorem truncations_singleton (item : T) : truncations [.truncated item] = [item] := rfl

variable [Serializable T]

/-- Whether a queue is emptied by one drain, when `left` items are still allowed in the frame and
`free` is the rest of the byte buffer: there is room for `MaxItemSize` bytes before each item, and
only the last one may have a `Marshal` that reports an impossible length. -/
def fitsFrame (maxItemSize : Int) : Nat → List UInt8 → List T → Bool
  | _, _, [] => true
  | 0, _, _ :: _ => false
  | left + 1, free, item :: rest =>
      let (written, free') := Serializable.marshal item free
      decide (maxItemSize ≤ free.length) &&
        if written ≤ 0 ∨ written > free.length then rest.isEmpty
        else fitsFrame maxItemSize left (free'.drop written.toNat) rest

/-- The encodings of the items of a queue in one frame, up to the first impossible length. -/
def encodings : List UInt8 → List T → List (List UInt8)
  | _, [] => []
  | free, item :: rest =>
      let (written, free') := Serializable.marshal item free
      if written ≤ 0 ∨ written > free.length then []
      else free'.take written.toNat :: encodings (free'.drop written.toNat) rest

namespace Batcher

open TickBatch.Ring (Represents contents depth)

/-- The loop state after one more item. -/
def Fill.accept (f : Fill T) (ring : Ringbuf T) (item : T) (written : Int) (buf : List UInt8) :
    Fill T :=
  { f with b := { f.b with ring, byteBuffer := f.b.byteBuffer.take f.offset ++ buf }
           offset := f.offset + written.toNat, n := f.n + 1, items := f.items ++ [item] }

/-- The loop state after producers have pushed some items. -/
def Fill.arrive (f : Fill T) (b : Batcher T) (items : List T) : Fill T :=
  { f with b, effects := f.effects ++ items.map .pushed }

/-- The loop state after an item whose `Marshal` has failed. -/
def Fill.cut (f : Fill T) (ring : Ringbuf T) (item : T) (buf : List UInt8) : Fill T :=
  { f with
    b := { f.b with
      ring, byteBuffer := f.b.byteBuffer.take f.offset ++ buf, truncated := f.b.truncated + 1 }
    effects := f.effects ++ [.truncated item] }

/-- One iteration of the marshaling loop, once the pushes before it have returned. -/
theorem fillLoop_iterate {arrivals : Nat → List T} {left : Nat} {f : Fill T} {b : Batcher T}
    (hhi : f.offset ≤ f.b.byteBuffer.length) (hpush : f.b.pushAll (arrivals f.n) = .ok b) :
    fillLoop arrivals (left + 1) f =
      if (f.b.byteBuffer.drop f.offset).length < f.b.cfg.maxItemSize.toInt then .ok f
      else match b.ring.take with
      | none => .error .hang
      | some (ring, none) => .ok (f.arrive { b with ring } (arrivals f.n))
      | some (ring, some item) =>
          let (written, buf) := Serializable.marshal item (f.b.byteBuffer.drop f.offset)
          if written ≤ 0 ∨ written > (f.b.byteBuffer.drop f.offset).length then
            .ok ((f.arrive b (arrivals f.n)).cut ring item buf)
          else
            fillLoop arrivals left ((f.arrive b (arrivals f.n)).accept ring item written buf) := by
  have havail : (f.b.byteBuffer.length : Int) - f.offset =
      (f.b.byteBuffer.drop f.offset).length := by
    rw [List.length_drop]
    omega
  have hbuffer : b.byteBuffer = f.b.byteBuffer := by rw [pushAll_eq hpush]
  conv_lhs => unfold fillLoop
  simp only [havail, hpush, bind, Except.bind, hbuffer, sliceFrom_ok hhi]
  split
  · rfl
  · unfold Ringbuf.popMarshal
    cases b.ring.take with
    | none => rfl
    | some out =>
        obtain ⟨ring, item⟩ := out
        cases item with
        | none => rfl
        | some item =>
            simp only [Fill.arrive, Fill.cut, Fill.accept, hbuffer]
            rfl

section Accept

omit [Serializable T]

variable {f : Fill T} {ring : Ringbuf T} {item : T} {written : Int} {buf : List UInt8}

/-- Nothing is pushed. -/
theorem Fill.arrive_nil (f : Fill T) : f.arrive f.b [] = f := by
  unfold Fill.arrive
  rw [List.map_nil, List.append_nil]

/-- The frame still ends inside the buffer. -/
theorem Fill.accept_offset (hhi : f.offset ≤ f.b.byteBuffer.length)
    (hlen : buf.length = (f.b.byteBuffer.drop f.offset).length) (hwritten : written ≤ buf.length) :
    (f.accept ring item written buf).offset ≤
      (f.accept ring item written buf).b.byteBuffer.length := by
  rw [List.length_drop] at hlen
  simp only [Fill.accept, List.length_append, List.length_take]
  omega

theorem length_take_offset (hhi : f.offset ≤ f.b.byteBuffer.length) :
    (f.b.byteBuffer.take f.offset).length = f.offset := by
  rw [List.length_take]
  omega

/-- What is left of the buffer. -/
theorem Fill.accept_free (hhi : f.offset ≤ f.b.byteBuffer.length) :
    (f.accept ring item written buf).b.byteBuffer.drop (f.accept ring item written buf).offset =
      buf.drop written.toNat := by
  simp only [Fill.accept]
  rw [← List.drop_drop, List.drop_left' (length_take_offset hhi)]

/-- The body grows by the bytes that `Marshal` reports. -/
theorem Fill.accept_body (hlo : headerSize ≤ f.offset) (hhi : f.offset ≤ f.b.byteBuffer.length) :
    (f.accept ring item written buf).body = f.body ++ buf.take written.toNat := by
  have htake := length_take_offset hhi
  simp only [Fill.body, Fill.accept]
  rw [List.take_append, List.take_of_length_le (by omega), htake, Nat.add_sub_cancel_left,
    List.drop_append_of_le_length (by omega)]

/-- An item whose `Marshal` has failed leaves nothing in the body. -/
theorem Fill.cut_body (hhi : f.offset ≤ f.b.byteBuffer.length) :
    (f.cut ring item buf).body = f.body := by
  simp only [Fill.body, Fill.cut]
  rw [List.take_left' (length_take_offset hhi)]

end Accept

/-- Without room for another item of the maximal size the loop stops. -/
theorem fillLoop_full {arrivals : Nat → List T} {f : Fill T}
    (hhi : f.offset ≤ f.b.byteBuffer.length)
    (hroom : (f.b.byteBuffer.drop f.offset).length < f.b.cfg.maxItemSize.toInt) (left : Nat) :
    fillLoop arrivals left f = .ok f := by
  have havail : (f.b.byteBuffer.length : Int) - f.offset =
      (f.b.byteBuffer.drop f.offset).length := by
    rw [List.length_drop]
    omega
  cases left with
  | zero => rfl
  | succ left =>
      unfold fillLoop
      rw [havail, if_pos hroom]

/-- What the loop does with an item that it has dequeued, once the pushes before have led to `g`: it
truncates the item and stops, or accepts it and goes on. -/
inductive Takes (arrivals : Nat → List T) (f g : Fill T) (ring : Ringbuf T) (item : T) : Prop where
  | cut (written : Int) (buf : List UInt8)
      (hmarshal : Serializable.marshal item (f.b.byteBuffer.drop f.offset) = (written, buf))
      (hbad : written ≤ 0 ∨ written > (f.b.byteBuffer.drop f.offset).length)
      (hloop : ∀ left, fillLoop arrivals (left + 1) f = .ok (g.cut ring item buf))
  | accept (written : Int) (buf : List UInt8)
      (hmarshal : Serializable.marshal item (f.b.byteBuffer.drop f.offset) = (written, buf))
      (hgood : ¬ (written ≤ 0 ∨ written > (f.b.byteBuffer.drop f.offset).length))
      (hhi : (g.accept ring item written buf).offset ≤
        (g.accept ring item written buf).b.byteBuffer.length)
      (hloop : ∀ left, fillLoop arrivals (left + 1) f =
        fillLoop arrivals left (g.accept ring item written buf))

section Iterate

variable {arrivals : Nat → List T} {f : Fill T} {b : Batcher T} {ring : Ringbuf T}

/-- A loop that finds the ring empty stops. -/
theorem fillLoop_empty (hhi : f.offset ≤ f.b.byteBuffer.length)
    (hroom : ¬ (f.b.byteBuffer.drop f.offset).length < f.b.cfg.maxItemSize.toInt)
    (hpush : f.b.pushAll (arrivals f.n) = .ok b) (htake : b.ring.take = some (ring, none))
    (left : Nat) :
    fillLoop arrivals (left + 1) f = .ok (f.arrive { b with ring } (arrivals f.n)) := by
  rw [fillLoop_iterate hhi hpush, if_neg hroom, htake]

/-- A loop that finds an item takes it. -/
theorem fillLoop_takes {item : T} (hhi : f.offset ≤ f.b.byteBuffer.length)
    (hroom : ¬ (f.b.byteBuffer.drop f.offset).length < f.b.cfg.maxItemSize.toInt)
    (hpush : f.b.pushAll (arrivals f.n) = .ok b) (htake : b.ring.take = some (ring, some item)) :
    Takes arrivals f (f.arrive b (arrivals f.n)) ring item := by
  have hbuffer : b.byteBuffer = f.b.byteBuffer := by rw [pushAll_eq hpush]
  have hlen := Serializable.marshal_length item (f.b.byteBuffer.drop f.offset)
  cases hmarshal : Serializable.marshal item (f.b.byteBuffer.drop f.offset) with
  | mk written buf =>
      rw [hmarshal] at hlen
      by_cases hbad : written ≤ 0 ∨ written > (f.b.byteBuffer.drop f.offset).length
      · refine .cut written buf hmarshal hbad fun left => ?_
        rw [fillLoop_iterate hhi hpush, if_neg hroom, htake]
        simp only [hmarshal]
        rw [if_pos hbad]
      · refine .accept written buf hmarshal hbad ?_ fun left => ?_
        · have hwritten : written ≤ buf.length := by
            rw [hlen]
            exact Int.not_lt.mp (not_or.mp hbad).2
          have hhi' : (f.arrive b (arrivals f.n)).offset ≤
              (f.arrive b (arrivals f.n)).b.byteBuffer.length := by
            show f.offset ≤ b.byteBuffer.length
            rw [hbuffer]
            exact hhi
          exact Fill.accept_offset hhi' (by rw [hlen, ← hbuffer]; rfl) hwritten
        · rw [fillLoop_iterate hhi hpush, if_neg hroom, htake]
          simp only [hmarshal]
          rw [if_neg hbad]

/-- A loop that takes an item while nothing is pushed. -/
theorem fillLoop_takes_alone {item : T} (hhi : f.offset ≤ f.b.byteBuffer.length)
    (hroom : ¬ (f.b.byteBuffer.drop f.offset).length < f.b.cfg.maxItemSize.toInt)
    (htake : f.b.ring.take = some (ring, some item)) : Takes (fun _ => []) f f ring item := by
  have htakes : Takes (fun _ => []) f (f.arrive f.b []) ring item :=
    fillLoop_takes hhi hroom rfl htake
  rwa [Fill.arrive_nil] at htakes

end Iterate

/-- What the marshaling loop has made of a queue when it stops in `f'` with `rest` still queued.
The accounting holds wherever it stops; it empties the ring exactly when the queue fits. -/
structure Drained (left : Nat) (f : Fill T) (items : List T) (f' : Fill T) (rest : List T) :
    Prop where
  fits : rest = [] ↔
    fitsFrame f.b.cfg.maxItemSize.toInt left (f.b.byteBuffer.drop f.offset) items = true
  account : f'.items ++ truncations f'.effects ++ rest = f.items ++ items
  truncated : f'.b.truncated = f.b.truncated + UInt64.ofNat (truncations f'.effects).length
  body : rest = [] →
    f'.body = f.body ++ (encodings (f.b.byteBuffer.drop f.offset) items).flatten
  count : rest = [] → f'.n = f.n + (encodings (f.b.byteBuffer.drop f.offset) items).length

/-- A loop that stops before it has taken anything. -/
theorem Drained.stop {left : Nat} {f : Fill T} {items : List T} (ring : Ringbuf T)
    (hquiet : truncations f.effects = [])
    (hfits : items = [] ↔
      fitsFrame f.b.cfg.maxItemSize.toInt left (f.b.byteBuffer.drop f.offset) items = true) :
    Drained left f items { f with b := { f.b with ring } } items where
  fits := hfits
  account := by rw [hquiet, List.append_nil]
  truncated := by simp [hquiet]
  body hempty := by simp [hempty, encodings, Fill.body]
  count hempty := by simp [hempty, encodings]

/-- What the marshaling loop does to a represented ring while nothing is pushed. -/
theorem fillLoop_alone {k H : Nat} (left : Nat) {f : Fill T} {items : List T} (hk : k ≤ 63)
    (hrep : Represents k H f.b.ring items) (hlo : headerSize ≤ f.offset)
    (hhi : f.offset ≤ f.b.byteBuffer.length) (hquiet : truncations f.effects = []) :
    ∃ f' H' rest, fillLoop (fun _ => []) left f = .ok f' ∧ Represents k H' f'.b.ring rest ∧
      Drained left f items f' rest := by
  induction left generalizing f H items with
  | zero =>
      refine ⟨f, H, items, rfl, hrep, .stop f.b.ring hquiet ?_⟩
      cases items <;> simp [fitsFrame]
  | succ left ih =>
      by_cases hroom : (f.b.byteBuffer.drop f.offset).length < f.b.cfg.maxItemSize.toInt
      · refine ⟨f, H, items, fillLoop_full hhi hroom _, hrep, .stop f.b.ring hquiet ?_⟩
        cases items <;> simp [fitsFrame, Int.not_le.mpr hroom, -List.length_drop]
      cases items with
      | nil =>
          have hloop : fillLoop (fun _ => []) (left + 1) f = .ok (f.arrive f.b []) :=
            fillLoop_empty hhi hroom rfl (hrep.take_nil hk) left
          rw [Fill.arrive_nil] at hloop
          exact ⟨f, H, [], hloop, hrep, .stop f.b.ring hquiet (by simp [fitsFrame])⟩
      | cons item rest =>
          obtain ⟨ring, htake, hrep', _⟩ := hrep.take_cons hk
          have hfree := Int.not_lt.mp hroom
          cases fillLoop_takes_alone hhi hroom htake with
          | cut written buf hm hbad hloop =>
              refine ⟨_, H + 1, rest, hloop left, hrep', ?_, ?_, ?_, ?_, ?_⟩
              · simp [fitsFrame, hm, hfree, hbad, -List.length_drop]
              · simp [Fill.cut, hquiet]
              · simp [Fill.cut, hquiet]
              · intro _
                simp [encodings, hm, hbad, Fill.body, Fill.cut, hhi, -List.length_drop]
              · intro _
                simp [encodings, hm, hbad, Fill.cut, -List.length_drop]
          | accept written buf hm hgood hhi' hloop =>
              obtain ⟨f', H', rest', hrun, hrep'', hrest⟩ :=
                ih hrep' (Nat.le_add_right_of_le hlo) hhi' hquiet
              obtain ⟨hfits, haccount, htruncated, hbody, hcount⟩ := hrest
              rw [Fill.accept_free hhi] at hfits hbody hcount
              rw [Fill.accept_body hlo hhi] at hbody
              refine ⟨f', H', rest', (hloop left).trans hrun, hrep'', ?_, ?_, htruncated, ?_, ?_⟩
              · rw [hfits]
                simp [fitsFrame, hm, hfree, hgood, Fill.accept, -List.length_drop]
              · rw [haccount]
                simp [Fill.accept]
              · intro hempty
                rw [hbody hempty]
                simp [encodings, hm, hgood, -List.length_drop]
              · intro hempty
                rw [hcount hempty]
                simp [encodings, hm, hgood, Fill.accept, -List.length_drop]
                omega

end Batcher

end TickBatch
