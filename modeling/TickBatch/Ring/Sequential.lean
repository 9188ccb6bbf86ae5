import TickBatch.Lib.Transition
import TickBatch.Lib.TicketInvariant
import TickBatch.Ring.Basic

/-!
# Calls one at a time: a bounded queue, across every wrap of the cursors

`Queue` is what the ring is for: a list of bounded length, oldest item first, and the number of
evictions. `Represents` relates it to a ring whose cursors may have wrapped past `2 ^ 64` any number
of times: `H` is the unbounded position of the head, and the words of the ring are positions
reduced modulo `2 ^ 64`. `exec_refines` proves that one complete call does to the ring what
`Queue.exec` does to the list, and `run_refines` extends it to any sequence of calls.
`queue_works_iff` shows that the only accepted size for which the ring is not such a queue is 1.
-/

namespace TickBatch.Ring

/-- The abstract queue: the items, oldest first, and how many have been evicted. -/
structure Queue (T : Type) where
  items : List T
  evicted : Nat

variable {T : Type}

namespace Queue

/-- The queue of a ring that has just been made. -/
def empty : Queue T := { items := [], evicted := 0 }

/-- Append an item if there is room. A full queue refuses it under `DropNewest` and otherwise
loses its oldest item to it. -/
def push (cap : Nat) (q : Queue T) (item : T) (policy : BackpressurePolicy) : Queue T × Bool :=
  if q.items.length < cap then ({ q with items := q.items ++ [item] }, true)
  else if policy = .dropNewest then (q, false)
  else ({ items := q.items.tail ++ [item], evicted := q.evicted + 1 }, true)

/-- Remove the oldest item, if there is one. -/
def take (q : Queue T) : Queue T × Option T :=
  match q.items with
  | [] => (q, none)
  | item :: rest => ({ q with items := rest }, some item)

/-- The effect and the result of one call. -/
def exec [Serializable T] (cap : Nat) (q : Queue T) : Call T → Queue T × Result T
  | .push item policy =>
      let (q', accepted) := q.push cap item policy
      (q', .push accepted)
  | .pop =>
      let (q', item) := q.take
      (q', .pop item)
  | .popMarshal buf =>
      match q.take with
      | (q', some item) =>
          let (written, buf') := Serializable.marshal item buf
          (q', .popMarshal written true buf')
      | (q', none) => (q', .popMarshal 0 false buf)

/-- The results of a sequence of calls and the queue afterwards. -/
def run [Serializable T] (cap : Nat) : Queue T → List (Call T) → Queue T × List (Result T)
  | q, [] => (q, [])
  | q, c :: calls =>
      let (q', result) := q.exec cap c
      let (q'', results) := run cap q' calls
      (q'', result :: results)

end Queue

/-- Complete calls on a ring, one after the other; a call that does not return stops the run. -/
def runCalls [Serializable T] (r : Ringbuf T) (calls : List (Call T)) :
    Option (Ringbuf T × List (Result T)) :=
  Transition.run (fun r c => (r.exec c).map fun (r', result) => (r', [result])) r calls

/-- The ring holds `items`, oldest first, starting at position `H`. Slots of queued positions are
published, the others are free for their next position. -/
structure Represents (k H : Nat) (r : Ringbuf T) (items : List T) : Prop where
  mask : r.mask.toNat = 2 ^ k - 1
  head : r.head = UInt64.ofNat H
  tail : r.tail = UInt64.ofNat (H + items.length)
  le : items.length ≤ 2 ^ k
  queued : ∀ i (hi : i < items.length),
    r.seqs ((H + i) % 2 ^ k) = UInt64.ofNat (H + i + 1) ∧ r.data ((H + i) % 2 ^ k) = items[i]
  free : ∀ i, items.length ≤ i → i < 2 ^ k → r.seqs ((H + i) % 2 ^ k) = UInt64.ofNat (H + i)

namespace Represents

variable {k H : Nat} {r : Ringbuf T} {items : List T}

/-- The slot of a wrapped position. -/
theorem slot (h : Represents k H r items) (hk : k ≤ 63) (p : Nat) :
    r.slot (UInt64.ofNat p) = p % 2 ^ k :=
  Words.toNat_ofNat_and_mask (by omega) h.mask p

/-- The sequence number that recycles a slot belongs to the position one lap later. -/
theorem lap (h : Represents k H r items) (p : Nat) :
    UInt64.ofNat p + r.mask + 1 = UInt64.ofNat (p + 2 ^ k) := by
  have hmask : r.mask = UInt64.ofNat (2 ^ k - 1) := by rw [← h.mask, UInt64.ofNat_toNat]
  have hpos : 2 ^ k = 2 ^ k - 1 + 1 := by have := Nat.one_le_two_pow (n := k); omega
  rw [hmask, UInt64.add_assoc, ← UInt64.ofNat_one, ← UInt64.ofNat_add, ← UInt64.ofNat_add, ← hpos]

/-- A ring that has just been made is empty. -/
theorem initial [Inhabited T] (hk : k ≤ 63) {r : Ringbuf T}
    (hnew : newRingbuf (UInt64.ofNat (2 ^ k)) = some r) : Represents k 0 r [] := by
  obtain ⟨_, rfl⟩ := newRingbuf_eq_some hnew
  refine ⟨toNat_mask hk, rfl, rfl, Nat.zero_le _, by simp, fun i _ hi => ?_⟩
  simp [Nat.mod_eq_of_lt hi]

/-- The sequence number at the head of a non-empty ring says that its item is published. -/
theorem seq_head {item : T} {rest : List T} (h : Represents k H r (item :: rest)) (hk : k ≤ 63) :
    r.seqs (r.slot r.head) = r.head + 1 := by
  have hseq := (h.queued 0 (by simp)).1
  rw [h.head, h.slot hk]
  simpa using hseq

/-- Removing the head item and recycling its slot leaves the rest of the queue. -/
theorem advance {item : T} {rest : List T} (h : Represents k H r (item :: rest)) (hk : k ≤ 63) :
    Represents k (H + 1) ({ r with head := r.head + 1 }.storeSeq r.head (r.head + r.mask + 1))
      rest := by
  have hslot : ({ r with head := r.head + 1 } : Ringbuf T).slot r.head = H % 2 ^ k := by
    rw [h.head]
    exact h.slot hk H
  have hle := h.le
  rw [List.length_cons] at hle
  refine ⟨h.mask, ?_, ?_, by omega, fun i hi => ?_, fun i hi hi' => ?_⟩
  · simp [h.head]
  · have htail := h.tail
    rw [List.length_cons, show H + (rest.length + 1) = H + 1 + rest.length by omega] at htail
    exact htail
  · obtain ⟨hseq, hdata⟩ := h.queued (i + 1) (by simpa using hi)
    have hne : (H + (i + 1)) % 2 ^ k ≠ H % 2 ^ k :=
      (TicketRing.slot_ne (by omega) (by omega)).symm
    rw [show H + 1 + i = H + (i + 1) by omega]
    simp only [Ringbuf.storeSeq_seqs, Ringbuf.storeSeq_data, hslot, Function.update_of_ne hne]
    exact ⟨hseq, by simpa using hdata⟩
  -- the last position of the window is the recycled slot, one lap later
  · by_cases hlast : i = 2 ^ k - 1
    · rw [show H + 1 + i = H + 2 ^ k by omega, Nat.add_mod_right]
      simp only [Ringbuf.storeSeq_seqs, hslot, Function.update_self]
      rw [h.head]
      exact h.lap H
    · have hne : (H + (i + 1)) % 2 ^ k ≠ H % 2 ^ k :=
        (TicketRing.slot_ne (by omega) (by omega)).symm
      rw [show H + 1 + i = H + (i + 1) by omega]
      simp only [Ringbuf.storeSeq_seqs, hslot, Function.update_of_ne hne]
      exact h.free (i + 1) (by simpa using hi) (by omega)

/-- Dequeuing from a non-empty ring takes the oldest item. -/
theorem take_cons {item : T} {rest : List T} (h : Represents k H r (item :: rest)) (hk : k ≤ 63) :
    ∃ r', r.take = some (r', some item) ∧ Represents k (H + 1) r' rest ∧
      r'.evicted = r.evicted := by
  have hdiff : r.popDiff r.head = 0 := Words.signed_sub_eq_zero.mpr (h.seq_head hk)
  have hdata : r.data (r.slot r.head) = item := by
    have := (h.queued 0 (by simp)).2
    rw [h.head, h.slot hk]
    simpa using this
  refine ⟨_, ?_, h.advance hk, rfl⟩
  simp only [Ringbuf.take, hdiff, if_true, hdata]

/-- Dequeuing from an empty ring changes nothing. -/
theorem take_nil (h : Represents k H r []) (hk : k ≤ 63) : r.take = some (r, none) := by
  have hseq : r.seqs (r.slot r.head) = UInt64.ofNat H := by
    rw [h.head, h.slot hk]
    simpa using h.free 0 (by simp) (Nat.two_pow_pos k)
  have hneg : r.popDiff r.head < 0 := by
    unfold Ringbuf.popDiff
    rw [hseq, h.head, ← UInt64.ofNat_one, ← UInt64.ofNat_add]
    exact Words.signed_sub_ofNat_neg (by omega) (by omega)
  have hne : r.popDiff r.head ≠ 0 := fun h0 => by simp [h0] at hneg
  simp only [Ringbuf.take, hne, hneg, if_false, if_true]

/-- Evicting from a non-empty ring removes the oldest item and counts it. -/
theorem evict_cons {item : T} {rest : List T} (h : Represents k H r (item :: rest))
    (hk : k ≤ 63) :
    Represents k (H + 1) r.evictOldest rest ∧ r.evictOldest.evicted = r.evicted + 1 := by
  have hevict : r.evictOldest =
      { { r with head := r.head + 1 }.storeSeq r.head (r.head + r.mask + 1) with
        evicted := r.evicted + 1 } := by
    unfold Ringbuf.evictOldest
    rw [if_pos (h.seq_head hk)]
  rw [hevict]
  obtain ⟨hmask, hhead, htail, hle, hqueued, hfree⟩ := h.advance hk
  exact ⟨⟨hmask, hhead, htail, hle, hqueued, hfree⟩, rfl⟩

/-- Pushing on a ring with room appends the item. -/
theorem push_room (h : Represents k H r items) (hk : k ≤ 63) (hroom : items.length < 2 ^ k)
    (item : T) (policy : BackpressurePolicy) (left : Nat) :
    ∃ r', Ringbuf.pushLoop item policy left r = some (r', true) ∧
      Represents k H r' (items ++ [item]) ∧ r'.evicted = r.evicted := by
  have hslot : r.slot r.tail = (H + items.length) % 2 ^ k := by
    rw [h.tail]
    exact h.slot hk _
  have hdiff : r.pushDiff r.tail = 0 := by
    refine Words.signed_sub_eq_zero.mpr ?_
    rw [hslot, h.tail]
    exact h.free items.length le_rfl hroom
  have hne : ∀ i, i ≠ items.length → i < 2 ^ k → (H + i) % 2 ^ k ≠ (H + items.length) % 2 ^ k := by
    intro i hi hlt
    exact TicketRing.slot_ne_of_window H (by omega) (by omega) (by omega) (by omega)
      (by omega)
  refine ⟨({ r with tail := r.tail + 1 }.storeData r.tail item).storeSeq r.tail (r.tail + 1),
    ?_, ?_, rfl⟩
  · unfold Ringbuf.pushLoop
    simp only [hdiff, if_true]
  have hslot' : ({ r with tail := r.tail + 1 } : Ringbuf T).slot r.tail =
      (H + items.length) % 2 ^ k := hslot
  refine ⟨h.mask, h.head, ?_, ?_, fun i hi => ?_, fun i hi hi' => ?_⟩
  · simp only [Ringbuf.storeSeq_tail, Ringbuf.storeData_tail, h.tail, List.length_append,
      List.length_singleton, ← UInt64.ofNat_one, ← UInt64.ofNat_add]
    rfl
  · simp only [List.length_append, List.length_singleton]
    omega
  · simp only [List.length_append, List.length_singleton] at hi
    simp only [Ringbuf.storeSeq_seqs, Ringbuf.storeSeq_data, Ringbuf.storeData_data,
      Ringbuf.slot_storeData, hslot']
    by_cases hlast : i = items.length
    · subst hlast
      simp [h.tail]
    · obtain ⟨hseq, hdata⟩ := h.queued i (by omega)
      simp only [Function.update_of_ne (hne i hlast (by omega)), Ringbuf.storeData_seqs]
      refine ⟨hseq, ?_⟩
      rw [hdata, List.getElem_append_left]
  · simp only [List.length_append, List.length_singleton] at hi
    simp only [Ringbuf.storeSeq_seqs, Ringbuf.slot_storeData, hslot', Ringbuf.storeData_seqs,
      Function.update_of_ne (hne i (by omega) hi')]
    exact h.free i (by omega) hi'

/-- The tail slot of a full ring is behind the tail by less than a lap. With a single slot it
would equal the tail, and the ring would look free. -/
theorem full_diff (h : Represents k H r items) (hk : 1 ≤ k) (hk' : k ≤ 63)
    (hfull : items.length = 2 ^ k) : r.pushDiff r.tail < 0 ∧ r.pushDiff r.tail ≠ 0 := by
  have htwo : 2 ≤ 2 ^ k := by
    have := Nat.pow_le_pow_right (n := 2) (by omega) hk
    omega
  have hcap : 2 ^ k ≤ 2 ^ 63 := Nat.pow_le_pow_right (by omega) hk'
  have hseq : r.seqs (r.slot r.tail) = UInt64.ofNat (H + 1) := by
    have := (h.queued 0 (by omega)).1
    rw [h.tail, h.slot hk', hfull, Nat.add_mod_right]
    simpa using this
  have hneg : r.pushDiff r.tail < 0 := by
    unfold Ringbuf.pushDiff
    rw [hseq, h.tail, hfull]
    exact Words.signed_sub_ofNat_neg (by omega) (by omega)
  exact ⟨hneg, fun h0 => by simp [h0] at hneg⟩

end Represents

/-! ## One call -/

variable {k H : Nat} {r : Ringbuf T} {q : Queue T}

/-- A push does to the ring what it does to the queue. -/
theorem push_refines (hk : 1 ≤ k) (hk' : k ≤ 63) (h : Represents k H r q.items)
    (hev : r.evicted = UInt64.ofNat q.evicted) (item : T) (policy : BackpressurePolicy) :
    ∃ r' H', r.push item policy = some (r', (q.push (2 ^ k) item policy).2) ∧
      Represents k H' r' (q.push (2 ^ k) item policy).1.items ∧
      r'.evicted = UInt64.ofNat (q.push (2 ^ k) item policy).1.evicted := by
  unfold Queue.push Ringbuf.push
  by_cases hroom : q.items.length < 2 ^ k
  · obtain ⟨r', hr', hrep, hsame⟩ := h.push_room hk' hroom item policy maxEvictRetries
    simp only [hroom, if_true]
    exact ⟨r', H, hr', hrep, hsame.trans hev⟩
  · have hfull : q.items.length = 2 ^ k := by have := h.le; omega
    obtain ⟨hneg, hne⟩ := h.full_diff hk hk' hfull
    unfold Ringbuf.pushLoop
    simp only [hroom, hne, hneg, if_true, if_false]
    by_cases hpolicy : policy = .dropNewest
    · simp only [hpolicy, if_true]
      exact ⟨r, H, rfl, h, hev⟩
    · -- the eviction frees the tail slot, so the second attempt succeeds
      simp only [hpolicy, if_false, maxEvictRetries]
      cases hitems : q.items with
      | nil =>
          rw [hitems] at hfull
          exact absurd hfull.symm (Nat.two_pow_pos k).ne'
      | cons oldest rest =>
          rw [hitems] at h hfull
          obtain ⟨hrep, hcount⟩ := h.evict_cons hk'
          obtain ⟨r', hr', hrep', hsame⟩ := hrep.push_room hk'
            (by rw [← hfull]; simp) item policy 127
          refine ⟨r', H + 1, hr', hrep', ?_⟩
          rw [hsame, hcount, hev, ← UInt64.ofNat_one, ← UInt64.ofNat_add]

/-- A dequeue does to the ring what it does to the queue. -/
theorem take_refines (hk' : k ≤ 63) (h : Represents k H r q.items)
    (hev : r.evicted = UInt64.ofNat q.evicted) :
    ∃ r' H', r.take = some (r', q.take.2) ∧ Represents k H' r' q.take.1.items ∧
      r'.evicted = UInt64.ofNat q.take.1.evicted := by
  unfold Queue.take
  cases hitems : q.items with
  | nil =>
      rw [hitems] at h
      exact ⟨r, H, h.take_nil hk', by rwa [hitems], hev⟩
  | cons oldest rest =>
      rw [hitems] at h
      obtain ⟨r', hr', hrep, hsame⟩ := h.take_cons hk'
      exact ⟨r', H + 1, hr', hrep, hsame.trans hev⟩

/-- One complete call returns what the queue returns and leaves the ring representing it. -/
theorem exec_refines [Serializable T] (hk : 1 ≤ k) (hk' : k ≤ 63) (h : Represents k H r q.items)
    (hev : r.evicted = UInt64.ofNat q.evicted) (c : Call T) :
    ∃ r' H', r.exec c = some (r', (q.exec (2 ^ k) c).2) ∧
      Represents k H' r' (q.exec (2 ^ k) c).1.items ∧
      r'.evicted = UInt64.ofNat (q.exec (2 ^ k) c).1.evicted := by
  cases c with
  | push item policy =>
      obtain ⟨r', H', hr', hrep, hcount⟩ := push_refines hk hk' h hev item policy
      exact ⟨r', H', by simp [Ringbuf.exec, Queue.exec, hr'], hrep, hcount⟩
  | pop =>
      obtain ⟨r', H', hr', hrep, hcount⟩ := take_refines hk' h hev
      exact ⟨r', H', by simp [Ringbuf.exec, Queue.exec, Ringbuf.pop, hr'], hrep, hcount⟩
  | popMarshal buf =>
      obtain ⟨r', H', hr', hrep, hcount⟩ := take_refines hk' h hev
      cases htake : q.take with
      | mk q' item =>
          rw [htake] at hr' hrep hcount
          cases item with
          | none =>
              exact ⟨r', H', by simp [Ringbuf.exec, Queue.exec, Ringbuf.popMarshal, hr', htake],
                by simpa [Queue.exec, htake] using hrep, by simpa [Queue.exec, htake] using hcount⟩
          | some item =>
              exact ⟨r', H', by simp [Ringbuf.exec, Queue.exec, Ringbuf.popMarshal, hr', htake],
                by simpa [Queue.exec, htake] using hrep, by simpa [Queue.exec, htake] using hcount⟩

/-! ## Any sequence of calls -/

/-- Any sequence of calls returns what the queue returns. -/
theorem run_refines [Serializable T] (hk : 1 ≤ k) (hk' : k ≤ 63) (h : Represents k H r q.items)
    (hev : r.evicted = UInt64.ofNat q.evicted) (calls : List (Call T)) :
    ∃ r' H', runCalls r calls = some (r', (q.run (2 ^ k) calls).2) ∧
      Represents k H' r' (q.run (2 ^ k) calls).1.items ∧
      r'.evicted = UInt64.ofNat (q.run (2 ^ k) calls).1.evicted := by
  induction calls generalizing r H q with
  | nil => exact ⟨r, H, rfl, h, hev⟩
  | cons c calls ih =>
      obtain ⟨r₁, H₁, hexec, hrep, hcount⟩ := exec_refines hk hk' h hev c
      obtain ⟨r₂, H₂, hrun, hrep₂, hcount₂⟩ := ih hrep hcount
      refine ⟨r₂, H₂, ?_, hrep₂, hcount₂⟩
      refine Transition.run_cons_eq_some.mpr ⟨r₁, [_], _, ?_, hrun, rfl⟩
      rw [hexec]
      rfl

/-- Complete calls on a ring of `2 ^ k` slots return exactly what they return on a list of
capacity `2 ^ k`, for sequences of any length and hence across every wrap of the cursors; the
eviction counter is the number of evictions modulo `2 ^ 64`. -/
theorem sequential_fifo [Inhabited T] [Serializable T] (hk : 1 ≤ k) (hk' : k ≤ 63)
    (hnew : newRingbuf (UInt64.ofNat (2 ^ k)) = some r) (calls : List (Call T)) :
    ∃ r' H', runCalls r calls = some (r', (Queue.empty.run (2 ^ k) calls).2) ∧
      Represents k H' r' (Queue.empty.run (2 ^ k) calls).1.items ∧
      r'.evicted = UInt64.ofNat (Queue.empty.run (2 ^ k) calls).1.evicted := by
  have hev : r.evicted = UInt64.ofNat (Queue.empty (T := T)).evicted := by
    obtain ⟨_, rfl⟩ := newRingbuf_eq_some hnew
    rfl
  exact run_refines hk hk' (q := Queue.empty) (.initial hk' hnew) hev calls

/-- Three pushes on two slots evict the first item; the drain then sees the other two. -/
theorem sequential_fifo_evicts : ∃ (r : Ringbuf (List UInt8)) (r' : Ringbuf (List UInt8)),
    newRingbuf (UInt64.ofNat (2 ^ 1)) = some r ∧
    runCalls r [.push [1] .dropOldest, .push [2] .dropOldest, .push [3] .dropOldest, .pop, .pop,
      .pop] = some (r', [.push true, .push true, .push true, .pop (some [2]), .pop (some [3]),
      .pop none]) ∧ r'.evicted = 1 := by
  obtain ⟨r', H', hrun, _, hev⟩ := sequential_fifo (T := List UInt8) (k := 1) (by decide)
    (by decide) rfl [.push [1] .dropOldest, .push [2] .dropOldest, .push [3] .dropOldest, .pop,
      .pop, .pop]
  exact ⟨_, r', rfl, hrun, hev⟩

/-! ## The accepted sizes -/

/-- The number of items that the cursors say are queued. -/
def depth (r : Ringbuf T) : UInt64 := r.tail - r.head

/-- A represented ring's cursors are as far apart as its queue is long. -/
theorem Represents.toNat_depth {items : List T} (h : Represents k H r items) (hk' : k ≤ 63) :
    (depth r).toNat = items.length := by
  have hcap : 2 ^ k ≤ 2 ^ 63 := Nat.pow_le_pow_right (by omega) hk'
  have hle := h.le
  unfold depth
  rw [h.tail, h.head, Words.toNat_ofNat_sub (d := items.length) rfl]
  omega

/-- An accepted size other than 1 is a power of two with a positive exponent. -/
theorem exists_size {size : UInt64} (haccept : acceptsQueueSize size = true) (hne : size ≠ 1) :
    ∃ k, 1 ≤ k ∧ k ≤ 63 ∧ size = UInt64.ofNat (2 ^ k) := by
  simp only [acceptsQueueSize, Bool.not_eq_true', Bool.or_eq_false_iff, beq_eq_false_iff_ne,
    bne_eq_false_iff_eq, ne_eq] at haccept
  obtain ⟨k, hk, hsize⟩ := Words.exists_two_pow haccept.1 haccept.2
  have heq : size = UInt64.ofNat (2 ^ k) := by rw [← hsize, UInt64.ofNat_toNat]
  refine ⟨k, ?_, hk, heq⟩
  by_contra h0
  have hk0 : k = 0 := by omega
  subst hk0
  exact hne heq

/-- A ring of a single slot whose sequence number is the tail position. -/
structure OneSlot (r : Ringbuf T) : Prop where
  mask : r.mask = 0
  seq : r.seqs 0 = r.tail

/-- The single slot of a ring of size 1. -/
theorem OneSlot.slot (h : OneSlot r) (pos : UInt64) : r.slot pos = 0 := by
  simp [Ringbuf.slot, h.mask]

/-- The single slot looks free again as soon as it is published, so every push is accepted and
overwrites the item before it. -/
theorem OneSlot.push (h : OneSlot r) (item : T) (policy : BackpressurePolicy) :
    ∃ r', r.push item policy = some (r', true) ∧ OneSlot r' ∧ r'.head = r.head ∧
      r'.tail = r.tail + 1 ∧ r'.data 0 = item := by
  have hdiff : r.pushDiff r.tail = 0 :=
    Words.signed_sub_eq_zero.mpr (by rw [h.slot, h.seq])
  have hslot : ({ r with tail := r.tail + 1 } : Ringbuf T).slot r.tail = 0 := h.slot r.tail
  refine ⟨({ r with tail := r.tail + 1 }.storeData r.tail item).storeSeq r.tail (r.tail + 1),
    ?_, ⟨h.mask, ?_⟩, rfl, rfl, ?_⟩
  · unfold Ringbuf.push Ringbuf.pushLoop
    simp only [hdiff, if_true]
  · simp [hslot]
  · simp [hslot]

/-- A ring made with size 1. -/
theorem OneSlot.initial [Inhabited T] (hnew : newRingbuf 1 = some r) :
    OneSlot r ∧ r.head = 0 ∧ r.tail = 0 := by
  obtain ⟨_, rfl⟩ := newRingbuf_eq_some hnew
  exact ⟨⟨rfl, rfl⟩, rfl, rfl⟩

/-- On a ring made with an accepted size, every sequence of complete calls returns, never leaving
more than that many items queued, exactly when the size is not 1. -/
theorem queue_works_iff [Inhabited T] [Serializable T] {size : UInt64}
    (hnew : newRingbuf size = some r) :
    (∀ calls : List (Call T), ∃ r' results, runCalls r calls = some (r', results) ∧
      (depth r').toNat ≤ size.toNat) ↔ size ≠ 1 := by
  constructor
  · rintro hworks rfl
    obtain ⟨hone, hhead, htail⟩ := OneSlot.initial hnew
    obtain ⟨r₁, hpush₁, hone₁, hhead₁, htail₁, _⟩ := hone.push default .dropNewest
    obtain ⟨r₂, hpush₂, _, hhead₂, htail₂, _⟩ := hone₁.push default .dropNewest
    have htwo : runCalls r [.push default .dropNewest, .push default .dropNewest] =
        some (r₂, [.push true, .push true]) := by
      simp [runCalls, Transition.run, Ringbuf.exec, hpush₁, hpush₂]
    obtain ⟨r', results, hrun, hdepth⟩ :=
      hworks [.push default .dropNewest, .push default .dropNewest]
    rw [htwo] at hrun
    cases hrun
    rw [depth, htail₂, htail₁, htail, hhead₂, hhead₁, hhead] at hdepth
    exact absurd hdepth (by decide)
  · intro hne calls
    obtain ⟨k, hk, hk', rfl⟩ := exists_size (newRingbuf_eq_some hnew).1 hne
    obtain ⟨r', H', hrun, hrep, _⟩ := sequential_fifo hk hk' hnew calls
    refine ⟨r', _, hrun, ?_⟩
    have hcap : 2 ^ k ≤ 2 ^ 63 := Nat.pow_le_pow_right (by omega) hk'
    rw [UInt64.toNat_ofNat', Nat.mod_eq_of_lt (by omega)]
    rw [hrep.toNat_depth hk']
    exact hrep.le

theorem queue_works_iff_two : ∃ r : Ringbuf (List UInt8), newRingbuf 2 = some r ∧
    ∀ calls : List (Call (List UInt8)), ∃ r' results, runCalls r calls = some (r', results) ∧
      (depth r').toNat ≤ 2 :=
  ⟨_, rfl, (queue_works_iff rfl).mpr (show (2 : UInt64) ≠ 1 by decide)⟩

/-- A ring of one slot accepts a second push over the first item and then never returns from
`pop`. -/
theorem one_slot_hangs : ∃ r : Ringbuf (List UInt8), newRingbuf 1 = some r ∧
    (∃ r', runCalls r [.push [1] .dropNewest, .push [2] .dropNewest] =
      some (r', [.push true, .push true]) ∧ depth r' = 2) ∧
    runCalls r [.push [1] .dropNewest, .push [2] .dropNewest, .pop] = none :=
  ⟨_, rfl, ⟨_, rfl, rfl⟩, rfl⟩

end TickBatch.Ring
