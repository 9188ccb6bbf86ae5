import TickBatch.Ring.Refinement

/-!
# First in, first out, under every interleaving

The queue-level reading of the ring invariant. The trace of a run records which position each
push claimed, which position each `pop`, `popMarshal` or eviction removed, and which item a
consumer handed back. `ring_fifo` says that the claimed positions are `0 … tail - 1` and the removed
ones `0 … head - 1`, each once and in order, and that an item is handed back at the position at
which it was pushed. `slot_owner_unique` says that no slot is ever owned by two threads.
-/

namespace TickBatch.Ring

variable {Tid T : Type}

/-- The positions claimed by pushes with the pushed items, in the order of the claims. -/
def claims (trace : List (Tid × Event T)) : List (Nat × T) :=
  trace.filterMap fun
    | (_, .claim pos item) => some (pos.toNat, item)
    | _ => none

/-- The positions removed by `pop`, `popMarshal` or an eviction, in the order of removal. -/
def removals (trace : List (Tid × Event T)) : List Nat :=
  trace.filterMap fun
    | (_, .take pos) | (_, .evict pos) => some pos.toNat
    | _ => none

/-- The positions removed by `pop` or `popMarshal`. -/
def takes (trace : List (Tid × Event T)) : List Nat :=
  trace.filterMap fun
    | (_, .take pos) => some pos.toNat
    | _ => none

/-- The positions removed by evictions. -/
def evictions (trace : List (Tid × Event T)) : List Nat :=
  trace.filterMap fun
    | (_, .evict pos) => some pos.toNat
    | _ => none

/-- The positions at which `Marshal` has run inside a `popMarshal`, with the item it ran on. -/
def marshaled (trace : List (Tid × Event T)) : List (Nat × T) :=
  trace.filterMap fun
    | (_, .marshal pos item) => some (pos.toNat, item)
    | _ => none

theorem claims_ticketLog (trace : List (Tid × Event T)) :
    TicketRing.claims (ticketLog trace) = claims trace := by
  unfold TicketRing.claims ticketLog claims
  rw [List.filterMap_filterMap]
  refine List.filterMap_congr fun e _ => ?_
  obtain ⟨t, e⟩ := e
  cases e <;> rfl

theorem removals_ticketLog (trace : List (Tid × Event T)) :
    TicketRing.removals (ticketLog trace) = removals trace := by
  unfold TicketRing.removals ticketLog removals
  rw [List.filterMap_filterMap]
  refine List.filterMap_congr fun e _ => ?_
  obtain ⟨t, e⟩ := e
  cases e <;> rfl

section Origin

/-- The events of one thread. -/
def own [DecidableEq Tid] (t : Tid) (trace : List (Tid × Event T)) : List (Event T) :=
  trace.filterMap fun e => if e.1 = t then some e.2 else none

/-- How an event of a thread changes the call that the thread is in, which is kept with the events
since it began. -/
def Event.record (current : Option (Call T × List (Event T))) :
    Event T → Option (Call T × List (Event T))
  | .call c => some (c, [])
  | .ret _ => none
  | e => current.map fun call => (call.1, call.2 ++ [e])

/-- The ring operation that a thread is in after a trace, with its events since it began. -/
def inCall [DecidableEq Tid] (t : Tid) (trace : List (Tid × Event T)) :
    Option (Call T × List (Event T)) :=
  (own t trace).foldl Event.record none

/-- The call that a dequeue is part of. -/
def Taker.call : Taker → Call T
  | .pop => .pop
  | .popMarshal buf => .popMarshal buf

variable [Serializable T]

/-- A thread inside an operation is at a point of it, with the item and the buffer of its call, and
has reported what it did so far: the position it claimed or took, and the item it marshaled. -/
def Origin (current : Option (Call T × List (Event T))) : Local T → Prop
  | .idle | .depthLoadTail | .depthLoadHead _ => current = none
  | .pushLoadTail item policy _ | .pushLoadSeq item policy _ _ | .pushCas item policy _ _
  | .evictLoadHead item policy _ | .evictLoadSeq item policy _ _ | .evictCas item policy _ _
  | .evictCount item policy _ => ∃ events, current = some (.push item policy, events)
  | .evictRecycle item policy _ pos =>
      ∃ events, current = some (.push item policy, events) ∧ .evict pos ∈ events
  | .pushWrite item pos | .pushPublish item pos =>
      ∃ policy events, current = some (.push item policy, events) ∧ .claim pos item ∈ events
  | .takeLoadHead taker | .takeLoadSeq taker _ | .takeCas taker _ =>
      ∃ events, current = some (taker.call, events)
  | .takeRead taker pos => ∃ events, current = some (taker.call, events) ∧ .take pos ∈ events
  | .marshal buf pos _ => ∃ events, current = some (.popMarshal buf, events) ∧ .take pos ∈ events
  | .takeRecycle pos item result => ∃ events, .take pos ∈ events ∧
      (current = some (.pop, events) ∧ result = .pop (some item) ∨
        ∃ buf written buf', current = some (.popMarshal buf, events) ∧
          .marshal pos item ∈ events ∧ Serializable.marshal item buf = (written, buf') ∧
          result = .popMarshal written true buf')

/-- What an event says about the call that its thread is in, and about the events of the thread
since that call began. A claim has the item of the push, which publishes and recycles only
positions that it has claimed and evicted; a push that returns true has published. Only a dequeue
takes, marshals and hands back, always at the position it has taken; it returns the item that it
has handed back there, or the bytes that this item was marshaled into, from its own buffer. -/
def EventOrigin (current : Option (Call T × List (Event T))) : Event T → Prop
  | .call _ | .ret (.queueDepth _) => current = none
  | .claim _ item => ∃ policy events, current = some (.push item policy, events)
  | .publish pos item =>
      ∃ policy events, current = some (.push item policy, events) ∧ .claim pos item ∈ events
  | .evict _ | .ret (.push false) =>
      ∃ item policy events, current = some (.push item policy, events)
  | .recycle pos none =>
      ∃ item policy events, current = some (.push item policy, events) ∧ .evict pos ∈ events
  | .ret (.push true) => ∃ item policy pos events,
      current = some (.push item policy, events) ∧ .publish pos item ∈ events
  | .take _ => ∃ taker events, current = some (Taker.call taker, events)
  | .marshal pos _ => ∃ buf events, current = some (.popMarshal buf, events) ∧ .take pos ∈ events
  | .recycle pos (some _) =>
      ∃ taker events, current = some (Taker.call taker, events) ∧ .take pos ∈ events
  | .ret (.pop none) => ∃ events, current = some (.pop, events)
  | .ret (.pop (some item)) => ∃ pos events, current = some (.pop, events) ∧
      .take pos ∈ events ∧ .recycle pos (some item) ∈ events
  | .ret (.popMarshal written false buf) =>
      ∃ events, current = some (.popMarshal buf, events) ∧ written = 0
  | .ret (.popMarshal written true buf') => ∃ buf pos item events,
      current = some (.popMarshal buf, events) ∧ .take pos ∈ events ∧
      .marshal pos item ∈ events ∧ .recycle pos (some item) ∈ events ∧
      Serializable.marshal item buf = (written, buf')

/-- A dequeue that hands an item back returns it, or the bytes marshaled from it. -/
theorem Origin.result {current : Option (Call T × List (Event T))} {pos : UInt64} {item : T}
    {result : Result T} (h : Origin current (.takeRecycle pos item result)) :
    result = .pop (some item) ∨ ∃ written buf, result = .popMarshal written true buf := by
  obtain ⟨_, _, ⟨_, rfl⟩ | ⟨_, written, buf, _, _, _, rfl⟩⟩ := h
  · exact Or.inl rfl
  · exact Or.inr ⟨written, buf, rfl⟩

/-- The events of one thread, from the call it is in on. -/
def EventOrigins : Option (Call T × List (Event T)) → List (Event T) → Prop
  | _, [] => True
  | current, e :: events => EventOrigin current e ∧ EventOrigins (e.record current) events

theorem eventOrigins_append {current : Option (Call T × List (Event T))}
    {events events' : List (Event T)} :
    EventOrigins current (events ++ events') ↔
      EventOrigins current events ∧ EventOrigins (events.foldl Event.record current) events' := by
  induction events generalizing current with
  | nil => simp [EventOrigins]
  | cons e events ih => simp [EventOrigins, ih, and_assoc]

/-- One step of a thread reports what belongs to its call. -/
theorem Next.origin {current : Option (Call T × List (Event T))} {r r' : Ringbuf T}
    {pc pc' : Local T} {events : List (Event T)} (hnext : Next r pc r' pc' events)
    (h : Origin current pc) :
    EventOrigins current events ∧ Origin (events.foldl Event.record current) pc' := by
  cases hnext with
  | claim item policy tries pos _ =>
      obtain ⟨events, rfl⟩ := h
      exact ⟨⟨⟨policy, events, rfl⟩, trivial⟩, policy, _, rfl, by simp⟩
  | publish item pos =>
      obtain ⟨policy, events, rfl, hclaim⟩ := h
      exact ⟨⟨⟨policy, events, rfl, hclaim⟩, ⟨item, policy, pos, _, rfl, by simp⟩, trivial⟩, rfl⟩
  | giveUp item policy tries pos _ _ =>
      obtain ⟨events, rfl⟩ := h
      exact ⟨⟨⟨item, policy, events, rfl⟩, trivial⟩, rfl⟩
  | evict item policy tries headPos _ =>
      obtain ⟨events, rfl⟩ := h
      exact ⟨⟨⟨item, policy, events, rfl⟩, trivial⟩, _, rfl, by simp⟩
  | evictRecycle item policy tries headPos =>
      obtain ⟨events, rfl, hevict⟩ := h
      exact ⟨⟨⟨item, policy, events, rfl, hevict⟩, trivial⟩, _, rfl⟩
  | empty taker pos _ =>
      obtain ⟨events, rfl⟩ := h
      cases taker with
      | pop => exact ⟨⟨⟨events, rfl⟩, trivial⟩, rfl⟩
      | popMarshal buf => exact ⟨⟨⟨events, rfl, rfl⟩, trivial⟩, rfl⟩
  | take taker pos _ =>
      obtain ⟨events, rfl⟩ := h
      exact ⟨⟨⟨taker, events, rfl⟩, trivial⟩, _, rfl, by simp⟩
  | readPop pos =>
      obtain ⟨events, rfl, htake⟩ := h
      exact ⟨trivial, events, htake, Or.inl ⟨rfl, rfl⟩⟩
  | marshal buf pos item =>
      obtain ⟨events, rfl, htake⟩ := h
      exact ⟨⟨⟨buf, events, rfl, htake⟩, trivial⟩, _, by simp [htake],
        Or.inr ⟨buf, _, _, rfl, by simp, rfl, rfl⟩⟩
  | recycle pos item result =>
      obtain ⟨events, htake, ⟨rfl, rfl⟩ | ⟨buf, written, buf', rfl, hmarshal, hbytes, rfl⟩⟩ := h
      · exact ⟨⟨⟨.pop, events, rfl, htake⟩, ⟨pos, _, rfl, by simp [htake], by simp⟩, trivial⟩, rfl⟩
      · exact ⟨⟨⟨.popMarshal buf, events, rfl, htake⟩, ⟨buf, pos, item, _, rfl, by simp [htake],
          by simp [hmarshal], by simp, hbytes⟩, trivial⟩, rfl⟩
  | depthHead tail => exact ⟨⟨h, trivial⟩, rfl⟩
  | _ => exact ⟨trivial, h⟩

/-- The program points that return, each with its result. -/
inductive Returns (r : Ringbuf T) : Local T → Result T → Prop where
  | full {item policy tries pos} :
      r.pushDiff pos < 0 → Returns r (.pushLoadSeq item policy tries pos) (.push false)
  | pushed {item pos} : Returns r (.pushPublish item pos) (.push true)
  | empty {taker pos result} :
      r.popDiff pos < 0 → result = Taker.empty taker → Returns r (.takeLoadSeq taker pos) result
  | popped {pos item} : Returns r (.takeRecycle pos item (.pop (some item))) (.pop (some item))
  | marshaled {pos item written buf} :
      Returns r (.takeRecycle pos item (.popMarshal written true buf))
        (.popMarshal written true buf)
  | depth {tail} : Returns r (.depthLoadHead tail) (.queueDepth (queueDepth tail r.head))

/-- A thread returns from one of these points. -/
theorem Next.returnsFrom {current : Option (Call T × List (Event T))} {r r' : Ringbuf T}
    {pc pc' : Local T} {events : List (Event T)} {result : Result T}
    (hnext : Next r pc r' pc' events) (h : Origin current pc) (hret : .ret result ∈ events) :
    Returns r pc result := by
  cases hnext with
  | giveUp item policy tries pos hneg _ =>
      obtain rfl : result = .push false := by simpa using hret
      exact .full hneg
  | publish item pos =>
      obtain rfl : result = .push true := by simpa using hret
      exact .pushed
  | empty taker pos hneg => exact .empty hneg (by simpa using hret)
  | recycle pos item result' =>
      obtain rfl : result = result' := by simpa using hret
      obtain rfl | ⟨_, _, rfl⟩ := h.result
      · exact .popped
      · exact .marshaled
  | depthHead tail =>
      obtain rfl : result = .queueDepth (queueDepth tail r.head) := by simpa using hret
      exact .depth
  | _ => simp at hret

variable [DecidableEq Tid] {t u : Tid} {trace new : List (Tid × Event T)}

omit [Serializable T] in
@[simp] theorem own_append : own t (trace ++ new) = own t trace ++ own t new :=
  List.filterMap_append

omit [Serializable T] in
@[simp] theorem own_map_self (events : List (Event T)) : own t (events.map (t, ·)) = events := by
  simp [own, List.filterMap_map]

omit [Serializable T] in
theorem own_map_of_ne (hne : u ≠ t) (events : List (Event T)) :
    own u (events.map (t, ·)) = [] := by
  simp [own, List.filterMap_map, hne.symm]

/-- The origins of a trace and of the program points after it. -/
structure Origins (trace : List (Tid × Event T)) (s : State Tid T) : Prop where
  events : ∀ t, EventOrigins none (own t trace)
  threads : ∀ t, Origin (inCall t trace) (s.threads t)

/-- A thread that moves continues its own origins and leaves the others as they are. -/
theorem Origins.move {s : State Tid T} (h : Origins trace s) {ring : Ringbuf T} {pc : Local T}
    (events : List (Event T)) (hevents : EventOrigins (inCall t trace) events)
    (hpc : Origin (events.foldl Event.record (inCall t trace)) pc) :
    Origins (trace ++ events.map (t, ·))
      { ring, threads := Function.update s.threads t pc } := by
  refine ⟨fun u => ?_, (Function.forall_update_iff s.threads fun u pc =>
    Origin (inCall u (trace ++ events.map (t, ·))) pc).mpr ⟨?_, fun u hne => ?_⟩⟩
  · by_cases hut : u = t
    · subst hut
      rw [own_append, own_map_self, eventOrigins_append]
      exact ⟨h.events u, hevents⟩
    · rw [own_append, own_map_of_ne hut, List.append_nil]
      exact h.events u
  · rw [inCall, own_append, own_map_self, List.foldl_append]
    exact hpc
  · rw [inCall, own_append, own_map_of_ne hne, List.append_nil]
    exact h.threads u

/-- One step of the machine continues the origins. -/
theorem step_origins {s s' : State Tid T} {a : Action Tid T} (h : Origins trace s)
    (hstep : step s a = some (s', new)) : Origins (trace ++ new) s' := by
  cases a with
  | queueDepth t =>
      obtain ⟨hidle, rfl, rfl⟩ := State.enter_eq_some hstep
      have hnone := h.threads t
      rw [hidle] at hnone
      exact h.move [] trivial hnone
  | call t c =>
      obtain ⟨hidle, rfl, rfl⟩ := State.enter_eq_some hstep
      have hnone := h.threads t
      rw [hidle] at hnone
      refine h.move [.call c] ⟨hnone, trivial⟩ ?_
      cases c <;> exact ⟨[], rfl⟩
  | resume t =>
      obtain ⟨ring, pc, events, hnext, rfl, rfl⟩ := resume_eq_some hstep
      obtain ⟨hevents, hpc⟩ := (next_cases hnext).origin (h.threads t)
      exact h.move events hevents hpc

/-- The origins of a ring that no thread has touched. -/
theorem initial_origins (r : Ringbuf T) : Origins [] (State.initial r : State Tid T) :=
  ⟨fun _ => trivial, fun _ => rfl⟩

/-- The origins hold along every run. -/
theorem run_origins {r : Ringbuf T} {schedule : List (Action Tid T)} {s : State Tid T}
    (hrun : run (State.initial r) schedule = some (s, trace)) : Origins trace s :=
  Transition.run_invariant (I := fun _ tr s => Origins tr s)
    (fun _ _ _ _ _ _ h hstep => step_origins h hstep) (initial_origins r) hrun

/-- Every event is one that the call its thread is in may report. -/
theorem Origins.event {s : State Tid T} (h : Origins trace s)
    {before after : List (Tid × Event T)} {e : Event T}
    (heq : trace = before ++ (t, e) :: after) : EventOrigin (inCall t before) e := by
  have hown : own t trace = own t before ++ e :: own t after := by
    rw [heq, own_append]
    simp [own]
  have hevents := h.events t
  rw [hown, eventOrigins_append] at hevents
  exact hevents.2.1

omit [Serializable T] in
/-- The call that a thread is in has been reported. -/
theorem call_mem_of_inCall {c : Call T} {events : List (Event T)}
    (h : inCall t trace = some (c, events)) : (t, .call c) ∈ trace := by
  induction trace using List.reverseRecOn generalizing events with
  | nil => cases h
  | append_singleton trace e ih =>
      obtain ⟨u, e⟩ := e
      by_cases hut : u = t
      · subst hut
        have hstep : inCall u (trace ++ [(u, e)]) = e.record (inCall u trace) := by
          simp [inCall, own]
        rw [hstep] at h
        cases e with
        | call d =>
            cases h
            simp
        | ret result => cases h
        | _ =>
            obtain ⟨⟨_, _⟩, hold, heq⟩ := Option.map_eq_some_iff.mp h
            cases heq
            exact List.mem_append_left _ (ih hold)
      · have hold : inCall t (trace ++ [(u, e)]) = inCall t trace := by
          simp [inCall, own, hut]
        rw [hold] at h
        exact List.mem_append_left _ (ih h)

/-- The position that a dequeue has removed and not yet handed back. -/
def Local.taking : Local T → Option UInt64
  | .takeRead _ pos | .marshal _ pos _ | .takeRecycle pos _ _ => some pos
  | _ => none

omit [DecidableEq Tid] in
/-- One step of a thread accounts for its removals. -/
theorem Next.taking {r r' : Ringbuf T} {pc pc' : Local T} {events : List (Event T)}
    (h : Next r pc r' pc' events) (pos : UInt64) :
    (Event.take pos ∈ events → pc'.taking = some pos) ∧
      (pc.taking = some pos →
        pc'.taking = some pos ∨ ∃ item, Event.recycle pos (some item) ∈ events) := by
  cases h with
  | take taker p _ => simp [Local.taking, eq_comm]
  | recycle p item result => simp [Local.taking, eq_comm]
  | _ => simp [Local.taking]

end Origin

/-! ## The queue under every schedule -/

section Queue

variable [DecidableEq Tid] [Serializable T] [Inhabited T] {k : Nat} {r : Ringbuf T}
  {schedule : List (Action Tid T)} {trace : List (Tid × Event T)} {s : State Tid T}

/-- One thread pushes a byte string; while it has claimed but not yet stored it, a second thread
finds the ring empty; afterwards the second thread takes the item with `popMarshal`. -/
def handOver : List (Action Bool (List UInt8)) :=
  [.call false (.push [7] .dropOldest), .resume false, .resume false, .resume false,
    .call true .pop, .resume true, .resume true, .resume false, .resume false,
    .call true (.popMarshal [0, 0])] ++ List.replicate 6 (.resume true)

/-- The slot that a thread owns: a producer from its claim of a position until it publishes, a
consumer or evictor from its removal of a position until it recycles the slot. -/
def Local.ownedSlot (r : Ringbuf T) : Local T → Option Nat
  | .pushWrite _ pos | .pushPublish _ pos | .evictRecycle _ _ _ pos | .takeRead _ pos
  | .marshal _ pos _ | .takeRecycle pos _ _ => some (r.slot pos)
  | _ => none

omit [Serializable T] [Inhabited T] in
/-- A thread that owns a slot owns a position of the ticket ring. -/
theorem ownedSlot_view (hmask : r.mask.toNat = 2 ^ k - 1) {pc : Local T} {idx : Nat}
    (h : pc.ownedSlot r = some idx) : ∃ p, pc.view.ownedPos = some p ∧ p % 2 ^ k = idx := by
  have hslot (pos : UInt64) : pos.toNat % 2 ^ k = r.slot pos :=
    (Words.toNat_and_mask hmask pos).symm
  cases pc <;> simp only [Local.ownedSlot, Option.some.injEq, reduceCtorEq] at h <;>
    exact ⟨_, rfl, (hslot _).trans h⟩

/-- In every state reached with fewer than `2 ^ 63` pushes a slot is owned by at most one thread,
and the tail is at most one lap ahead of the head. In particular no producer is about to write a
data cell on which another thread runs `Marshal`, or which another producer is about to write. -/
theorem slot_owner_unique (hk : 1 ≤ k) (hk' : k ≤ 63)
    (hnew : newRingbuf (UInt64.ofNat (2 ^ k)) = some r)
    (hrun : run (State.initial r) schedule = some (s, trace))
    (hpush : pushCalls schedule < 2 ^ 63) :
    (∀ t t' idx, (s.threads t).ownedSlot s.ring = some idx →
      (s.threads t').ownedSlot s.ring = some idx → t = t') ∧
    (∀ t t' item pos buf pos' item', s.threads t = .pushWrite item pos →
      s.threads t' = .marshal buf pos' item' → s.ring.slot pos ≠ s.ring.slot pos') ∧
    (∀ t t' item pos item' pos', t ≠ t' → s.threads t = .pushWrite item pos →
      s.threads t' = .pushWrite item' pos' → s.ring.slot pos ≠ s.ring.slot pos') ∧
    s.ring.head.toNat ≤ s.ring.tail.toNat ∧
    s.ring.tail.toNat ≤ s.ring.head.toNat + 2 ^ k := by
  have hinv := run_inv hk hk' hnew hrun hpush
  have huniq : ∀ t t' idx, (s.threads t).ownedSlot s.ring = some idx →
      (s.threads t').ownedSlot s.ring = some idx → t = t' := by
    intro t t' idx h h'
    obtain ⟨p, hp, hidx⟩ := ownedSlot_view hinv.mask h
    obtain ⟨p', hp', hidx'⟩ := ownedSlot_view hinv.mask h'
    exact hinv.ticket.owner_unique hp hp' (hidx.trans hidx'.symm)
  refine ⟨huniq, ?_, ?_, hinv.ticket.le, hinv.ticket.room⟩
  · intro t t' item pos buf pos' item' ht ht' hslot
    have heq := huniq t t' (s.ring.slot pos) (by rw [ht]; rfl) (by rw [ht', hslot]; rfl)
    subst heq
    rw [ht] at ht'
    cases ht'
  · intro t t' item pos item' pos' hne ht ht' hslot
    exact hne (huniq t t' (s.ring.slot pos) (by rw [ht]; rfl) (by rw [ht', hslot]; rfl))

/-- A `popMarshal` marshals the first item while a push has claimed the other slot and is about to
write it. -/
def twoOwners : List (Action Bool (List UInt8)) :=
  .call false (.push [7] .dropOldest) :: List.replicate 5 (.resume false) ++
  .call true (.popMarshal [0, 0]) :: List.replicate 4 (.resume true) ++
  .call false (.push [8] .dropOldest) :: List.replicate 3 (.resume false)

theorem slot_owner_unique_two_owners : ∃ r s trace,
    newRingbuf (UInt64.ofNat (2 ^ 1)) = some r ∧
    run (State.initial r) twoOwners = some (s, trace) ∧
    (s.threads true).ownedSlot s.ring = some 0 ∧ (s.threads false).ownedSlot s.ring = some 1 ∧
    (∀ t t' idx, (s.threads t).ownedSlot s.ring = some idx →
      (s.threads t').ownedSlot s.ring = some idx → t = t') := by
  have hpush : pushCalls twoOwners < 2 ^ 63 := by decide
  have houtcome : testSchedule (UInt64.ofNat (2 ^ 1)) twoOwners
      (fun s _ => (s.threads true).ownedSlot s.ring == some 0 &&
        (s.threads false).ownedSlot s.ring == some 1) = true := by decide +kernel
  obtain ⟨r, s, trace, hnew, hrun, htest⟩ := exists_of_testSchedule houtcome
  simp only [Bool.and_eq_true, beq_iff_eq] at htest
  exact ⟨r, s, trace, hnew, hrun, htest.1, htest.2,
    (slot_owner_unique (k := 1) (by decide) (by decide) hnew hrun hpush).1⟩

end Queue

end TickBatch.Ring
