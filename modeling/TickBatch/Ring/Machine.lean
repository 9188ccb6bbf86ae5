import TickBatch.Lib.Transition
import TickBatch.Lib.TicketInvariant
import TickBatch.Ring.Basic

/-!
# The ring buffer as a shared-memory machine

Any number of threads call `push`, `pop`, `popMarshal` and `QueueDepth` on one ring. `Local` is the
program point of a thread inside a call together with its live variables, and `Local.next` executes
one atomic load, store or compare-and-swap, one read or write of a data cell, or one `Marshal`
call. `step` lets a scheduler pick any thread, which gives every sequentially consistent
interleaving; `Transition.run` executes a schedule and records the events.
-/

namespace TickBatch.Ring

/-- The two functions that dequeue: they differ only in what they do with the item. -/
inductive Taker where
  | pop
  | popMarshal (buf : List UInt8)

/-- The result of finding the ring empty. -/
def Taker.empty {T : Type} : Taker → Result T
  | .pop => .pop none
  | .popMarshal buf => .popMarshal 0 false buf

/-- The program points of `push`, `evictOldest`, `pop`, `popMarshal` and `QueueDepth`, each named
after the access it is about to make. The `evict` points carry the variables of the `push` that
called `evictOldest`. -/
inductive Local (T : Type) where
  | idle
  | pushLoadTail (item : T) (policy : BackpressurePolicy) (evictAttempts : Nat)
  | pushLoadSeq (item : T) (policy : BackpressurePolicy) (evictAttempts : Nat) (pos : UInt64)
  | pushCas (item : T) (policy : BackpressurePolicy) (evictAttempts : Nat) (pos : UInt64)
  | pushWrite (item : T) (pos : UInt64)
  | pushPublish (item : T) (pos : UInt64)
  | evictLoadHead (item : T) (policy : BackpressurePolicy) (evictAttempts : Nat)
  | evictLoadSeq (item : T) (policy : BackpressurePolicy) (evictAttempts : Nat) (headPos : UInt64)
  | evictCas (item : T) (policy : BackpressurePolicy) (evictAttempts : Nat) (headPos : UInt64)
  | evictRecycle (item : T) (policy : BackpressurePolicy) (evictAttempts : Nat) (headPos : UInt64)
  | evictCount (item : T) (policy : BackpressurePolicy) (evictAttempts : Nat)
  | takeLoadHead (taker : Taker)
  | takeLoadSeq (taker : Taker) (pos : UInt64)
  | takeCas (taker : Taker) (pos : UInt64)
  | takeRead (taker : Taker) (pos : UInt64)
  | marshal (buf : List UInt8) (pos : UInt64) (item : T)
  | takeRecycle (pos : UInt64) (item : T) (result : Result T)
  | depthLoadTail
  | depthLoadHead (tail : UInt64)

/-- The observable steps of a thread. `take` and `evict` are successful compare-and-swaps of the
head, `claim` one of the tail; `recycle` carries the item that the call hands back, if any. -/
inductive Event (T : Type) where
  | call (c : Call T)
  | ret (result : Result T)
  | claim (pos : UInt64) (item : T)
  | publish (pos : UInt64) (item : T)
  | take (pos : UInt64)
  | evict (pos : UInt64)
  | marshal (pos : UInt64) (item : T)
  | recycle (pos : UInt64) (taken : Option T)

/-- The program point at which a call starts. -/
def Local.start {T : Type} : Call T → Local T
  | .push item policy => .pushLoadTail item policy 0
  | .pop => .takeLoadHead .pop
  | .popMarshal buf => .takeLoadHead (.popMarshal buf)

/-- The depth that `QueueDepth` computes from the two cursors it has loaded; a head that appears
ahead gives zero. -/
def queueDepth (tail head : UInt64) : UInt64 :=
  if head ≤ tail then tail - head else 0

/-- The continuation of `push` when the tail slot has not been recycled: the ring looks full. -/
def Local.full {T : Type} (item : T) (policy : BackpressurePolicy) (evictAttempts : Nat) :
    Local T × List (Event T) :=
  if policy = .dropNewest then (.idle, [.ret (.push false)])
  else if maxEvictRetries < evictAttempts + 1 then (.idle, [.ret (.push false)])
  else (.evictLoadHead item policy (evictAttempts + 1), [])

/-- One atomic step of a thread inside a call. -/
def Local.next {T : Type} [Serializable T] (r : Ringbuf T) :
    Local T → Option (Ringbuf T × Local T × List (Event T))
  | .idle => none
  | .pushLoadTail item policy tries => some (r, .pushLoadSeq item policy tries r.tail, [])
  | .pushLoadSeq item policy tries pos =>
      if r.pushDiff pos = 0 then some (r, .pushCas item policy tries pos, [])
      else if r.pushDiff pos < 0 then some (r, Local.full item policy tries)
      else some (r, .pushLoadTail item policy tries, [])
  | .pushCas item policy tries pos =>
      if r.tail = pos then some ({ r with tail := pos + 1 }, .pushWrite item pos, [.claim pos item])
      else some (r, .pushLoadTail item policy tries, [])
  | .pushWrite item pos => some (r.storeData pos item, .pushPublish item pos, [])
  | .pushPublish item pos =>
      some (r.storeSeq pos (pos + 1), .idle, [.publish pos item, .ret (.push true)])
  | .evictLoadHead item policy tries => some (r, .evictLoadSeq item policy tries r.head, [])
  | .evictLoadSeq item policy tries headPos =>
      if r.seqs (r.slot headPos) = headPos + 1 then
        some (r, .evictCas item policy tries headPos, [])
      else some (r, .pushLoadTail item policy tries, [])
  | .evictCas item policy tries headPos =>
      if r.head = headPos then
        some ({ r with head := headPos + 1 }, .evictRecycle item policy tries headPos,
          [.evict headPos])
      else some (r, .pushLoadTail item policy tries, [])
  | .evictRecycle item policy tries headPos =>
      some (r.storeSeq headPos (headPos + r.mask + 1), .evictCount item policy tries,
        [.recycle headPos none])
  | .evictCount item policy tries =>
      some ({ r with evicted := r.evicted + 1 }, .pushLoadTail item policy tries, [])
  | .takeLoadHead taker => some (r, .takeLoadSeq taker r.head, [])
  | .takeLoadSeq taker pos =>
      if r.popDiff pos = 0 then some (r, .takeCas taker pos, [])
      else if r.popDiff pos < 0 then some (r, .idle, [.ret taker.empty])
      else some (r, .takeLoadHead taker, [])
  | .takeCas taker pos =>
      if r.head = pos then some ({ r with head := pos + 1 }, .takeRead taker pos, [.take pos])
      else some (r, .takeLoadHead taker, [])
  | .takeRead .pop pos =>
      let item := r.data (r.slot pos)
      some (r, .takeRecycle pos item (.pop (some item)), [])
  | .takeRead (.popMarshal buf) pos => some (r, .marshal buf pos (r.data (r.slot pos)), [])
  | .marshal buf pos item =>
      let (written, buf') := Serializable.marshal item buf
      some (r, .takeRecycle pos item (.popMarshal written true buf'), [.marshal pos item])
  | .takeRecycle pos item result =>
      some (r.storeSeq pos (pos + r.mask + 1), .idle, [.recycle pos (some item), .ret result])
  | .depthLoadTail => some (r, .depthLoadHead r.tail, [])
  | .depthLoadHead tail => some (r, .idle, [.ret (.queueDepth (queueDepth tail r.head))])

/-- The shared ring and the program point of every thread. -/
structure State (Tid T : Type) where
  ring : Ringbuf T
  threads : Tid → Local T

/-- What the scheduler may do: start a ring operation or a `QueueDepth` on an idle thread, or let a
thread take a step. -/
inductive Action (Tid T : Type) where
  | call (t : Tid) (c : Call T)
  | queueDepth (t : Tid)
  | resume (t : Tid)

variable {Tid T : Type}

/-- A ring that no thread has touched yet. -/
def State.initial (r : Ringbuf T) : State Tid T := { ring := r, threads := fun _ => .idle }

variable [DecidableEq Tid]

/-- Let an idle thread enter a call. -/
def State.enter (s : State Tid T) (t : Tid) (pc : Local T) (events : List (Tid × Event T)) :
    Option (State Tid T × List (Tid × Event T)) :=
  match s.threads t with
  | .idle => some ({ s with threads := Function.update s.threads t pc }, events)
  | _ => none

/-- Only an idle thread can enter a call. -/
theorem State.enter_eq_some {s s' : State Tid T} {t : Tid} {pc : Local T}
    {events new : List (Tid × Event T)} (h : s.enter t pc events = some (s', new)) :
    s.threads t = .idle ∧ s' = { s with threads := Function.update s.threads t pc } ∧
      new = events := by
  unfold State.enter at h
  split at h
  · rename_i hidle
    cases h
    exact ⟨hidle, rfl, rfl⟩
  · cases h

variable [Serializable T]

/-- One step of the machine, with the events it emits labelled by their thread. -/
def step (s : State Tid T) : Action Tid T → Option (State Tid T × List (Tid × Event T))
  | .call t c => s.enter t (Local.start c) [(t, .call c)]
  | .queueDepth t => s.enter t .depthLoadTail []
  | .resume t =>
      (Local.next s.ring (s.threads t)).map fun (ring, pc, events) =>
        ({ ring, threads := Function.update s.threads t pc }, events.map (t, ·))

/-- A thread that takes a step follows `Local.next`. -/
theorem resume_eq_some {s s' : State Tid T} {t : Tid} {new : List (Tid × Event T)}
    (h : step s (.resume t) = some (s', new)) :
    ∃ ring pc events, Local.next s.ring (s.threads t) = some (ring, pc, events) ∧
      s' = { ring, threads := Function.update s.threads t pc } ∧ new = events.map (t, ·) := by
  simp only [step, Option.map_eq_some_iff] at h
  obtain ⟨⟨ring, pc, events⟩, hnext, hs'⟩ := h
  cases hs'
  exact ⟨ring, pc, events, hnext, rfl, rfl⟩

/-- Execute a schedule. -/
abbrev run (s : State Tid T) (schedule : List (Action Tid T)) :
    Option (State Tid T × List (Tid × Event T)) :=
  Transition.run step s schedule

/-- Execute a schedule on a new ring and test the outcome. -/
def testSchedule [Inhabited T] (size : UInt64) (schedule : List (Action Tid T))
    (test : State Tid T → List (Tid × Event T) → Bool) : Bool :=
  Transition.testFrom (newRingbuf size) (fun r => run (State.initial r) schedule)
    fun _ out => test out.1 out.2

theorem exists_of_testSchedule [Inhabited T] {size : UInt64} {schedule : List (Action Tid T)}
    {test : State Tid T → List (Tid × Event T) → Bool}
    (h : testSchedule size schedule test = true) :
    ∃ r s trace, newRingbuf size = some r ∧ run (State.initial r) schedule = some (s, trace) ∧
      test s trace = true := by
  obtain ⟨r, ⟨s, trace⟩, hnew, hrun, htest⟩ := Transition.exists_of_testFrom h
  exact ⟨r, s, trace, hnew, hrun, htest⟩

/-- The number of `push` calls that a schedule starts. -/
def pushCalls (schedule : List (Action Tid T)) : Nat :=
  schedule.countP fun
    | .call _ (.push _ _) => true
    | _ => false

end TickBatch.Ring
