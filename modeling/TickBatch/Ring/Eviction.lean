import TickBatch.Ring.Fifo

/-!
# One producer and one drain thread under `DropOldest`

`push` decides that the ring is full from the sequence number of the tail slot, but evicts from the
head. The two slots differ while the drain thread holds the tail slot, having removed its item and
not yet recycled it: `stalled_drain` is a run in which one push evicts every other queued item and
then gives up. `push_accepts` shows that this is the only way to fail: as long as the producer
never re-reads the tail slot after an eviction attempt while the drain thread holds it, every push
is accepted and evicts at most one item.
-/

namespace TickBatch.Ring

/-- The two threads. -/
inductive Role where
  | producer
  | drain
  deriving DecidableEq

variable {T : Type}

/-- The producer calls `push` under `DropOldest`, the drain thread calls `popMarshal`. -/
def PairAction : Action Role T → Prop
  | .call .producer (.push _ .dropOldest) => True
  | .call .drain (.popMarshal _) => True
  | .resume _ => True
  | _ => False

/-- The slot whose sequence number a push is about to load again after an eviction attempt. -/
def Local.rereads (r : Ringbuf T) : Local T → Option Nat
  | .pushLoadSeq _ _ (_ + 1) pos => some (r.slot pos)
  | _ => none

/-- The producer does not load the tail slot's sequence number again, after an eviction attempt,
while the drain thread holds that slot. -/
def RetryClear (s : State Role T) : Action Role T → Prop
  | .resume .producer =>
      ∀ idx ∈ (s.threads .producer).rereads s.ring, (s.threads .drain).ownedSlot s.ring ≠ some idx
  | _ => True

instance (s : State Role T) : DecidablePred (RetryClear s)
  | .call .. | .queueDepth _ | .resume .drain => isTrue trivial
  | .resume .producer => inferInstanceAs (Decidable (∀ idx ∈ _, _))

/-- Account for one event: a call of the producer starts a new count, an eviction adds to it. The
second component is the largest count so far. -/
def tallyStep : Nat × Nat → Role × Event T → Nat × Nat
  | (_, most), (.producer, .call _) => (0, most)
  | (current, most), (.producer, .evict _) => (current + 1, max most (current + 1))
  | count, _ => count

/-- The evictions of the producer's current call, and the most that one of its calls has made. -/
def tally (trace : List (Role × Event T)) : Nat × Nat := trace.foldl tallyStep (0, 0)

/-- The most evictions that a single push has made. -/
def mostEvictions (trace : List (Role × Event T)) : Nat := (tally trace).2

/-- The steps that the producer has taken inside its calls. -/
def producerSteps (schedule : List (Action Role T)) : Nat :=
  schedule.countP fun
    | .resume .producer => true
    | _ => false

/-! ## The tail slot -/

section TailSlot

variable {Tid : Type} [DecidableEq Tid] {k : Nat} {schedule : List (Action Tid T)}
  {trace : List (Tid × Event T)} {s : State Tid T}

/-- While no producer is storing an item, the tail slot is free or looks full; it looks full
although the ring has room only when a thread still holds the position one lap earlier. -/
theorem tail_slot (hinv : RunInv k schedule trace s) (hw : NoWrap k s.ring)
    (hproducing : ∀ t, (s.threads t).view.producingPos = none) :
    s.ring.pushDiff s.ring.tail = 0 ∨
      s.ring.pushDiff s.ring.tail < 0 ∧
        (s.ring.tail.toNat < s.ring.head.toNat + 2 ^ k →
          2 ^ k ≤ s.ring.tail.toNat ∧
            ∃ t, (s.threads t).view.removingPos = some (s.ring.tail.toNat - 2 ^ k)) := by
  have hcap := hw.cap_le
  have htwo := hw.two_le
  have hseq := ticket_seq s hinv.mask s.ring.tail
  -- a sequence number of the previous lap is behind the tail by less than a lap
  have hbehind : 2 ^ k ≤ s.ring.tail.toNat →
      s.ticket.seq (s.ring.tail.toNat % 2 ^ k) = s.ring.tail.toNat + 1 - 2 ^ k →
      s.ring.pushDiff s.ring.tail < 0 := by
    intro hlap hval
    rw [hseq] at hval
    have hword : s.ring.seqs (s.ring.slot s.ring.tail) =
        UInt64.ofNat (s.ring.tail.toNat + 1 - 2 ^ k) := by
      rw [← hval, UInt64.ofNat_toNat]
    have hneg := Words.signed_sub_ofNat_neg (a := s.ring.tail.toNat + 1 - 2 ^ k)
      (b := s.ring.tail.toNat) (by omega) (by omega)
    unfold Ringbuf.pushDiff
    rw [UInt64.ofNat_toNat] at hneg
    rwa [hword]
  by_cases hroom : s.ring.tail.toNat < s.ring.head.toNat + 2 ^ k
  · rcases hinv.ticket.free s.ring.tail.toNat le_rfl hroom with hfree | ⟨hlap, hval, hheld⟩
    · left
      rw [hseq] at hfree
      exact Words.signed_sub_eq_zero.mpr (UInt64.toNat_inj.mp hfree)
    · exact Or.inr ⟨hbehind hlap hval, fun _ => ⟨hlap, hheld⟩⟩
  · have hfull : s.ring.tail.toNat = s.ring.head.toNat + 2 ^ k := by
      have : s.ring.tail.toNat ≤ s.ring.head.toNat + 2 ^ k := hinv.ticket.room
      omega
    right
    refine ⟨hbehind (by omega) ?_, fun h => absurd h hroom⟩
    rw [hfull, Nat.add_mod_right]
    rcases hinv.ticket.live s.ring.head.toNat le_rfl
      (show s.ring.head.toNat < s.ring.tail.toNat by omega) with ⟨_, t, ht⟩ | ⟨hval, _⟩
    · rw [show s.ticket.view t = (s.threads t).view from rfl, hproducing t] at ht
      cases ht
    · omega

/-- A head slot that is not published is either behind the head already, or the ring is empty:
either way there is room. -/
theorem unpublished_room (hinv : RunInv k schedule trace s) (hw : NoWrap k s.ring)
    (hproducing : ∀ t, (s.threads t).view.producingPos = none) {headPos : UInt64}
    (hhead : headPos.toNat ≤ s.ring.head.toNat) (hlap : s.ring.tail.toNat ≤ headPos.toNat + 2 ^ k)
    (hseq : s.ring.seqs (s.ring.slot headPos) ≠ headPos + 1) :
    s.ring.tail.toNat < s.ring.head.toNat + 2 ^ k := by
  have htwo := hw.two_le
  by_cases hmoved : headPos.toNat < s.ring.head.toNat
  · omega
  by_contra hfull
  refine hseq (UInt64.toNat_inj.mp ?_)
  have hle : headPos.toNat ≤ s.ring.tail.toNat := by omega
  rw [← ticket_seq s hinv.mask, hw.toNat_succ hle]
  -- in a full ring the head is published unless a producer is still storing into it
  rcases hinv.ticket.live headPos.toNat (show s.ring.head.toNat ≤ headPos.toNat by omega)
    (show headPos.toNat < s.ring.tail.toNat by omega) with ⟨_, t, ht⟩ | ⟨hval, _⟩
  · rw [show s.ticket.view t = (s.threads t).view from rfl, hproducing t] at ht
    cases ht
  · exact hval

omit [DecidableEq Tid] in
/-- A thread that is removing a position holds the position's slot. -/
theorem removing_ownedSlot {r : Ringbuf T} (hmask : r.mask.toNat = 2 ^ k - 1) {pc : Local T}
    {p : Nat} (h : pc.view.removingPos = some p) : pc.ownedSlot r = some (p % 2 ^ k) := by
  have hslot (pos : UInt64) : r.slot pos = pos.toNat % 2 ^ k := Words.toNat_and_mask hmask pos
  cases pc <;>
    simp only [Local.view, TicketRing.View.removingPos, Option.some.injEq, reduceCtorEq] at h <;>
    simp only [Local.ownedSlot, hslot, h]

/-- A thread that is removing the position one lap before the tail holds the tail slot. -/
theorem lapped_ownedSlot (hinv : RunInv k schedule trace s) (hlap : 2 ^ k ≤ s.ring.tail.toNat)
    {t : Tid} (ht : (s.threads t).view.removingPos = some (s.ring.tail.toNat - 2 ^ k)) :
    (s.threads t).ownedSlot s.ring = some (s.ring.slot s.ring.tail) := by
  have hslot : s.ring.slot s.ring.tail = (s.ring.tail.toNat - 2 ^ k) % 2 ^ k := by
    rw [← Nat.mod_eq_sub_mod hlap]
    exact Words.toNat_and_mask hinv.mask _
  rw [removing_ownedSlot hinv.mask ht, hslot]

end TailSlot

/-! ## The producer and the drain thread -/

section Pair

variable {k : Nat}

/-- What a push has done so far. On its first attempt it has evicted nothing; after an eviction
attempt the ring has room for its item, and it has evicted at most one. -/
def Attempt (k : Nat) (r : Ringbuf T) (current tries : Nat) : Prop :=
  tries = 0 ∧ current = 0 ∨
    tries = 1 ∧ current ≤ 1 ∧ r.tail.toNat < r.head.toNat + 2 ^ k

/-- The program points of the producer, with the evictions of its current call. -/
def ProducerOk (k : Nat) (r : Ringbuf T) (current : Nat) : Local T → Prop
  | .idle | .pushWrite .. | .pushPublish .. => True
  | .pushLoadTail _ policy tries => policy = .dropOldest ∧ Attempt k r current tries
  | .pushLoadSeq _ policy tries pos | .pushCas _ policy tries pos =>
      policy = .dropOldest ∧ Attempt k r current tries ∧ pos = r.tail
  | .evictLoadHead _ policy tries => policy = .dropOldest ∧ tries = 1 ∧ current = 0
  | .evictLoadSeq _ policy tries headPos | .evictCas _ policy tries headPos =>
      policy = .dropOldest ∧ tries = 1 ∧ current = 0 ∧ r.tail.toNat ≤ headPos.toNat + 2 ^ k
  | .evictRecycle _ policy tries _ | .evictCount _ policy tries =>
      policy = .dropOldest ∧ tries = 1 ∧ current ≤ 1 ∧ r.tail.toNat < r.head.toNat + 2 ^ k
  | _ => False

/-- The program points of the drain thread. -/
def DrainOk : Local T → Prop
  | .idle | .takeLoadHead _ | .takeLoadSeq .. | .takeCas .. | .takeRead .. | .marshal ..
  | .takeRecycle .. => True
  | _ => False

/-- The steps that the producer may still take before its push returns. -/
def Local.stepsLeft : Local T → Nat
  | .pushLoadTail _ _ tries => if tries = 0 then 12 else 5
  | .pushLoadSeq _ _ tries _ => if tries = 0 then 11 else 4
  | .evictLoadHead .. => 10
  | .evictLoadSeq .. => 9
  | .evictCas .. => 8
  | .evictRecycle .. => 7
  | .evictCount .. => 6
  | .pushCas .. => 3
  | .pushWrite .. => 2
  | .pushPublish .. => 1
  | _ => 0

/-- The invariant of a run of the two threads. -/
structure PairInv (k : Nat) (schedule : List (Action Role T)) (trace : List (Role × Event T))
    (s : State Role T) : Prop where
  producer : ProducerOk k s.ring (tally trace).1 (s.threads .producer)
  drain : DrainOk (s.threads .drain)
  most : mostEvictions trace ≤ 1
  accepted : ∀ ok, (Role.producer, Event.ret (.push ok)) ∈ trace → ok = true
  steps : producerSteps schedule + (s.threads .producer).stepsLeft ≤ 12 * pushCalls schedule

/-- The head moving on leaves the producer's position in order. -/
theorem ProducerOk.mono {r r' : Ringbuf T} {current : Nat} {pc : Local T}
    (h : ProducerOk k r current pc) (htail : r'.tail = r.tail)
    (hhead : r.head.toNat ≤ r'.head.toNat) : ProducerOk k r' current pc := by
  have hattempt : ∀ tries, Attempt k r current tries → Attempt k r' current tries := by
    intro tries ht
    unfold Attempt at ht ⊢
    rw [htail]
    omega
  cases pc with
  | pushLoadTail item policy tries => exact ⟨h.1, hattempt _ h.2⟩
  | pushLoadSeq item policy tries pos => exact ⟨h.1, hattempt _ h.2.1, h.2.2.trans htail.symm⟩
  | pushCas item policy tries pos => exact ⟨h.1, hattempt _ h.2.1, h.2.2.trans htail.symm⟩
  | evictLoadSeq item policy tries headPos =>
      exact ⟨h.1, h.2.1, h.2.2.1, by rw [htail]; exact h.2.2.2⟩
  | evictCas item policy tries headPos =>
      exact ⟨h.1, h.2.1, h.2.2.1, by rw [htail]; exact h.2.2.2⟩
  | evictRecycle item policy tries headPos =>
      refine ⟨h.1, h.2.1, h.2.2.1, ?_⟩
      have := h.2.2.2
      rw [htail]
      omega
  | evictCount item policy tries =>
      refine ⟨h.1, h.2.1, h.2.2.1, ?_⟩
      have := h.2.2.2
      rw [htail]
      omega
  | _ => exact h

/-- The drain thread never owns a position as a producer. -/
theorem DrainOk.not_producing {pc : Local T} (h : DrainOk pc) :
    pc.view.producingPos = none := by
  cases pc with
  | pushWrite | pushPublish => exact absurd h id
  | _ => rfl

/-- What the drain thread does leaves the count alone. -/
theorem foldl_tallyStep_drain (count : Nat × Nat) (events : List (Event T)) :
    (events.map (Role.drain, ·)).foldl tallyStep count = count := by
  induction events with
  | nil => rfl
  | cons e events ih => cases e <;> exact ih

variable [Serializable T]

/-- A step of the drain thread stays inside `popMarshal`, leaves the tail alone and never moves the
head back. -/
theorem Next.drain {r r' : Ringbuf T} {pc pc' : Local T} {events : List (Event T)}
    (hnext : Next r pc r' pc' events) (h : DrainOk pc) (hhead : r.head.toNat < 2 ^ 64 - 1) :
    DrainOk pc' ∧ r'.tail = r.tail ∧ r.head.toNat ≤ r'.head.toNat := by
  cases hnext with
  | take taker pos hpos =>
      refine ⟨trivial, rfl, ?_⟩
      show r.head.toNat ≤ (pos + 1).toNat
      rw [← hpos, UInt64.toNat_add, UInt64.toNat_one]
      omega
  | loadHead | headReady | empty | headMoved | headLost | readPop | readMarshal | marshal
  | recycle => exact ⟨trivial, rfl, le_rfl⟩
  | _ => exact absurd h id

section Producer

variable {schedule : List (Action Role T)} {trace : List (Role × Event T)} {s : State Role T}

omit [Serializable T] in
/-- A push that has made room and loads the tail slot's sequence number again does not find the
ring full, unless the drain thread holds that slot. -/
theorem retry_finds_room (hinv : RunInv k schedule trace s) (hw : NoWrap k s.ring)
    (hproducing : ∀ t, (s.threads t).view.producingPos = none) {item : T}
    {policy : BackpressurePolicy} {tries : Nat}
    (hpc : s.threads .producer = .pushLoadSeq item policy (tries + 1) s.ring.tail)
    (hclear : RetryClear s (.resume .producer))
    (hroom : s.ring.tail.toNat < s.ring.head.toNat + 2 ^ k) :
    ¬s.ring.pushDiff s.ring.tail < 0 := by
  intro hneg
  rcases tail_slot hinv hw hproducing with hfree | ⟨_, hheld⟩
  · simp [hfree] at hneg
  · obtain ⟨hlap, t, ht⟩ := hheld hroom
    cases t with
    | producer =>
        rw [hpc] at ht
        cases ht
    | drain =>
        simp only [RetryClear, hpc] at hclear
        exact hclear _ rfl (lapped_ownedSlot hinv hlap ht)

/-- One step of the producer, as long as it does not re-read the tail slot while the drain thread
holds it: the push stays on its first or second attempt, gets one step closer to returning, and
returns nothing but true. -/
theorem Next.producer {r' : Ringbuf T} {pc' : Local T} {events : List (Event T)}
    (hnext : Next s.ring (s.threads .producer) r' pc' events) (hinv : RunInv k schedule trace s)
    (hw : NoWrap k s.ring) {most current : Nat}
    (hok : ProducerOk k s.ring current (s.threads .producer))
    (hdrain : DrainOk (s.threads .drain)) (hmost : most ≤ 1)
    (hclear : RetryClear s (.resume .producer)) :
    ProducerOk k r' ((events.map (Role.producer, ·)).foldl tallyStep (current, most)).1 pc' ∧
      ((events.map (Role.producer, ·)).foldl tallyStep (current, most)).2 ≤ 1 ∧
      (∀ ok, Event.ret (.push ok) ∈ events → ok = true) ∧
      pc'.stepsLeft + 1 ≤ (s.threads .producer).stepsLeft := by
  have hle : s.ring.head.toNat ≤ s.ring.tail.toNat := hinv.ticket.le
  have hroom : s.ring.tail.toNat ≤ s.ring.head.toNat + 2 ^ k := hinv.ticket.room
  have hview := hinv.ticket.views .producer
  rw [show s.ticket.view .producer = (s.threads .producer).view from rfl] at hview
  have hproducing : (s.threads .producer).view.producingPos = none →
      ∀ t, (s.threads t).view.producingPos = none := by
    intro hp t
    cases t with
    | producer => exact hp
    | drain => exact hdrain.not_producing
  generalize hpc : s.threads .producer = pc at hnext hok hview hproducing
  cases hnext with
  | loadTail item policy tries =>
      refine ⟨⟨hok.1, hok.2, rfl⟩, hmost, by simp, ?_⟩
      simp only [Local.stepsLeft]
      split <;> omega
  | tailReady item policy tries pos _ =>
      refine ⟨hok, hmost, by simp, ?_⟩
      simp only [Local.stepsLeft]
      split <;> omega
  | makeRoom item policy tries pos hneg _ _ =>
      obtain ⟨hpolicy, ⟨rfl, hcurrent⟩ | ⟨rfl, _, hroom'⟩, rfl⟩ := hok
      · -- the first attempt sees a full ring and goes on to evict
        exact ⟨⟨hpolicy, rfl, hcurrent⟩, hmost, by simp, by simp [Local.stepsLeft]⟩
      · exact absurd hneg (retry_finds_room hinv hw (hproducing rfl) hpc hclear hroom')
  | giveUp item policy tries pos hneg hlimit =>
      -- the second attempt has room, and the first is far from the limit
      obtain ⟨rfl, ⟨rfl, _⟩ | ⟨rfl, _, hroom'⟩, rfl⟩ := hok
      · simp [maxEvictRetries] at hlimit
      · exact absurd hneg (retry_finds_room hinv hw (hproducing rfl) hpc hclear hroom')
  | tailMoved item policy tries pos hzero hneg =>
      obtain ⟨_, _, rfl⟩ := hok
      rcases tail_slot hinv hw (hproducing rfl) with hfree | ⟨hbehind, _⟩
      · exact absurd hfree hzero
      · exact absurd hbehind hneg
  | claim item policy tries pos _ => exact ⟨trivial, hmost, by simp, by simp [Local.stepsLeft]⟩
  | tailLost item policy tries pos hmoved => exact absurd hok.2.2.symm hmoved
  | write item pos => exact ⟨trivial, hmost, by simp, by simp [Local.stepsLeft]⟩
  | publish item pos => exact ⟨trivial, hmost, by simp, by simp [Local.stepsLeft]⟩
  | evictHead item policy tries =>
      exact ⟨⟨hok.1, hok.2.1, hok.2.2, hroom⟩, hmost, by simp, by simp [Local.stepsLeft]⟩
  | evictReady item policy tries headPos _ =>
      exact ⟨hok, hmost, by simp, by simp [Local.stepsLeft]⟩
  | evictUnready item policy tries headPos hseq =>
      obtain ⟨hpolicy, htries, hcurrent, hlap⟩ := hok
      exact ⟨⟨hpolicy, Or.inr ⟨htries, hcurrent.le.trans zero_le_one,
        unpublished_room hinv hw (hproducing rfl) hview.1 hlap hseq⟩⟩, hmost, by simp,
        by simp [Local.stepsLeft, htries]⟩
  | evict item policy tries headPos hsame =>
      obtain ⟨hpolicy, htries, hcurrent, hlap⟩ := hok
      have hhead : headPos.toNat ≤ s.ring.head.toNat := hview.1
      refine ⟨⟨hpolicy, htries, ?_, ?_⟩, ?_, by simp, by simp [Local.stepsLeft]⟩
      · exact (Nat.succ_le_succ hcurrent.le)
      · show s.ring.tail.toNat < (headPos + 1).toNat + 2 ^ k
        rw [hw.toNat_succ (show headPos.toNat ≤ s.ring.tail.toNat by omega)]
        omega
      · show max most (current + 1) ≤ 1
        omega
  | evictLost item policy tries headPos hmoved =>
      obtain ⟨hpolicy, htries, hcurrent, hlap⟩ := hok
      have hhead : headPos.toNat ≤ s.ring.head.toNat := hview.1
      refine ⟨⟨hpolicy, Or.inr ⟨htries, hcurrent.le.trans zero_le_one, ?_⟩⟩, hmost, by simp,
        by simp [Local.stepsLeft, htries]⟩
      have hne : s.ring.head.toNat ≠ headPos.toNat := fun h => hmoved (UInt64.toNat_inj.mp h)
      omega
  | evictRecycle item policy tries headPos =>
      exact ⟨hok, hmost, by simp, by simp [Local.stepsLeft]⟩
  | evictCount item policy tries =>
      exact ⟨⟨hok.1, Or.inr hok.2⟩, hmost, by simp, by simp [Local.stepsLeft, hok.2.1]⟩
  | _ => exact absurd hok id

end Producer

/-- One step of the machine preserves the invariant of the two threads. -/
theorem step_pairInv {schedule : List (Action Role T)} {trace new : List (Role × Event T)}
    {s s' : State Role T} {a : Action Role T} (hinv : RunInv k schedule trace s)
    (hw : NoWrap k s.ring) (h : PairInv k schedule trace s) (ha : PairAction a)
    (hclear : RetryClear s a) (hstep : step s a = some (s', new)) :
    PairInv k (schedule ++ [a]) (trace ++ new) s' := by
  have htally : tally (trace ++ new) = new.foldl tallyStep (tally trace) := by
    simp only [tally, List.foldl_append]
  have hsteps : producerSteps (schedule ++ [a]) = producerSteps schedule + producerSteps [a] :=
    List.countP_append
  have hcalls := pushCalls_append schedule [a]
  have hsched := h.steps
  have hle : s.ring.head.toNat ≤ s.ring.tail.toNat := hinv.ticket.le
  have hlt := hw.tail
  cases a with
  | queueDepth t => cases ha
  | call t c =>
      obtain ⟨hidle, rfl, rfl⟩ := State.enter_eq_some hstep
      cases t with
      | producer =>
          cases c with
          | push item policy =>
              have hpolicy : policy = .dropOldest := by cases policy <;> trivial
              subst hpolicy
              rw [hidle] at hsched
              have hcount :
                  tally (trace ++ [(Role.producer, Event.call (.push item .dropOldest))]) =
                    (0, (tally trace).2) := htally
              have hnone : producerSteps [Action.call (T := T) Role.producer
                  (.push item .dropOldest)] = 0 := rfl
              have hone : pushCalls [Action.call (T := T) Role.producer
                  (.push item .dropOldest)] = 1 := rfl
              refine ⟨?_, by simpa using h.drain, ?_, by simpa using h.accepted, ?_⟩
              · rw [hcount]
                exact ⟨rfl, Or.inl ⟨rfl, rfl⟩⟩
              · unfold mostEvictions
                rw [hcount]
                exact h.most
              · simp only [Function.update_self, Local.start, Local.stepsLeft, if_true]
                simp only [Local.stepsLeft] at hsched
                omega
          | _ => cases ha
      | drain =>
          cases c with
          | popMarshal buf =>
              have hcount : tally (trace ++ [(Role.drain, Event.call (.popMarshal buf))]) =
                  tally trace := htally
              refine ⟨?_, trivial, ?_, by simpa using h.accepted, ?_⟩
              · rw [hcount]
                simpa using h.producer
              · unfold mostEvictions
                rw [hcount]
                exact h.most
              · rw [hsteps, hcalls]
                simpa [producerSteps, pushCalls] using hsched
          | _ => cases ha
  | resume t =>
      obtain ⟨ring, pc, events, hnext, rfl, rfl⟩ := resume_eq_some hstep
      have hnone : pushCalls [Action.resume (T := T) t] = 0 := rfl
      cases t with
      | producer =>
          have hone : producerSteps [Action.resume (T := T) Role.producer] = 1 := rfl
          obtain ⟨hproducer, hmost, hret, hleft⟩ :=
            (next_cases hnext).producer hinv hw h.producer h.drain h.most hclear
          refine ⟨?_, by simpa using h.drain, ?_, ?_, ?_⟩
          · rw [htally]
            simp only [Function.update_self]
            exact hproducer
          · unfold mostEvictions
            rw [htally]
            exact hmost
          · intro ok hmem
            rcases List.mem_append.mp hmem with hold | hnew
            · exact h.accepted ok hold
            · obtain ⟨e, he, heq⟩ := List.mem_map.mp hnew
              cases heq
              exact hret ok he
          · simp only [Function.update_self]
            omega
      | drain =>
          have hzero : producerSteps [Action.resume (T := T) Role.drain] = 0 := rfl
          obtain ⟨hdrain, htail, hhead⟩ := (next_cases hnext).drain h.drain (by omega)
          rw [foldl_tallyStep_drain] at htally
          refine ⟨?_, by simpa using hdrain, ?_, ?_, ?_⟩
          · rw [htally]
            simpa using h.producer.mono htail hhead
          · unfold mostEvictions
            rw [htally]
            exact h.most
          · intro ok hmem
            rcases List.mem_append.mp hmem with hold | hnew
            · exact h.accepted ok hold
            · obtain ⟨e, _, heq⟩ := List.mem_map.mp hnew
              cases heq
          · simp only [ne_eq, reduceCtorEq, not_false_eq_true, Function.update_of_ne]
            omega

variable [Inhabited T]

/-- In every run of one producer and one drain thread with fewer than `2 ^ 63` pushes in which the
producer never re-reads the tail slot, after an eviction attempt, while the drain thread holds it:
every push that has returned has accepted its item, no push has evicted more than one item, and the
producer has taken at most twelve steps for each push it has started. -/
theorem push_accepts (hk : 1 ≤ k) (hk' : k ≤ 63) {r : Ringbuf T}
    (hnew : newRingbuf (UInt64.ofNat (2 ^ k)) = some r) {schedule : List (Action Role T)}
    {trace : List (Role × Event T)} {s : State Role T}
    (hrun : run (State.initial r) schedule = some (s, trace))
    (hpush : pushCalls schedule < 2 ^ 63) (hpair : ∀ a ∈ schedule, PairAction a)
    (hclear : Transition.Along step RetryClear (State.initial r) schedule) :
    (∀ ok, (Role.producer, Event.ret (.push ok)) ∈ trace → ok = true) ∧
      mostEvictions trace ≤ 1 ∧ producerSteps schedule ≤ 12 * pushCalls schedule := by
  have hinv : PairInv k schedule trace s := by
    refine (Transition.run_invariant_along
      (I := fun acts tr s => pushCalls acts < 2 ^ 63 → (∀ a ∈ acts, PairAction a) →
        RunInv k acts tr s ∧ PairInv k acts tr s) ?_ ?_ hrun hclear hpush hpair).2
    · intro acts tr s a s' new hinv hok hstep hlt hacts
      have hlt' : pushCalls acts < 2 ^ 63 := by
        rw [pushCalls_append] at hlt
        omega
      obtain ⟨hrunInv, hpairInv⟩ := hinv hlt' fun b hb => hacts b (List.mem_append_left _ hb)
      exact ⟨step_runInv hk hk' hrunInv hlt' hstep,
        step_pairInv hrunInv (hrunInv.noWrap hk hk' hlt') hpairInv (hacts a (by simp)) hok hstep⟩
    · intro _ _
      exact ⟨initial_runInv hk' hnew, trivial, trivial, Nat.zero_le _, by simp, le_rfl⟩
  have := hinv.steps
  exact ⟨hinv.accepted, hinv.most, by omega⟩

end Pair

/-- Fill a ring of two slots; the drain thread removes the first item, the producer evicts the
second, the drain thread finishes, and the producer stores its third item. -/
def overlap : List (Action Role (List UInt8)) :=
  .call .producer (.push [1] .dropOldest) :: List.replicate 5 (.resume .producer) ++
  .call .producer (.push [2] .dropOldest) :: List.replicate 5 (.resume .producer) ++
  .call .drain (.popMarshal [0]) :: List.replicate 3 (.resume .drain) ++
  .call .producer (.push [3] .dropOldest) :: List.replicate 7 (.resume .producer) ++
  List.replicate 3 (.resume .drain) ++ List.replicate 5 (.resume .producer)

instance : DecidablePred (PairAction (T := T))
  | .call .producer (.push _ .dropOldest) | .call .drain (.popMarshal _) | .resume _ =>
      isTrue trivial
  | .call .producer (.push _ .dropNewest) | .call .producer (.push _ (.other _))
  | .call .producer .pop | .call .producer (.popMarshal _) | .call .drain (.push _ _)
  | .call .drain .pop | .queueDepth _ => isFalse id

theorem push_accepts_overlap : ∃ r s trace,
    newRingbuf (UInt64.ofNat (2 ^ 1)) = some r ∧ run (State.initial r) overlap = some (s, trace) ∧
    mostEvictions trace = 1 ∧
    (∀ ok, (Role.producer, Event.ret (.push ok)) ∈ trace → ok = true) := by
  have hpush : pushCalls overlap < 2 ^ 63 := by decide
  have hclear : ∀ r ∈ newRingbuf (UInt64.ofNat (2 ^ 1)),
      Transition.Along step RetryClear (State.initial r) overlap := by decide +kernel
  have houtcome : testSchedule (UInt64.ofNat (2 ^ 1)) overlap
      (fun _ trace => mostEvictions trace == 1) = true := by decide +kernel
  obtain ⟨r, s, trace, hnew, hrun, htest⟩ := exists_of_testSchedule houtcome
  exact ⟨r, s, trace, hnew, hrun, beq_iff_eq.mp htest,
    (push_accepts (k := 1) (by decide) (by decide) hnew hrun hpush (by decide)
      (hclear r hnew)).1⟩

/-! ## A drain thread stalled in `Marshal` -/

/-- Fill a ring of four slots, let the drain thread remove the oldest item without finishing its
`Marshal`, and push once more. -/
def stalledDrain (steps : Nat) : List (Action Role (List UInt8)) :=
  (List.range 4).flatMap (fun i =>
    .call .producer (.push [UInt8.ofNat i] .dropOldest) :: List.replicate 5 (.resume .producer)) ++
  .call .drain (.popMarshal [0]) :: List.replicate 4 (.resume .drain) ++
  .call .producer (.push [9] .dropOldest) :: List.replicate steps (.resume .producer)

/-- A push has returned false. -/
def rejects : Role × Event (List UInt8) → Bool
  | (.producer, .ret (.push false)) => true
  | _ => false

/-- The most evictions of one push, and whether a push was rejected, after `stalledDrain`. -/
def stalledOutcome (steps : Nat) : Option (Nat × Bool) := do
  let r ← newRingbuf (UInt64.ofNat (2 ^ 2))
  let (_, trace) ← run (State.initial r) (stalledDrain steps)
  pure (mostEvictions trace, trace.any rejects)

/-- One push throws three queued items away, gives up after 128 eviction attempts and returns
false. -/
theorem stalled_drain : ∃ r s trace,
    newRingbuf (UInt64.ofNat (2 ^ 2)) = some r ∧
    run (State.initial r) (stalledDrain 523) = some (s, trace) ∧
    (∀ a ∈ stalledDrain 523, PairAction a) ∧ mostEvictions trace = 3 ∧
    (Role.producer, Event.ret (.push false)) ∈ trace := by
  have h : stalledOutcome 523 = some (3, true) := by decide +kernel
  simp only [stalledOutcome, bind, Option.bind_eq_some_iff, pure, Option.some.injEq,
    Prod.mk.injEq] at h
  obtain ⟨r, hnew, ⟨s, trace⟩, hrun, hmost, hany⟩ := h
  refine ⟨r, s, trace, hnew, hrun, ?_, hmost, ?_⟩
  · intro a ha
    simp only [stalledDrain, List.mem_append, List.mem_cons, List.mem_flatMap,
      List.mem_replicate] at ha
    rcases ha with (⟨i, _, rfl | ⟨_, rfl⟩⟩ | rfl | ⟨_, rfl⟩) | rfl | ⟨_, rfl⟩ <;> trivial
  · obtain ⟨⟨t, e⟩, hmem, he⟩ := List.any_eq_true.mp hany
    unfold rejects at he
    split at he
    · rename_i heq
      cases heq
      exact hmem
    · cases he

end TickBatch.Ring
