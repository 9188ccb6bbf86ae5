import TickBatch.Ring.Inversion
import TickBatch.Ring.Verdicts

/-!
# The ring as an atomic queue

`Atomic.Step` is what the ring is for: a bounded queue in which every call takes effect at one
moment between its invocation and its return. The state is the list of the items accepted so far and
the number of those that have left, so the queue is `accepted.drop removed`, and the threads are
idle, waiting for their call to take effect, or on the way out. A push that may drop the oldest item
can do so before it takes effect, at separate moments: each time it finds the queue full, at most
`maxEvictRetries` times, it may throw out one item. The only traces of the implementation are the
two verdicts: a push whose item has been accepted keeps its place from being taken until it
returns (`LooksEmpty`), and a call that has removed an item keeps the place from being reused until
it lets go of it (`LooksFull`).

`refines_atomic` is the refinement: the calls and results of every run of the ring, in their order,
are those of a run of the atomic queue. The moment at which a push takes effect is its
compare-and-swap of the tail; the others take effect at theirs of the head, or at the load of the
sequence number that makes them give up.
-/

namespace TickBatch.Ring

variable {Tid T : Type}

/-- What a dequeue returns for an item. -/
def Taker.result [Serializable T] : Taker → T → Result T
  | .pop, item => .pop (some item)
  | .popMarshal buf, item =>
      .popMarshal (Serializable.marshal item buf).1 true (Serializable.marshal item buf).2

/-- The calls and results of a trace; `QueueDepth` is not an operation of the queue. -/
def history (trace : List (Tid × Event T)) : List (Tid × Event T) :=
  trace.filter fun
    | (_, .call _) => true
    | (_, .ret (.queueDepth _)) => false
    | (_, .ret _) => true
    | _ => false

@[simp] theorem history_append (tr tr' : List (Tid × Event T)) :
    history (tr ++ tr') = history tr ++ history tr' := List.filter_append ..

namespace Atomic

/-- Where the call of a thread stands. `storing` and `removing` have taken effect. `full` is a push
that has found the queue full and may throw out one item, `evicting` one that has, and both will try
again; `evictAttempts` counts how often a push has found the queue full. The index is that of the
item among the accepted ones. -/
inductive Status (T : Type) where
  | idle
  | pending (c : Call T) (evictAttempts : Nat)
  | full (c : Call T) (evictAttempts : Nat)
  | storing (index : Nat)
  | evicting (c : Call T) (evictAttempts : Nat) (index : Nat)
  | removing (index : Nat) (result : Result T)

/-- The thread still uses the place of an item that it has removed. -/
def Status.Holds (index : Nat) : Status T → Prop
  | .evicting _ _ i | .removing i _ => i = index
  | _ => False

/-- The items accepted so far, how many of them have left, and the calls in progress. -/
structure State (Tid T : Type) where
  accepted : List T
  removed : Nat
  status : Tid → Status T

/-- An empty queue that no thread has touched yet. -/
def State.initial : State Tid T := { accepted := [], removed := 0, status := fun _ => .idle }

/-- There are `cap` items in the queue, or the place of the item accepted `cap` items ago is still
in use. -/
def State.LooksFull (cap : Nat) (s : State Tid T) : Prop :=
  s.accepted.length = s.removed + cap ∨
    cap ≤ s.accepted.length ∧ ∃ u, (s.status u).Holds (s.accepted.length - cap)

/-- The queue is empty, or the push of its oldest item has not returned. -/
def State.LooksEmpty (s : State Tid T) : Prop :=
  s.removed = s.accepted.length ∨ ∃ u, s.status u = .storing s.removed

variable [DecidableEq Tid]

/-- Replace the status of one thread. -/
def State.set (s : State Tid T) (t : Tid) (st : Status T) : State Tid T :=
  { s with status := Function.update s.status t st }

variable [Serializable T]

/-- The steps of the queue, with the calls and results they show. -/
inductive Step (cap : Nat) : State Tid T → List (Tid × Event T) → State Tid T → Prop where
  | call (s t c) : s.status t = .idle → Step cap s [(t, .call c)] (s.set t (.pending c 0))
  | accept (s t item policy n) : s.status t = .pending (.push item policy) n → ¬s.LooksFull cap →
      Step cap s []
        { s.set t (.storing s.accepted.length) with accepted := s.accepted ++ [item] }
  | reject (s t item policy n) : s.status t = .pending (.push item policy) n → s.LooksFull cap →
      policy = .dropNewest ∨ maxEvictRetries ≤ n →
      Step cap s [(t, .ret (.push false))] (s.set t .idle)
  | full (s t item policy n) : s.status t = .pending (.push item policy) n → s.LooksFull cap →
      policy ≠ .dropNewest → n < maxEvictRetries →
      Step cap s [] (s.set t (.full (.push item policy) (n + 1)))
  | evict (s t c n) : s.status t = .full c n → ¬s.LooksEmpty → Step cap s []
        { s.set t (.evicting c n s.removed) with removed := s.removed + 1 }
  | keep (s t c n) : s.status t = .full c n → Step cap s [] (s.set t (.pending c n))
  | release (s t c n index) : s.status t = .evicting c n index →
      Step cap s [] (s.set t (.pending c n))
  | take (s t item n) (taker : Taker) : s.status t = .pending taker.call n → ¬s.LooksEmpty →
      s.accepted[s.removed]? = some item → Step cap s []
        { s.set t (.removing s.removed (taker.result item)) with removed := s.removed + 1 }
  | empty (s t n) (taker : Taker) : s.status t = .pending taker.call n → s.LooksEmpty →
      Step cap s [(t, .ret taker.empty)] (s.set t .idle)
  | pushed (s t index) : s.status t = .storing index →
      Step cap s [(t, .ret (.push true))] (s.set t .idle)
  | taken (s t index result) : s.status t = .removing index result →
      Step cap s [(t, .ret result)] (s.set t .idle)

/-- Any number of steps. -/
inductive Run (cap : Nat) (s : State Tid T) : List (Tid × Event T) → State Tid T → Prop where
  | refl : Run cap s [] s
  | tail {es es' s' s''} : Run cap s es s' → Step cap s' es' s'' → Run cap s (es ++ es') s''

theorem Run.single {cap : Nat} {s s' : State Tid T} {es : List (Tid × Event T)}
    (h : Step cap s es s') : Run cap s es s' := Run.refl.tail h

theorem Run.trans {cap : Nat} {s s' s'' : State Tid T} {es es' : List (Tid × Event T)}
    (h : Run cap s es s') (h' : Run cap s' es' s'') : Run cap s (es ++ es') s'' := by
  induction h' with
  | refl => simpa using h
  | tail _ hstep ih =>
      rw [← List.append_assoc]
      exact ih.tail hstep

end Atomic

/-! ## The atomic queue behind a state of the ring -/

section Abstraction

variable [Serializable T]

/-- Where the call of a thread stands, read off its program point. -/
def Local.status (r : Ringbuf T) : Local T → Atomic.Status T
  | .idle | .depthLoadTail | .depthLoadHead _ => .idle
  | .pushLoadTail item policy n | .pushLoadSeq item policy n _ | .pushCas item policy n _
  | .evictCount item policy n => .pending (.push item policy) n
  | .evictLoadHead item policy n | .evictLoadSeq item policy n _ | .evictCas item policy n _ =>
      .full (.push item policy) n
  | .pushWrite _ pos | .pushPublish _ pos => .storing pos.toNat
  | .evictRecycle item policy n pos => .evicting (.push item policy) n pos.toNat
  | .takeLoadHead taker | .takeLoadSeq taker _ | .takeCas taker _ => .pending taker.call 0
  | .takeRead taker pos => .removing pos.toNat (taker.result (r.data (r.slot pos)))
  | .marshal buf pos item => .removing pos.toNat ((Taker.popMarshal buf).result item)
  | .takeRecycle pos _ result => .removing pos.toNat result

/-- The atomic queue that a run has led to. -/
def atomic (trace : List (Tid × Event T)) (s : State Tid T) : Atomic.State Tid T where
  accepted := (claims trace).map Prod.snd
  removed := s.ring.head.toNat
  status := fun t => (s.threads t).status s.ring

theorem Local.status_storing {r : Ringbuf T} {pc : Local T} {index : Nat} :
    pc.status r = .storing index ↔ pc.view.producingPos = some index := by
  cases pc <;> simp [Local.status, Local.view, TicketRing.View.producingPos]

theorem Local.status_holds {r : Ringbuf T} {pc : Local T} {index : Nat} :
    (pc.status r).Holds index ↔ pc.view.removingPos = some index := by
  cases pc <;>
    simp [Local.status, Local.view, TicketRing.View.removingPos, Atomic.Status.Holds]

end Abstraction

section Simulation

variable [DecidableEq Tid] [Serializable T] {k : Nat} {schedule : List (Action Tid T)}
  {trace new : List (Tid × Event T)} {s s' : State Tid T} {a : Action Tid T}

/-- The tail counts the accepted items. -/
theorem length_accepted (hinv : RunInv k schedule trace s) :
    (atomic trace s).accepted.length = s.ring.tail.toNat := by
  have hlen := congrArg List.length hinv.ticket.claimed
  rw [claims_ticketLog, List.length_map, List.length_range] at hlen
  simp only [atomic, List.length_map, hlen]
  rfl

/-- The item claimed at a position has that index among the accepted ones. -/
theorem getElem?_accepted (hinv : RunInv k schedule trace s) {p : Nat} {x : T}
    (hmem : (p, x) ∈ claims trace) : (atomic trace s).accepted[p]? = some x := by
  have hclaimed := hinv.ticket.claimed
  rw [claims_ticketLog] at hclaimed
  obtain ⟨i, hi⟩ := List.mem_iff_getElem?.mp hmem
  have hp : (List.range s.ticket.tail)[i]? = some p := by
    rw [← hclaimed, List.getElem?_map, hi]
    rfl
  have hip : i = p := by
    obtain ⟨_, hget⟩ := List.getElem?_eq_some_iff.mp hp
    simpa using hget
  subst hip
  simp only [atomic, List.getElem?_map, hi, Option.map_some]

/-- A current tail that does not look ready looks full. -/
theorem looksFull (hinv : RunInv k schedule trace s) (hneg : s.ring.pushDiff s.ring.tail < 0) :
    (atomic trace s).LooksFull (2 ^ k) := by
  have hroom : s.ring.tail.toNat ≤ s.ring.head.toNat + 2 ^ k := hinv.ticket.room
  unfold Atomic.State.LooksFull
  rw [length_accepted hinv]
  rcases Nat.eq_or_lt_of_le hroom with hfull | hlt
  · exact Or.inl hfull
  rcases hinv.ticket.free s.ring.tail.toNat le_rfl hlt with hfree | ⟨hlap, _, u, hu⟩
  · rw [ticket_seq s hinv.mask] at hfree
    have hzero : s.ring.pushDiff s.ring.tail = 0 :=
      Words.signed_sub_eq_zero.mpr (UInt64.toNat_inj.mp hfree)
    rw [hzero] at hneg
    exact absurd hneg (by decide)
  · exact Or.inr ⟨hlap, u, Local.status_holds.mpr hu⟩

/-- A push that sees its tail slot not ready sees a full queue: a stale position would have led to a
retry. -/
theorem looksFull_of_seen (hinv : RunInv k schedule trace s) (hw : NoWrap k s.ring)
    (hlap : s.ring.tail.toNat + 2 ^ k ≤ 2 ^ 63) {pos : UInt64}
    (hle : pos.toNat ≤ s.ring.tail.toNat) (hneg : s.ring.pushDiff pos < 0) :
    (atomic trace s).LooksFull (2 ^ k) := by
  have hpos : pos = s.ring.tail := by
    refine UInt64.toNat_inj.mp (Nat.le_antisymm hle (Nat.le_of_not_lt fun hlt => ?_))
    exact pushDiff_claimed hinv hw hlap hlt hneg
  subst hpos
  exact looksFull hinv hneg

/-- A tail slot that is ready has no previous user left. -/
theorem not_looksFull (hinv : RunInv k schedule trace s) (hw : NoWrap k s.ring)
    (hready : s.ticket.seq (s.ring.tail.toNat % 2 ^ k) = s.ring.tail.toNat) :
    ¬(atomic trace s).LooksFull (2 ^ k) := by
  have htwo := hw.two_le
  have hlt : s.ring.tail.toNat < s.ring.head.toNat + 2 ^ k := hinv.ticket.tail_lt htwo hready
  unfold Atomic.State.LooksFull
  rw [length_accepted hinv]
  rintro (hfull | ⟨hlap, u, hu⟩)
  · have : s.ring.tail.toNat = s.ring.head.toNat + 2 ^ k := hfull
    omega
  · -- whoever removed the item of the previous lap has not changed the sequence number yet
    obtain ⟨_, _, hseq⟩ := hinv.ticket.removing (t := u) (Local.status_holds.mp hu)
    rw [← Nat.mod_eq_sub_mod hlap, hready] at hseq
    omega

/-- A current head that does not look published looks empty. -/
theorem looksEmpty (hinv : RunInv k schedule trace s) (hw : NoWrap k s.ring)
    (hneg : s.ring.popDiff s.ring.head < 0) : (atomic trace s).LooksEmpty := by
  unfold Atomic.State.LooksEmpty
  rw [length_accepted hinv]
  rcases popDiff_head hinv hw hneg with hempty | ⟨u, hu⟩
  · exact Or.inl (congrArg UInt64.toNat hempty)
  · refine Or.inr ⟨u, ?_⟩
    show (s.threads u).status s.ring = .storing s.ring.head.toNat
    cases hpc : s.threads u <;> simp [hpc, Local.storing, Local.status] at hu ⊢ <;> rw [hu]

/-- A head slot that is published has an item whose push has returned. -/
theorem not_looksEmpty (hinv : RunInv k schedule trace s) (hw : NoWrap k s.ring)
    (hready : s.ticket.seq (s.ring.head.toNat % 2 ^ k) = s.ring.head.toNat + 1) :
    ¬(atomic trace s).LooksEmpty := by
  have hlt : s.ring.head.toNat < s.ring.tail.toNat := hinv.ticket.head_lt hw.two_le hready
  unfold Atomic.State.LooksEmpty
  rw [length_accepted hinv]
  rintro (hempty | ⟨u, hu⟩)
  · have : s.ring.head.toNat = s.ring.tail.toNat := hempty
    omega
  · obtain ⟨_, _, hseq⟩ := hinv.ticket.producing (t := u) (Local.status_storing.mp hu)
    have : s.ring.head.toNat + 1 = s.ring.head.toNat := hready.symm.trans hseq
    omega

/-- The item that a published head slot holds is the next to leave. -/
theorem getElem?_removed (hinv : RunInv k schedule trace s) (hw : NoWrap k s.ring)
    (hready : s.ticket.seq (s.ring.head.toNat % 2 ^ k) = s.ring.head.toNat + 1) :
    (atomic trace s).accepted[(atomic trace s).removed]? =
      some (s.ring.data (s.ring.slot s.ring.head)) := by
  have hlt : s.ring.head.toNat < s.ring.tail.toNat := hinv.ticket.head_lt hw.two_le hready
  rcases hinv.ticket.live s.ring.head.toNat le_rfl hlt with ⟨hseq, _⟩ | ⟨_, hmem⟩
  · have : s.ring.head.toNat + 1 = s.ring.head.toNat := hready.symm.trans hseq
    omega
  · rw [claims_ticketLog, ← Words.toNat_and_mask hinv.mask s.ring.head] at hmem
    exact getElem?_accepted hinv hmem

/-- What a thread that has not moved is doing does not change: the item that a dequeue has still to
read stays in its slot. -/
theorem status_unmoved (hinv : RunInv k schedule trace s)
    (hinv' : RunInv k (schedule ++ [a]) (trace ++ new) s') {u : Tid}
    (hu : s'.threads u = s.threads u) :
    (s'.threads u).status s'.ring = (s.threads u).status s.ring := by
  rw [hu]
  cases hpc : s.threads u with
  | takeRead taker pos =>
      have hview : (s.ticket.view u) = .removing pos.toNat none := by
        show (s.threads u).view = _
        rw [hpc]
        rfl
      have hview' : (s'.ticket.view u) = .removing pos.toNat none := by
        show (s'.threads u).view = _
        rw [hu, hpc]
        rfl
      have hok := hinv.ticket.views u
      have hok' := hinv'.ticket.views u
      rw [hview] at hok
      rw [hview'] at hok'
      have hsame : s'.ticket.data (pos.toNat % 2 ^ k) = s.ticket.data (pos.toNat % 2 ^ k) := by
        refine hinv'.ticket.claim_unique hok'.2.2.2.1 ?_
        rw [ticketLog_append, TicketRing.claims_append]
        exact List.mem_append_left _ hok.2.2.2.1
      have hdata : s'.ring.data (s'.ring.slot pos) = s.ring.data (s.ring.slot pos) := by
        rw [Ringbuf.slot, Ringbuf.slot, Words.toNat_and_mask hinv.mask,
          Words.toNat_and_mask hinv'.mask]
        exact hsame
      simp only [Local.status, hdata]
  | _ => rfl

/-- The atomic queue after one thread has moved. -/
theorem atomic_moved (hinv : RunInv k schedule trace s) {t : Tid} {r' : Ringbuf T} {pc' : Local T}
    (hinv' : RunInv k (schedule ++ [a]) (trace ++ new)
      { ring := r', threads := Function.update s.threads t pc' }) :
    atomic (trace ++ new) { ring := r', threads := Function.update s.threads t pc' } =
      { accepted := (atomic trace s).accepted ++ (claims new).map Prod.snd
        removed := r'.head.toNat
        status := Function.update (atomic trace s).status t (pc'.status r') } := by
  have haccepted : (claims (trace ++ new)).map Prod.snd =
      (claims trace).map Prod.snd ++ (claims new).map Prod.snd := by
    simp only [claims, List.filterMap_append, List.map_append]
  have hstatus : (fun u => ((Function.update s.threads t pc') u).status r') =
      Function.update (atomic trace s).status t (pc'.status r') := by
    funext u
    by_cases hut : u = t
    · subst hut
      simp
    · have hsame := status_unmoved hinv hinv' (Function.update_of_ne hut pc' s.threads)
      simp only [Function.update_of_ne hut] at hsame ⊢
      exact hsame
  simp only [atomic] at hstatus ⊢
  rw [haccepted, hstatus]

/-- An atomic step of the ring is a step of the atomic queue, or none. -/
theorem next_atomic (hinv : RunInv k schedule trace s) (hw : NoWrap k s.ring)
    (hlap : s.ring.tail.toNat + 2 ^ k ≤ 2 ^ 63) {t : Tid} {r' : Ringbuf T} {pc' : Local T}
    {events : List (Event T)} (horigin : Origin (inCall t trace) (s.threads t))
    (hnext : Next s.ring (s.threads t) r' pc' events)
    (hinv' : RunInv k (schedule ++ [a]) (trace ++ events.map (t, ·))
      { ring := r', threads := Function.update s.threads t pc' }) :
    Atomic.Run (2 ^ k) (atomic trace s) (history (events.map (t, ·)))
      (atomic (trace ++ events.map (t, ·))
        { ring := r', threads := Function.update s.threads t pc' }) := by
  have hle : s.ring.head.toNat ≤ s.ring.tail.toNat := hinv.ticket.le
  have hsucc := hw.toNat_succ hle
  have hview := hinv.ticket.views t
  change TicketRing.ViewOk _ _ _ (s.threads t).view at hview
  have hstatus : (atomic trace s).status t = (s.threads t).status s.ring := rfl
  rw [atomic_moved hinv hinv']
  -- a step that shows nothing and moves no cursor leaves the queue alone
  have hstutter : claims (events.map (t, ·)) = [] → r'.head = s.ring.head →
      pc'.status r' = (s.threads t).status s.ring → history (events.map (t, ·)) = [] →
      Atomic.Run (2 ^ k) (atomic trace s) (history (events.map (t, ·)))
        { accepted := (atomic trace s).accepted ++ (claims (events.map (t, ·))).map Prod.snd
          removed := r'.head.toNat
          status := Function.update (atomic trace s).status t (pc'.status r') } := by
    intro hclaims hhead hpc hhist
    rw [hclaims, hhead, hpc, hhist, ← hstatus, Function.update_eq_self, List.map_nil,
      List.append_nil]
    exact .refl
  -- a step of the queue that accepts nothing
  have hact : ∀ {q : Atomic.State Tid T},
      Atomic.Step (2 ^ k) (atomic trace s) (history (events.map (t, ·))) q →
      claims (events.map (t, ·)) = [] → q = { accepted := (atomic trace s).accepted
                                              removed := r'.head.toNat
                                              status := Function.update (atomic trace s).status t
                                                (pc'.status r') } →
      Atomic.Run (2 ^ k) (atomic trace s) (history (events.map (t, ·)))
        { accepted := (atomic trace s).accepted ++ (claims (events.map (t, ·))).map Prod.snd
          removed := r'.head.toNat
          status := Function.update (atomic trace s).status t (pc'.status r') } := by
    intro q hq hclaims heq
    subst heq
    rw [hclaims, List.map_nil, List.append_nil]
    exact .single hq
  generalize hpc : s.threads t = pc at hnext hview hstatus hstutter horigin
  cases hnext with
  | claim item policy tries pos htail =>
      subst htail
      have hready : s.ticket.seq (s.ring.tail.toNat % 2 ^ k) = s.ring.tail.toNat := hview.2 rfl rfl
      have hstep := Atomic.Step.accept (atomic trace s) t item policy tries hstatus
        (not_looksFull hinv hw hready)
      rw [length_accepted hinv] at hstep
      exact .single hstep
  | giveUp item policy tries pos hneg hlimit =>
      have hfull := looksFull_of_seen hinv hw hlap hview.1 hneg
      exact hact (.reject _ t item policy tries hstatus hfull hlimit) rfl rfl
  | makeRoom item policy tries pos hneg hpolicy htries =>
      have hfull := looksFull_of_seen hinv hw hlap hview.1 hneg
      exact hact (.full _ t item policy tries hstatus hfull hpolicy htries) rfl rfl
  | publish item pos => exact hact (.pushed _ t _ hstatus) rfl rfl
  | evict item policy tries headPos hhead =>
      subst hhead
      have hready : s.ticket.seq (s.ring.head.toNat % 2 ^ k) = s.ring.head.toNat + 1 :=
        hview.2 rfl rfl
      refine hact (.evict _ t _ tries hstatus (not_looksEmpty hinv hw hready)) rfl ?_
      simp only [hsucc]
      rfl
  | evictUnready item policy tries headPos _ => exact hact (.keep _ t _ tries hstatus) rfl rfl
  | evictLost item policy tries headPos _ => exact hact (.keep _ t _ tries hstatus) rfl rfl
  | evictRecycle item policy tries headPos =>
      exact hact (.release _ t _ tries _ hstatus) rfl rfl
  | take taker pos hhead =>
      subst hhead
      have hready : s.ticket.seq (s.ring.head.toNat % 2 ^ k) = s.ring.head.toNat + 1 :=
        hview.2 rfl rfl
      refine hact (.take _ t _ _ taker hstatus (not_looksEmpty hinv hw hready)
        (getElem?_removed hinv hw hready)) rfl ?_
      simp only [hsucc]
      rfl
  | empty taker pos hneg =>
      have hpos : pos = s.ring.head := by
        have hle : pos.toNat ≤ s.ring.head.toNat := hview.1
        refine UInt64.toNat_inj.mp (Nat.le_antisymm hle (Nat.le_of_not_lt fun hlt => ?_))
        exact popDiff_removed hinv hw hlt hneg
      subst hpos
      have hstep : Atomic.Step (2 ^ k) (atomic trace s) [(t, .ret taker.empty)] _ :=
        .empty _ t _ taker hstatus (looksEmpty hinv hw hneg)
      cases taker <;> exact hact hstep rfl rfl
  | recycle pos item result =>
      have hstep : Atomic.Step (2 ^ k) (atomic trace s) [(t, .ret result)] _ :=
        .taken _ t _ _ hstatus
      rcases horigin.result with rfl | ⟨_, _, rfl⟩ <;> exact hact hstep rfl rfl
  | _ => exact hstutter rfl rfl rfl rfl

/-- What a run keeps besides the invariant of the ring. -/
structure AtomicInv (k : Nat) (schedule : List (Action Tid T)) (trace : List (Tid × Event T))
    (s : State Tid T) : Prop where
  inv : RunInv k schedule trace s
  origins : Origins trace s
  run : Atomic.Run (2 ^ k) Atomic.State.initial (history trace) (atomic trace s)

/-- One action of the machine continues the run of the atomic queue. -/
theorem step_atomicInv (hk : 1 ≤ k) (hk' : k ≤ 63) (h : AtomicInv k schedule trace s)
    (hlap : pushCalls schedule + 2 ^ k ≤ 2 ^ 63) (hstep : step s a = some (s', new)) :
    AtomicInv k (schedule ++ [a]) (trace ++ new) s' := by
  have hpush : pushCalls schedule < 2 ^ 63 := by
    have := Nat.two_pow_pos k
    omega
  have hw := h.inv.noWrap hk hk' hpush
  have htail := h.inv.tail_le
  have hinv' := step_runInv hk hk' h.inv hpush hstep
  have horigins := step_origins h.origins hstep
  -- a thread that enters a call was idle
  have henter : ∀ t pc events, s.enter t pc events = some (s', new) →
      Atomic.Run (2 ^ k) (atomic trace s) (history new)
        { accepted := (atomic trace s).accepted ++ (claims new).map Prod.snd
          removed := s.ring.head.toNat
          status := Function.update (atomic trace s).status t (pc.status s.ring) } →
      AtomicInv k (schedule ++ [a]) (trace ++ new) s' := by
    intro t pc events hs hrun
    obtain ⟨hidle, rfl, rfl⟩ := State.enter_eq_some hs
    refine ⟨hinv', horigins, ?_⟩
    rw [history_append, atomic_moved h.inv hinv']
    exact h.run.trans hrun
  cases a with
  | call t c =>
      obtain ⟨hidle, _, rfl⟩ := State.enter_eq_some hstep
      have hstatus : (atomic trace s).status t = .idle := by
        show (s.threads t).status s.ring = .idle
        rw [hidle]
        rfl
      refine henter t _ _ hstep (.single ?_)
      have hcall : Atomic.Step (2 ^ k) (atomic trace s) [(t, .call c)] _ :=
        .call _ t c hstatus
      rw [show claims [(t, Event.call c)] = [] from rfl, List.map_nil, List.append_nil]
      cases c <;> exact hcall
  | queueDepth t =>
      obtain ⟨hidle, _, rfl⟩ := State.enter_eq_some hstep
      have hstatus : (atomic trace s).status t = .idle := by
        show (s.threads t).status s.ring = .idle
        rw [hidle]
        rfl
      refine henter t _ _ hstep ?_
      have hsame : Function.update (atomic trace s).status t .idle = (atomic trace s).status := by
        rw [← hstatus, Function.update_eq_self]
      rw [Local.status, hsame, show claims ([] : List (Tid × Event T)) = [] from rfl,
        List.map_nil, List.append_nil]
      exact .refl
  | resume t =>
      obtain ⟨ring, pc, events, hnext, rfl, rfl⟩ := resume_eq_some hstep
      refine ⟨hinv', horigins, ?_⟩
      rw [history_append]
      exact h.run.trans (next_atomic h.inv hw (by omega) (h.origins.threads t)
        (next_cases hnext) hinv')

/-- The ring refines the atomic queue. Whatever the interleaving, the calls and results of `push`,
`pop` and `popMarshal` are, in their order, those of a run of the atomic queue, which accepts the
items in the order of the claims and has lost as many as the head says; a thread that is idle is
idle there too. Items are thrown out only by pushes that have found the queue full. The sequence
numbers, a lap ahead of the cursors, stay below `2 ^ 63`. -/
theorem refines_atomic [Inhabited T] (hk : 1 ≤ k) (hk' : k ≤ 63) {r : Ringbuf T}
    (hnew : newRingbuf (UInt64.ofNat (2 ^ k)) = some r)
    (hrun : run (State.initial r) schedule = some (s, trace))
    (hlap : pushCalls schedule + 2 ^ k ≤ 2 ^ 63) :
    ∃ q, Atomic.Run (2 ^ k) Atomic.State.initial (history trace) q ∧
      q.accepted = (claims trace).map Prod.snd ∧ q.removed = s.ring.head.toNat ∧
      ∀ t, s.threads t = .idle → q.status t = .idle := by
  have hinit : AtomicInv k [] [] (State.initial r : State Tid T) := by
    refine ⟨initial_runInv hk' hnew, initial_origins r, ?_⟩
    have hstart : atomic [] (State.initial r : State Tid T) = Atomic.State.initial := by
      obtain ⟨_, rfl⟩ := newRingbuf_eq_some hnew
      rfl
    rw [hstart]
    exact .refl
  have hinv : AtomicInv k schedule trace s := by
    refine Transition.run_invariant (I := fun acts tr st => pushCalls acts + 2 ^ k ≤ 2 ^ 63 →
      AtomicInv k acts tr st) ?_ (fun _ => hinit) hrun hlap
    intro acts tr st a st' new ih hstep hle
    have hle' : pushCalls acts + 2 ^ k ≤ 2 ^ 63 := by
      rw [pushCalls_append] at hle
      omega
    exact step_atomicInv hk hk' (ih hle') hle' hstep
  refine ⟨atomic trace s, hinv.run, rfl, rfl, fun t ht => ?_⟩
  show (s.threads t).status s.ring = .idle
  rw [ht]
  rfl

/-- In the run `handOver` a `pop` finds the ring empty while the first push is storing its item, and
a `popMarshal` takes it afterwards. -/
theorem refines_atomic_hand_over : ∃ r s trace q,
    newRingbuf (UInt64.ofNat (2 ^ 1)) = some r ∧ run (State.initial r) handOver = some (s, trace) ∧
    history trace = [(false, .call (.push [7] .dropOldest)), (true, .call .pop),
      (true, .ret (.pop none)), (false, .ret (.push true)), (true, .call (.popMarshal [0, 0])),
      (true, .ret (.popMarshal 1 true [7, 0]))] ∧
    Atomic.Run (2 ^ 1) Atomic.State.initial (history trace) q ∧ q.accepted = [[7]] ∧
      q.removed = 1 := by
  obtain ⟨q, hq, haccepted, hremoved, -⟩ := refines_atomic (k := 1) (by decide) (by decide) rfl
    (show run (State.initial _) handOver = some (_, _) from rfl) (by decide)
  exact ⟨_, _, _, q, rfl, rfl, rfl, hq, haccepted, hremoved⟩

end Simulation

end TickBatch.Ring
