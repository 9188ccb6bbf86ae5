import TickBatch.Ring.Fifo

/-!
# The depth that a monitor reads

`QueueDepth` loads the tail and then the head, and pushes, evictions and dequeues may fall between
the two loads. The head only moves forward, so the tail that was loaded is never more than a
capacity ahead of it (`DepthInv`), and a head that has overtaken it gives zero: `queue_depth` says
that the depth is at most `QueueCap`. It also says what the depth counts when nothing happens
between the loads.
-/

namespace TickBatch.Ring

variable {Tid T : Type}

/-- The capacity that `QueueCap` reports. -/
def queueCap (r : Ringbuf T) : UInt64 := r.mask + 1

/-- The positions that pushes have claimed and that no `pop`, `popMarshal` or eviction has
removed. -/
def waiting (trace : List (Tid × Event T)) : List Nat :=
  ((claims trace).map Prod.fst).filter (· ∉ removals trace)

/-- The depths that `QueueDepth` has returned. -/
def depths (trace : List (Tid × Event T)) : List UInt64 :=
  trace.filterMap fun
    | (_, .ret (.queueDepth depth)) => some depth
    | _ => none

theorem mem_depths {trace : List (Tid × Event T)} {depth : UInt64} (h : depth ∈ depths trace) :
    ∃ t, (t, .ret (.queueDepth depth)) ∈ trace := by
  obtain ⟨⟨t, e⟩, hmem, heq⟩ := List.mem_filterMap.mp h
  split at heq
  · rename_i hret
    cases hret
    cases heq
    exact ⟨t, hmem⟩
  · cases heq

/-- When the claimed positions are those before `tail` and the removed ones those before `head`,
the rest of them is waiting. -/
theorem length_waiting {trace : List (Tid × Event T)} {head tail : Nat} (hle : head ≤ tail)
    (hclaims : (claims trace).map Prod.fst = List.range tail)
    (hremovals : removals trace = List.range head) :
    (waiting trace).length = tail - head := by
  obtain ⟨d, rfl⟩ := Nat.exists_eq_add_of_le hle
  unfold waiting
  rw [hclaims, hremovals, List.range_add, List.filter_append, List.length_append]
  have hremoved : (List.range head).filter (· ∉ List.range head) = [] := by
    simp
  have hqueued : ((List.range d).map (head + ·)).filter (· ∉ List.range head) =
      (List.range d).map (head + ·) := by
    rw [List.filter_eq_self]
    simp
  rw [hremoved, hqueued]
  simp

section Step

variable [Serializable T] {r r' : Ringbuf T} {pc pc' : Local T} {events : List (Event T)}

/-- The tail that a `QueueDepth` works with is the one it has loaded. -/
theorem Next.depthLoadHead {tail : UInt64} (h : Next r pc r' (.depthLoadHead tail) events) :
    tail = r.tail ∧ r' = r := by
  cases h with
  | depthTail => exact ⟨rfl, rfl⟩

/-- Only a `QueueDepth` that has loaded both cursors returns a depth. -/
theorem Next.depth {current : Option (Call T × List (Event T))} {depth : UInt64}
    (h : Next r pc r' pc' events) (horigin : Origin current pc)
    (hret : .ret (.queueDepth depth) ∈ events) :
    ∃ tail, pc = .depthLoadHead tail ∧ depth = queueDepth tail r.head := by
  cases h.returnsFrom horigin hret with
  | depth => exact ⟨_, rfl, rfl⟩
  | @empty taker _ _ _ heq => cases taker <;> cases heq

end Step

/-! ## The bound -/

/-- Two cursors that are at most `cap` apart give a depth of at most `cap`, whichever is ahead. -/
theorem queueDepth_le {tail head : UInt64} {cap : Nat} (h : tail.toNat ≤ head.toNat + cap) :
    (queueDepth tail head).toNat ≤ cap := by
  unfold queueDepth
  split
  · rename_i hle
    rw [UInt64.toNat_sub_of_le _ _ hle]
    omega
  · exact Nat.zero_le _

/-- A tail that a `QueueDepth` has loaded is at most a capacity ahead of the head, and no depth that
was returned exceeds the capacity. -/
structure DepthInv (k : Nat) (trace : List (Tid × Event T)) (s : State Tid T) : Prop where
  loaded : ∀ t tail, s.threads t = .depthLoadHead tail →
    tail.toNat ≤ s.ring.head.toNat + 2 ^ k
  returned : ∀ t depth, (t, .ret (.queueDepth depth)) ∈ trace → depth.toNat ≤ 2 ^ k

section Run

variable [DecidableEq Tid] [Serializable T] {k : Nat} {r : Ringbuf T}
  {schedule : List (Action Tid T)} {trace new : List (Tid × Event T)} {s s' : State Tid T}

omit [Serializable T] in
/-- Entering a call loads nothing. -/
theorem DepthInv.enter {t : Tid} {pc : Local T} (h : DepthInv k trace s)
    (hpc : ∀ tail, pc ≠ .depthLoadHead tail)
    (hnew : ∀ e ∈ new, ∀ result, e.2 ≠ .ret result) :
    DepthInv k (trace ++ new) { s with threads := Function.update s.threads t pc } := by
  refine ⟨fun u tail hu => ?_, fun u depth hmem => ?_⟩
  · by_cases hut : u = t
    · subst hut
      exact absurd (by simpa using hu) (hpc tail)
    · exact h.loaded u tail (by simpa [hut] using hu)
  · rcases List.mem_append.mp hmem with hold | hmem
    · exact h.returned u depth hold
    · exact absurd rfl (hnew _ hmem _)

/-- One step of the machine preserves the bound. -/
theorem step_depthInv (hrun : RunInv k schedule trace s) (horigin : Origins trace s)
    (hw : NoWrap k s.ring) {a : Action Tid T} (h : DepthInv k trace s)
    (hstep : step s a = some (s', new)) : DepthInv k (trace ++ new) s' := by
  cases a with
  | call t c =>
      obtain ⟨_, rfl, rfl⟩ := State.enter_eq_some hstep
      exact h.enter (by cases c <;> simp [Local.start]) (by simp)
  | queueDepth t =>
      obtain ⟨_, rfl, rfl⟩ := State.enter_eq_some hstep
      exact h.enter (by simp) (by simp)
  | resume t =>
      obtain ⟨ring, pc, events, hnext, rfl, rfl⟩ := resume_eq_some hstep
      have hcase := next_cases hnext
      have hhead : s.ring.head.toNat ≤ ring.head.toNat := by
        rcases hcase.head with heq | heq
        · rw [heq]
        · rw [heq, hw.toNat_succ hrun.ticket.le]
          exact Nat.le_succ _
      refine ⟨?_, fun u depth hmem => ?_⟩
      · refine (Function.forall_update_iff s.threads fun _ pc => ∀ tail, pc = .depthLoadHead tail →
          tail.toNat ≤ ring.head.toNat + 2 ^ k).mpr ⟨fun tail hpc => ?_, fun u _ tail hu => ?_⟩
        · -- the tail has just been loaded, and it is at most a capacity ahead
          subst hpc
          obtain ⟨rfl, rfl⟩ := hcase.depthLoadHead
          exact hrun.ticket.room
        · exact (h.loaded u tail hu).trans (Nat.add_le_add_right hhead _)
      · rcases List.mem_append.mp hmem with hold | hmem
        · exact h.returned u depth hold
        · obtain ⟨e, he, heq⟩ := List.mem_map.mp hmem
          cases heq
          obtain ⟨tail, hpc, rfl⟩ := hcase.depth (horigin.threads t) he
          exact queueDepth_le (h.loaded t tail hpc)

variable [Inhabited T]

/-- The bound holds along every run. -/
theorem run_depthInv (hk : 1 ≤ k) (hk' : k ≤ 63)
    (hnew : newRingbuf (UInt64.ofNat (2 ^ k)) = some r)
    (hrun : run (State.initial r) schedule = some (s, trace))
    (hpush : pushCalls schedule < 2 ^ 63) : DepthInv k trace s := by
  refine (Transition.run_invariant
    (I := fun acts tr s => pushCalls acts < 2 ^ 63 →
      RunInv k acts tr s ∧ Origins tr s ∧ DepthInv k tr s) ?_ ?_ hrun hpush).2.2
  · intro acts tr s a s' new hinv hstep hlt
    have hlt' : pushCalls acts < 2 ^ 63 := by
      rw [pushCalls_append] at hlt
      omega
    obtain ⟨hruninv, horigin, h⟩ := hinv hlt'
    have hw := hruninv.noWrap hk hk' hlt'
    exact ⟨step_runInv hk hk' hruninv hlt' hstep, step_origins horigin hstep,
      step_depthInv hruninv horigin hw h hstep⟩
  · intro _
    refine ⟨initial_runInv hk' hnew, initial_origins r, ⟨?_, by simp⟩⟩
    intro t tail hpc
    cases hpc

/-! ## Loads with nothing in between -/

omit [Inhabited T] in
/-- Threads that enter a call move neither the ring nor a thread that is inside one. -/
theorem run_enters {t : Tid} (hbusy : s.threads t ≠ .idle) (hquiet : ∀ u, .resume u ∉ schedule)
    (hrun : run s schedule = some (s', trace)) :
    s'.ring = s.ring ∧ s'.threads t = s.threads t := by
  induction schedule generalizing s trace with
  | nil =>
      cases hrun
      exact ⟨rfl, rfl⟩
  | cons a schedule ih =>
      obtain ⟨s₁, first, rest, hstep, hrest, _⟩ := Transition.run_cons_eq_some.mp hrun
      obtain ⟨u, pc, events, henter⟩ : ∃ u pc events, s.enter u pc events = some (s₁, first) := by
        cases a with
        | call u c => exact ⟨u, _, _, hstep⟩
        | queueDepth u => exact ⟨u, _, _, hstep⟩
        | resume u => exact absurd List.mem_cons_self (hquiet u)
      obtain ⟨hidle, rfl, _⟩ := State.enter_eq_some henter
      have hne : t ≠ u := by
        intro heq
        rw [heq] at hbusy
        exact hbusy hidle
      have hsame : Function.update s.threads u pc t = s.threads t := Function.update_of_ne hne _ _
      have hrest := ih (s := { s with threads := Function.update s.threads u pc })
        (fun hidle' => hbusy (hsame.symm.trans hidle'))
        (fun u hu => hquiet u (List.mem_cons_of_mem _ hu)) hrest
      exact ⟨hrest.1, hrest.2.trans hsame⟩

/-- In every run with fewer than `2 ^ 63` pushes, no depth that `QueueDepth` returns exceeds
`QueueCap`, whatever other threads do between its two loads. If no thread takes a step between them,
the depth is the number of positions that are claimed and not yet removed. -/
theorem queue_depth (hk : 1 ≤ k) (hk' : k ≤ 63)
    (hnew : newRingbuf (UInt64.ofNat (2 ^ k)) = some r)
    (hrun : run (State.initial r) schedule = some (s, trace))
    (hpush : pushCalls schedule < 2 ^ 63) :
    (queueCap s.ring).toNat = 2 ^ k ∧
    (∀ depth ∈ depths trace, depth ≤ queueCap s.ring) ∧
    (∀ t between s' new, s.threads t = .depthLoadTail → (∀ u, .resume u ∉ between) →
      run s (.resume t :: between) = some (s', new) →
      ∃ s'' depth, step s' (.resume t) = some (s'', [(t, .ret (.queueDepth depth))]) ∧
        depth.toNat = (waiting trace).length) := by
  have hinv := run_inv hk hk' hnew hrun hpush
  have hw := hinv.noWrap hk hk' hpush
  have hcap : (queueCap s.ring).toNat = 2 ^ k := by
    have hle := hw.cap_le
    have htwo := hw.two_le
    unfold queueCap
    rw [UInt64.toNat_add, UInt64.toNat_one, hinv.mask]
    omega
  refine ⟨hcap, fun depth hmem => ?_, fun t between s' new hpc hquiet hloads => ?_⟩
  · obtain ⟨t, hmem⟩ := mem_depths hmem
    rw [UInt64.le_iff_toNat_le, hcap]
    exact (run_depthInv hk hk' hnew hrun hpush).returned t depth hmem
  · obtain ⟨s₁, first, rest, hload, hrest, _⟩ := Transition.run_cons_eq_some.mp hloads
    obtain ⟨ring, pc, events, hnext, rfl, _⟩ := resume_eq_some hload
    rw [hpc] at hnext
    simp only [Local.next] at hnext
    cases hnext
    obtain ⟨hring, hkept⟩ := run_enters (t := t) (by simp) hquiet hrest
    have hpc' : s'.threads t = .depthLoadHead s.ring.tail :=
      hkept.trans (Function.update_self ..)
    have hring : s'.ring = s.ring := hring
    refine ⟨{ s' with threads := Function.update s'.threads t .idle },
      queueDepth s.ring.tail s.ring.head, ?_, ?_⟩
    · rw [step, hpc', ← hring]
      rfl
    · have hle : s.ring.head ≤ s.ring.tail := UInt64.le_iff_toNat_le.mpr hinv.ticket.le
      have hclaimed := hinv.ticket.claimed
      have hremoved := hinv.ticket.removed
      rw [claims_ticketLog] at hclaimed
      rw [removals_ticketLog] at hremoved
      unfold queueDepth
      rw [if_pos hle, UInt64.toNat_sub_of_le _ _ hle]
      exact (length_waiting hinv.ticket.le hclaimed hremoved).symm

/-- A monitor loads the tail of a full ring of two slots; before it loads the head, a push evicts
the oldest item and stores its own. Then another `QueueDepth` starts. -/
def monitored : List (Action Bool (List UInt8)) :=
  .call false (.push [1] .dropOldest) :: List.replicate 5 (.resume false) ++
  .call false (.push [2] .dropOldest) :: List.replicate 5 (.resume false) ++
  [.queueDepth true, .resume true] ++
  .call false (.push [3] .dropOldest) :: List.replicate 12 (.resume false) ++
  [.resume true, .queueDepth true]

/-- Whether a `QueueDepth` is about to load the tail. -/
def Local.loadsTail : Local T → Bool
  | .depthLoadTail => true
  | _ => false

omit [Serializable T] [Inhabited T] in
theorem Local.eq_depthLoadTail {pc : Local T} (h : pc.loadsTail = true) : pc = .depthLoadTail := by
  unfold Local.loadsTail at h
  split at h
  · rfl
  · cases h

/-- The first monitor reports one item although there are two at both of its loads; the second one
reads alone. -/
theorem queue_depth_monitored : ∃ r s trace, newRingbuf (UInt64.ofNat (2 ^ 1)) = some r ∧
    run (State.initial r) monitored = some (s, trace) ∧ depths trace = [1] ∧
    (∀ depth ∈ depths trace, depth ≤ queueCap s.ring) ∧ (waiting trace).length = 2 ∧
    ∃ s' s'' depth, step s (.resume true) = some (s', []) ∧
      step s' (.resume true) = some (s'', [(true, .ret (.queueDepth depth))]) ∧
      depth.toNat = 2 := by
  have hpush : pushCalls monitored < 2 ^ 63 := by decide
  have houtcome : testSchedule (UInt64.ofNat (2 ^ 1)) monitored
      (fun s trace => depths trace == [1] && (waiting trace).length == 2 &&
        (s.threads true).loadsTail) = true := by decide +kernel
  obtain ⟨r, s, trace, hnew, hrun, htest⟩ := exists_of_testSchedule houtcome
  simp only [Bool.and_eq_true, beq_iff_eq] at htest
  obtain ⟨⟨hdepths, hwaiting⟩, hpc⟩ := htest
  obtain ⟨_, hbound, hexact⟩ := queue_depth (k := 1) (by decide) (by decide) hnew hrun hpush
  have hpc := Local.eq_depthLoadTail hpc
  obtain ⟨s', hload⟩ : ∃ s', step s (.resume true) = some (s', []) := by
    rw [step, hpc]
    exact ⟨_, rfl⟩
  obtain ⟨s'', depth, hstep, hdepth⟩ := hexact true [] s' [] hpc (by simp)
    (Transition.run_cons_eq_some.mpr ⟨s', [], [], hload, rfl, rfl⟩)
  exact ⟨r, s, trace, hnew, hrun, hdepths, hbound, hwaiting, s', s'', depth, hload, hstep,
    hdepth.trans hwaiting⟩

end Run

end TickBatch.Ring
