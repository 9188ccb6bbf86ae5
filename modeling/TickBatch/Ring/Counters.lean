import TickBatch.Ring.Atomic
import TickBatch.Ring.LockFree

/-!
# The counters of the ring, with pushes in progress

`Push` counts what `push` rejects, `evictOldest` counts what it throws out, and the cursors count
what was accepted and removed, each in an atomic step of its own. In between the counters are behind
by what the threads in progress still owe: `PushBooks` says by how much, in every state of every
interleaving, and `push_accounting` closes the books. Nothing is owed at rest, so every call of
`Push` is then found in exactly one of `DroppedCount`, `EvictedCount`, the dequeues and the queue.
-/

namespace TickBatch.Ring

variable {Tid T : Type}

/-- The event is a push that returns true. -/
def Event.accepts : Event T → Bool
  | .ret (.push true) => true
  | _ => false

/-- The event is a push that returns false; `Push` then increments `dropped`. -/
def Event.rejects : Event T → Bool
  | .ret (.push false) => true
  | _ => false

/-- The event is a removal by `evictOldest`. -/
def Event.evicts : Event T → Bool
  | .evict _ => true
  | _ => false

/-- The event is a removal by `pop` or `popMarshal`. -/
def Event.takes : Event T → Bool
  | .take _ => true
  | _ => false

/-- How many events of one kind a trace has. -/
def tallyOf (kind : Event T → Bool) (trace : List (Tid × Event T)) : Nat :=
  trace.countP fun e => kind e.2

@[simp] theorem tallyOf_append (kind : Event T → Bool) (tr tr' : List (Tid × Event T)) :
    tallyOf kind (tr ++ tr') = tallyOf kind tr + tallyOf kind tr' := List.countP_append

@[simp] theorem tallyOf_map (kind : Event T → Bool) (t : Tid) (events : List (Event T)) :
    tallyOf kind (events.map (t, ·)) = events.countP kind := by
  simp [tallyOf, List.countP_map, Function.comp_def]

/-- One if the thread has claimed a position and not yet returned. -/
def Local.stores : Local T → Nat
  | .pushWrite .. | .pushPublish .. => 1
  | _ => 0

/-- One if the thread has evicted an item and not yet counted it. -/
def Local.owes : Local T → Nat
  | .evictRecycle .. | .evictCount .. => 1
  | _ => 0

section Books

variable [DecidableEq Tid] [Fintype Tid]

/-- A sum over the threads when one of them moves. -/
theorem sum_move (w : Local T → Nat) (threads : Tid → Local T) (t : Tid) (pc : Local T) :
    ∑ u, w (Function.update threads t pc u) + w (threads t) = ∑ u, w (threads u) + w pc := by
  have hupdate : (fun u => w (Function.update threads t pc u)) =
      Function.update (fun u => w (threads u)) t (w pc) := by
    funext u
    by_cases hut : u = t
    · subst hut
      simp
    · simp [hut]
  have hsplit := Finset.sum_update_of_mem (Finset.mem_univ t) (fun u => w (threads u)) (w pc)
  have hold := Finset.sum_sdiff (f := fun u => w (threads u))
    (Finset.subset_univ {t})
  rw [Finset.sum_singleton] at hold
  rw [hupdate, hsplit, ← hold]
  omega

/-- Every push is in progress, accepted or rejected; the claims are those of the accepted pushes and
of the ones that are storing their item; and an eviction is counted once its thread has come to
it. -/
structure PushBooks (schedule : List (Action Tid T)) (trace : List (Tid × Event T))
    (s : State Tid T) : Prop where
  pushes : pushCalls schedule = tallyOf Event.accepts trace + tallyOf Event.rejects trace +
    ∑ t, (s.threads t).pending + ∑ t, (s.threads t).stores
  claims : tallyOf Event.claims trace = tallyOf Event.accepts trace + ∑ t, (s.threads t).stores
  evictions : tallyOf Event.evicts trace = s.ring.evicted.toNat + ∑ t, (s.threads t).owes

variable [Serializable T]

omit [DecidableEq Tid] [Fintype Tid] in
/-- What one step does to the books. -/
theorem Next.books {current : Option (Call T × List (Event T))} {r r' : Ringbuf T}
    {pc pc' : Local T} {events : List (Event T)} (h : Next r pc r' pc' events)
    (horigin : Origin current pc) (hevicted : r.evicted.toNat < 2 ^ 64 - 1) :
    events.countP Event.accepts + events.countP Event.rejects + pc'.pending + pc'.stores =
        pc.pending + pc.stores ∧
      events.countP Event.claims + pc.stores = events.countP Event.accepts + pc'.stores ∧
      events.countP Event.evicts + pc.owes + r.evicted.toNat = r'.evicted.toNat + pc'.owes := by
  cases h with
  | evictCount item policy tries =>
      have hsucc : (r.evicted + 1).toNat = r.evicted.toNat + 1 := by
        rw [UInt64.toNat_add, UInt64.toNat_one]
        omega
      simp [Local.pending, Local.stores, Local.owes, hsucc]
      omega
  | empty taker pos _ =>
      cases taker <;> simp [Local.pending, Local.stores, Local.owes, Event.accepts, Event.rejects,
        Event.claims, Event.evicts, Taker.empty]
  | recycle pos item result =>
      rcases horigin.result with rfl | ⟨_, _, rfl⟩ <;>
        simp [Local.pending, Local.stores, Local.owes, Event.accepts, Event.rejects, Event.claims,
          Event.evicts, Ringbuf.storeSeq]
  | _ =>
      simp [Local.pending, Local.stores, Local.owes, Event.accepts, Event.rejects, Event.claims,
        Event.evicts, Ringbuf.storeSeq, Ringbuf.storeData] <;> omega

variable {k : Nat} {schedule : List (Action Tid T)} {trace new : List (Tid × Event T)}
  {s s' : State Tid T} {a : Action Tid T}

omit [DecidableEq Tid] [Fintype Tid] [Serializable T] in
/-- An eviction is a removal. -/
theorem tallyOf_evicts_add_takes (trace : List (Tid × Event T)) :
    tallyOf Event.evicts trace + tallyOf Event.takes trace = tallyOf Event.removes trace := by
  induction trace with
  | nil => rfl
  | cons e trace ih =>
      obtain ⟨t, e⟩ := e
      have hkind : (if e.evicts then 1 else 0) + (if e.takes then 1 else 0) =
          if e.removes then 1 else 0 := by
        cases e <;> rfl
      simp only [tallyOf, List.countP_cons] at ih ⊢
      omega

/-- One action of the machine keeps the books. -/
theorem step_pushBooks (hinv : RunInv k schedule trace s) (hw : NoWrap k s.ring)
    (horigins : Origins trace s) (h : PushBooks schedule trace s)
    (hstep : step s a = some (s', new)) : PushBooks (schedule ++ [a]) (trace ++ new) s' := by
  -- there are no more evictions than removals
  have hevicted : s.ring.evicted.toNat < 2 ^ 64 - 1 := by
    have hle : s.ring.head.toNat ≤ s.ring.tail.toNat := hinv.ticket.le
    have htail := hw.tail
    have hhead : s.ring.head.toNat = tallyOf Event.removes trace := hinv.head_eq
    have hsum := tallyOf_evicts_add_takes trace
    have := h.evictions
    omega
  have henter : ∀ t pc, s' = { s with threads := Function.update s.threads t pc } →
      s.threads t = .idle → pc.stores = 0 → pc.owes = 0 →
      tallyOf Event.accepts new = 0 → tallyOf Event.rejects new = 0 →
      tallyOf Event.claims new = 0 → tallyOf Event.evicts new = 0 →
      pushCalls [a] = pc.pending → PushBooks (schedule ++ [a]) (trace ++ new) s' := by
    rintro t pc rfl hidle hstores howes haccepts hrejects hclaims hevicts hpush
    have hpending := sum_move Local.pending s.threads t pc
    have hstores' := sum_move Local.stores s.threads t pc
    have howes' := sum_move Local.owes s.threads t pc
    rw [hidle, show (Local.idle : Local T).pending = 0 from rfl] at hpending
    rw [hidle, show (Local.idle : Local T).stores = 0 from rfl] at hstores'
    rw [hidle, show (Local.idle : Local T).owes = 0 from rfl] at howes'
    have hb := h.pushes
    have hc := h.claims
    have he := h.evictions
    refine ⟨?_, ?_, ?_⟩
    · simp only [pushCalls_append, tallyOf_append]
      omega
    · simp only [tallyOf_append]
      omega
    · simp only [tallyOf_append]
      omega
  cases a with
  | call t c =>
      obtain ⟨hidle, hs', rfl⟩ := State.enter_eq_some hstep
      refine henter t _ hs' hidle ?_ ?_ rfl rfl rfl rfl ?_
      · cases c <;> rfl
      · cases c <;> rfl
      · cases c <;> rfl
  | queueDepth t =>
      obtain ⟨hidle, hs', rfl⟩ := State.enter_eq_some hstep
      exact henter t _ hs' hidle rfl rfl rfl rfl rfl rfl rfl
  | resume t =>
      obtain ⟨ring, pc, events, hnext, rfl, rfl⟩ := resume_eq_some hstep
      obtain ⟨hp, hc, he⟩ := (next_cases hnext).books (horigins.threads t) hevicted
      have hpending := sum_move Local.pending s.threads t pc
      have hstores := sum_move Local.stores s.threads t pc
      have howes := sum_move Local.owes s.threads t pc
      have hb := h.pushes
      have hb' := h.claims
      have hb'' := h.evictions
      have hnone : pushCalls [Action.resume (T := T) t] = 0 := rfl
      refine ⟨?_, ?_, ?_⟩
      · simp only [pushCalls_append, tallyOf_append, tallyOf_map]
        omega
      · simp only [tallyOf_append, tallyOf_map]
        omega
      · simp only [tallyOf_append, tallyOf_map]
        omega

/-- Only a push that may drop the oldest item calls `evictOldest`. -/
def Local.MayEvict : Local T → Prop
  | .evictLoadHead _ policy _ | .evictLoadSeq _ policy _ _ | .evictCas _ policy _ _
  | .evictRecycle _ policy _ _ | .evictCount _ policy _ => policy ≠ .dropNewest
  | _ => True

omit [DecidableEq Tid] [Fintype Tid] in
theorem Next.mayEvict {r r' : Ringbuf T} {pc pc' : Local T} {events : List (Event T)}
    (h : Next r pc r' pc' events) (hpc : pc.MayEvict) : pc'.MayEvict := by
  cases h with
  | makeRoom item policy tries pos _ hpolicy _ => exact hpolicy
  | _ => first | exact hpc | trivial

omit [Fintype Tid] in
theorem step_mayEvict (h : ∀ t, (s.threads t).MayEvict) (hstep : step s a = some (s', new)) :
    ∀ t, (s'.threads t).MayEvict := by
  have hmove : ∀ (t : Tid) (pc : Local T), pc.MayEvict →
      ∀ u, (Function.update s.threads t pc u).MayEvict := fun t pc hpc =>
    (Function.forall_update_iff s.threads fun _ pc => pc.MayEvict).mpr ⟨hpc, fun u _ => h u⟩
  cases a with
  | call t c =>
      obtain ⟨_, rfl, rfl⟩ := State.enter_eq_some hstep
      exact hmove t _ (by cases c <;> trivial)
  | queueDepth t =>
      obtain ⟨_, rfl, rfl⟩ := State.enter_eq_some hstep
      exact hmove t _ trivial
  | resume t =>
      obtain ⟨ring, pc, events, hnext, rfl, rfl⟩ := resume_eq_some hstep
      exact hmove t _ ((next_cases hnext).mayEvict (h t))

omit [Fintype Tid] in
/-- Only a push that may drop the oldest item evicts. -/
theorem step_evicts (horigins : Origins trace s) (hmay : ∀ t, (s.threads t).MayEvict)
    (h : tallyOf Event.evicts trace ≠ 0 →
      ∃ t item policy, policy ≠ .dropNewest ∧ (t, .call (.push item policy)) ∈ trace)
    (hstep : step s a = some (s', new)) (hne : tallyOf Event.evicts (trace ++ new) ≠ 0) :
    ∃ t item policy, policy ≠ .dropNewest ∧ (t, .call (.push item policy)) ∈ trace ++ new := by
  have hold : tallyOf Event.evicts trace ≠ 0 →
      ∃ t item policy, policy ≠ .dropNewest ∧ (t, .call (.push item policy)) ∈ trace ++ new := by
    intro hne
    obtain ⟨t, item, policy, hpolicy, hmem⟩ := h hne
    exact ⟨t, item, policy, hpolicy, List.mem_append_left _ hmem⟩
  rw [tallyOf_append] at hne
  cases a with
  | call t c =>
      obtain ⟨_, _, rfl⟩ := State.enter_eq_some hstep
      exact hold hne
  | queueDepth t =>
      obtain ⟨_, _, rfl⟩ := State.enter_eq_some hstep
      exact hold hne
  | resume t =>
      obtain ⟨ring, pc, events, hnext, rfl, rfl⟩ := resume_eq_some hstep
      have hcase := next_cases hnext
      rw [tallyOf_map] at hne
      have horigin := horigins.threads t
      have hpolicy := hmay t
      generalize hpc : s.threads t = pc₀ at hcase horigin hpolicy
      cases hcase with
      | evict item policy tries headPos _ =>
          obtain ⟨_, hcall⟩ := horigin
          exact ⟨t, item, policy, hpolicy, List.mem_append_left _ (call_mem_of_inCall hcall)⟩
      | _ => exact hold hne

omit [Fintype Tid] in
/-- Every call in a trace is in the schedule. -/
theorem mem_schedule_of_call {r : Ringbuf T}
    (hrun : run (State.initial r) schedule = some (s, trace)) {t : Tid} {c : Call T}
    (hmem : (t, .call c) ∈ trace) : .call t c ∈ schedule := by
  revert hmem
  refine Transition.run_invariant (I := fun acts tr _ => (t, Event.call c) ∈ tr →
    Action.call t c ∈ acts) ?_ (by simp) hrun
  intro acts tr s a s' new ih hstep hmem
  rw [List.mem_append] at hmem ⊢
  refine hmem.imp ih fun hnew => ?_
  cases a with
  | call u d =>
      obtain ⟨_, _, rfl⟩ := State.enter_eq_some hstep
      simpa using hnew
  | queueDepth u =>
      obtain ⟨_, _, rfl⟩ := State.enter_eq_some hstep
      simp at hnew
  | resume u =>
      obtain ⟨ring, pc, events, hnext, rfl, rfl⟩ := resume_eq_some hstep
      obtain ⟨e, he, heq⟩ := List.mem_map.mp hnew
      cases heq
      have hcase := next_cases hnext
      generalize s.threads t = pc₀ at hcase
      cases hcase <;> simp at he

variable [Inhabited T] {r : Ringbuf T}

/-- Along every run. -/
theorem run_pushBooks (hk : 1 ≤ k) (hk' : k ≤ 63)
    (hnew : newRingbuf (UInt64.ofNat (2 ^ k)) = some r)
    (hrun : run (State.initial r) schedule = some (s, trace))
    (hpush : pushCalls schedule < 2 ^ 63) :
    PushBooks schedule trace s ∧ (tallyOf Event.evicts trace ≠ 0 →
      ∃ t item policy, policy ≠ .dropNewest ∧ (t, .call (.push item policy)) ∈ trace) := by
  have hinit : PushBooks [] [] (State.initial r : State Tid T) := by
    obtain ⟨_, rfl⟩ := newRingbuf_eq_some hnew
    constructor <;>
      simp [State.initial, tallyOf, pushCalls, Local.pending, Local.stores, Local.owes]
  refine (Transition.run_invariant (I := fun acts tr st => pushCalls acts < 2 ^ 63 →
    RunInv k acts tr st ∧ Origins tr st ∧ (∀ t, (st.threads t).MayEvict) ∧
      PushBooks acts tr st ∧ (tallyOf Event.evicts tr ≠ 0 →
        ∃ t item policy, policy ≠ .dropNewest ∧ (t, .call (.push item policy)) ∈ tr))
    ?_ ?_ hrun hpush).2.2.2
  · intro acts tr st a st' new ih hstep hlt
    have hlt' : pushCalls acts < 2 ^ 63 := by
      rw [pushCalls_append] at hlt
      omega
    obtain ⟨hinv, horigins, hmay, hbooks, hevicts⟩ := ih hlt'
    exact ⟨step_runInv hk hk' hinv hlt' hstep, step_origins horigins hstep,
      step_mayEvict hmay hstep, step_pushBooks hinv (hinv.noWrap hk hk' hlt') horigins hbooks hstep,
      step_evicts horigins hmay hevicts hstep⟩
  · exact fun _ => ⟨initial_runInv hk' hnew, initial_origins r, fun _ => trivial, hinit,
      fun hne => absurd rfl hne⟩

/-- In every state reached with fewer than `2 ^ 63` pushes: each call of `push` has been accepted or
rejected or is in progress; what was accepted has been dequeued, evicted or is queued, the pushes
that are storing their item and the evictions not yet counted being the difference between the
results and the counters. Once all threads have returned there is no difference: the calls are
`DroppedCount` (the rejected ones), `EvictedCount`, the dequeued items and `QueueDepth` together.
And if every push uses `DropNewest`, `EvictedCount` is zero. -/
theorem push_accounting (hk : 1 ≤ k) (hk' : k ≤ 63)
    (hnew : newRingbuf (UInt64.ofNat (2 ^ k)) = some r)
    (hrun : run (State.initial r) schedule = some (s, trace))
    (hpush : pushCalls schedule < 2 ^ 63) :
    pushCalls schedule = tallyOf Event.accepts trace + tallyOf Event.rejects trace +
      ∑ t, (s.threads t).pending + ∑ t, (s.threads t).stores ∧
    tallyOf Event.accepts trace + ∑ t, (s.threads t).stores =
      tallyOf Event.takes trace + s.ring.evicted.toNat + ∑ t, (s.threads t).owes +
        (s.ring.tail.toNat - s.ring.head.toNat) ∧
    ((∀ t, s.threads t = .idle) →
      pushCalls schedule = tallyOf Event.rejects trace + s.ring.evicted.toNat +
        tallyOf Event.takes trace + (s.ring.tail.toNat - s.ring.head.toNat)) ∧
    ((∀ t item policy, .call t (.push item policy) ∈ schedule → policy = .dropNewest) →
      s.ring.evicted = 0) := by
  have hinv := run_inv hk hk' hnew hrun hpush
  have hle : s.ring.head.toNat ≤ s.ring.tail.toNat := hinv.ticket.le
  have htail : s.ring.tail.toNat = tallyOf Event.claims trace := hinv.tail_eq
  have hhead : s.ring.head.toNat = tallyOf Event.removes trace := hinv.head_eq
  have hsum := tallyOf_evicts_add_takes trace
  obtain ⟨hbooks, hevicts⟩ := run_pushBooks hk hk' hnew hrun hpush
  have hb := hbooks.pushes
  have hc := hbooks.claims
  have he := hbooks.evictions
  refine ⟨hb, by omega, fun hidle => ?_, fun hnewest => ?_⟩
  · simp only [hidle, Local.pending, Local.stores, Local.owes, Finset.sum_const_zero] at hb hc he
    omega
  · have hzero : tallyOf Event.evicts trace = 0 := by
      by_contra hne
      obtain ⟨t, item, policy, hpolicy, hmem⟩ := hevicts hne
      exact hpolicy (hnewest t item policy (mem_schedule_of_call hrun hmem))
    refine UInt64.toNat_inj.mp ?_
    rw [UInt64.toNat_zero]
    omega

/-- Three pushes into a ring of two slots. -/
def overflow : List (Action Bool (List UInt8)) :=
  .call false (.push [1] .dropOldest) :: List.replicate 5 (.resume false) ++
  .call false (.push [2] .dropOldest) :: List.replicate 5 (.resume false) ++
  .call false (.push [3] .dropOldest) :: List.replicate 12 (.resume false)

theorem push_accounting_overflow : ∃ r s trace, newRingbuf (UInt64.ofNat (2 ^ 1)) = some r ∧
    run (State.initial r) overflow = some (s, trace) ∧ (∀ t, s.threads t = .idle) ∧
    s.ring.evicted.toNat = 1 ∧
    pushCalls overflow = tallyOf Event.rejects trace + s.ring.evicted.toNat +
      tallyOf Event.takes trace + (s.ring.tail.toNat - s.ring.head.toNat) := by
  have hpush : pushCalls overflow < 2 ^ 63 := by decide
  have houtcome : testSchedule (UInt64.ofNat (2 ^ 1)) overflow
      (fun s _ => s.ring.evicted.toNat == 1 && (s.threads false).work == 0 &&
        (s.threads true).work == 0) = true := by decide +kernel
  obtain ⟨r, s, trace, hnew, hrun, htest⟩ := exists_of_testSchedule houtcome
  simp only [Bool.and_eq_true, beq_iff_eq] at htest
  have hidle : ∀ t, s.threads t = .idle := by
    rw [Bool.forall_bool]
    exact ⟨Local.eq_idle htest.1.2, Local.eq_idle htest.2⟩
  exact ⟨r, s, trace, hnew, hrun, hidle, htest.1.1,
    (push_accounting (k := 1) (by decide) (by decide) hnew hrun hpush).2.2.1 hidle⟩

end Books

end TickBatch.Ring
