import TickBatch.Ring.Fifo

/-!
# The verdicts full and empty

`push` and the dequeues decide from one sequence number, compared with a cursor that may be stale
by then. A slot whose position has been left behind shows a later sequence number
(`TicketRing.Inv.seq_of_lt_head`), so a stale cursor leads to a retry and never to a verdict:
`ring_verdicts` says what the ring looks like whenever `push` gives up under `DropNewest` and
whenever `pop` or `popMarshal` reports empty.
-/

namespace TickBatch.Ring

variable {Tid T : Type}

/-- The position that a push has claimed and not yet published. -/
def Local.storing : Local T → Option UInt64
  | .pushWrite _ pos | .pushPublish _ pos => some pos
  | _ => none

/-- The thread is inside `push` or an `evictOldest` that a push has called. -/
def Local.pushing : Local T → Bool
  | .pushLoadTail .. | .pushLoadSeq .. | .pushCas .. | .pushWrite .. | .pushPublish ..
  | .evictLoadHead .. | .evictLoadSeq .. | .evictCas .. | .evictRecycle .. | .evictCount .. => true
  | _ => false

/-- Every push drops the newest item, and only the thread `d` dequeues, with `popMarshal`. -/
def DropNewestAction (d : Tid) : Action Tid T → Prop
  | .call _ (.push _ policy) => policy = .dropNewest
  | .call t (.popMarshal _) => t = d
  | .call _ .pop => False
  | .queueDepth _ | .resume _ => True

/-! ## One sequence number against a stale cursor -/

section Stale

variable [DecidableEq Tid] {k : Nat} {schedule : List (Action Tid T)}
  {trace : List (Tid × Event T)} {s : State Tid T} {pos : UInt64}

/-- A tail that has moved on does not look full: the slot's number is ahead of the position. The
sequence numbers run up to a lap ahead of the cursors, so they must not reach `2 ^ 63` either. -/
theorem pushDiff_claimed (hinv : RunInv k schedule trace s) (hw : NoWrap k s.ring)
    (hlap : s.ring.tail.toNat + 2 ^ k ≤ 2 ^ 63) (hpos : pos.toNat < s.ring.tail.toNat) :
    ¬s.ring.pushDiff pos < 0 := by
  have hle : s.ring.head.toNat ≤ s.ring.tail.toNat := hinv.ticket.le
  have htail := hw.tail
  have hseq := ticket_seq s hinv.mask pos
  have hbounds : pos.toNat ≤ s.ticket.seq (pos.toNat % 2 ^ k) ∧
      s.ticket.seq (pos.toNat % 2 ^ k) < 2 ^ 63 := by
    by_cases hremoved : pos.toNat < s.ring.head.toNat
    · obtain ⟨p, hp, _, hlo, hhi⟩ := hinv.ticket.seq_of_lt_head hw.two_le hremoved
      simp only [State.ticket] at hp hlo hhi ⊢
      omega
    · rcases hinv.ticket.live pos.toNat (Nat.le_of_not_lt hremoved) hpos with ⟨h, _⟩ | ⟨h, _⟩ <;>
        simp only [State.ticket] at h ⊢ <;> omega
  rw [hseq] at hbounds
  exact Words.signed_sub_nonneg hbounds.1 (by omega)

/-- A head that has moved on does not look empty. -/
theorem popDiff_removed (hinv : RunInv k schedule trace s) (hw : NoWrap k s.ring)
    (hpos : pos.toNat < s.ring.head.toNat) : ¬s.ring.popDiff pos < 0 := by
  have hle : s.ring.head.toNat ≤ s.ring.tail.toNat := hinv.ticket.le
  have htail := hw.tail
  have hseq := ticket_seq s hinv.mask pos
  have hsucc : (pos + 1).toNat = pos.toNat + 1 := hw.toNat_succ (by omega)
  obtain ⟨p, hp, hdvd, hlo, hhi⟩ := hinv.ticket.seq_of_lt_head hw.two_le hpos
  simp only [State.ticket] at hp
  -- `p` is a whole number of laps ahead, and so is `2 ^ 63`
  have hlaps : p - pos.toNat ≤ 2 ^ 63 := by
    have hpow : 2 ^ k ∣ 2 ^ 63 := Nat.pow_dvd_pow 2 hw.le
    obtain ⟨j, hj⟩ := hdvd
    obtain ⟨m, hm⟩ := hpow
    rw [hj, hm]
    refine Nat.mul_le_mul_left _ (Nat.le_of_lt_succ ?_)
    refine Nat.lt_of_mul_lt_mul_left (a := 2 ^ k) ?_
    rw [Nat.mul_succ, ← hm, ← hj]
    omega
  rw [hseq] at hlo hhi
  have hhi' : (s.ring.seqs (s.ring.slot pos)).toNat < pos.toNat + 1 + 2 ^ 63 := by
    rcases hhi with h | h
    · have : (s.ring.seqs (s.ring.slot pos)).toNat ≤ s.ring.tail.toNat := h
      omega
    · omega
  exact Words.signed_sub_nonneg (by omega) (by omega)

/-- A current head looks empty only when nothing is queued or the push that claimed the position
is still storing its item. -/
theorem popDiff_head (hinv : RunInv k schedule trace s) (hw : NoWrap k s.ring)
    (hneg : s.ring.popDiff s.ring.head < 0) :
    s.ring.head = s.ring.tail ∨ ∃ u, (s.threads u).storing = some s.ring.head := by
  have hle : s.ring.head.toNat ≤ s.ring.tail.toNat := hinv.ticket.le
  rcases Nat.eq_or_lt_of_le hle with heq | hlt
  · exact Or.inl (UInt64.toNat_inj.mp heq)
  right
  rcases hinv.ticket.live s.ring.head.toNat le_rfl hlt with ⟨_, u, hu⟩ | ⟨hseq, _⟩
  · refine ⟨u, ?_⟩
    have hu' : (s.threads u).view.producingPos = some s.ring.head.toNat := hu
    cases hpc : s.threads u <;>
      simp only [hpc, Local.view, TicketRing.View.producingPos, Option.some.injEq,
        reduceCtorEq] at hu' <;>
      exact congrArg some (UInt64.toNat_inj.mp hu')
  · rw [ticket_seq s hinv.mask, ← hw.toNat_succ hle] at hseq
    have hzero : s.ring.popDiff s.ring.head = 0 :=
      Words.signed_sub_eq_zero.mpr (UInt64.toNat_inj.mp hseq)
    rw [hzero] at hneg
    exact absurd hneg (by decide)

end Stale

/-! ## One drain thread under `DropNewest` -/

section DropNewest

/-- What a program point of thread `t` tells when only `d` dequeues: a push drops the newest item,
and a position being dequeued is the last one removed. -/
def DropNewestOk (d : Tid) (r : Ringbuf T) (t : Tid) : Local T → Prop
  | .pushLoadTail _ policy _ | .pushLoadSeq _ policy _ _ | .pushCas _ policy _ _ =>
      policy = .dropNewest
  | .evictLoadHead .. | .evictLoadSeq .. | .evictCas .. | .evictRecycle .. | .evictCount .. => False
  | .takeLoadHead _ | .takeLoadSeq .. | .takeCas .. => t = d
  | .takeRead _ pos | .marshal _ pos _ | .takeRecycle pos _ _ => t = d ∧ r.head = pos + 1
  | _ => True

/-- Only a successful compare-and-swap of the head matters to the other threads, and only `d` makes
one. -/
theorem DropNewestOk.other {d t : Tid} {r r' : Ringbuf T} {pc : Local T}
    (h : DropNewestOk d r t pc) (hhead : t = d → r'.head = r.head) : DropNewestOk d r' t pc := by
  cases pc <;> first
    | exact h
    | exact ⟨h.1, (hhead h.1).trans h.2⟩

variable [Serializable T]

/-- One step of a thread: where it stands afterwards, and that only `d` moves the head. -/
theorem Next.dropNewest {d t : Tid} {r r' : Ringbuf T} {pc pc' : Local T} {events : List (Event T)}
    (hnext : Next r pc r' pc' events) (h : DropNewestOk d r t pc) :
    DropNewestOk d r' t pc' ∧ (t ≠ d → r'.head = r.head) := by
  cases hnext with
  | makeRoom item policy tries pos _ hpolicy _ => exact absurd h hpolicy
  | take taker pos _ => exact ⟨⟨h, rfl⟩, fun hne => absurd h hne⟩
  | evictHead | evictReady | evictUnready | evict | evictLost | evictRecycle | evictCount =>
      exact absurd h id
  | claim | publish | giveUp | empty | recycle => exact ⟨trivial, fun _ => rfl⟩
  | _ => exact ⟨h, fun _ => rfl⟩

variable [DecidableEq Tid]

/-- One step of the machine keeps every thread in order. -/
theorem step_dropNewest {d : Tid} {s s' : State Tid T} {a : Action Tid T}
    {new : List (Tid × Event T)} (h : ∀ t, DropNewestOk d s.ring t (s.threads t))
    (ha : DropNewestAction d a) (hstep : step s a = some (s', new)) :
    ∀ t, DropNewestOk d s'.ring t (s'.threads t) := by
  cases a with
  | call t c =>
      obtain ⟨_, rfl, rfl⟩ := State.enter_eq_some hstep
      refine (Function.forall_update_iff s.threads _).mpr ⟨?_, fun u _ => h u⟩
      cases c with
      | push item policy => exact ha
      | pop => exact ha.elim
      | popMarshal buf => exact ha
  | queueDepth t =>
      obtain ⟨_, rfl, rfl⟩ := State.enter_eq_some hstep
      exact (Function.forall_update_iff s.threads _).mpr ⟨trivial, fun u _ => h u⟩
  | resume t =>
      obtain ⟨ring, pc, events, hnext, rfl, rfl⟩ := resume_eq_some hstep
      obtain ⟨hpc, hhead⟩ := (next_cases hnext).dropNewest (h t)
      refine (Function.forall_update_iff s.threads _).mpr ⟨hpc, fun u hne => ?_⟩
      refine (h u).other fun hu => hhead ?_
      rw [← hu]
      exact hne.symm

/-- Every thread is in order along a run of such actions. -/
theorem run_dropNewest {d : Tid} {r : Ringbuf T} {schedule : List (Action Tid T)}
    {trace : List (Tid × Event T)} {s : State Tid T}
    (hrun : run (State.initial r) schedule = some (s, trace))
    (hacts : ∀ a ∈ schedule, DropNewestAction d a) :
    ∀ t, DropNewestOk d s.ring t (s.threads t) := by
  have hinit : ∀ t, DropNewestOk d r t ((State.initial r : State Tid T).threads t) :=
    fun _ => trivial
  refine Transition.run_invariant (I := fun acts _ s => (∀ a ∈ acts, DropNewestAction d a) →
    ∀ t, DropNewestOk d s.ring t (s.threads t)) ?_ (fun _ => hinit) hrun hacts
  intro acts tr s a s' new hinv hstep hall
  refine step_dropNewest (hinv fun b hb => hall b ?_) (hall a ?_) hstep <;> simp_all

end DropNewest

/-! ## What the verdicts mean -/

section Verdicts

variable [DecidableEq Tid] [Serializable T] {k : Nat} {s : State Tid T} {t : Tid}

omit [DecidableEq Tid] in
/-- A push returns false only from the load of a sequence number behind its position. -/
theorem Next.push_false {current : Option (Call T × List (Event T))} {r r' : Ringbuf T}
    {pc pc' : Local T} {events : List (Event T)} (h : Next r pc r' pc' events)
    (horigin : Origin current pc) (hret : Event.ret (.push false) ∈ events) :
    ∃ item policy tries pos, pc = .pushLoadSeq item policy tries pos ∧ r.pushDiff pos < 0 := by
  cases h.returnsFrom horigin hret with
  | full hneg => exact ⟨_, _, _, _, rfl, hneg⟩
  | @empty taker _ _ _ heq => cases taker <;> cases heq

omit [DecidableEq Tid] in
/-- A dequeue reports empty only from the load of a sequence number behind its position. -/
theorem Next.take_empty {current : Option (Call T × List (Event T))} {r r' : Ringbuf T}
    {pc pc' : Local T} {events : List (Event T)} {taker : Taker} (h : Next r pc r' pc' events)
    (horigin : Origin current pc) (hret : Event.ret taker.empty ∈ events) :
    ∃ taker' pos, pc = .takeLoadSeq taker' pos ∧ r.popDiff pos < 0 := by
  have hreturns := h.returnsFrom horigin hret
  cases taker with
  | pop =>
      cases hreturns with
      | empty hneg => exact ⟨_, _, rfl, hneg⟩
  | popMarshal buf =>
      cases hreturns with
      | empty hneg => exact ⟨_, _, rfl, hneg⟩

omit [Serializable T] in
/-- A current tail looks full only when the ring is full, or when it lacks one item of being full
and the drain thread has not recycled the slot it dequeues from. -/
theorem pushDiff_tail {d : Tid} {schedule : List (Action Tid T)} {trace : List (Tid × Event T)}
    (hinv : RunInv k schedule trace s) (hw : NoWrap k s.ring)
    (hpoints : ∀ t, DropNewestOk d s.ring t (s.threads t))
    (hneg : s.ring.pushDiff s.ring.tail < 0) :
    s.ring.tail.toNat = s.ring.head.toNat + 2 ^ k ∨
      s.ring.tail.toNat + 1 = s.ring.head.toNat + 2 ^ k ∧
        (s.threads d).taking.map s.ring.slot = some (s.ring.slot s.ring.tail) := by
  have hroom : s.ring.tail.toNat ≤ s.ring.head.toNat + 2 ^ k := hinv.ticket.room
  rcases Nat.eq_or_lt_of_le hroom with hfull | hlt
  · exact Or.inl hfull
  right
  rcases hinv.ticket.free s.ring.tail.toNat le_rfl hlt with hfree | ⟨hlap, _, u, hu⟩
  · rw [ticket_seq s hinv.mask] at hfree
    have hzero : s.ring.pushDiff s.ring.tail = 0 :=
      Words.signed_sub_eq_zero.mpr (UInt64.toNat_inj.mp hfree)
    rw [hzero] at hneg
    exact absurd hneg (by decide)
  · have hu' : (s.threads u).view.removingPos = some (s.ring.tail.toNat - 2 ^ k) := hu
    have hremoving : (s.ring.tail.toNat - 2 ^ k) < s.ring.head.toNat := (hinv.ticket.removing hu).1
    have hle : s.ring.head.toNat ≤ s.ring.tail.toNat := hinv.ticket.le
    -- the thread that holds the position is the drain thread, and it removed it last
    obtain ⟨pos, htaking, hpos, rfl, hhead⟩ : ∃ pos, (s.threads u).taking = some pos ∧
        pos.toNat = s.ring.tail.toNat - 2 ^ k ∧ u = d ∧ s.ring.head = pos + 1 := by
      have hok := hpoints u
      cases hpc : s.threads u <;>
        simp only [hpc, Local.view, TicketRing.View.removingPos, Option.some.injEq,
          reduceCtorEq] at hu' <;> rw [hpc] at hok <;> first
        | exact ⟨_, rfl, hu', hok.1, hok.2⟩
        | exact hok.elim
    have hsucc : (pos + 1).toNat = pos.toNat + 1 := hw.toNat_succ (by omega)
    rw [← hhead] at hsucc
    refine ⟨by omega, ?_⟩
    rw [htaking, Option.map_some, Option.some.injEq]
    calc s.ring.slot pos = pos.toNat % 2 ^ k := Words.toNat_and_mask hinv.mask pos
      _ = s.ring.tail.toNat % 2 ^ k := by rw [hpos, ← Nat.mod_eq_sub_mod hlap]
      _ = s.ring.slot s.ring.tail := (Words.toNat_and_mask hinv.mask _).symm

variable [Inhabited T] {r : Ringbuf T} {schedule : List (Action Tid T)}
  {trace new : List (Tid × Event T)} {s' : State Tid T}

/-- The verdicts are never false alarms. With `DropNewest` pushes and one drain thread, a push
returns false only from a load of the tail slot's sequence number at a moment when the ring holds
`2 ^ k` items, or one less while the drain thread owns the tail slot; the sequence numbers, a lap
ahead of the cursors, stay below `2 ^ 63`. With any calls, `pop` and `popMarshal` report empty only
from a load at a moment when nothing is queued or the push that claimed the head position has not
published it; when no push is in progress, nothing is queued. -/
theorem ring_verdicts (hk : 1 ≤ k) (hk' : k ≤ 63)
    (hnew : newRingbuf (UInt64.ofNat (2 ^ k)) = some r)
    (hrun : run (State.initial r) schedule = some (s, trace))
    (hpush : pushCalls schedule < 2 ^ 63) (hstep : step s (.resume t) = some (s', new)) :
    (∀ d, (∀ a ∈ schedule, DropNewestAction d a) → pushCalls schedule + 2 ^ k ≤ 2 ^ 63 →
      (t, .ret (.push false)) ∈ new →
      (∃ item tries, s.threads t = .pushLoadSeq item .dropNewest tries s.ring.tail) ∧
      (s.ring.tail.toNat = s.ring.head.toNat + 2 ^ k ∨
        s.ring.tail.toNat + 1 = s.ring.head.toNat + 2 ^ k ∧
          (s.threads d).taking.map s.ring.slot = some (s.ring.slot s.ring.tail))) ∧
    (∀ taker : Taker, (t, .ret taker.empty) ∈ new →
      (∃ taker', s.threads t = .takeLoadSeq taker' s.ring.head) ∧
      (s.ring.head = s.ring.tail ∨ ∃ u, (s.threads u).storing = some s.ring.head) ∧
      ((∀ u, (s.threads u).pushing = false) → s.ring.head = s.ring.tail)) := by
  have hinv := run_inv hk hk' hnew hrun hpush
  have hw := hinv.noWrap hk hk' hpush
  have hview := hinv.ticket.views t
  have horigin := (run_origins hrun).threads t
  obtain ⟨ring, pc, events, hnext, -, rfl⟩ := resume_eq_some hstep
  refine ⟨fun d hacts hlap hret => ?_, fun taker hret => ?_⟩
  · have hpoints := run_dropNewest hrun hacts
    obtain ⟨e, he, heq⟩ := List.mem_map.mp hret
    cases heq
    obtain ⟨item, policy, tries, pos, hpc, hneg⟩ := (next_cases hnext).push_false horigin he
    have hpolicy := hpoints t
    rw [hpc] at hpolicy
    change TicketRing.ViewOk _ _ _ (s.threads t).view at hview
    rw [hpc] at hview
    have htail := hinv.tail_le
    -- a stale position would have led to a retry
    have hpos : pos = s.ring.tail := by
      have hle : pos.toNat ≤ s.ring.tail.toNat := hview.1
      refine UInt64.toNat_inj.mp (Nat.le_antisymm hle (Nat.le_of_not_lt fun hlt => ?_))
      exact pushDiff_claimed hinv hw (by omega) hlt hneg
    subst hpos
    have hpolicy' : policy = .dropNewest := hpolicy
    subst hpolicy'
    exact ⟨⟨item, tries, hpc⟩, pushDiff_tail hinv hw hpoints hneg⟩
  · obtain ⟨e, he, heq⟩ := List.mem_map.mp hret
    cases heq
    obtain ⟨taker', pos, hpc, hneg⟩ := (next_cases hnext).take_empty horigin he
    change TicketRing.ViewOk _ _ _ (s.threads t).view at hview
    rw [hpc] at hview
    have hpos : pos = s.ring.head := by
      have hle : pos.toNat ≤ s.ring.head.toNat := hview.1
      refine UInt64.toNat_inj.mp (Nat.le_antisymm hle (Nat.le_of_not_lt fun hlt => ?_))
      exact popDiff_removed hinv hw hlt hneg
    subst hpos
    have hempty := popDiff_head hinv hw hneg
    refine ⟨⟨taker', hpc⟩, hempty, fun hquiet => ?_⟩
    rcases hempty with hempty | ⟨u, hu⟩
    · exact hempty
    · have hidle := hquiet u
      cases hpu : s.threads u <;> simp [hpu, Local.storing, Local.pushing] at hu hidle

/-- Thread `false` fills a ring of two slots, thread `true` dequeues up to its `Marshal` call, and
thread `false` starts a third push and loads the tail. -/
def heldSlot : List (Action Bool (List UInt8)) :=
  [.call false (.push [1] .dropNewest)] ++ List.replicate 5 (.resume false) ++
    [.call false (.push [2] .dropNewest)] ++ List.replicate 5 (.resume false) ++
    [.call true (.popMarshal [0, 0])] ++ List.replicate 4 (.resume true) ++
    [.call false (.push [3] .dropNewest), .resume false]

/-- In the run `heldSlot` the third push gives up next; in the run `handOver` the `pop` that starts
before the item is stored reports empty. -/
theorem ring_verdicts_held_slot :
    (∃ r s trace s' new, newRingbuf (UInt64.ofNat (2 ^ 1)) = some r ∧
      run (State.initial r) heldSlot = some (s, trace) ∧
      step s (.resume false) = some (s', new) ∧ (false, .ret (.push false)) ∈ new ∧
      (s.ring.tail.toNat = s.ring.head.toNat + 2 ^ 1 ∨
        s.ring.tail.toNat + 1 = s.ring.head.toNat + 2 ^ 1 ∧
          (s.threads true).taking.map s.ring.slot = some (s.ring.slot s.ring.tail))) ∧
    (∃ r s trace s' new, newRingbuf (UInt64.ofNat (2 ^ 1)) = some r ∧
      run (State.initial r) (handOver.take 6) = some (s, trace) ∧
      step s (.resume true) = some (s', new) ∧ (true, .ret (Taker.pop.empty)) ∈ new ∧
      (s.ring.head = s.ring.tail ∨ ∃ u, (s.threads u).storing = some s.ring.head)) := by
  have hacts : ∀ a ∈ heldSlot, DropNewestAction true a := by
    simp [heldSlot, DropNewestAction]
  constructor
  · refine ⟨_, _, _, _, _, rfl, rfl, rfl, by simp, ?_⟩
    have hverdict := ring_verdicts (k := 1) (by decide) (by decide) rfl
      (show run (State.initial _) heldSlot = some (_, _) from rfl) (by decide)
      (show step _ (.resume false) = some (_, _) from rfl)
    exact (hverdict.1 true hacts (by decide) (by simp)).2
  · refine ⟨_, _, _, _, _, rfl, rfl, rfl, by simp [Taker.empty], ?_⟩
    have hverdict := ring_verdicts (k := 1) (by decide) (by decide) rfl
      (show run (State.initial _) (handOver.take 6) = some (_, _) from rfl) (by decide)
      (show step _ (.resume true) = some (_, _) from rfl)
    exact (hverdict.2 .pop (by simp [Taker.empty])).2.1

end Verdicts

end TickBatch.Ring
