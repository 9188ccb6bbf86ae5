import Mathlib.Algebra.BigOperators.Group.Finset.Piecewise
import Mathlib.Algebra.Order.BigOperators.Group.Finset
import TickBatch.Ring.Fifo
import TickBatch.Ring.Inversion

/-!
# The ring is lock-free

`push` retries when another producer has claimed the position it looked at, `pop` and `popMarshal`
when another thread has removed it, and neither loop has a bound of its own. `Local.effort` prices a
program point: the atomic steps that its call still needs when nobody interferes, and three more
while the cursor it has loaded is stale. A step of a thread lowers its own effort by one, and only a
cursor that moves can raise the effort of another thread (`next_effort`, `Local.effort_moved`).

`step_bound` adds this up over any stretch of a run: a thread takes at most 901 steps for each call,
and three for each position that was claimed or removed meanwhile. A call claims at most one
position and removes at most 128, so among `n` threads some call returns within a number of steps
that depends on `n` alone (`lock_free`).
-/

namespace TickBatch.Ring

variable {Tid T : Type}

/-- The steps that a call may still take if every compare-and-swap it makes succeeds. Each eviction
attempt costs seven steps: two to find the ring full and five in `evictOldest`. -/
def Local.work : Local T → Nat
  | .idle => 0
  | .pushLoadTail _ _ tries => 7 * (maxEvictRetries - tries) + 5
  | .pushLoadSeq _ _ tries _ => 7 * (maxEvictRetries - tries) + 4
  | .pushCas _ _ tries _ => 7 * (maxEvictRetries - tries) + 3
  | .pushWrite .. => 2
  | .pushPublish .. => 1
  | .evictLoadHead _ _ tries => 7 * (maxEvictRetries - tries) + 10
  | .evictLoadSeq _ _ tries _ => 7 * (maxEvictRetries - tries) + 9
  | .evictCas _ _ tries _ => 7 * (maxEvictRetries - tries) + 8
  | .evictRecycle _ _ tries _ => 7 * (maxEvictRetries - tries) + 7
  | .evictCount _ _ tries => 7 * (maxEvictRetries - tries) + 6
  | .takeLoadHead _ => 6
  | .takeLoadSeq .. => 5
  | .takeCas .. => 4
  | .takeRead .. => 3
  | .marshal .. => 2
  | .takeRecycle .. => 1
  | .depthLoadTail => 2
  | .depthLoadHead _ => 1

/-- The cursor that the thread has loaded has moved since, so its compare-and-swap will fail. -/
def Local.stale (r : Ringbuf T) : Local T → Bool
  | .pushLoadSeq _ _ _ pos | .pushCas _ _ _ pos => r.tail != pos
  | .takeLoadSeq _ pos | .takeCas _ pos => r.head != pos
  | _ => false

/-- What a program point costs: the steps of its call, and those of one more round if it has to
retry. -/
def Local.effort (r : Ringbuf T) (pc : Local T) : Nat :=
  pc.work + 3 * (pc.stale r).toNat

/-- The positions that a thread may still remove within its current call. -/
def Local.removable : Local T → Nat
  | .pushLoadTail _ _ tries | .pushLoadSeq _ _ tries _ | .pushCas _ _ tries _
  | .evictRecycle _ _ tries _ | .evictCount _ _ tries => maxEvictRetries - tries
  | .evictLoadHead _ _ tries | .evictLoadSeq _ _ tries _ | .evictCas _ _ tries _ =>
      maxEvictRetries - tries + 1
  | .takeLoadHead _ | .takeLoadSeq .. | .takeCas .. => 1
  | _ => 0

/-- The sum of both cursors: how much the threads have achieved together. -/
def moved (r : Ringbuf T) : Nat := r.tail.toNat + r.head.toNat

section Count

variable [DecidableEq Tid]

/-- The atomic steps of a thread in a schedule. -/
def resumes (t : Tid) (schedule : List (Action Tid T)) : Nat :=
  schedule.countP fun
    | .resume u => u = t
    | _ => false

/-- The calls that a thread enters in a schedule. -/
def entries (t : Tid) (schedule : List (Action Tid T)) : Nat :=
  schedule.countP fun
    | .call u _ | .queueDepth u => u = t
    | .resume _ => false

end Count

/-- The atomic steps of all threads in a schedule. -/
def atomicSteps (schedule : List (Action Tid T)) : Nat :=
  schedule.countP fun
    | .resume _ => true
    | _ => false

/-- The event is a successful compare-and-swap of the head. -/
def Event.removes : Event T → Bool
  | .take _ | .evict _ => true
  | _ => false

/-- The events of one kind that a thread has caused. -/
def doneBy [DecidableEq Tid] (kind : Event T → Bool) (t : Tid) (trace : List (Tid × Event T)) :
    Nat :=
  trace.countP fun e => decide (e.1 = t) && kind e.2

/-! ## What one step costs -/

section Step

variable [Serializable T] {r r' : Ringbuf T} {pc pc' : Local T} {events : List (Event T)}

omit [Serializable T] in
/-- Only an idle thread has nothing left to do. -/
theorem Local.eq_idle (h : pc.work = 0) : pc = .idle := by
  cases pc <;> simp [Local.work] at h ⊢

omit [Serializable T] in
theorem Local.work_le_effort (r : Ringbuf T) (pc : Local T) : pc.work ≤ pc.effort r :=
  Nat.le_add_right _ _

omit [Serializable T] in
theorem Local.effort_fresh (pc : Local T) (h : pc.stale r = false) : pc.effort r = pc.work := by
  simp [Local.effort, h]

omit [Serializable T] in
theorem Local.effort_stale (pc : Local T) (h : pc.stale r = true) : pc.effort r = pc.work + 3 := by
  simp [Local.effort, h]

omit [Serializable T] in
theorem Local.effort_le (r : Ringbuf T) (pc : Local T) : pc.effort r ≤ 906 := by
  have hstale := (pc.stale r).toNat_le
  unfold Local.effort
  cases pc <;>
    simp only [Local.work, Local.stale, maxEvictRetries, Bool.toNat_false] at hstale ⊢ <;> omega

omit [Serializable T] in
theorem Local.removable_le (pc : Local T) : pc.removable ≤ 129 := by
  cases pc <;> simp only [Local.removable, maxEvictRetries] <;> omega

omit [Serializable T] in
/-- A step of another thread raises the effort of this one only by moving a cursor. -/
theorem Local.effort_moved (pc : Local T)
    (htail : r'.tail = r.tail ∨ r'.tail.toNat = r.tail.toNat + 1)
    (hhead : r'.head = r.head ∨ r'.head.toNat = r.head.toNat + 1) :
    pc.effort r' + 3 * moved r ≤ pc.effort r + 3 * moved r' := by
  unfold Local.effort moved
  have hstale : pc.stale r' = pc.stale r ∨ r.tail.toNat + r.head.toNat <
      r'.tail.toNat + r'.head.toNat := by
    rcases htail with htail | htail
    · rcases hhead with hhead | hhead
      · left
        cases pc <;> simp only [Local.stale, htail, hhead]
      · right
        rw [htail]
        omega
    · right
      rcases hhead with hhead | hhead
      · rw [hhead]
        omega
      · omega
  have hle : r.tail.toNat ≤ r'.tail.toNat ∧ r.head.toNat ≤ r'.head.toNat := by
    constructor
    · rcases htail with h | h
      · rw [h]
      · omega
    · rcases hhead with h | h
      · rw [h]
      · omega
  rcases hstale with h | h
  · rw [h]
    omega
  · have := (pc.stale r').toNat_le
    omega

end Step

/-! ## A retry means that a cursor has moved -/

section Retry

variable [DecidableEq Tid] {k : Nat} {schedule : List (Action Tid T)}
  {trace : List (Tid × Event T)} {s : State Tid T}

/-- The slot of the current tail is ready or of an older lap, never of a later one. -/
theorem pushDiff_current (hinv : RunInv k schedule trace s) (hw : NoWrap k s.ring) :
    s.ring.pushDiff s.ring.tail = 0 ∨ s.ring.pushDiff s.ring.tail < 0 := by
  have hcap := hw.cap_le
  have htwo := hw.two_le
  have hle : s.ring.head.toNat ≤ s.ring.tail.toNat := hinv.ticket.le
  have hroom : s.ring.tail.toNat ≤ s.ring.head.toNat + 2 ^ k := hinv.ticket.room
  have hseq := ticket_seq s hinv.mask s.ring.tail
  by_cases hready : s.ticket.seq (s.ring.tail.toNat % 2 ^ k) = s.ring.tail.toNat
  · left
    rw [hseq] at hready
    exact Words.signed_sub_eq_zero.mpr (UInt64.toNat_inj.mp hready)
  right
  -- the slot still shows the previous lap: its remover has not left, or the ring is full
  have hbehind : s.ticket.seq (s.ring.tail.toNat % 2 ^ k) < s.ring.tail.toNat ∧
      s.ring.tail.toNat ≤ s.ticket.seq (s.ring.tail.toNat % 2 ^ k) + 2 ^ k := by
    rcases Nat.eq_or_lt_of_le hroom with hfull | hlt
    · rw [hfull, Nat.add_mod_right]
      rcases hinv.ticket.live s.ring.head.toNat le_rfl
        (show s.ring.head.toNat < s.ring.tail.toNat by omega) with ⟨h, _⟩ | ⟨h, _⟩ <;>
        rw [h] <;> omega
    · rcases hinv.ticket.free s.ring.tail.toNat le_rfl hlt with h | ⟨_, h, _⟩
      · exact absurd h hready
      · rw [h]
        omega
  rw [hseq] at hbehind
  have hneg := Words.signed_sub_ofNat_neg hbehind.1 (by omega)
  unfold Ringbuf.pushDiff
  rwa [UInt64.ofNat_toNat, UInt64.ofNat_toNat] at hneg

/-- The slot of the current head is published or not yet, never recycled. -/
theorem popDiff_current (hinv : RunInv k schedule trace s) (hw : NoWrap k s.ring) :
    s.ring.popDiff s.ring.head = 0 ∨ s.ring.popDiff s.ring.head < 0 := by
  have hcap := hw.cap_le
  have htwo := hw.two_le
  have hle : s.ring.head.toNat ≤ s.ring.tail.toNat := hinv.ticket.le
  have hsucc := hw.toNat_succ hle
  have hseq := ticket_seq s hinv.mask s.ring.head
  by_cases hready : s.ticket.seq (s.ring.head.toNat % 2 ^ k) = s.ring.head.toNat + 1
  · left
    rw [hseq, ← hsucc] at hready
    exact Words.signed_sub_eq_zero.mpr (UInt64.toNat_inj.mp hready)
  right
  have hbehind : s.ticket.seq (s.ring.head.toNat % 2 ^ k) < s.ring.head.toNat + 1 ∧
      s.ring.head.toNat + 1 ≤ s.ticket.seq (s.ring.head.toNat % 2 ^ k) + 2 ^ k := by
    rcases Nat.eq_or_lt_of_le hle with hempty | hlt
    · rcases hinv.ticket.free s.ring.head.toNat hempty.ge
        (show s.ring.head.toNat < s.ring.head.toNat + 2 ^ k by omega) with h | ⟨_, h, _⟩ <;>
        rw [h] <;> omega
    · rcases hinv.ticket.live s.ring.head.toNat le_rfl hlt with ⟨h, _⟩ | ⟨h, _⟩
      · rw [h]
        omega
      · exact absurd h hready
  rw [hseq, ← hsucc] at hbehind
  have hneg := Words.signed_sub_ofNat_neg hbehind.1 (by omega)
  unfold Ringbuf.popDiff
  rwa [UInt64.ofNat_toNat, UInt64.ofNat_toNat] at hneg

end Retry

section Effort

variable [DecidableEq Tid] [Serializable T] {k : Nat} {schedule : List (Action Tid T)}
  {trace : List (Tid × Event T)} {s : State Tid T} {t : Tid} {r' : Ringbuf T} {pc' : Local T}
  {events : List (Event T)}

omit [DecidableEq Tid] in
/-- A cursor that moves goes up by one, as a number. -/
theorem toNat_moved (hw : NoWrap k s.ring) (hle : s.ring.head.toNat ≤ s.ring.tail.toNat)
    (hnext : Next s.ring (s.threads t) r' pc' events) :
    (r'.tail = s.ring.tail ∨ r'.tail.toNat = s.ring.tail.toNat + 1) ∧
      (r'.head = s.ring.head ∨ r'.head.toNat = s.ring.head.toNat + 1) := by
  constructor
  · refine hnext.tail.imp_right fun h => ?_
    rw [h, hw.toNat_succ le_rfl]
  · refine hnext.head.imp_right fun h => ?_
    rw [h, hw.toNat_succ hle]

/-- A step of a thread lowers its effort by at least one, after three for each cursor it moves. -/
theorem next_effort (hinv : RunInv k schedule trace s) (hw : NoWrap k s.ring)
    (hnext : Next s.ring (s.threads t) r' pc' events) :
    1 + pc'.effort r' + 3 * moved s.ring ≤ (s.threads t).effort s.ring + 3 * moved r' := by
  have hle : s.ring.head.toNat ≤ s.ring.tail.toNat := hinv.ticket.le
  have hsucc := hw.toNat_succ le_rfl
  have hsucc' := hw.toNat_succ hle
  generalize s.threads t = pc at hnext ⊢
  have hwork := pc.work_le_effort s.ring
  cases hnext with
  | tailReady item policy tries pos _ =>
      simp only [Local.effort, Local.work, Local.stale]
      omega
  | headReady taker pos _ =>
      simp only [Local.effort, Local.work, Local.stale]
      omega
  | tailMoved item policy tries pos hzero hneg =>
      -- a current tail would not have led to a retry
      have hstale : s.ring.tail ≠ pos := by
        rintro rfl
        rcases pushDiff_current hinv hw with h | h
        · exact hzero h
        · exact hneg h
      rw [Local.effort_stale (.pushLoadSeq item policy tries pos) (bne_iff_ne.mpr hstale),
        Local.effort_fresh _ rfl]
      simp only [Local.work]
      omega
  | tailLost item policy tries pos hstale =>
      rw [Local.effort_stale (.pushCas item policy tries pos) (bne_iff_ne.mpr hstale),
        Local.effort_fresh _ rfl]
      simp only [Local.work]
      omega
  | headMoved taker pos hzero hneg =>
      have hstale : s.ring.head ≠ pos := by
        rintro rfl
        rcases popDiff_current hinv hw with h | h
        · exact hzero h
        · exact hneg h
      rw [Local.effort_stale (.takeLoadSeq taker pos) (bne_iff_ne.mpr hstale),
        Local.effort_fresh _ rfl]
      simp only [Local.work]
      omega
  | headLost taker pos hstale =>
      rw [Local.effort_stale (.takeCas taker pos) (bne_iff_ne.mpr hstale),
        Local.effort_fresh _ rfl]
      simp only [Local.work]
      omega
  | loadTail | loadHead =>
      rw [Local.effort_fresh _ (by simp [Local.stale]), Local.effort_fresh _ rfl]
      simp only [Local.work]
      omega
  | claim item policy tries pos htail =>
      subst htail
      rw [Local.effort_fresh (.pushWrite item _) rfl]
      simp only [Local.work, moved, hsucc] at hwork ⊢
      omega
  | evict item policy tries pos hhead =>
      subst hhead
      rw [Local.effort_fresh (.evictRecycle item policy tries _) rfl]
      simp only [Local.work, moved, hsucc'] at hwork ⊢
      omega
  | take taker pos hhead =>
      subst hhead
      rw [Local.effort_fresh (.takeRead taker _) rfl]
      simp only [Local.work, moved, hsucc'] at hwork ⊢
      omega
  | _ =>
      -- the target has loaded nothing, and the cursors stay where they are
      rw [Local.effort_fresh _ rfl]
      simp only [Local.work, moved, Ringbuf.storeSeq_tail, Ringbuf.storeSeq_head,
        Ringbuf.storeData_tail] at hwork ⊢
      try simp only [Ringbuf.storeData]
      omega

end Effort

/-! ## Adding up over a run -/

section Sum

variable [DecidableEq Tid]

theorem resumes_append (t : Tid) (as bs : List (Action Tid T)) :
    resumes t (as ++ bs) = resumes t as + resumes t bs := List.countP_append

theorem entries_append (t : Tid) (as bs : List (Action Tid T)) :
    entries t (as ++ bs) = entries t as + entries t bs := List.countP_append

variable [Serializable T] {k : Nat} {schedule : List (Action Tid T)}
  {trace new : List (Tid × Event T)} {s s' : State Tid T} {a : Action Tid T}

/-- One action: a step of the thread is paid for by its effort, a call brings 901 steps, and a
cursor that moves brings three to every thread. -/
theorem step_effort (hinv : RunInv k schedule trace s) (hw : NoWrap k s.ring)
    (hstep : step s a = some (s', new)) (t : Tid) :
    resumes t [a] + (s'.threads t).effort s'.ring + 3 * moved s.ring ≤
      (s.threads t).effort s.ring + 901 * entries t [a] + 3 * moved s'.ring := by
  have hle : s.ring.head.toNat ≤ s.ring.tail.toNat := hinv.ticket.le
  -- entering a call leaves the ring alone
  have henter : ∀ u pc events, s.enter u pc events = some (s', new) →
      pc.effort s.ring ≤ 901 → (s'.threads t).effort s'.ring + 3 * moved s.ring ≤
        (s.threads t).effort s.ring + 901 * (if u = t then 1 else 0) + 3 * moved s'.ring := by
    intro u pc events hs hpc
    obtain ⟨hidle, rfl, rfl⟩ := State.enter_eq_some hs
    by_cases hut : u = t
    · subst hut
      simp only [Function.update_self, if_true]
      omega
    · simp [Function.update_of_ne (Ne.symm hut), hut]
  cases a with
  | call u c =>
      have hpc : (Local.start c).effort s.ring ≤ 901 := by
        cases c <;> rw [Local.start, Local.effort_fresh _ rfl] <;>
          simp [Local.work, maxEvictRetries]
      have := henter u _ _ hstep hpc
      simp only [resumes, entries, List.countP_singleton, decide_eq_true_eq]
      simpa using this
  | queueDepth u =>
      have hpc : (Local.depthLoadTail : Local T).effort s.ring ≤ 901 := by
        rw [Local.effort_fresh _ rfl]
        simp [Local.work]
      have := henter u _ _ hstep hpc
      simp only [resumes, entries, List.countP_singleton, decide_eq_true_eq]
      simpa using this
  | resume u =>
      obtain ⟨ring, pc, events, hnext, rfl, rfl⟩ := resume_eq_some hstep
      have hcase := next_cases hnext
      simp only [resumes, entries, List.countP_singleton, decide_eq_true_eq]
      by_cases hut : u = t
      · subst hut
        have := next_effort hinv hw hcase
        simp only [Function.update_self, if_true]
        omega
      · obtain ⟨htail, hhead⟩ := toNat_moved hw hle hcase
        have := (s.threads t).effort_moved htail hhead
        simp only [Function.update_of_ne (Ne.symm hut), if_neg hut]
        omega

/-- A measure that no step raises, and every event of one kind lowers, bounds the events of that
kind: one call brings at most `quota` of them. -/
theorem step_quota {kind : Event T → Bool} {m : Local T → Nat} (quota : Nat)
    (hnext : ∀ {r pc r' pc' events}, Next r pc r' pc' events →
      events.countP kind + m pc' ≤ m pc)
    (hcall : ∀ e : Call T, kind (.call e) = false ∧ m (Local.start e) ≤ quota)
    (hdepth : m .depthLoadTail ≤ quota) (hstep : step s a = some (s', new)) (t : Tid) :
    doneBy kind t new + m (s'.threads t) ≤ m (s.threads t) + quota * entries t [a] := by
  have henter : ∀ u pc, s' = { s with threads := Function.update s.threads u pc } →
      m pc ≤ quota → m (s'.threads t) ≤ m (s.threads t) + quota * (if u = t then 1 else 0) := by
    rintro u pc rfl hpc
    by_cases hut : u = t
    · subst hut
      simp only [Function.update_self, if_true]
      omega
    · simp [Function.update_of_ne (Ne.symm hut), hut]
  cases a with
  | call u c =>
      obtain ⟨_, hs', rfl⟩ := State.enter_eq_some hstep
      have := henter u _ hs' (hcall c).2
      simpa [doneBy, (hcall c).1, entries, List.countP_singleton] using this
  | queueDepth u =>
      obtain ⟨_, hs', rfl⟩ := State.enter_eq_some hstep
      have := henter u _ hs' hdepth
      simpa [doneBy, entries, List.countP_singleton] using this
  | resume u =>
      obtain ⟨ring, pc, events, hres, rfl, rfl⟩ := resume_eq_some hstep
      simp only [doneBy, List.countP_map, entries, List.countP_singleton]
      by_cases hut : u = t
      · subst hut
        have := hnext (next_cases hres)
        simpa [Function.comp_def] using this
      · simp [Function.comp_def, hut, Function.update_of_ne (Ne.symm hut)]

/-- A push removes at most one position for each of its eviction attempts, a dequeue at most one. -/
theorem next_removes {r r' : Ringbuf T} {pc pc' : Local T} {events : List (Event T)}
    (h : Next r pc r' pc' events) :
    events.countP Event.removes + pc'.removable ≤ pc.removable := by
  cases h with
  | makeRoom item policy tries pos _ _ htries =>
      simp [Local.removable]
      omega
  | _ => simp [Event.removes, Local.removable] <;> try omega

/-- A thread that has not returned since `first` has entered at most one call, and none if it was
busy then. -/
def Unreturned (first : State Tid T) (acts : List (Action Tid T)) (s : State Tid T) (t : Tid) :
    Prop :=
  entries t acts = 0 ∧ (s.threads t = .idle ↔ first.threads t = .idle) ∨
    entries t acts = 1 ∧ first.threads t = .idle ∧ s.threads t ≠ .idle

theorem step_unreturned {acts : List (Action Tid T)} {first : State Tid T} {t : Tid}
    (h : Unreturned first acts s t) (hstep : step s a = some (s', new))
    (hret : ∀ result, (t, .ret result) ∉ new) : Unreturned first (acts ++ [a]) s' t := by
  unfold Unreturned at h ⊢
  rw [entries_append]
  have henter : ∀ u pc events, s.enter u pc events = some (s', new) → pc ≠ .idle →
      entries t acts + (if u = t then 1 else 0) = 0 ∧
          (s'.threads t = .idle ↔ first.threads t = .idle) ∨
        entries t acts + (if u = t then 1 else 0) = 1 ∧ first.threads t = .idle ∧
          s'.threads t ≠ .idle := by
    intro u pc events hs hpc
    obtain ⟨hidle, rfl, rfl⟩ := State.enter_eq_some hs
    by_cases hut : u = t
    · subst hut
      simp_all
    · simpa [Function.update_of_ne (Ne.symm hut), hut] using h
  cases a with
  | call u c =>
      have := henter u _ _ hstep (by cases c <;> simp [Local.start])
      simpa [entries, List.countP_singleton] using this
  | queueDepth u =>
      have := henter u _ _ hstep (by simp)
      simpa [entries, List.countP_singleton] using this
  | resume u =>
      obtain ⟨ring, pc, events, hres, rfl, rfl⟩ := resume_eq_some hstep
      have hcase := next_cases hres
      by_cases hut : u = t
      · subst hut
        have hpc : pc ≠ .idle := by
          rintro rfl
          obtain ⟨result, hmem⟩ := hcase.returns
          exact hret result (List.mem_map_of_mem hmem)
        have hbusy : s.threads u ≠ .idle := by
          intro hidle
          rw [hidle] at hcase
          cases hcase
        simpa [entries, hpc, hbusy] using h
      · simpa [entries, Function.update_of_ne (Ne.symm hut)] using h

/-- What a stretch of a run from `first` adds up to, for every thread. -/
structure Stretch (first : State Tid T) (acts : List (Action Tid T))
    (trace : List (Tid × Event T)) (s : State Tid T) : Prop where
  effort : ∀ t, resumes t acts + (s.threads t).effort s.ring + 3 * moved first.ring ≤
    (first.threads t).effort first.ring + 901 * entries t acts + 3 * moved s.ring
  claims : ∀ t, doneBy Event.claims t trace + (s.threads t).pending ≤
    (first.threads t).pending + 1 * entries t acts
  removes : ∀ t, doneBy Event.removes t trace + (s.threads t).removable ≤
    (first.threads t).removable + 128 * entries t acts
  unreturned : ∀ t, (∀ result, (t, .ret result) ∉ trace) → Unreturned first acts s t

omit [Serializable T] in
theorem doneBy_append (kind : Event T → Bool) (t : Tid) (tr tr' : List (Tid × Event T)) :
    doneBy kind t (tr ++ tr') = doneBy kind t tr + doneBy kind t tr' := List.countP_append

/-- One action continues a stretch. -/
theorem step_stretch {first : State Tid T} {acts : List (Action Tid T)}
    {tr : List (Tid × Event T)} (h : Stretch first acts tr s) (hinv : RunInv k schedule trace s)
    (hw : NoWrap k s.ring) (hstep : step s a = some (s', new)) :
    Stretch first (acts ++ [a]) (tr ++ new) s' := by
  refine ⟨fun t => ?_, fun t => ?_, fun t => ?_, fun t hret => ?_⟩
  · have hold := h.effort t
    have hnew := step_effort hinv hw hstep t
    rw [resumes_append, entries_append]
    omega
  · have hold := h.claims t
    have hnew := step_quota 1 Next.pending
      (fun c => by cases c <;> simp [Event.claims, Local.start, Local.pending])
      (by simp [Local.pending]) hstep t
    rw [doneBy_append, entries_append]
    omega
  · have hold := h.removes t
    have hnew := step_quota 128 next_removes
      (fun c => by cases c <;> simp [Event.removes, Local.start, Local.removable, maxEvictRetries])
      (by simp [Local.removable]) hstep t
    rw [doneBy_append, entries_append]
    omega
  · simp only [List.mem_append, not_or] at hret
    exact step_unreturned (h.unreturned t fun result => (hret result).1) hstep
      fun result => (hret result).2

omit [Serializable T] in
theorem Stretch.refl (s : State Tid T) : Stretch s [] [] s where
  effort t := by simp [resumes, entries]
  claims t := by simp [doneBy, entries]
  removes t := by simp [doneBy, entries]
  unreturned t _ := Or.inl ⟨rfl, Iff.rfl⟩

variable [Inhabited T] {r : Ringbuf T} {later : List (Action Tid T)}
  {trace' : List (Tid × Event T)}

/-- The sums hold over every stretch of a run with fewer than `2 ^ 63` pushes. -/
theorem run_stretch (hk : 1 ≤ k) (hk' : k ≤ 63)
    (hnew : newRingbuf (UInt64.ofNat (2 ^ k)) = some r)
    (hrun : run (State.initial r) schedule = some (s, trace))
    (hlater : run s later = some (s', trace'))
    (hpush : pushCalls (schedule ++ later) < 2 ^ 63) :
    RunInv k (schedule ++ later) (trace ++ trace') s' ∧ Stretch s later trace' s' := by
  have hfirst : pushCalls schedule < 2 ^ 63 := by
    rw [pushCalls_append] at hpush
    omega
  have hinv := run_inv hk hk' hnew hrun hfirst
  refine Transition.run_invariant (I := fun acts tr st => pushCalls (schedule ++ acts) < 2 ^ 63 →
    RunInv k (schedule ++ acts) (trace ++ tr) st ∧ Stretch s acts tr st) ?_ ?_ hlater hpush
  · intro acts tr st a st' new ih hstep hlt
    have hlt' : pushCalls (schedule ++ acts) < 2 ^ 63 := by
      rw [← List.append_assoc, pushCalls_append] at hlt
      omega
    obtain ⟨hst, hstretch⟩ := ih hlt'
    rw [← List.append_assoc, ← List.append_assoc]
    exact ⟨step_runInv hk hk' hst hlt' hstep,
      step_stretch hstretch hst (hst.noWrap hk hk' hlt') hstep⟩
  · intro _
    simpa using ⟨hinv, Stretch.refl s⟩

omit [Serializable T] [Inhabited T] in
/-- The tail counts the claims. -/
theorem RunInv.tail_eq (h : RunInv k schedule trace s) :
    s.ring.tail.toNat = trace.countP fun e => e.2.claims := by
  have hlen := congrArg List.length h.ticket.claimed
  rw [claims_ticketLog, List.length_map, List.length_range, claims,
    List.length_filterMap_eq_countP] at hlen
  rw [show s.ring.tail.toNat = s.ticket.tail from rfl, ← hlen]
  refine List.countP_congr fun e _ => ?_
  obtain ⟨t, e⟩ := e
  cases e <;> simp [Event.claims]

omit [Serializable T] [Inhabited T] in
/-- The head counts the removals. -/
theorem RunInv.head_eq (h : RunInv k schedule trace s) :
    s.ring.head.toNat = trace.countP fun e => e.2.removes := by
  have hlen := congrArg List.length h.ticket.removed
  rw [removals_ticketLog, List.length_range, removals, List.length_filterMap_eq_countP] at hlen
  rw [show s.ring.head.toNat = s.ticket.head from rfl, ← hlen]
  refine List.countP_congr fun e _ => ?_
  obtain ⟨t, e⟩ := e
  cases e <;> simp [Event.removes]

/-- In every stretch of a run with fewer than `2 ^ 63` pushes, a thread takes at most 906 atomic
steps for the call it is in at the start, 901 for each call that it enters, and three for each
position that any thread claims or removes meanwhile. A thread that has stopped, wherever it
stands, costs the others nothing. -/
theorem step_bound (hk : 1 ≤ k) (hk' : k ≤ 63)
    (hnew : newRingbuf (UInt64.ofNat (2 ^ k)) = some r)
    (hrun : run (State.initial r) schedule = some (s, trace))
    (hlater : run s later = some (s', trace'))
    (hpush : pushCalls (schedule ++ later) < 2 ^ 63) (t : Tid) :
    s.ring.tail.toNat ≤ s'.ring.tail.toNat ∧ s.ring.head.toNat ≤ s'.ring.head.toNat ∧
    resumes t later ≤ 906 + 901 * entries t later +
      3 * (s'.ring.tail.toNat - s.ring.tail.toNat) +
      3 * (s'.ring.head.toNat - s.ring.head.toNat) := by
  have hfirst : pushCalls schedule < 2 ^ 63 := by
    rw [pushCalls_append] at hpush
    omega
  have hinv := run_inv hk hk' hnew hrun hfirst
  obtain ⟨hinv', hstretch⟩ := run_stretch hk hk' hnew hrun hlater hpush
  have htail := hinv'.tail_eq
  have hhead := hinv'.head_eq
  rw [List.countP_append, ← hinv.tail_eq] at htail
  rw [List.countP_append, ← hinv.head_eq] at hhead
  have heffort := hstretch.effort t
  have hle := (s.threads t).effort_le s.ring
  unfold moved at heffort
  refine ⟨by omega, by omega, by omega⟩

/-- Thread `false` stalls between its claim and its store, and thread `true` fills the other slot
of the ring. -/
def stalledProducer : List (Action Bool (List UInt8)) :=
  [.call false (.push [1] .dropOldest), .resume false, .resume false, .resume false,
    .call true (.push [2] .dropOldest)] ++ List.replicate 5 (.resume true)

/-- Thread `true` pushes once more. -/
def pushAgain : List (Action Bool (List UInt8)) :=
  .call true (.push [3] .dropOldest) :: List.replicate 514 (.resume true)

/-- The results that a thread has returned, in order. -/
def resultsOf (t : Tid) (trace : List (Tid × Event T)) : List (Result T) :=
  trace.filterMap fun
    | (u, .ret result) => if u = t then some result else none
    | _ => none

/-- The head slot is never published, so the push fails 128 times to evict it and returns false
after 514 steps, while no cursor moves. -/
theorem step_bound_stalled_producer : ∃ r s trace s' trace',
    newRingbuf (UInt64.ofNat (2 ^ 1)) = some r ∧
    run (State.initial r) stalledProducer = some (s, trace) ∧
    run s pushAgain = some (s', trace') ∧ resultsOf true trace' = [.push false] ∧
    resumes true pushAgain ≤ 906 + 901 * entries true pushAgain +
      3 * (s'.ring.tail.toNat - s.ring.tail.toNat) +
      3 * (s'.ring.head.toNat - s.ring.head.toNat) := by
  have hpush : pushCalls (stalledProducer ++ pushAgain) < 2 ^ 63 := by decide +kernel
  have houtcome : testSchedule (UInt64.ofNat (2 ^ 1)) stalledProducer
      (fun s _ => (run s pushAgain).any fun out => resultsOf true out.2 == [.push false]) =
        true := by decide +kernel
  obtain ⟨r, s, trace, hnew, hrun, hcontinues⟩ := exists_of_testSchedule houtcome
  obtain ⟨⟨s', trace'⟩, hlater, htest⟩ := (Option.any_eq_true _ _).mp hcontinues
  exact ⟨r, s, trace, s', trace', hnew, hrun, hlater, beq_iff_eq.mp htest,
    (step_bound (k := 1) (by decide) (by decide) hnew hrun hlater hpush true).2.2⟩

section Finite

variable [Fintype Tid]

omit [Serializable T] [Inhabited T] in
/-- The events of one kind, added up over the threads. -/
theorem sum_doneBy (kind : Event T → Bool) (tr : List (Tid × Event T)) :
    ∑ t, doneBy kind t tr = tr.countP fun e => kind e.2 := by
  induction tr with
  | nil => simp [doneBy]
  | cons e tr ih =>
      simp only [doneBy, List.countP_cons] at ih ⊢
      rw [Finset.sum_add_distrib, ih]
      cases kind e.2 <;> simp

omit [Serializable T] [Inhabited T] in
/-- The atomic steps, added up over the threads. -/
theorem sum_resumes (acts : List (Action Tid T)) : ∑ t, resumes t acts = atomicSteps acts := by
  induction acts with
  | nil => simp [resumes, atomicSteps]
  | cons a acts ih =>
      simp only [resumes, atomicSteps, List.countP_cons] at ih ⊢
      rw [Finset.sum_add_distrib, ih]
      cases a <;> simp

/-- The ring is lock-free: while `n` threads take more than `n * (906 + 390 * n)` atomic steps, at
least one call returns. -/
theorem lock_free (hk : 1 ≤ k) (hk' : k ≤ 63)
    (hnew : newRingbuf (UInt64.ofNat (2 ^ k)) = some r)
    (hrun : run (State.initial r) schedule = some (s, trace))
    (hlater : run s later = some (s', trace'))
    (hpush : pushCalls (schedule ++ later) < 2 ^ 63)
    (hsteps : Fintype.card Tid * (906 + 390 * Fintype.card Tid) < atomicSteps later) :
    ∃ t result, (t, .ret result) ∈ trace' := by
  by_contra hnone
  simp only [not_exists] at hnone
  have hfirst : pushCalls schedule < 2 ^ 63 := by
    rw [pushCalls_append] at hpush
    omega
  have hinv := run_inv hk hk' hnew hrun hfirst
  obtain ⟨hinv', hstretch⟩ := run_stretch hk hk' hnew hrun hlater hpush
  have htail := hinv'.tail_eq
  have hhead := hinv'.head_eq
  rw [List.countP_append, ← hinv.tail_eq] at htail
  rw [List.countP_append, ← hinv.head_eq] at hhead
  -- a thread that was busy enters nothing, and one that was idle enters one call
  have hcall : ∀ t, doneBy Event.claims t trace' ≤ 1 ∧ doneBy Event.removes t trace' ≤ 129 ∧
      (s.threads t).effort s.ring + 901 * entries t later ≤ 906 := by
    intro t
    have hclaims := hstretch.claims t
    have hremoves := hstretch.removes t
    have heffort := (s.threads t).effort_le s.ring
    have hremovable := (s.threads t).removable_le
    have hpending : (s.threads t).pending ≤ 1 := by
      cases s.threads t <;> simp [Local.pending]
    rcases hstretch.unreturned t (hnone t) with ⟨hzero, _⟩ | ⟨hone, hidle, _⟩
    · rw [hzero] at hclaims hremoves ⊢
      omega
    · rw [hone, hidle] at hclaims hremoves ⊢
      simp only [Local.pending, Local.removable] at hclaims hremoves
      rw [Local.effort_fresh _ rfl, Local.work]
      omega
  have hclaimed : trace'.countP (fun e => e.2.claims) ≤ Fintype.card Tid := by
    rw [← sum_doneBy]
    refine (Finset.sum_le_card_nsmul _ _ 1 fun t _ => (hcall t).1).trans ?_
    simp
  have hremoved : trace'.countP (fun e => e.2.removes) ≤ Fintype.card Tid * 129 := by
    rw [← sum_doneBy]
    refine (Finset.sum_le_card_nsmul _ _ 129 fun t _ => (hcall t).2.1).trans ?_
    simp
  have heach : ∀ t ∈ Finset.univ, resumes t later ≤ 906 + 390 * Fintype.card Tid := by
    intro t _
    have heffort := hstretch.effort t
    have := (hcall t).2.2
    unfold moved at heffort
    omega
  have htotal := Finset.sum_le_card_nsmul _ _ _ heach
  rw [sum_resumes, Finset.card_univ, Nat.nsmul_eq_mul] at htotal
  omega

omit [Fintype Tid] [Inhabited T] in
/-- A `pop` that runs alone on a ring that looks empty leaves everything as it was. -/
theorem run_pop_empty {t : Tid} (hidle : s.threads t = .idle)
    (hempty : s.ring.popDiff s.ring.head < 0) :
    run s [.call t .pop, .resume t, .resume t] =
      some (s, [(t, .call .pop), (t, .ret (.pop none))]) := by
  have hne : s.ring.popDiff s.ring.head ≠ 0 := by
    intro h
    rw [h] at hempty
    exact absurd hempty (by decide)
  have hback : Function.update s.threads t .idle = s.threads := by
    rw [← hidle, Function.update_eq_self]
  simp [run, Transition.run, step, State.enter, hidle, Local.start, Local.next, hne, hempty, hback,
    Taker.empty]

/-- Thread `true` finds the ring empty again and again. -/
def popAgain : List (Action Bool (List UInt8)) :=
  (List.replicate 1687 [.call true .pop, .resume true, .resume true]).flatten

/-- While thread `false` is stalled, thread `true` takes 3374 steps and its calls return. -/
theorem lock_free_stalled_producer : ∃ r s trace s' trace',
    newRingbuf (UInt64.ofNat (2 ^ 1)) = some r ∧
    run (State.initial r) (stalledProducer.take 4) = some (s, trace) ∧
    run s popAgain = some (s', trace') ∧
    Fintype.card Bool * (906 + 390 * Fintype.card Bool) < atomicSteps popAgain ∧
    ∃ t result, (t, .ret result) ∈ trace' := by
  have hpush : pushCalls (stalledProducer.take 4 ++ popAgain) < 2 ^ 63 := by decide +kernel
  have hsteps : Fintype.card Bool * (906 + 390 * Fintype.card Bool) < atomicSteps popAgain := by
    decide +kernel
  have houtcome : testSchedule (UInt64.ofNat (2 ^ 1)) (stalledProducer.take 4)
      (fun s _ => (s.threads true).work == 0 && decide (s.ring.popDiff s.ring.head < 0)) =
        true := by decide +kernel
  obtain ⟨r, s, trace, hnew, hrun, hempty⟩ := exists_of_testSchedule houtcome
  simp only [Bool.and_eq_true, beq_iff_eq, decide_eq_true_eq] at hempty
  obtain ⟨trace', hlater⟩ :=
    Transition.run_repeat (run_pop_empty (Local.eq_idle hempty.1) hempty.2) 1687
  exact ⟨r, s, trace, s, trace', hnew, hrun, hlater, hsteps,
    lock_free (k := 1) (by decide) (by decide) hnew hrun hlater hpush hsteps⟩

end Finite

end Sum

end TickBatch.Ring
