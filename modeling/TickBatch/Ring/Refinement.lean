import Mathlib.Data.Multiset.Count
import TickBatch.Ring.Inversion

/-!
# The ring buffer refines the ticket ring

`State.ticket` forgets everything about a machine state that the queue discipline does not need:
the policies, retry counters and buffers, and the fact that positions are 64-bit words. As long as
the tail has not reached `2 ^ 63` nothing wraps, and `next_ticket` shows that each atomic step of
the machine is one step of `TicketRing.Step`. The invariant of the ticket ring therefore holds in
every state that a schedule with fewer than `2 ^ 63` pushes can reach (`run_inv`).
-/

namespace TickBatch.Ring

variable {Tid T : Type}

/-- What a program point knows about the positions of the ring. -/
def Local.view : Local T → TicketRing.View T
  | .pushLoadSeq _ _ _ pos => .atTail pos.toNat false
  | .pushCas _ _ _ pos => .atTail pos.toNat true
  | .pushWrite item pos => .producing pos.toNat item false
  | .pushPublish item pos => .producing pos.toNat item true
  | .evictLoadSeq _ _ _ pos | .takeLoadSeq _ pos => .atHead pos.toNat false
  | .evictCas _ _ _ pos | .takeCas _ pos => .atHead pos.toNat true
  | .evictRecycle _ _ _ pos | .takeRead _ pos => .removing pos.toNat none
  | .marshal _ pos item | .takeRecycle pos item _ => .removing pos.toNat (some item)
  | _ => .nothing

/-- The ticket-ring event behind a labelled event of the machine, if it is one. -/
def ticketEvent : Tid × Event T → Option (TicketRing.Event Tid T)
  | (t, .claim pos item) => some (.claim t pos.toNat item)
  | (t, .publish pos item) => some (.publish t pos.toNat item)
  | (t, .take pos) => some (.remove t pos.toNat false)
  | (t, .evict pos) => some (.remove t pos.toNat true)
  | (t, .marshal pos item) => some (.use t pos.toNat item)
  | (t, .recycle pos taken) => some (.recycle t pos.toNat taken)
  | _ => none

/-- The ticket-ring log of a trace. -/
def ticketLog (trace : List (Tid × Event T)) : List (TicketRing.Event Tid T) :=
  trace.filterMap ticketEvent

@[simp] theorem ticketLog_append (tr tr' : List (Tid × Event T)) :
    ticketLog (tr ++ tr') = ticketLog tr ++ ticketLog tr' := List.filterMap_append

/-- The ticket-ring state behind a machine state. -/
def State.ticket (s : State Tid T) : TicketRing.State Tid T where
  head := s.ring.head.toNat
  tail := s.ring.tail.toNat
  seq := fun i => (s.ring.seqs i).toNat
  data := s.ring.data
  view := fun t => (s.threads t).view

section Ticket

variable [DecidableEq Tid]

/-- The views after one thread has moved. -/
theorem ticket_view_update (threads : Tid → Local T) (t : Tid) (pc : Local T) :
    (fun u => (Function.update threads t pc u).view) =
      Function.update (fun u => (threads u).view) t pc.view := by
  funext u
  by_cases h : u = t
  · subst h; simp
  · simp [h]

/-- Moving a thread without touching the ring changes its view only. -/
theorem ticket_move (s : State Tid T) (t : Tid) (pc : Local T) :
    State.ticket { ring := s.ring, threads := Function.update s.threads t pc } =
      s.ticket.setView t pc.view := by
  simp only [State.ticket, TicketRing.State.setView, ticket_view_update]

/-- A store to the tail cursor. -/
theorem ticket_storeTail (s : State Tid T) (t : Tid) (pc : Local T) (value : UInt64) :
    State.ticket { ring := { s.ring with tail := value },
                   threads := Function.update s.threads t pc } =
      { s.ticket.setView t pc.view with tail := value.toNat } := by
  simp only [State.ticket, TicketRing.State.setView, ticket_view_update]

/-- A store to the head cursor. -/
theorem ticket_storeHead (s : State Tid T) (t : Tid) (pc : Local T) (value : UInt64) :
    State.ticket { ring := { s.ring with head := value },
                   threads := Function.update s.threads t pc } =
      { s.ticket.setView t pc.view with head := value.toNat } := by
  simp only [State.ticket, TicketRing.State.setView, ticket_view_update]

/-- A store to a sequence cell is a store to the slot of its position. -/
theorem ticket_storeSeq (s : State Tid T) {k : Nat} (hmask : s.ring.mask.toNat = 2 ^ k - 1)
    (t : Tid) (pc : Local T) (pos value : UInt64) :
    State.ticket { ring := s.ring.storeSeq pos value,
                   threads := Function.update s.threads t pc } =
      { s.ticket.setView t pc.view with
        seq := Function.update s.ticket.seq (pos.toNat % 2 ^ k) value.toNat } := by
  have hseq : (fun i => (Function.update s.ring.seqs (s.ring.slot pos) value i).toNat) =
      Function.update (fun i => (s.ring.seqs i).toNat) (s.ring.slot pos) value.toNat := by
    funext i
    by_cases h : i = s.ring.slot pos
    · subst h; simp
    · simp [h]
  have hslot : s.ring.slot pos = pos.toNat % 2 ^ k := Words.toNat_and_mask hmask pos
  rw [hslot] at hseq
  simp only [State.ticket, TicketRing.State.setView, Ringbuf.storeSeq, ticket_view_update, hslot,
    hseq]

/-- A store to a data cell is a store to the slot of its position. -/
theorem ticket_storeData (s : State Tid T) {k : Nat} (hmask : s.ring.mask.toNat = 2 ^ k - 1)
    (t : Tid) (pc : Local T) (pos : UInt64) (item : T) :
    State.ticket { ring := s.ring.storeData pos item,
                   threads := Function.update s.threads t pc } =
      { s.ticket.setView t pc.view with
        data := Function.update s.ticket.data (pos.toNat % 2 ^ k) item } := by
  have hslot : s.ring.slot pos = pos.toNat % 2 ^ k := Words.toNat_and_mask hmask pos
  simp only [State.ticket, TicketRing.State.setView, Ringbuf.storeData, ticket_view_update, hslot]

end Ticket

/-- The sequence number that a thread reads is the one of its position's slot. -/
theorem ticket_seq (s : State Tid T) {k : Nat} (hmask : s.ring.mask.toNat = 2 ^ k - 1)
    (pos : UInt64) : s.ticket.seq (pos.toNat % 2 ^ k) = (s.ring.seqs (s.ring.slot pos)).toNat := by
  rw [← Words.toNat_and_mask hmask pos]
  rfl

/-- The bounds that keep the 64-bit arithmetic of the ring from wrapping: a ring of at most
`2 ^ 63` slots whose tail has not reached `2 ^ 63`. -/
structure NoWrap (k : Nat) (r : Ringbuf T) : Prop where
  pos : 1 ≤ k
  le : k ≤ 63
  mask : r.mask.toNat = 2 ^ k - 1
  tail : r.tail.toNat < 2 ^ 63

namespace NoWrap

variable {k : Nat} {r : Ringbuf T} (h : NoWrap k r)
include h

/-- The ring has at least two slots. -/
theorem two_le : 2 ≤ 2 ^ k := by
  have := Nat.pow_le_pow_right (n := 2) (by omega) h.pos
  omega

/-- The ring has at most `2 ^ 63` slots. -/
theorem cap_le : 2 ^ k ≤ 2 ^ 63 := Nat.pow_le_pow_right (by omega) h.le

/-- The next position, when the position is no further than the tail. -/
theorem toNat_succ {pos : UInt64} (hpos : pos.toNat ≤ r.tail.toNat) :
    (pos + 1).toNat = pos.toNat + 1 := by
  have := h.tail
  rw [UInt64.toNat_add, UInt64.toNat_one]
  omega

/-- The same slot's position one lap later. -/
theorem toNat_lap {pos : UInt64} (hpos : pos.toNat ≤ r.tail.toNat) :
    (pos + r.mask + 1).toNat = pos.toNat + 2 ^ k := by
  have := h.tail
  have := h.cap_le
  have := h.two_le
  rw [UInt64.toNat_add, UInt64.toNat_add, UInt64.toNat_one, h.mask]
  omega

end NoWrap

section Step

variable [DecidableEq Tid] {k : Nat} {s : State Tid T} {log : List (TicketRing.Event Tid T)}

/-- A program point that owns nothing may move to one that knows nothing. -/
theorem reset_ticket (k : Nat) (s : State Tid T) (t : Tid) (pc : Local T)
    (hp : (s.threads t).view.producingPos = none)
    (hr : (s.threads t).view.removingPos = none) (hpc : pc.view = .nothing) :
    TicketRing.Step (2 ^ k) s.ticket []
      (State.ticket { ring := s.ring, threads := Function.update s.threads t pc }) := by
  rw [ticket_move, hpc]
  exact .reset _ t hp hr

variable [Serializable T]

/-- Each atomic step of a thread is one step of the ticket ring. -/
theorem next_ticket (hinv : TicketRing.Inv (2 ^ k) log s.ticket) (hw : NoWrap k s.ring) {t : Tid}
    {r' : Ringbuf T} {pc' : Local T} {events : List (Event T)}
    (hnext : Next s.ring (s.threads t) r' pc' events) :
    TicketRing.Step (2 ^ k) s.ticket (ticketLog (events.map (t, ·)))
      (State.ticket { ring := r', threads := Function.update s.threads t pc' }) := by
  have hle : s.ring.head.toNat ≤ s.ring.tail.toNat := hinv.le
  have hok := hinv.views t
  have hview : s.ticket.view t = (s.threads t).view := rfl
  rw [hview] at hok
  have hreset := reset_ticket k s t
  generalize s.threads t = pc at hnext hok hview hreset
  cases hnext with
  | loadTail =>
      rw [ticket_move]
      exact .loadTail _ t (by rw [hview]; rfl) (by rw [hview]; rfl)
  | tailReady item policy tries pos hdiff =>
      have hseq : s.ring.seqs (s.ring.slot pos) = pos := Words.signed_sub_eq_zero.mp hdiff
      rw [ticket_move]
      refine .checkTail _ t pos.toNat false hview ?_
      rw [ticket_seq s hw.mask, hseq]
  | claim item policy tries pos htail =>
      rw [ticket_storeTail, hw.toNat_succ hok.1]
      exact .claim _ t _ item hview (by rw [← htail]; rfl)
  | write item pos =>
      rw [ticket_storeData s hw.mask]
      exact .write _ t _ _ hview
  | publish item pos =>
      rw [ticket_storeSeq s hw.mask, hw.toNat_succ hok.2.1.le]
      exact .publish _ t _ _ hview
  | evictHead =>
      rw [ticket_move]
      exact .loadHead _ t (by rw [hview]; rfl) (by rw [hview]; rfl)
  | evictReady item policy tries headPos hseq =>
      rw [ticket_move]
      refine .checkHead _ t headPos.toNat false hview ?_
      rw [ticket_seq s hw.mask, hseq, hw.toNat_succ (hok.1.trans hle)]
  | evict item policy tries headPos hhead =>
      rw [ticket_storeHead, hw.toNat_succ (hok.1.trans hle)]
      exact .remove _ t _ true hview (by rw [← hhead]; rfl)
  | evictRecycle item policy tries headPos =>
      rw [ticket_storeSeq s hw.mask, hw.toNat_lap (hok.1.le.trans hle)]
      exact .recycle _ t _ none hview
  | evictCount item policy tries => exact hreset _ rfl rfl rfl
  | loadHead =>
      rw [ticket_move]
      exact .loadHead _ t (by rw [hview]; rfl) (by rw [hview]; rfl)
  | headReady taker pos hdiff =>
      have hseq : s.ring.seqs (s.ring.slot pos) = pos + 1 := Words.signed_sub_eq_zero.mp hdiff
      rw [ticket_move]
      refine .checkHead _ t pos.toNat false hview ?_
      rw [ticket_seq s hw.mask, hseq, hw.toNat_succ (hok.1.trans hle)]
  | take taker pos hhead =>
      rw [ticket_storeHead, hw.toNat_succ (hok.1.trans hle)]
      exact .remove _ t _ false hview (by rw [← hhead]; rfl)
  | readPop pos =>
      rw [ticket_move, Local.view, Ringbuf.slot, Words.toNat_and_mask hw.mask]
      exact .read _ t pos.toNat hview
  | readMarshal buf pos =>
      rw [ticket_move, Local.view, Ringbuf.slot, Words.toNat_and_mask hw.mask]
      exact .read _ t pos.toNat hview
  | marshal buf pos item =>
      -- `Marshal` works on the item already read, so the thread's view stays the same
      have hsame : s.ticket.setView t (.removing pos.toNat (some item)) = s.ticket := by
        have hold : s.ticket.view t = .removing pos.toNat (some item) := hview
        simp only [TicketRing.State.setView, ← hold, Function.update_eq_self]
      rw [ticket_move]
      exact hsame.symm ▸ .use _ t _ _ hview
  | recycle pos item result =>
      rw [ticket_storeSeq s hw.mask, hw.toNat_lap (hok.1.le.trans hle)]
      exact .recycle _ t _ (some item) hview
  -- the retries, the two verdicts and `QueueDepth` forget what the thread has seen
  | _ => exact hreset _ rfl rfl rfl

end Step

/-! ## Claims are bounded by the pushes -/

/-- The event is a successful compare-and-swap of the tail. -/
def Event.claims : Event T → Bool
  | .claim .. => true
  | _ => false

/-- The threads that won a compare-and-swap of the tail, in order. -/
def claimers (trace : List (Tid × Event T)) : List Tid :=
  trace.filterMap fun
    | (t, .claim _ _) => some t
    | _ => none

/-- The threads that start a push, in order. -/
def pushers (schedule : List (Action Tid T)) : List Tid :=
  schedule.filterMap fun
    | .call t (.push _ _) => some t
    | _ => none

/-- The claims that a thread may still make within its current call. -/
def Local.pending : Local T → Nat
  | .pushLoadTail .. | .pushLoadSeq .. | .pushCas .. | .evictLoadHead .. | .evictLoadSeq ..
  | .evictCas .. | .evictRecycle .. | .evictCount .. => 1
  | _ => 0

theorem length_claims_ticketLog (trace : List (Tid × Event T)) :
    (TicketRing.claims (ticketLog trace)).length = (claimers trace).length := by
  induction trace with
  | nil => rfl
  | cons e trace ih =>
      obtain ⟨t, e⟩ := e
      cases e <;>
        simpa [ticketLog, ticketEvent, claimers, TicketRing.claims, List.filterMap_cons] using ih

theorem length_pushers (schedule : List (Action Tid T)) :
    (pushers schedule).length = pushCalls schedule := by
  induction schedule with
  | nil => rfl
  | cons a schedule ih =>
      cases a with
      | call t c => cases c <;> simpa [pushers, pushCalls] using ih
      | _ => simpa [pushers, pushCalls] using ih

/-- A prefix of a schedule starts no more pushes. -/
theorem pushCalls_append (schedule schedule' : List (Action Tid T)) :
    pushCalls (schedule ++ schedule') = pushCalls schedule + pushCalls schedule' :=
  List.countP_append

section Count

variable [DecidableEq Tid]

/-- A step emits no claim in the name of another thread. -/
theorem count_claimers_other {t u : Tid} (h : u ≠ t) (events : List (Event T)) :
    (claimers (events.map (t, ·))).count u = 0 := by
  rw [List.count_eq_zero]
  intro hu
  simp only [claimers, List.filterMap_map, List.mem_filterMap, Function.comp] at hu
  obtain ⟨e, _, he⟩ := hu
  cases e <;> simp at he
  exact h he.symm

/-- The claims of a step are made by the thread that takes it. -/
theorem count_claimers_own (t : Tid) (events : List (Event T)) :
    (claimers (events.map (t, ·))).count t = events.countP Event.claims := by
  induction events with
  | nil => rfl
  | cons e events ih =>
      cases e <;> simpa [claimers, Event.claims, List.countP_cons] using ih

/-- What a run counts: no thread has claimed more positions than it has started pushes. -/
def ClaimsBounded (schedule : List (Action Tid T)) (trace : List (Tid × Event T))
    (s : State Tid T) : Prop :=
  ∀ t, (claimers trace).count t + (s.threads t).pending ≤ (pushers schedule).count t

/-- There are at most as many claims as pushes. -/
theorem ClaimsBounded.length_le {schedule : List (Action Tid T)} {trace : List (Tid × Event T)}
    {s : State Tid T} (h : ClaimsBounded schedule trace s) :
    (claimers trace).length ≤ pushCalls schedule := by
  rw [← length_pushers]
  have hle : (claimers trace : Multiset Tid) ≤ (pushers schedule : Multiset Tid) := by
    rw [Multiset.le_iff_count]
    intro t
    have := h t
    simp only [Multiset.coe_count]
    omega
  simpa using Multiset.card_le_card hle

variable [Serializable T]

/-- A step that claims uses up the claim its call was allowed. -/
theorem Next.pending {r r' : Ringbuf T} {pc pc' : Local T} {events : List (Event T)}
    (h : Next r pc r' pc' events) : events.countP Event.claims + pc'.pending ≤ pc.pending := by
  cases h <;> simp [Event.claims, Local.pending]

theorem step_claims {schedule : List (Action Tid T)} {trace new : List (Tid × Event T)}
    {s s' : State Tid T} {a : Action Tid T} (h : ClaimsBounded schedule trace s)
    (hstep : step s a = some (s', new)) :
    ClaimsBounded (schedule ++ [a]) (trace ++ new) s' := by
  intro u
  have hu := h u
  have hcount : (claimers (trace ++ new)).count u =
      (claimers trace).count u + (claimers new).count u := by
    simp only [claimers, List.filterMap_append, List.count_append]
  have hpush : (pushers (schedule ++ [a])).count u =
      (pushers schedule).count u + (pushers [a]).count u := by
    simp only [pushers, List.filterMap_append, List.count_append]
  rw [hcount, hpush]
  cases a with
  | call t c =>
      obtain ⟨hidle, rfl, rfl⟩ := State.enter_eq_some hstep
      by_cases hut : u = t
      · subst hut
        rw [hidle] at hu
        -- a call of `push` raises both sides by one, any other call neither
        cases c <;> simp [claimers, pushers, Local.start, Local.pending] at hu ⊢ <;> omega
      · simp only [Function.update_of_ne hut]
        cases c <;> simp [claimers, pushers, Ne.symm hut] at hu ⊢ <;> omega
  | queueDepth t =>
      obtain ⟨hidle, rfl, rfl⟩ := State.enter_eq_some hstep
      by_cases hut : u = t
      · subst hut
        rw [hidle] at hu
        simpa [claimers, pushers, Local.pending] using hu
      · simpa [claimers, pushers, hut] using hu
  | resume t =>
      obtain ⟨ring, pc, events, hnext, rfl, rfl⟩ := resume_eq_some hstep
      have hnone : (pushers [Action.resume (T := T) t]).count u = 0 := rfl
      by_cases hut : u = t
      · subst hut
        have := (next_cases hnext).pending
        simp only [Function.update_self, count_claimers_own]
        omega
      · have := count_claimers_other hut events
        simp only [Function.update_of_ne hut]
        omega

end Count

/-! ## The invariant along a run -/

section Run

variable [DecidableEq Tid] [Serializable T] {k : Nat}

/-- The invariant of a run: the mask is that of `2 ^ k` slots and the ticket ring behind the state
is in order, as long as fewer than `2 ^ 63` pushes have been started. -/
structure RunInv (k : Nat) (schedule : List (Action Tid T)) (trace : List (Tid × Event T))
    (s : State Tid T) : Prop where
  bounded : ClaimsBounded schedule trace s
  mask : s.ring.mask.toNat = 2 ^ k - 1
  ticket : TicketRing.Inv (2 ^ k) (ticketLog trace) s.ticket

omit [Serializable T] in
/-- The tail of a reachable state counts the claims, so it is bounded by the pushes. -/
theorem RunInv.tail_le {schedule : List (Action Tid T)} {trace : List (Tid × Event T)}
    {s : State Tid T} (h : RunInv k schedule trace s) :
    s.ring.tail.toNat ≤ pushCalls schedule := by
  have hlen := congrArg List.length h.ticket.claimed
  rw [List.length_map, length_claims_ticketLog, List.length_range] at hlen
  have := h.bounded.length_le
  calc s.ring.tail.toNat = (claimers trace).length := hlen.symm
    _ ≤ pushCalls schedule := this

omit [Serializable T] in
/-- Nothing wraps while there are fewer than `2 ^ 63` pushes. -/
theorem RunInv.noWrap {schedule : List (Action Tid T)} {trace : List (Tid × Event T)}
    {s : State Tid T} (h : RunInv k schedule trace s) (hk : 1 ≤ k) (hk' : k ≤ 63)
    (hpush : pushCalls schedule < 2 ^ 63) : NoWrap k s.ring where
  pos := hk
  le := hk'
  mask := h.mask
  tail := lt_of_le_of_lt h.tail_le hpush

/-- One step of the machine preserves the invariant. -/
theorem step_runInv (hk : 1 ≤ k) (hk' : k ≤ 63) {schedule : List (Action Tid T)}
    {trace new : List (Tid × Event T)} {s s' : State Tid T} {a : Action Tid T}
    (h : RunInv k schedule trace s) (hpush : pushCalls schedule < 2 ^ 63)
    (hstep : step s a = some (s', new)) : RunInv k (schedule ++ [a]) (trace ++ new) s' := by
  have hw := h.noWrap hk hk' hpush
  have hclaims := step_claims h.bounded hstep
  cases a with
  | call t c =>
      obtain ⟨hidle, rfl, rfl⟩ := State.enter_eq_some hstep
      have hreset := reset_ticket k s t (Local.start c)
        (by rw [hidle]; rfl) (by rw [hidle]; rfl) (by cases c <;> rfl)
      refine ⟨hclaims, h.mask, ?_⟩
      rw [ticketLog_append]
      exact h.ticket.step hw.two_le hreset
  | queueDepth t =>
      obtain ⟨hidle, rfl, rfl⟩ := State.enter_eq_some hstep
      have hreset := reset_ticket k s t .depthLoadTail
        (by rw [hidle]; rfl) (by rw [hidle]; rfl) rfl
      refine ⟨hclaims, h.mask, ?_⟩
      rw [ticketLog_append]
      exact h.ticket.step hw.two_le hreset
  | resume t =>
      obtain ⟨ring, pc, events, hnext, rfl, rfl⟩ := resume_eq_some hstep
      refine ⟨hclaims, ?_, ?_⟩
      · rw [(next_cases hnext).mask]
        exact h.mask
      · rw [ticketLog_append]
        exact h.ticket.step hw.two_le (next_ticket h.ticket hw (next_cases hnext))

omit [Serializable T] in
/-- The initial state satisfies the invariant. -/
theorem initial_runInv [Inhabited T] (hk : k ≤ 63) {r : Ringbuf T}
    (hnew : newRingbuf (UInt64.ofNat (2 ^ k)) = some r) :
    RunInv k [] [] (State.initial r : State Tid T) := by
  obtain ⟨_, rfl⟩ := newRingbuf_eq_some hnew
  refine ⟨fun _ => by simp [claimers, pushers, State.initial, Local.pending], toNat_mask hk, ?_⟩
  refine TicketRing.Inv.initial rfl rfl (fun i hi => ?_) fun _ => rfl
  have hle : 2 ^ k ≤ 2 ^ 63 := Nat.pow_le_pow_right (by omega) hk
  show (UInt64.ofNat i).toNat = i
  rw [UInt64.toNat_ofNat']
  omega

/-- Every state reached with fewer than `2 ^ 63` pushes satisfies the invariant. -/
theorem run_inv [Inhabited T] (hk : 1 ≤ k) (hk' : k ≤ 63) {r : Ringbuf T}
    (hnew : newRingbuf (UInt64.ofNat (2 ^ k)) = some r) {schedule : List (Action Tid T)}
    {trace : List (Tid × Event T)} {s : State Tid T}
    (hrun : run (State.initial r) schedule = some (s, trace))
    (hpush : pushCalls schedule < 2 ^ 63) : RunInv k schedule trace s := by
  refine Transition.run_invariant
    (I := fun acts tr s => pushCalls acts < 2 ^ 63 → RunInv k acts tr s) ?_
    (fun _ => initial_runInv hk' hnew) hrun hpush
  intro acts tr s a s' new hinv hstep hlt
  have hlt' : pushCalls acts < 2 ^ 63 := by
    rw [pushCalls_append] at hlt
    omega
  exact step_runInv hk hk' (hinv hlt') hlt' hstep

end Run

end TickBatch.Ring
