import TickBatch.Engine.Config
import TickBatch.Lib.Transition

/-!
# The ticker and the coalesced ticks

`runLoop` and its ticker. The ticker's channel holds one tick: a tick that finds it full is dropped,
and the loop never learns of it. `CoalescedTicks` estimates these drops from the time each drain
takes, between two readings of the clock. The machine lets time pass by the nanosecond and the loop
go on at any time, so the goroutine may be held up anywhere, also between receiving a tick and the
first reading. What a drain is charged lies below the ticks that were dropped while it was measured,
by at most two (`step_counted`), and the invariant adds that up over a run (`coalesced_ticks`).
-/

namespace TickBatch

variable {T : Type}

/-- `time.Second / time.Duration(TickRate)`. -/
def Config.tickInterval (cfg : Config) : Int64 := 1000000000 / cfg.tickRate

/-- The count of coalesced ticks after a drain. -/
def countCoalesced (interval elapsed : Int64) (coalescedTicks : UInt64) : UInt64 :=
  if elapsed > interval then coalescedTicks + ((elapsed / interval).toUInt64 - 1)
  else coalescedTicks

/-- The program points of `runLoop`: in the select, with a tick received, in a drain since
`tickStart`, and out of the loop. -/
inductive LoopPoint where
  | selecting
  | received
  | draining (tickStart : Int64)
  | left
  deriving DecidableEq

/-- The loop and its ticker. `clock` is the time since the ticker was made, in nanoseconds. -/
structure TickLoop where
  cfg : Config
  clock : Nat
  pending : Bool
  point : LoopPoint
  coalescedTicks : UInt64
  deriving DecidableEq

namespace TickLoop

/-- What may happen next: a nanosecond passes, the select takes a tick or the cancellation, and the
loop reads the clock before and after a drain. -/
inductive Action where
  | pass
  | receive
  | cancel
  | startDrain
  | endDrain
  deriving DecidableEq

/-- A tick is received or dropped, in a drain or not, and a drain ends. -/
inductive Event where
  | received
  | dropped (inDrain : Bool)
  | drained
  deriving DecidableEq

/-- The period of the ticker in nanoseconds. -/
def interval (s : TickLoop) : Nat := s.cfg.tickInterval.toNatClampNeg

/-- Whether the loop is between the two readings of the clock. -/
def inDrain (s : TickLoop) : Bool :=
  match s.point with
  | .draining _ => true
  | _ => false

/-- A loop that has just made its ticker. -/
def initial (b : Batcher T) : TickLoop :=
  { cfg := b.cfg, clock := 0, pending := false, point := .selecting
    coalescedTicks := b.coalescedTicks }

/-- One step. -/
def step (s : TickLoop) : Action → Option (TickLoop × List Event)
  | .pass =>
      if s.point = .left then none
      else if s.interval ∣ s.clock + 1 then
        if s.pending then some ({ s with clock := s.clock + 1 }, [.dropped s.inDrain])
        else some ({ s with clock := s.clock + 1, pending := true }, [])
      else some ({ s with clock := s.clock + 1 }, [])
  | .receive =>
      if s.point = .selecting ∧ s.pending then
        some ({ s with pending := false, point := .received }, [.received])
      else none
  | .cancel => if s.point = .selecting then some ({ s with point := .left }, []) else none
  | .startDrain =>
      if s.point = .received then some ({ s with point := .draining (Int64.ofNat s.clock) }, [])
      else none
  | .endDrain =>
      match s.point with
      | .draining tickStart =>
          let elapsed := Int64.ofNat s.clock - tickStart
          some ({ s with
            point := .selecting
            coalescedTicks := countCoalesced s.cfg.tickInterval elapsed s.coalescedTicks },
            [.drained])
      | _ => none

/-- Execute a sequence of actions. -/
abbrev run (s : TickLoop) (actions : List Action) : Option (TickLoop × List Event) :=
  Transition.run step s actions

/-- The ticks that the loop has received. -/
def receipts (events : List Event) : Nat := events.count .received

/-- The ticks that were dropped. -/
def drops (events : List Event) : Nat :=
  events.countP fun | .dropped _ => true | _ => false

/-- The ticks that were dropped while a drain was measured. -/
def measured (events : List Event) : Nat := events.count (.dropped true)

/-- The drains that have ended. -/
def drains (events : List Event) : Nat := events.count .drained

/-! ## What a drain is charged -/

/-- What a drain of `e` nanoseconds adds to the count. -/
def charge (i e : Nat) : Nat := if i < e then e / i - 1 else 0

/-- The count does not wrap where the time does not. -/
theorem toNat_countCoalesced {interval elapsed : Int64} {i e : Nat} {count : UInt64}
    (hinterval : interval.toInt = i) (hi : 0 < i) (helapsed : elapsed.toInt = e)
    (hcount : count.toNat + e < 2 ^ 64) :
    (countCoalesced interval elapsed count).toNat = count.toNat + charge i e := by
  have hlt : elapsed > interval ↔ i < e := by
    rw [gt_iff_lt, Int64.lt_iff_toInt_lt, hinterval, helapsed, Int.ofNat_lt]
  unfold countCoalesced charge
  simp only [hlt]
  split
  · rename_i hlong
    have hquot : (elapsed / interval).toInt = ((e / i : Nat) : Int) := by
      rw [Int64.toInt_div_of_ne_right _ _ (by rintro rfl; simp at hinterval), hinterval,
        helapsed]
      rfl
    have hword : (elapsed / interval).toUInt64.toNat = e / i := by
      have hnonneg : 0 ≤ elapsed / interval := by
        rw [Int64.le_iff_toInt_le, hquot]
        exact Int.natCast_nonneg _
      rw [Int64.toNat_toUInt64_of_le hnonneg, ← Int64.toNat_toInt, hquot, Int.toNat_natCast]
    have hpos : 1 ≤ e / i := (Nat.one_le_div_iff hi).mpr (Nat.le_of_lt hlong)
    have hle : e / i ≤ e := Nat.div_le_self e i
    have hone : (1 : UInt64) ≤ (elapsed / interval).toUInt64 := by
      rw [UInt64.le_iff_toNat_le, hword]
      exact hpos
    rw [UInt64.toNat_add, UInt64.toNat_sub_of_le _ _ hone, hword, UInt64.toNat_one]
    exact Nat.mod_eq_of_lt (by omega)
  · rfl

/-- The ticks that fall into `e` nanoseconds. -/
theorem ticks_bounds {i : Nat} (hi : 0 < i) (t e : Nat) :
    e / i ≤ (t + e) / i - t / i ∧ (t + e) / i - t / i ≤ e / i + 1 := by
  rw [Nat.add_div hi]
  generalize t / i = a, e / i = b
  split <;> omega

/-- A drain is charged no more than the ticks that fall into it, less the one that is kept. -/
theorem charge_le {i : Nat} (hi : 0 < i) (t e : Nat) :
    charge i e = 0 ∨ charge i e + 1 ≤ (t + e) / i - t / i := by
  have hticks := (ticks_bounds hi t e).1
  unfold charge
  split
  · rename_i hlong
    have hpos : 1 ≤ e / i := (Nat.one_le_div_iff hi).mpr (Nat.le_of_lt hlong)
    omega
  · exact Or.inl rfl

/-- A drain is charged for all but two of the ticks that fall into it. -/
theorem le_charge {i : Nat} (hi : 0 < i) (t e : Nat) :
    (t + e) / i - t / i ≤ charge i e + 2 := by
  have hticks := (ticks_bounds hi t e).2
  unfold charge
  split
  · omega
  · rename_i hshort
    have hone : e / i ≤ 1 := by
      have := Nat.div_le_div_right (c := i) (Nat.not_lt.mp hshort)
      rwa [Nat.div_self hi] at this
    omega

/-! ## What a step can do -/

/-- Everything that one step can do. -/
inductive StepCase (s : TickLoop) : Action → TickLoop → List Event → Prop where
  | pass (hquiet : ¬ s.interval ∣ s.clock + 1) :
      StepCase s .pass { s with clock := s.clock + 1 } []
  | fill (htick : s.interval ∣ s.clock + 1) (hempty : s.pending = false) :
      StepCase s .pass { s with clock := s.clock + 1, pending := true } []
  | drop (htick : s.interval ∣ s.clock + 1) (hfull : s.pending = true) :
      StepCase s .pass { s with clock := s.clock + 1 } [.dropped s.inDrain]
  | receive (hpoint : s.point = .selecting) (hfull : s.pending = true) :
      StepCase s .receive { s with pending := false, point := .received } [.received]
  | cancel (hpoint : s.point = .selecting) : StepCase s .cancel { s with point := .left } []
  | startDrain (hpoint : s.point = .received) :
      StepCase s .startDrain { s with point := .draining (Int64.ofNat s.clock) } []
  | endDrain {tickStart : Int64} (hpoint : s.point = .draining tickStart) :
      StepCase s .endDrain
        { s with
          point := .selecting
          coalescedTicks := countCoalesced s.cfg.tickInterval (Int64.ofNat s.clock - tickStart)
            s.coalescedTicks } [.drained]

theorem step_cases {s s' : TickLoop} {a : Action} {new : List Event}
    (h : s.step a = some (s', new)) : StepCase s a s' new := by
  cases a with
  | pass =>
      simp only [step] at h
      split at h
      · cases h
      split at h
      · rename_i htick
        split at h
        · rename_i hfull
          cases h
          exact .drop htick hfull
        · rename_i hempty
          cases h
          exact .fill htick (by simpa using hempty)
      · rename_i hquiet
        cases h
        exact .pass hquiet
  | receive =>
      simp only [step] at h
      split at h
      · rename_i hready
        cases h
        exact .receive hready.1 hready.2
      · cases h
  | cancel =>
      simp only [step] at h
      split at h
      · rename_i hpoint
        cases h
        exact .cancel hpoint
      · cases h
  | startDrain =>
      simp only [step] at h
      split at h
      · rename_i hpoint
        cases h
        exact .startDrain hpoint
      · cases h
  | endDrain =>
      simp only [step] at h
      split at h
      · rename_i tickStart hpoint
        cases h
        exact .endDrain hpoint
      · cases h

/-! ## The invariant -/

/-- The ticks that have fallen into the drain that began at `tickStart`. -/
def ticksSince (s : TickLoop) (tickStart : Int64) : Nat :=
  s.clock / s.interval - tickStart.toNatClampNeg / s.interval

/-- The count, the drops and the drains agree. While a drain is measured, the ticks that have fallen
into it are dropped, but for the one that the channel may have kept. -/
structure Counted (events : List Event) (s : TickLoop) : Prop where
  conserved : receipts events + drops events + s.pending.toNat = s.clock / s.interval
  le_measured : s.coalescedTicks.toNat ≤ measured events
  started : ∀ tickStart, s.point = .draining tickStart →
    0 ≤ tickStart.toInt ∧ tickStart.toInt ≤ s.clock
  dropping : ∀ tickStart, s.point = .draining tickStart →
    s.coalescedTicks.toNat + s.ticksSince tickStart ≤ measured events + s.pending.toNat ∧
      measured events ≤ s.coalescedTicks.toNat + 2 * drains events + s.ticksSince tickStart
  settled : s.inDrain = false →
    measured events ≤ s.coalescedTicks.toNat + 2 * drains events

/-- The stronger count where no tick fires between receiving a tick and reading the clock. -/
structure Prompt (events : List Event) (s : TickLoop) : Prop where
  dropping : ∀ tickStart, s.point = .draining tickStart →
    (s.pending = false → s.ticksSince tickStart = 0) ∧
      measured events + s.pending.toNat ≤
        s.coalescedTicks.toNat + drains events + s.ticksSince tickStart
  settled : s.inDrain = false → measured events ≤ s.coalescedTicks.toNat + drains events

section Tallies

variable (events : List Event)

theorem tallies_received :
    receipts (events ++ [.received]) = receipts events + 1 ∧
      drops (events ++ [.received]) = drops events ∧
      measured (events ++ [.received]) = measured events ∧
      drains (events ++ [.received]) = drains events := by
  simp [receipts, drops, measured, drains, List.count_append, List.countP_append]

theorem tallies_dropped (inDrain : Bool) :
    receipts (events ++ [.dropped inDrain]) = receipts events ∧
      drops (events ++ [.dropped inDrain]) = drops events + 1 ∧
      measured (events ++ [.dropped inDrain]) = measured events + inDrain.toNat ∧
      drains (events ++ [.dropped inDrain]) = drains events := by
  cases inDrain <;>
    simp [receipts, drops, measured, drains, List.count_append, List.countP_append]

theorem tallies_drained :
    receipts (events ++ [.drained]) = receipts events ∧
      drops (events ++ [.drained]) = drops events ∧
      measured (events ++ [.drained]) = measured events ∧
      drains (events ++ [.drained]) = drains events + 1 := by
  simp [receipts, drops, measured, drains, List.count_append, List.countP_append]

end Tallies

theorem measured_le_drops (events : List Event) : measured events ≤ drops events := by
  unfold measured drops
  rw [List.count_eq_countP]
  exact List.countP_mono_left fun event _ h => by cases eq_of_beq h; rfl

section Step

variable {s s' : TickLoop} {a : Action} {events new : List Event}

theorem Counted.count_le (h : Counted events s) : s.coalescedTicks.toNat ≤ s.clock := by
  have hdrops := measured_le_drops events
  have hticks := h.conserved
  have hdiv := Nat.div_le_self s.clock s.interval
  have hle := h.le_measured
  omega

/-- A drain that ends is charged no more than the ticks that fell into it, less the one that may
have been kept, and for all but two of them. -/
theorem Counted.endDrain (h : Counted events s) (hclock : s.clock < 2 ^ 63)
    (hinterval : s.cfg.tickInterval.toInt = s.interval) (hi : 0 < s.interval)
    {tickStart : Int64} (hpoint : s.point = .draining tickStart) :
    ∃ charged, (countCoalesced s.cfg.tickInterval (Int64.ofNat s.clock - tickStart)
        s.coalescedTicks).toNat = s.coalescedTicks.toNat + charged ∧
      (charged = 0 ∨ charged + 1 ≤ s.ticksSince tickStart) ∧
      s.ticksSince tickStart ≤ charged + 2 := by
  obtain ⟨hpos, hle⟩ := h.started tickStart hpoint
  have hcount := h.count_le
  have hstart : (tickStart.toNatClampNeg : Int) = tickStart.toInt := by
    rw [← Int64.toNat_toInt, Int.toNat_of_nonneg hpos]
  obtain ⟨e, he⟩ : ∃ e, s.clock = tickStart.toNatClampNeg + e := Nat.exists_eq_add_of_le (by omega)
  have hnow : (Int64.ofNat s.clock).toInt = s.clock := Int64.toInt_ofNat_of_lt hclock
  have helapsed : (Int64.ofNat s.clock - tickStart).toInt = e := by
    rw [Int64.toInt_sub, hnow, Int.bmod_eq_of_le (by omega) (by omega)]
    omega
  have hsince : s.ticksSince tickStart =
      (tickStart.toNatClampNeg + e) / s.interval - tickStart.toNatClampNeg / s.interval := by
    rw [ticksSince, he]
  rw [hsince]
  exact ⟨charge s.interval e, toNat_countCoalesced hinterval hi helapsed (by omega),
    charge_le hi _ e, le_charge hi _ e⟩

/-- Between ticks none falls into a drain. -/
theorem ticksSince_quiet (hquiet : ¬ s.interval ∣ s.clock + 1) (tickStart : Int64) :
    ticksSince { s with clock := s.clock + 1 } tickStart = s.ticksSince tickStart := by
  show (s.clock + 1) / s.interval - _ = _
  rw [Nat.succ_div, if_neg hquiet, Nat.add_zero]
  rfl

/-- A tick falls into the drain that is going on. -/
theorem ticksSince_tick (htick : s.interval ∣ s.clock + 1) {tickStart : Int64}
    (hpos : 0 ≤ tickStart.toInt) (hle : tickStart.toInt ≤ s.clock) (pending : Bool) :
    ticksSince { s with clock := s.clock + 1, pending } tickStart =
      s.ticksSince tickStart + 1 := by
  have hstart : tickStart.toNatClampNeg ≤ s.clock := by
    rw [← Int64.toNat_toInt]
    omega
  have hmono : tickStart.toNatClampNeg / s.interval ≤ s.clock / s.interval :=
    Nat.div_le_div_right hstart
  show (s.clock + 1) / s.interval - _ = s.clock / s.interval - _ + 1
  rw [Nat.succ_div, if_pos htick]
  exact Nat.sub_add_comm hmono

/-- No tick has fallen into a drain that has just begun. -/
theorem ticksSince_startDrain (hclock : s.clock < 2 ^ 63) :
    ticksSince { s with point := .draining (Int64.ofNat s.clock) } (Int64.ofNat s.clock) = 0 := by
  show s.clock / s.interval - (Int64.ofNat s.clock).toNatClampNeg / s.interval = 0
  rw [Int64.toNatClampNeg_ofNat_of_lt hclock, Nat.sub_self]

theorem inDrain_of_draining {tickStart : Int64} (h : s.point = .draining tickStart) :
    s.inDrain = true := by
  rw [inDrain, h]

/-- A drain has begun by the time that any later clock shows. -/
theorem Counted.started_pass (h : Counted events s) {tickStart : Int64}
    (hpoint : s.point = .draining tickStart) :
    0 ≤ tickStart.toInt ∧ tickStart.toInt ≤ ((s.clock + 1 : Nat) : Int) := by
  obtain ⟨hpos, hle⟩ := h.started tickStart hpoint
  exact ⟨hpos, by omega⟩

/-- One step keeps the count. -/
theorem step_counted (h : Counted events s) (hclock : s'.clock < 2 ^ 63)
    (hinterval : s.cfg.tickInterval.toInt = s.interval) (hi : 0 < s.interval)
    (hstep : s.step a = some (s', new)) : Counted (events ++ new) s' := by
  have hconserved := h.conserved
  have hcount := h.le_measured
  cases step_cases hstep with
  | pass hquiet =>
      have hdiv : (s.clock + 1) / s.interval = s.clock / s.interval := by
        rw [Nat.succ_div, if_neg hquiet, Nat.add_zero]
      rw [List.append_nil]
      refine ⟨hconserved.trans hdiv.symm, hcount, fun tickStart hpoint => h.started_pass hpoint,
        fun tickStart hpoint => ?_, h.settled⟩
      rw [ticksSince_quiet hquiet]
      exact h.dropping tickStart hpoint
  | fill htick hempty =>
      have hdiv : (s.clock + 1) / s.interval = s.clock / s.interval + 1 := by
        rw [Nat.succ_div, if_pos htick]
      rw [hempty] at hconserved
      rw [List.append_nil]
      refine ⟨?_, hcount, fun tickStart hpoint => h.started_pass hpoint,
        fun tickStart hpoint => ?_, h.settled⟩
      · show _ + 1 = (s.clock + 1) / s.interval
        rw [hdiv, ← hconserved]
        rfl
      · obtain ⟨hpos, hle⟩ := h.started tickStart hpoint
        obtain ⟨hlow, hhigh⟩ := h.dropping tickStart hpoint
        rw [hempty, Bool.toNat_false] at hlow
        rw [ticksSince_tick htick hpos hle]
        exact ⟨Nat.succ_le_succ hlow, Nat.le_succ_of_le hhigh⟩
  | drop htick hfull =>
      have hdiv : (s.clock + 1) / s.interval = s.clock / s.interval + 1 := by
        rw [Nat.succ_div, if_pos htick]
      obtain ⟨hreceived, hdrops, hmeasured, hdrains⟩ := tallies_dropped events s.inDrain
      refine ⟨?_, ?_, fun tickStart hpoint => h.started_pass hpoint,
        fun tickStart hpoint => ?_, fun hpoint => ?_⟩
      · show _ + s.pending.toNat = (s.clock + 1) / s.interval
        omega
      · show s.coalescedTicks.toNat ≤ _
        omega
      · obtain ⟨hpos, hle⟩ := h.started tickStart hpoint
        obtain ⟨hlow, hhigh⟩ := h.dropping tickStart hpoint
        have hdrain : s.inDrain = true := inDrain_of_draining hpoint
        rw [ticksSince_tick htick hpos hle, hmeasured, hdrains, hdrain, Bool.toNat_true]
        constructor
        · show s.coalescedTicks.toNat + _ ≤ _ + s.pending.toNat
          omega
        · show _ ≤ s.coalescedTicks.toNat + _ + _
          omega
      · have hfree : s.inDrain = false := hpoint
        rw [hmeasured, hdrains, hfree]
        exact h.settled hfree
  | receive hpoint hfull =>
      obtain ⟨hreceived, hdrops, hmeasured, hdrains⟩ := tallies_received events
      rw [hfull, Bool.toNat_true] at hconserved
      refine ⟨?_, ?_, fun _ hdrain => (by cases hdrain), fun _ hdrain => (by cases hdrain),
        fun _ => ?_⟩
      · show _ + 0 = s.clock / s.interval
        omega
      · rw [hmeasured]
        exact hcount
      · rw [hmeasured, hdrains]
        exact h.settled (by rw [inDrain, hpoint])
  | cancel hpoint =>
      rw [List.append_nil]
      exact ⟨hconserved, hcount, fun _ hdrain => (by cases hdrain),
        fun _ hdrain => (by cases hdrain), fun _ => h.settled (by rw [inDrain, hpoint])⟩
  | startDrain hpoint =>
      have hnow : (Int64.ofNat s.clock).toInt = s.clock := Int64.toInt_ofNat_of_lt hclock
      have hsettled := h.settled (by rw [inDrain, hpoint])
      rw [List.append_nil]
      refine ⟨hconserved, hcount, fun tickStart hdrain => ?_, fun tickStart hdrain => ?_,
        fun hdrain => by cases hdrain⟩
      · cases hdrain
        exact ⟨by omega, Int.le_of_eq hnow⟩
      · cases hdrain
        rw [ticksSince_startDrain hclock]
        constructor
        · show s.coalescedTicks.toNat + 0 ≤ _
          omega
        · exact hsettled
  | endDrain hpoint =>
      obtain ⟨hreceived, hdrops, hmeasured, hdrains⟩ := tallies_drained events
      obtain ⟨charged, hcharge, hless, hmost⟩ := h.endDrain hclock hinterval hi hpoint
      obtain ⟨hlow, hhigh⟩ := h.dropping _ hpoint
      have hpending : s.pending.toNat ≤ 1 := Bool.toNat_le s.pending
      refine ⟨?_, ?_, fun _ hdrain => (by cases hdrain), fun _ hdrain => (by cases hdrain),
        fun _ => ?_⟩
      · rw [hreceived, hdrops]
        exact hconserved
      · rw [hcharge, hmeasured]
        omega
      · rw [hcharge, hmeasured, hdrains]
        omega

/-- One step keeps the stronger count, if no tick waits when a drain begins. -/
theorem step_prompt (h : Counted events s) (h' : Prompt events s) (hclock : s'.clock < 2 ^ 63)
    (hinterval : s.cfg.tickInterval.toInt = s.interval) (hi : 0 < s.interval)
    (hprompt : a = .startDrain → s.pending = false) (hstep : s.step a = some (s', new)) :
    Prompt (events ++ new) s' := by
  cases step_cases hstep with
  | pass hquiet =>
      rw [List.append_nil]
      refine ⟨fun tickStart hpoint => ?_, h'.settled⟩
      rw [ticksSince_quiet hquiet]
      exact h'.dropping tickStart hpoint
  | fill htick hempty =>
      rw [List.append_nil]
      refine ⟨fun tickStart hpoint => ?_, h'.settled⟩
      obtain ⟨hpos, hle⟩ := h.started tickStart hpoint
      obtain ⟨hzero, hmost⟩ := h'.dropping tickStart hpoint
      rw [hempty, Bool.toNat_false] at hmost
      rw [ticksSince_tick htick hpos hle]
      exact ⟨fun hfree => (by cases hfree), Nat.succ_le_succ hmost⟩
  | drop htick hfull =>
      obtain ⟨-, -, hmeasured, hdrains⟩ := tallies_dropped events s.inDrain
      refine ⟨fun tickStart hpoint => ?_, fun hpoint => ?_⟩
      · obtain ⟨hpos, hle⟩ := h.started tickStart hpoint
        obtain ⟨hzero, hmost⟩ := h'.dropping tickStart hpoint
        have hdrain : s.inDrain = true := inDrain_of_draining hpoint
        rw [ticksSince_tick htick hpos hle, hmeasured, hdrains, hdrain, Bool.toNat_true]
        refine ⟨fun hfree => absurd (hfull.symm.trans hfree) (by decide), ?_⟩
        show _ + s.pending.toNat ≤ s.coalescedTicks.toNat + _ + _
        omega
      · have hfree : s.inDrain = false := hpoint
        rw [hmeasured, hdrains, hfree]
        exact h'.settled hfree
  | receive hpoint hfull =>
      obtain ⟨-, -, hmeasured, hdrains⟩ := tallies_received events
      refine ⟨fun _ hdrain => (by cases hdrain), fun _ => ?_⟩
      rw [hmeasured, hdrains]
      exact h'.settled (by rw [inDrain, hpoint])
  | cancel hpoint =>
      rw [List.append_nil]
      exact ⟨fun _ hdrain => (by cases hdrain), fun _ => h'.settled (by rw [inDrain, hpoint])⟩
  | startDrain hpoint =>
      have hempty := hprompt rfl
      have hsettled := h'.settled (by rw [inDrain, hpoint])
      rw [List.append_nil]
      refine ⟨fun tickStart hdrain => ?_, fun hdrain => (by cases hdrain)⟩
      cases hdrain
      rw [ticksSince_startDrain hclock]
      refine ⟨fun _ => rfl, ?_⟩
      show _ + s.pending.toNat ≤ _
      rw [hempty]
      exact hsettled
  | endDrain hpoint =>
      obtain ⟨-, -, hmeasured, hdrains⟩ := tallies_drained events
      obtain ⟨charged, hcharge, hless, hmost⟩ := h.endDrain hclock hinterval hi hpoint
      obtain ⟨hzero, hhigh⟩ := h'.dropping _ hpoint
      refine ⟨fun _ hdrain => (by cases hdrain), fun _ => ?_⟩
      rw [hcharge, hmeasured, hdrains]
      -- without a tick in the channel none has fallen into the drain
      cases hpending : s.pending with
      | false =>
          have hnone := hzero hpending
          omega
      | true =>
          rw [hpending, Bool.toNat_true] at hhigh
          omega

end Step

/-! ## Runs -/

/-- The tick rates that `New` accepts. -/
theorem tickRate_of_check {cfg : Config} (h : cfg.check = none) :
    0 < cfg.tickRate ∧ cfg.tickRate ≤ 1000000000 := by
  unfold Config.check at h
  -- the sixth and the seventh check
  iterate 5
    split at h
    · cases h
  split at h
  · cases h
  rename_i hpos
  split at h
  · cases h
  rename_i hle
  exact ⟨Int64.not_le.mp hpos, Int64.not_lt.mp hle⟩

/-- The period of an accepted configuration is at least a nanosecond. -/
theorem tickInterval_of_check {cfg : Config} (h : cfg.check = none) :
    cfg.tickInterval.toInt = cfg.tickInterval.toNatClampNeg ∧
      0 < cfg.tickInterval.toNatClampNeg := by
  obtain ⟨hpos, hle⟩ := tickRate_of_check h
  rw [Int64.lt_iff_toInt_lt] at hpos
  rw [Int64.le_iff_toInt_le] at hle
  have hquot : cfg.tickInterval.toInt = Int.tdiv 1000000000 cfg.tickRate.toInt :=
    Int64.toInt_div_of_ne_left _ _ (by decide)
  have hone : 1 ≤ cfg.tickInterval.toInt := by
    rw [hquot, Int.tdiv_eq_ediv_of_nonneg (by decide)]
    exact (Int.le_ediv_iff_mul_le hpos).mpr (by rw [Int.one_mul]; exact hle)
  rw [← Int64.toNat_toInt]
  omega

section Run

variable {b : Batcher T} {s : TickLoop} {actions : List Action} {events : List Event}

theorem step_frame {s s' : TickLoop} {a : Action} {new : List Event}
    (h : s.step a = some (s', new)) : s'.cfg = s.cfg ∧ s.clock ≤ s'.clock := by
  cases step_cases h with
  | pass | fill | drop => exact ⟨rfl, Nat.le_succ _⟩
  | receive | cancel | startDrain | endDrain => exact ⟨rfl, Nat.le_refl _⟩

theorem counted_initial (hzero : b.coalescedTicks = 0) : Counted [] (initial b) := by
  have hcount : (initial b).coalescedTicks.toNat = 0 := by
    show b.coalescedTicks.toNat = 0
    rw [hzero]
    rfl
  refine ⟨(Nat.zero_div _).symm, Nat.le_of_eq hcount, fun _ hdrain => (by cases hdrain),
    fun _ hdrain => (by cases hdrain), fun _ => Nat.zero_le _⟩

/-- Every run keeps the count. -/
theorem run_counted (hcheck : b.cfg.check = none) (hzero : b.coalescedTicks = 0)
    (hrun : run (initial b) actions = some (s, events)) (hclock : s.clock < 2 ^ 63) :
    Counted events s := by
  obtain ⟨hinterval, hi⟩ := tickInterval_of_check hcheck
  have hinv := Transition.run_invariant
    (I := fun _ events s => s.cfg = b.cfg ∧ (s.clock < 2 ^ 63 → Counted events s))
    (fun _ events s a s' new h hstep => ?_) ⟨rfl, fun _ => counted_initial hzero⟩ hrun
  · exact hinv.2 hclock
  · obtain ⟨hcfg, hcounted⟩ := h
    obtain ⟨hcfg', hle⟩ := step_frame hstep
    refine ⟨hcfg'.trans hcfg, fun hclock => ?_⟩
    rw [← hcfg] at hinterval hi
    exact step_counted (hcounted (by omega)) hclock hinterval hi hstep

/-- No tick waits when a drain begins: none has fired since the loop received one. -/
def StartsPromptly (s : TickLoop) (a : Action) : Prop := a = .startDrain → s.pending = false

instance (s : TickLoop) (a : Action) : Decidable (s.StartsPromptly a) :=
  inferInstanceAs (Decidable (_ → _))

/-- Every run whose drains begin promptly keeps the stronger count. -/
theorem run_prompt (hcheck : b.cfg.check = none) (hzero : b.coalescedTicks = 0)
    (hrun : run (initial b) actions = some (s, events)) (hclock : s.clock < 2 ^ 63)
    (halong : Transition.Along step StartsPromptly (initial b) actions) : Prompt events s := by
  obtain ⟨hinterval, hi⟩ := tickInterval_of_check hcheck
  have hinit : Prompt [] (initial b) :=
    ⟨fun _ hdrain => (by cases hdrain), fun _ => Nat.zero_le _⟩
  have hinv := Transition.run_invariant_along
    (I := fun _ events s => s.cfg = b.cfg ∧
      (s.clock < 2 ^ 63 → Counted events s ∧ Prompt events s))
    (fun _ events s a s' new h hprompt hstep => ?_)
    ⟨rfl, fun _ => ⟨counted_initial hzero, hinit⟩⟩ hrun halong
  · exact (hinv.2 hclock).2
  · obtain ⟨hcfg, hboth⟩ := h
    obtain ⟨hcfg', hle⟩ := step_frame hstep
    refine ⟨hcfg'.trans hcfg, fun hclock => ?_⟩
    rw [← hcfg] at hinterval hi
    obtain ⟨hcounted, hstrong⟩ := hboth (by omega)
    exact ⟨step_counted hcounted hclock hinterval hi hstep,
      step_prompt hcounted hstrong hclock hinterval hi hprompt hstep⟩

/-- What `CoalescedTicks` says about the ticks that the ticker has dropped, wherever the goroutine
is held up. Every tick has been received, dropped, or waits in the channel. The count never exceeds
the ticks dropped between the two readings of the clock, and after every drain it falls short of
them by at most two for each drain; by at most one, if no tick fires between receiving a tick and
the first reading. -/
theorem coalesced_ticks [Inhabited T] {sizeofT : Int64} {cfg : Config}
    (hnew : Batcher.new sizeofT cfg = .ok b)
    (hrun : run (initial b) actions = some (s, events)) (hclock : s.clock < 2 ^ 63) :
    receipts events + drops events + s.pending.toNat = s.clock / s.interval ∧
      s.coalescedTicks.toNat ≤ measured events ∧ measured events ≤ drops events ∧
      (s.inDrain = false → measured events ≤ s.coalescedTicks.toNat + 2 * drains events) ∧
      (s.inDrain = false → Transition.Along step StartsPromptly (initial b) actions →
        measured events ≤ s.coalescedTicks.toNat + drains events) := by
  obtain ⟨hcheck, hzero, _⟩ := Batcher.new_fresh hnew
  have hcounted := run_counted hcheck hzero hrun hclock
  exact ⟨hcounted.conserved, hcounted.le_measured, measured_le_drops events, hcounted.settled,
    fun hdrain halong => (run_prompt hcheck hzero hrun hclock halong).settled hdrain⟩

end Run

/-- A configuration with a tick every nanosecond. -/
def everyNanosecond : Config := { Batcher.shortConfig with tickRate := 1000000000 }

/-- Its loop, when the ticker has just been made. -/
def ticking : TickLoop where
  cfg := everyNanosecond
  clock := 0
  pending := false
  point := .selecting
  coalescedTicks := 0

/-- A drain of five nanoseconds: the first tick in it is kept and four are dropped. -/
def slowDrain : List Action :=
  [.pass, .receive, .startDrain, .pass, .pass, .pass, .pass, .pass, .endDrain]

/-- The count of the slow drain is exact. -/
theorem coalesced_ticks_slow : ∃ (b : Batcher Unit) (s : TickLoop) (events : List Event),
    Batcher.new 8 everyNanosecond = .ok b ∧ run (initial b) slowDrain = some (s, events) ∧
      s.coalescedTicks = 4 ∧ s.coalescedTicks.toNat ≤ measured events ∧
      measured events ≤ s.coalescedTicks.toNat + drains events := by
  obtain ⟨b, hnew⟩ : ∃ b : Batcher Unit, Batcher.new 8 everyNanosecond = .ok b := ⟨_, rfl⟩
  have hinit : initial b = ticking := by
    have hcfg := (Batcher.new_ok hnew).1
    have hzero := (Batcher.new_fresh hnew).2.1
    rw [initial, hcfg, hzero]
    rfl
  have hrun : run (initial b) slowDrain =
      some ({ ticking with clock := 6, pending := true, coalescedTicks := 4 },
        [.received, .dropped true, .dropped true, .dropped true, .dropped true, .drained]) := by
    rw [hinit]
    decide
  have halong : Transition.Along step StartsPromptly (initial b) slowDrain := by
    rw [hinit]
    decide
  obtain ⟨-, hle, -, -, hprompt⟩ := coalesced_ticks hnew hrun (by decide)
  exact ⟨b, _, _, hnew, hrun, rfl, hle, hprompt rfl halong⟩

end TickLoop
end TickBatch
