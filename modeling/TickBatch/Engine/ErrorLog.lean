import TickBatch.Engine.Drain
import TickBatch.Lib.Transition

/-!
# The rate limit of the error log

`reportError` without a callback, in its atomic steps: load the time of the last line, read the
clock, and swap the time of the new line in if more than a second has passed and nobody else has
swapped. At shutdown it is called from two goroutines; the machine has any number of them, and a
clock that may also go backwards. A successful swap stores the time of a line over the time of the
line before it, so the lines of a run are more than a second apart (`step_limited`), and no window
of some seconds holds more lines than seconds (`log_rate`). A call that runs alone does what
`Batcher.reportError` does (`run_alone`).
-/

namespace TickBatch

/-- The program points of a call of `reportError`. -/
inductive ReportPoint where
  | idle
  | loaded (err : Error) (last : Int64)
  | timed (err : Error) (last now : Int64)

/-- The time of the line that a call in progress has loaded. -/
def ReportPoint.last? : ReportPoint → Option Int64
  | .idle => none
  | .loaded _ last | .timed _ last _ => some last

/-- The error log and the calls in progress. -/
structure ErrorLog (Tid : Type) where
  lastLogTime : Int64
  calls : Tid → ReportPoint

namespace ErrorLog

variable {Tid : Type}

/-- The steps of a call. -/
inductive Action (Tid : Type) where
  | load (t : Tid) (err : Error)
  | readClock (t : Tid) (now : Int64)
  | finish (t : Tid)

/-- A report becomes a line, with its time, or is suppressed. -/
inductive Event where
  | logged (err : Error) (now : Int64)
  | suppressed (err : Error) (last now : Int64)

/-- The log of a new batcher. -/
def initial {T : Type} (b : Batcher T) : ErrorLog Tid :=
  { lastLogTime := b.lastLogTime, calls := fun _ => .idle }

/-- Move a call to another program point. -/
def setCall [DecidableEq Tid] (s : ErrorLog Tid) (t : Tid) (point : ReportPoint) : ErrorLog Tid :=
  { s with calls := Function.update s.calls t point }

/-- One atomic step. -/
def step [DecidableEq Tid] (s : ErrorLog Tid) : Action Tid → Option (ErrorLog Tid × List Event)
  | .load t err =>
      match s.calls t with
      | .idle => some (s.setCall t (.loaded err s.lastLogTime), [])
      | _ => none
  | .readClock t now =>
      match s.calls t with
      | .loaded err last => some (s.setCall t (.timed err last now), [])
      | _ => none
  | .finish t =>
      match s.calls t with
      | .timed err last now =>
          if now - last > 1000000000 ∧ s.lastLogTime = last then
            some ({ s with lastLogTime := now }.setCall t .idle, [.logged err now])
          else some (s.setCall t .idle, [.suppressed err last now])
      | _ => none

/-- Execute a sequence of actions. -/
abbrev run [DecidableEq Tid] (s : ErrorLog Tid) (actions : List (Action Tid)) :
    Option (ErrorLog Tid × List Event) :=
  Transition.run step s actions

/-- The times of the lines, in the order of the log. -/
def stamps (events : List Event) : List Int64 :=
  events.filterMap fun
    | .logged _ now => some now
    | .suppressed _ _ _ => none

@[simp] theorem stamps_append (es es' : List Event) :
    stamps (es ++ es') = stamps es ++ stamps es' := List.filterMap_append

/-- Two times more than a second apart, in this order. -/
def Apart (a b : Int64) : Prop := a.toInt + 1000000000 < b.toInt

/-! ## Spaced times -/

/-- No more spaced times than periods fit into a window. -/
theorem length_le_of_spaced {d : Int} {xs : List Int} (hspaced : xs.Pairwise fun a b => a + d < b)
    {lo : Int} {n : Nat} (hwindow : ∀ x ∈ xs, lo < x ∧ x ≤ lo + n * d) : xs.length ≤ n := by
  induction xs generalizing lo n with
  | nil => exact Nat.zero_le n
  | cons x xs ih =>
      obtain ⟨hfirst, hrest⟩ := List.pairwise_cons.mp hspaced
      obtain ⟨hlo, hhi⟩ := hwindow x (List.mem_cons_self ..)
      cases n with
      | zero =>
          simp at hhi
          omega
      | succ n =>
          -- the others are a period later, in a window that is a period shorter
          have hlater : ∀ y ∈ xs, lo + d < y ∧ y ≤ lo + d + n * d := by
            intro y hy
            have hafter := hfirst y hy
            have hend := (hwindow y (List.mem_cons_of_mem _ hy)).2
            rw [Int.natCast_succ, Int.add_mul, Int.one_mul] at hend
            omega
          exact Nat.succ_le_succ (ih hrest hlater)

/-! ## The invariant -/

/-- A report that is suppressed after these events was made not more than a second after the line
whose time it had loaded (or after the epoch), or a line that is more than a second later than that
one has been logged. -/
def Excused (events : List Event) (last now : Int64) : Prop :=
  last ∈ 0 :: stamps events ∧
    (now.toInt ≤ last.toInt + 1000000000 ∨ ∃ stamp ∈ stamps events, Apart last stamp)

/-- The lines are more than a second apart, and the last one is remembered. -/
structure Limited (events : List Event) (s : ErrorLog Tid) : Prop where
  spaced : (0 :: stamps events).Pairwise Apart
  last : (0 :: stamps events).getLast? = some s.lastLogTime
  held : ∀ t last, (s.calls t).last? = some last → last ∈ 0 :: stamps events
  timed : ∀ t err last now, s.calls t = .timed err last now → 0 ≤ now.toInt
  excused : ∀ before err last now after, events = before ++ .suppressed err last now :: after →
    Excused before last now

/-- The clock is read after the epoch. -/
def ReadsClock : Action Tid → Prop
  | .readClock _ now => 0 ≤ now.toInt
  | _ => True

section Step

variable {s s' : ErrorLog Tid} {events new : List Event} {a : Action Tid}

theorem Limited.nonneg (h : Limited events s) {stamp : Int64}
    (hstamp : stamp ∈ 0 :: stamps events) : 0 ≤ stamp.toInt := by
  rcases List.mem_cons.mp hstamp with rfl | hmem
  · decide
  · have hapart := (List.pairwise_cons.mp h.spaced).1 stamp hmem
    have hzero : (0 : Int64).toInt = 0 := rfl
    unfold Apart at hapart
    omega

/-- The comparison does not overflow. -/
theorem gt_second_iff {last now : Int64} (hlast : 0 ≤ last.toInt) (hnow : 0 ≤ now.toInt) :
    now - last > 1000000000 ↔ Apart last now := by
  have hlt := Int64.toInt_lt last
  have hlt' := Int64.toInt_lt now
  have hsecond : (1000000000 : Int64).toInt = 1000000000 := rfl
  rw [gt_iff_lt, Int64.lt_iff_toInt_lt, Int64.toInt_sub, Int.bmod_eq_of_le (by omega) (by omega),
    hsecond]
  unfold Apart
  omega

/-- All lines but the last are more than a second before it. -/
theorem Limited.before_last (h : Limited events s) {stamp : Int64}
    (hstamp : stamp ∈ 0 :: stamps events) (hne : stamp ≠ s.lastLogTime) :
    s.lastLogTime ∈ stamps events ∧ Apart stamp s.lastLogTime := by
  obtain ⟨earlier, hsplit⟩ := List.getLast?_eq_some_iff.mp h.last
  have hspaced := h.spaced
  rw [hsplit] at hstamp hspaced
  have hmem : stamp ∈ earlier := by
    rcases List.mem_append.mp hstamp with hmem | hlast
    · exact hmem
    · exact absurd (List.mem_singleton.mp hlast) hne
  refine ⟨?_, (List.pairwise_append.mp hspaced).2.2 stamp hmem _ (List.mem_singleton_self _)⟩
  cases earlier with
  | nil => cases hmem
  | cons first earlier =>
      rw [List.cons_append] at hsplit
      rw [(List.cons.inj hsplit).2]
      exact List.mem_append_right _ (List.mem_singleton_self _)

/-- An event is the last one or one of those before. -/
theorem split_concat {before after : List Event} {event last : Event}
    (h : events ++ [last] = before ++ event :: after) :
    before = events ∧ event = last ∨ ∃ rest, events = before ++ event :: rest := by
  rcases List.eq_nil_or_concat after with rfl | ⟨rest, last', rfl⟩
  · obtain ⟨rfl, hlast⟩ := List.append_inj' h rfl
    exact Or.inl ⟨rfl, (List.singleton_inj.mp hlast).symm⟩
  · rw [List.concat_eq_append, ← List.cons_append, ← List.append_assoc] at h
    exact Or.inr ⟨rest, (List.append_inj' h rfl).1⟩

/-- A report that is suppressed has its excuse. -/
theorem Limited.suppress (h : Limited events s) {err : Error} {last now : Int64}
    (hexcuse : Excused events last now) : Limited (events ++ [.suppressed err last now]) s := by
  have hstamps : stamps (events ++ [.suppressed err last now]) = stamps events := by
    rw [stamps_append]
    exact List.append_nil _
  refine ⟨?_, ?_, fun t last' hlast => ?_, h.timed, fun before err' last' now' after hsplit => ?_⟩
  · rw [hstamps]
    exact h.spaced
  · rw [hstamps]
    exact h.last
  · rw [hstamps]
    exact h.held t last' hlast
  · rcases split_concat hsplit with ⟨rfl, hnew⟩ | ⟨rest, hold⟩
    · cases hnew
      exact hexcuse
    · exact h.excused before err' last' now' rest hold

/-- A new line is more than a second after the last one, and so after all of them. -/
theorem Limited.log (h : Limited events s) {err : Error} {now : Int64}
    (hapart : Apart s.lastLogTime now) :
    Limited (events ++ [.logged err now]) { s with lastLogTime := now } := by
  have hstamps : stamps (events ++ [.logged err now]) = stamps events ++ [now] := by
    rw [stamps_append]
    rfl
  have hall : ∀ stamp ∈ 0 :: stamps events, Apart stamp now := by
    intro stamp hstamp
    by_cases hlast : stamp = s.lastLogTime
    · rw [hlast]
      exact hapart
    · have hbefore := (h.before_last hstamp hlast).2
      unfold Apart at hbefore hapart ⊢
      omega
  refine ⟨?_, ?_, fun t last' hlast => ?_, h.timed, fun before err' last' now' after hsplit => ?_⟩
  · rw [hstamps, ← List.cons_append, List.pairwise_append]
    exact ⟨h.spaced, List.pairwise_singleton _ _, fun stamp hstamp stamp' hnow => by
      rw [List.mem_singleton.mp hnow]
      exact hall stamp hstamp⟩
  · rw [hstamps, ← List.cons_append, List.getLast?_concat]
  · rw [hstamps]
    exact List.mem_append_left _ (h.held t last' hlast)
  · rcases split_concat hsplit with ⟨_, hnew⟩ | ⟨rest, hold⟩
    · cases hnew
    · exact h.excused before err' last' now' rest hold

variable [DecidableEq Tid]

theorem setCall_calls (s : ErrorLog Tid) (t t' : Tid) (point : ReportPoint) :
    (s.setCall t point).calls t' = if t' = t then point else s.calls t' :=
  Function.update_apply ..

/-- A step that logs nothing moves one call to a point that the log allows. -/
theorem Limited.setCall (h : Limited events s) {t : Tid} {point : ReportPoint}
    (hheld : ∀ last, point.last? = some last → last ∈ 0 :: stamps events)
    (htimed : ∀ err last now, point = .timed err last now → 0 ≤ now.toInt) :
    Limited events (s.setCall t point) := by
  refine ⟨h.spaced, h.last, fun t' last hlast => ?_, fun t' err last now hpoint => ?_, h.excused⟩
  · rw [setCall_calls] at hlast
    split at hlast
    · exact hheld last hlast
    · exact h.held t' last hlast
  · rw [setCall_calls] at hpoint
    split at hpoint
    · exact htimed err last now hpoint
    · exact h.timed t' err last now hpoint

/-- One step keeps the lines apart. -/
theorem step_limited (h : Limited events s) (hclock : ReadsClock a)
    (hstep : s.step a = some (s', new)) : Limited (events ++ new) s' := by
  have hcurrent : s.lastLogTime ∈ 0 :: stamps events := List.mem_of_getLast? h.last
  cases a with
  | load t err =>
      simp only [step] at hstep
      split at hstep
      · cases hstep
        rw [List.append_nil]
        refine h.setCall (fun last hlast => ?_) fun _ _ _ hpoint => (by cases hpoint)
        cases hlast
        exact hcurrent
      · cases hstep
  | readClock t now =>
      simp only [step] at hstep
      split at hstep
      · rename_i err last hcall
        cases hstep
        rw [List.append_nil]
        have hheld := h.held t last (by rw [hcall]; rfl)
        refine h.setCall (fun last' hlast => ?_) fun _ _ _ hpoint => ?_
        · cases hlast
          exact hheld
        · cases hpoint
          exact hclock
      · cases hstep
  | finish t =>
      simp only [step] at hstep
      split at hstep
      · rename_i err last now hcall
        have hheld := h.held t last (by rw [hcall]; rfl)
        have hnow := h.timed t err last now hcall
        have hsecond := gt_second_iff (h.nonneg hheld) hnow
        split at hstep
        · rename_i hswap
          obtain ⟨hgt, rfl⟩ := hswap
          cases hstep
          exact (h.log (hsecond.mp hgt)).setCall (fun _ hlast => (by cases hlast))
            fun _ _ _ hpoint => (by cases hpoint)
        · rename_i hfail
          cases hstep
          have hexcuse : Excused events last now := by
            refine ⟨hheld, ?_⟩
            by_cases hovertaken : last = s.lastLogTime
            · exact Or.inl (Int.not_lt.mp fun hapart =>
                hfail ⟨hsecond.mpr hapart, hovertaken.symm⟩)
            · obtain ⟨hstamp, hapart⟩ := h.before_last hheld hovertaken
              exact Or.inr ⟨s.lastLogTime, hstamp, hapart⟩
          exact (h.suppress hexcuse).setCall (fun _ hlast => (by cases hlast))
            fun _ _ _ hpoint => (by cases hpoint)
      · cases hstep

end Step

/-! ## Runs -/

section Run

variable {T : Type} [DecidableEq Tid] {b : Batcher T} {s : ErrorLog Tid}
  {actions : List (Action Tid)} {events : List Event}

/-- Every interleaving keeps the lines apart. -/
theorem run_limited (hzero : b.lastLogTime = 0) (hclock : ∀ a ∈ actions, ReadsClock a)
    (hrun : run (initial b) actions = some (s, events)) : Limited events s := by
  have hinit : Limited [] (initial b : ErrorLog Tid) := by
    refine ⟨List.pairwise_singleton _ _, ?_, fun _ _ hlast => (by cases hlast),
      fun _ _ _ _ hpoint => (by cases hpoint), fun _ _ _ _ _ hsplit => (by simp at hsplit)⟩
    show some 0 = some b.lastLogTime
    rw [hzero]
  exact Transition.run_invariant_along (I := fun _ events s => Limited events s)
    (fun _ _ _ _ _ _ h hclock hstep => step_limited h hclock hstep) hinit hrun
    (Transition.along_of_forall hclock _)

/-- A call that runs alone does what `Batcher.reportError` does without a callback. -/
theorem run_alone (t : Tid) (now : Int64) (err : Error) (hsilent : b.cfg.onFlushError = false) :
    ∃ s event, run (initial b) [.load t err, .readClock t now, .finish t] = some (s, [event]) ∧
      s.lastLogTime = (b.reportError now err).1.lastLogTime ∧
      ((b.reportError now err).2 = [.slogError err] ∧ event = .logged err now ∨
        (b.reportError now err).2 = [] ∧ event = .suppressed err b.lastLogTime now) := by
  let loaded : ErrorLog Tid := (initial b).setCall t (.loaded err b.lastLogTime)
  let timed : ErrorLog Tid := loaded.setCall t (.timed err b.lastLogTime now)
  have hread : step loaded (.readClock t now) = some (timed, []) := by
    simp only [step, loaded, setCall_calls, if_true]
    rfl
  have hfinish : step timed (.finish t) =
      if now - b.lastLogTime > 1000000000 then
        some ({ timed with lastLogTime := now }.setCall t .idle, [.logged err now])
      else some (timed.setCall t .idle, [.suppressed err b.lastLogTime now]) := by
    have hsame : timed.lastLogTime = b.lastLogTime := rfl
    simp only [step, timed, setCall_calls, if_true]
    simp only [show (loaded.setCall t (.timed err b.lastLogTime now)).lastLogTime =
      b.lastLogTime from hsame, and_true]
  have hrun : ∀ s' event, step timed (.finish t) = some (s', [event]) →
      run (initial b) [.load t err, .readClock t now, .finish t] = some (s', [event]) := by
    intro s' event hlast
    exact Transition.run_cons_eq_some.mpr ⟨loaded, [], _, rfl,
      Transition.run_cons_eq_some.mpr ⟨timed, [], _, hread,
        Transition.run_cons_eq_some.mpr ⟨_, _, [], hlast, rfl, rfl⟩, rfl⟩, rfl⟩
  unfold Batcher.reportError
  rw [if_neg (by rw [hsilent]; decide)]
  by_cases hgt : now - b.lastLogTime > 1000000000
  · rw [if_pos hgt] at hfinish ⊢
    exact ⟨_, .logged err now, hrun _ _ hfinish, rfl, Or.inl ⟨rfl, rfl⟩⟩
  · rw [if_neg hgt] at hfinish ⊢
    exact ⟨_, .suppressed err b.lastLogTime now, hrun _ _ hfinish, rfl, Or.inr ⟨rfl, rfl⟩⟩

/-- Whatever the interleaving of the calls of `reportError` and the readings of the clock, no window
of some seconds holds more lines than seconds. A report is suppressed only if it was made not more
than a second after the line whose time it had loaded (or after the epoch), or if a line that is
more than a second later than that one had been logged before. -/
theorem log_rate [Inhabited T] {sizeofT : Int64} {cfg : Config}
    (hnew : Batcher.new sizeofT cfg = .ok b) (hclock : ∀ a ∈ actions, ReadsClock a)
    (hrun : run (initial b) actions = some (s, events)) :
    (∀ (start : Int) (seconds : Nat), (stamps events).countP (fun stamp =>
      decide (start < stamp.toInt) && decide (stamp.toInt ≤ start + seconds * 1000000000)) ≤
        seconds) ∧
    ∀ before err last now after, events = before ++ .suppressed err last now :: after →
      Excused before last now := by
  have hlimited := run_limited (Batcher.new_fresh hnew).2.2 hclock hrun
  refine ⟨fun start seconds => ?_, hlimited.excused⟩
  have hspaced : (((stamps events).filter fun stamp => decide (start < stamp.toInt) &&
      decide (stamp.toInt ≤ start + seconds * 1000000000)).map Int64.toInt).Pairwise
        fun a b => a + 1000000000 < b := by
    rw [List.pairwise_map]
    exact (List.pairwise_cons.mp hlimited.spaced).2.filter _
  have hwindow : ∀ x ∈ ((stamps events).filter fun stamp => decide (start < stamp.toInt) &&
      decide (stamp.toInt ≤ start + seconds * 1000000000)).map Int64.toInt,
        start < x ∧ x ≤ start + seconds * 1000000000 := by
    intro x hx
    obtain ⟨stamp, hstamp, rfl⟩ := List.mem_map.mp hx
    simpa using (List.mem_filter.mp hstamp).2
  have hlength := length_le_of_spaced hspaced hwindow
  rwa [List.length_map, ← List.countP_eq_length_filter] at hlength

end Run

/-- A configuration without a callback. -/
def loggingConfig : Config := { Batcher.shortConfig with onFlushError := false }

/-- Two calls load the time of the last line before either of them logs. -/
def racingReports : List (Action Bool) :=
  [.load true .flushTimeout, .load false .flushTimeout, .readClock true 2000000000,
    .readClock false 3000000000, .finish true, .finish false]

/-- The second call is suppressed, although it reads the clock a second later. -/
theorem log_rate_race : ∃ (b : Batcher Unit) (s : ErrorLog Bool) (events : List Event),
    Batcher.new 8 loggingConfig = .ok b ∧ run (initial b) racingReports = some (s, events) ∧
      stamps events = [2000000000] ∧
      (∃ before, events = before ++ [.suppressed .flushTimeout 0 3000000000] ∧
        Excused before 0 3000000000) ∧
      (stamps events).countP (fun stamp => decide ((0 : Int) < stamp.toInt) &&
        decide (stamp.toInt ≤ 0 + ((3 : Nat) : Int) * 1000000000)) ≤ 3 := by
  obtain ⟨b, hnew⟩ : ∃ b : Batcher Unit, Batcher.new 8 loggingConfig = .ok b := ⟨_, rfl⟩
  have hinit : (initial b : ErrorLog Bool) = { lastLogTime := 0, calls := fun _ => .idle } := by
    rw [initial, (Batcher.new_fresh hnew).2.2]
  have hclock : ∀ a ∈ racingReports, ReadsClock a := by
    simp [racingReports, ReadsClock]
  obtain ⟨s, hrun⟩ : ∃ s : ErrorLog Bool, run (initial b) racingReports =
      some (s, [.logged .flushTimeout 2000000000, .suppressed .flushTimeout 0 3000000000]) := by
    rw [hinit]
    exact ⟨_, rfl⟩
  obtain ⟨hrate, hexcused⟩ := log_rate hnew hclock hrun
  exact ⟨b, s, _, hnew, hrun, rfl, ⟨[.logged .flushTimeout 2000000000], rfl,
    hexcused [.logged .flushTimeout 2000000000] .flushTimeout 0 3000000000 [] rfl⟩, hrate 0 3⟩

end ErrorLog
end TickBatch
