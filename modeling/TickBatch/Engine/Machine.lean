import TickBatch.Engine.Shutdown
import TickBatch.Lib.Transition

/-!
# The engine as a machine

`runLoop` with the goroutines it starts. The drain goroutine makes one drain after the other; with a
positive `FlushTimeout` it hands each frame to a flush goroutine and waits for the result or the
deadline, whichever the select takes; a flush goroutine that has been given up keeps running. The
actions are what a scheduler, the clock and the transport may do, and every interleaving of them is
a run. A snapshot is a prefix of `timeoutBuf`, not a copy: what a flush goroutine sends is read from
the buffer at the time. `run_direct` connects the machine to `drainAndFlush` for a zero
`FlushTimeout`.
-/

namespace TickBatch

variable {T : Type}

/-- The program points of a flush goroutine: not yet started, inside `Sink.Flush`, about to send its
result on the channel, about to clear `flushInFlight`, and done. -/
inductive FlightStage where
  | starting
  | calling
  | returned (err : Option Error)
  | sent (err : Option Error)
  | done (err : Option Error)
  deriving DecidableEq

/-- What `Sink.Flush` has returned, if it has. -/
def FlightStage.outcome : FlightStage → Option (Option Error)
  | .starting | .calling => none
  | .returned err | .sent err | .done err => some err

/-- What has been sent on the result channel. -/
def FlightStage.channel : FlightStage → Option (Option Error)
  | .sent err | .done err => some err
  | _ => none

/-- A flush goroutine, with its snapshot `timeoutBuf[:length]`. -/
structure Flight (T : Type) where
  frame : Frame T
  length : Nat
  stage : FlightStage

/-- The program points of the drain goroutine: between drains, about to enter `flushWithTimeout`,
inside a direct call of `Sink.Flush`, and in the select, waiting for flush goroutine `flight`. -/
inductive DrainPoint (T : Type) where
  | idle
  | flushing (frame : Frame T)
  | calling (frame : Frame T)
  | waiting (frame : Frame T) (flight : Nat)

/-- Where `runLoop` is: ticking, in `finalDrain`, or returned. -/
inductive Stage where
  | ticking
  | final
  | returned
  deriving DecidableEq

/-- The stage of `runLoop` once a drain is done. -/
def Stage.afterDrain : Stage → Stage
  | .ticking => .ticking
  | .final | .returned => .returned

/-- The state of the engine. Flush goroutines are numbered in the order of their start. -/
structure Engine (T : Type) where
  b : Batcher T
  loop : Loop
  drain : DrainPoint T
  flights : List (Flight T)
  stage : Stage

namespace Engine

/-- What may happen next. `tick` and `cancel` are the two cases of the select of `runLoop`; `enter`
is the drain goroutine entering `flushWithTimeout`, `callReturn` the return of a direct call;
`launch`, `flushReturn`, `send` and `clear` are the steps of a flush goroutine; `receive` and
`deadline` are the two cases of the select of `flushWithTimeout`; `shutdownDeadline` is the deadline
of `finalDrain`. -/
inductive Action (T : Type) where
  | tick (tick : Tick T)
  | cancel (tick : Tick T)
  | enter (now : Int64)
  | callReturn (now : Int64) (err : Option Error)
  | launch (flight : Nat)
  | flushReturn (flight : Nat) (err : Option Error)
  | send (flight : Nat)
  | clear (flight : Nat)
  | receive (now : Int64)
  | deadline (now : Int64)
  | shutdownDeadline (now : Int64)

/-- What an engine does to the outside. `called` and `returned` are a call of `Sink.Flush` and its
return, with the bytes of the slice it was given at that moment. -/
inductive Event (T : Type) where
  | effect (effect : Effect T)
  | called (frame : Frame T) (bytes : List UInt8)
  | returned (frame : Frame T) (bytes : List UInt8) (err : Option Error)

/-- An engine that has just been started. -/
def initial (b : Batcher T) : Engine T :=
  { b, loop := Loop.initial, drain := .idle, flights := [], stage := .ticking }

/-- Start a drain: fill a frame, and go on to flush it if there is one. -/
def start [Serializable T] (host : ByteOrder) (e : Engine T) (tick : Tick T) (stage : Stage) :
    Option (Engine T × List (Event T)) :=
  match e.b.assemble host e.loop tick with
  | .ok (b, none, effects) => some ({ e with b, stage := stage.afterDrain }, effects.map .effect)
  | .ok (b, some frame, effects) =>
      some ({ e with b, drain := .flushing frame, stage }, effects.map .effect)
  | .error _ => none

/-- The rest of a drain, after `flushWithTimeout` has returned `err`. -/
def finish (e : Engine T) (now : Int64) (frame : Frame T) (err : Option Error) :
    Option (Engine T × List (Event T)) :=
  match e.b.settle e.loop now frame err with
  | .ok (b, loop, reports) =>
      some ({ e with b, loop, drain := .idle, stage := e.stage.afterDrain },
        (.flush frame err :: reports).map .effect)
  | .error _ => none

/-- The beginning of `flushWithTimeout`, up to the select. -/
def flushWithTimeout (e : Engine T) (now : Int64) (frame : Frame T) :
    Option (Engine T × List (Event T)) :=
  if e.b.cfg.flushTimeout = 0 then
    some ({ e with drain := .calling frame }, [.called frame frame.sent])
  else if e.b.flushInFlight then e.finish now frame (some .flushTimeout)
  else
    let length := min e.b.timeoutBuf.length frame.sent.length
    let timeoutBuf := frame.sent.take length ++ e.b.timeoutBuf.drop length
    some ({ e with
      b := { e.b with flushInFlight := true, timeoutBuf }
      drain := .waiting frame e.flights.length
      flights := e.flights ++ [{ frame, length, stage := .starting }] }, [])

/-- Move a flush goroutine to another program point. -/
def setStage (e : Engine T) (i : Nat) (stage : FlightStage) : Engine T :=
  { e with flights := e.flights.modify i fun flight => { flight with stage } }

/-- The bytes of a flush goroutine's snapshot, as they are now. -/
def snapshot (e : Engine T) (flight : Flight T) : List UInt8 := e.b.timeoutBuf.take flight.length

/-- One step of the engine. -/
def step [Serializable T] (host : ByteOrder) (e : Engine T) :
    Action T → Option (Engine T × List (Event T))
  | .tick tick =>
      match e.stage, e.drain with
      | .ticking, .idle => e.start host tick .ticking
      | _, _ => none
  | .cancel tick =>
      match e.stage, e.drain with
      | .ticking, .idle => e.start host tick .final
      | _, _ => none
  | .enter now =>
      match e.drain with
      | .flushing frame => e.flushWithTimeout now frame
      | _ => none
  | .callReturn now err =>
      match e.drain with
      | .calling frame =>
          (e.finish now frame err).map fun (e, events) =>
            (e, .returned frame frame.sent err :: events)
      | _ => none
  | .launch i => do
      let flight ← e.flights[i]?
      match flight.stage with
      | .starting => pure (e.setStage i .calling, [.called flight.frame (e.snapshot flight)])
      | _ => none
  | .flushReturn i err => do
      let flight ← e.flights[i]?
      match flight.stage with
      | .calling =>
          pure (e.setStage i (.returned err), [.returned flight.frame (e.snapshot flight) err])
      | _ => none
  | .send i => do
      let flight ← e.flights[i]?
      match flight.stage with
      | .returned err => pure (e.setStage i (.sent err), [])
      | _ => none
  | .clear i => do
      let flight ← e.flights[i]?
      match flight.stage with
      | .sent err =>
          pure ({ e with b := { e.b with flushInFlight := false } }.setStage i (.done err), [])
      | _ => none
  | .receive now =>
      match e.drain with
      | .waiting frame i => do
          let flight ← e.flights[i]?
          let err ← flight.stage.channel
          e.finish now frame err
      | _ => none
  | .deadline now =>
      match e.drain with
      | .waiting frame _ => e.finish now frame (some .flushTimeout)
      | _ => none
  | .shutdownDeadline now =>
      if e.stage = .final ∧ e.b.cfg.shutdownTimeout > 0 then
        let (b, reports) := e.b.reportError now (.shutdownTimeout e.b.cfg.shutdownTimeout)
        some ({ e with b, stage := .returned }, reports.map .effect)
      else none

/-- Execute a sequence of actions. -/
abbrev run [Serializable T] (host : ByteOrder) (e : Engine T) (actions : List (Action T)) :
    Option (Engine T × List (Event T)) :=
  Transition.run (step host) e actions

/-- The effects among the events. -/
def effects (events : List (Event T)) : List (Effect T) :=
  events.filterMap fun
    | .effect effect => some effect
    | _ => none

/-- The frames whose `Sink.Flush` has returned nil, with the bytes that were delivered, in the
order of delivery. -/
def deliveries (events : List (Event T)) : List (Frame T × List UInt8) :=
  events.filterMap fun
    | .returned frame bytes none => some (frame, bytes)
    | _ => none

/-- The frames that have become the delta baseline. -/
def advances (events : List (Event T)) : List (Frame T) := delivered (effects events)

@[simp] theorem effects_append (es es' : List (Event T)) :
    effects (es ++ es') = effects es ++ effects es' := List.filterMap_append

@[simp] theorem deliveries_append (es es' : List (Event T)) :
    deliveries (es ++ es') = deliveries es ++ deliveries es' := List.filterMap_append

@[simp] theorem effects_map (es : List (Effect T)) : effects (es.map .effect) = es := by
  simp [effects, List.filterMap_map]

@[simp] theorem deliveries_map (es : List (Effect T)) : deliveries (es.map .effect) = [] := by
  simp [deliveries, List.filterMap_map]

/-! ## What a step can do -/

section Cases

variable {e e' : Engine T} {new : List (Event T)}

/-- What `finish` does. -/
theorem finish_eq_some {now : Int64} {frame : Frame T} {err : Option Error}
    (h : e.finish now frame err = some (e', new)) :
    ∃ b loop reports, e.b.settle e.loop now frame err = .ok (b, loop, reports) ∧
      e' = { e with b, loop, drain := .idle, stage := e.stage.afterDrain } ∧
      new = (.flush frame err :: reports).map .effect := by
  unfold finish at h
  split at h
  · rename_i b loop reports hsettle
    cases h
    exact ⟨b, loop, reports, hsettle, rfl, rfl⟩
  · cases h

/-- What `start` does. -/
theorem start_eq_some [Serializable T] {host : ByteOrder} {tick : Tick T} {stage : Stage}
    (h : e.start host tick stage = some (e', new)) :
    ∃ b out es, e.b.assemble host e.loop tick = .ok (b, out, es) ∧ new = es.map .effect ∧
      (out = none ∧ e' = { e with b, stage := stage.afterDrain } ∨
        ∃ frame, out = some frame ∧ e' = { e with b, drain := .flushing frame, stage }) := by
  unfold start at h
  split at h
  · rename_i b es hassemble
    cases h
    exact ⟨b, none, es, hassemble, rfl, Or.inl ⟨rfl, rfl⟩⟩
  · rename_i b frame es hassemble
    cases h
    exact ⟨b, some frame, es, hassemble, rfl, Or.inr ⟨frame, rfl, rfl⟩⟩
  · cases h

theorem getElem?_setStage (e : Engine T) (i k : Nat) (stage : FlightStage) :
    (e.setStage i stage).flights[k]? =
      if i = k then e.flights[k]?.map fun flight => { flight with stage } else e.flights[k]? := by
  unfold setStage
  rw [List.getElem?_modify]
  split
  · rfl
  · simp

/-- Everything that one step can do. -/
inductive StepCase [Serializable T] (host : ByteOrder) (e : Engine T) :
    Action T → Engine T → List (Event T) → Prop where
  | assemble {a : Action T} {tick : Tick T} {b : Batcher T} {out : Option (Frame T)}
      {es : List (Effect T)} (stage : Stage) (ha : a = .tick tick ∨ a = .cancel tick)
      (hidle : e.drain = .idle) (hassemble : e.b.assemble host e.loop tick = .ok (b, out, es)) :
      StepCase host e a { e with b, drain := (out.map .flushing).getD .idle, stage }
        (es.map .effect)
  | direct {now : Int64} {frame : Frame T} (hdrain : e.drain = .flushing frame)
      (hzero : e.b.cfg.flushTimeout = 0) :
      StepCase host e (.enter now) { e with drain := .calling frame } [.called frame frame.sent]
  | reject {now : Int64} {frame : Frame T} {b : Batcher T} {loop : Loop}
      {reports : List (Effect T)} (hdrain : e.drain = .flushing frame)
      (hpositive : e.b.cfg.flushTimeout ≠ 0) (hflag : e.b.flushInFlight = true)
      (hsettle : e.b.settle e.loop now frame (some .flushTimeout) = .ok (b, loop, reports)) :
      StepCase host e (.enter now) { e with b, loop, drain := .idle, stage := e.stage.afterDrain }
        ((.flush frame (some .flushTimeout) :: reports).map .effect)
  | handOver {now : Int64} {frame : Frame T} {length : Nat} (hdrain : e.drain = .flushing frame)
      (hpositive : e.b.cfg.flushTimeout ≠ 0) (hflag : e.b.flushInFlight = false)
      (hlength : length = min e.b.timeoutBuf.length frame.sent.length) :
      StepCase host e (.enter now)
        { e with
          b := { e.b with
            flushInFlight := true
            timeoutBuf := frame.sent.take length ++ e.b.timeoutBuf.drop length }
          drain := .waiting frame e.flights.length
          flights := e.flights ++ [{ frame, length, stage := .starting }] } []
  | callReturn {now : Int64} {frame : Frame T} {err : Option Error} {b : Batcher T} {loop : Loop}
      {reports : List (Effect T)} (hdrain : e.drain = .calling frame)
      (hsettle : e.b.settle e.loop now frame err = .ok (b, loop, reports)) :
      StepCase host e (.callReturn now err)
        { e with b, loop, drain := .idle, stage := e.stage.afterDrain }
        (.returned frame frame.sent err :: (.flush frame err :: reports).map .effect)
  | launch {i : Nat} {flight : Flight T} (hflight : e.flights[i]? = some flight)
      (hstage : flight.stage = .starting) :
      StepCase host e (.launch i) (e.setStage i .calling) [.called flight.frame (e.snapshot flight)]
  | flushReturn {i : Nat} {flight : Flight T} {err : Option Error}
      (hflight : e.flights[i]? = some flight) (hstage : flight.stage = .calling) :
      StepCase host e (.flushReturn i err) (e.setStage i (.returned err))
        [.returned flight.frame (e.snapshot flight) err]
  | send {i : Nat} {flight : Flight T} {err : Option Error}
      (hflight : e.flights[i]? = some flight) (hstage : flight.stage = .returned err) :
      StepCase host e (.send i) (e.setStage i (.sent err)) []
  | clear {i : Nat} {flight : Flight T} {err : Option Error}
      (hflight : e.flights[i]? = some flight) (hstage : flight.stage = .sent err) :
      StepCase host e (.clear i)
        ({ e with b := { e.b with flushInFlight := false } }.setStage i (.done err)) []
  | receive {now : Int64} {frame : Frame T} {i : Nat} {flight : Flight T} {err : Option Error}
      {b : Batcher T} {loop : Loop} {reports : List (Effect T)}
      (hdrain : e.drain = .waiting frame i) (hflight : e.flights[i]? = some flight)
      (hchannel : flight.stage.channel = some err)
      (hsettle : e.b.settle e.loop now frame err = .ok (b, loop, reports)) :
      StepCase host e (.receive now) { e with b, loop, drain := .idle, stage := e.stage.afterDrain }
        ((.flush frame err :: reports).map .effect)
  | deadline {now : Int64} {frame : Frame T} {i : Nat} {b : Batcher T} {loop : Loop}
      {reports : List (Effect T)} (hdrain : e.drain = .waiting frame i)
      (hsettle : e.b.settle e.loop now frame (some .flushTimeout) = .ok (b, loop, reports)) :
      StepCase host e (.deadline now)
        { e with b, loop, drain := .idle, stage := e.stage.afterDrain }
        ((.flush frame (some .flushTimeout) :: reports).map .effect)
  | shutdownDeadline {now : Int64} (hfinal : e.stage = .final)
      (htimeout : e.b.cfg.shutdownTimeout > 0) :
      StepCase host e (.shutdownDeadline now)
        { e with
          b := (e.b.reportError now (.shutdownTimeout e.b.cfg.shutdownTimeout)).1
          stage := .returned }
        ((e.b.reportError now (.shutdownTimeout e.b.cfg.shutdownTimeout)).2.map .effect)

/-- Starting a drain assembles a frame. -/
theorem StepCase.of_start [Serializable T] {host : ByteOrder} {a : Action T} {tick : Tick T}
    {stage : Stage} (ha : a = .tick tick ∨ a = .cancel tick) (hidle : e.drain = .idle)
    (h : e.start host tick stage = some (e', new)) : StepCase host e a e' new := by
  obtain ⟨b, out, es, hassemble, rfl, ⟨rfl, rfl⟩ | ⟨frame, rfl, rfl⟩⟩ := start_eq_some h
  · have hsame : { e with b, stage := stage.afterDrain } =
        { e with b, drain := ((none : Option (Frame T)).map .flushing).getD .idle,
                 stage := stage.afterDrain } := by
      rw [Option.map_none, Option.getD_none, ← hidle]
    rw [hsame]
    exact .assemble _ ha hidle hassemble
  · exact .assemble stage ha hidle hassemble

theorem step_cases [Serializable T] {host : ByteOrder} {a : Action T}
    (h : step host e a = some (e', new)) : StepCase host e a e' new := by
  cases a with
  | tick tick =>
      simp only [step] at h
      split at h
      · exact .of_start (Or.inl rfl) ‹_› h
      · cases h
  | cancel tick =>
      simp only [step] at h
      split at h
      · exact .of_start (Or.inr rfl) ‹_› h
      · cases h
  | enter now =>
      simp only [step] at h
      split at h
      · rename_i frame hdrain
        unfold flushWithTimeout at h
        split at h
        · cases h
          exact .direct hdrain ‹_›
        · split at h
          · obtain ⟨b, loop, reports, hsettle, rfl, rfl⟩ := finish_eq_some h
            exact .reject hdrain ‹_› ‹_› hsettle
          · rename_i hpositive hflag
            cases h
            exact .handOver hdrain hpositive (Bool.eq_false_iff.mpr hflag) rfl
      · cases h
  | callReturn now err =>
      simp only [step] at h
      split at h
      · rename_i frame hdrain
        obtain ⟨⟨e₁, events⟩, hfinish, hout⟩ := Option.map_eq_some_iff.mp h
        obtain ⟨b, loop, reports, hsettle, rfl, rfl⟩ := finish_eq_some hfinish
        cases hout
        exact .callReturn hdrain hsettle
      · cases h
  | launch i =>
      simp only [step, bind, Option.bind_eq_some_iff] at h
      obtain ⟨flight, hflight, h⟩ := h
      split at h
      · cases h
        exact .launch hflight ‹_›
      · cases h
  | flushReturn i err =>
      simp only [step, bind, Option.bind_eq_some_iff] at h
      obtain ⟨flight, hflight, h⟩ := h
      split at h
      · cases h
        exact .flushReturn hflight ‹_›
      · cases h
  | send i =>
      simp only [step, bind, Option.bind_eq_some_iff] at h
      obtain ⟨flight, hflight, h⟩ := h
      split at h
      · cases h
        exact .send hflight ‹_›
      · cases h
  | clear i =>
      simp only [step, bind, Option.bind_eq_some_iff] at h
      obtain ⟨flight, hflight, h⟩ := h
      split at h
      · cases h
        exact .clear hflight ‹_›
      · cases h
  | receive now =>
      simp only [step] at h
      split at h
      · rename_i frame i hdrain
        simp only [bind, Option.bind_eq_some_iff] at h
        obtain ⟨flight, hflight, err, hchannel, hfinish⟩ := h
        obtain ⟨b, loop, reports, hsettle, rfl, rfl⟩ := finish_eq_some hfinish
        exact .receive hdrain hflight hchannel hsettle
      · cases h
  | deadline now =>
      simp only [step] at h
      split at h
      · rename_i frame i hdrain
        obtain ⟨b, loop, reports, hsettle, rfl, rfl⟩ := finish_eq_some h
        exact .deadline hdrain hsettle
      · cases h
  | shutdownDeadline now =>
      simp only [step] at h
      split at h
      · rename_i hfinal
        cases h
        exact .shutdownDeadline hfinal.1 hfinal.2
      · cases h

end Cases

/-! ## Direct flushes -/

/-- With a zero `FlushTimeout`, a drain of the machine does what `drainAndFlush` does. -/
theorem run_direct [Serializable T] {host : ByteOrder} {e : Engine T} {tick : Tick T}
    {b' : Batcher T} {loop' : Loop} {es : List (Effect T)} (hs : e.b.Sized)
    (hstage : e.stage = .ticking) (hidle : e.drain = .idle) (hdirect : e.b.cfg.flushTimeout = 0)
    (h : e.b.drainAndFlush host e.loop tick = .ok (b', loop', es)) :
    ∃ actions events, run host e (.tick tick :: actions) =
      some ({ e with b := b', loop := loop' }, events) ∧ effects events = es := by
  obtain ⟨⟨b₁, out, es₁⟩, hassemble, h⟩ := bind_eq_ok h
  have hcfg := (Batcher.assemble_ok hs hassemble).1.cfg
  cases out with
  | none =>
      cases h
      refine ⟨[], es.map .effect, ?_, effects_map _⟩
      simp [Transition.run, step, hstage, hidle, start, hassemble, Stage.afterDrain]
  | some frame =>
      obtain ⟨⟨b₂, loop₂, reports⟩, hsettle, h⟩ := bind_eq_ok h
      cases h
      refine ⟨[.enter tick.now, .callReturn tick.now (tick.flush frame.sent)],
        es₁.map .effect ++ ([.called frame frame.sent] ++
          (.returned frame frame.sent (tick.flush frame.sent) ::
            (.flush frame (tick.flush frame.sent) :: reports).map .effect)), ?_, ?_⟩
      · simp [Transition.run, step, hstage, hidle, start, hassemble, flushWithTimeout, hcfg,
          hdirect, finish, hsettle, Stage.afterDrain]
      · rw [effects_append, effects_map]
        exact congrArg _ (effects_map _)

end Engine

end TickBatch
