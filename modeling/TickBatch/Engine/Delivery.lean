import TickBatch.Engine.Sequential

/-!
# What the sink sees, and what the engine makes of it

Whatever the interleaving and the `FlushTimeout`, the calls of `Sink.Flush` return one after the
other, each with the bytes it was called with, no frame is handed to the sink twice, and the frames
arrive in the order in which they were assembled, with increasing sequence numbers (`sink_order`).
A deadline may hide the outcome of a flush from the drain goroutine, but never falsifies it: every
flush that is settled otherwise than by `ErrFlushTimeout` is settled with what `Sink.Flush` has
returned for that frame (`truthful_verdicts`).
-/

namespace TickBatch

variable {T : Type}

/-- The frame of a flush goroutine that has not called `Sink.Flush` yet. -/
def Flight.unlaunched (flight : Flight T) : Option (Frame T) :=
  match flight.stage with
  | .starting => some flight.frame
  | _ => none

/-- The frame of a drain that has not entered `flushWithTimeout` yet. -/
def DrainPoint.toFlush : DrainPoint T → List (Frame T)
  | .flushing frame => [frame]
  | _ => []

/-- A flush that was not settled by a deadline. -/
def conclusive (flush : Frame T × Option Error) : Bool := flush.2 != some .flushTimeout

namespace Batcher

/-! ## Sequence numbers -/

/-- The flush that is settled is the only one. -/
theorem settle_attempts {b b' : Batcher T} {loop loop' : Loop} {now : Int64} {frame : Frame T}
    {err : Option Error} {reports : List (Effect T)}
    (h : b.settle loop now frame err = .ok (b', loop', reports)) :
    attempts (.flush frame err :: reports) = [(frame, err)] := by
  obtain ⟨_, _, _, _, hreports, _⟩ := settle_alike rfl h
  have hquiet : attempts reports = [] := by
    rw [← attempts_essential, hreports]
    rfl
  exact congrArg (_ :: ·) hquiet

theorem settle_sequenceID {b b' : Batcher T} {loop loop' : Loop} {now : Int64} {frame : Frame T}
    {err : Option Error} {reports : List (Effect T)}
    (h : b.settle loop now frame err = .ok (b', loop', reports)) :
    b'.sequenceID = b.sequenceID := by
  cases err with
  | none => exact congrArg Counters.sequenceID (settle_flushed h).1
  | some err => exact congrArg Counters.sequenceID (settle_failed h).1

/-- Without a frame to flush, a sequence number is used up only when compression has failed. -/
theorem assemble_sequenceID [Serializable T] {host : ByteOrder} {b b' : Batcher T} {loop : Loop}
    {tick : Tick T} {es : List (Effect T)} (hs : b.Sized)
    (h : b.assemble host loop tick = .ok (b', none, es)) :
    b'.sequenceID = b.sequenceID ∨ b'.sequenceID = b.sequenceID + 1 := by
  obtain ⟨f, hfill, _⟩ := bind_eq_ok h
  have hf : f.b.sequenceID = b.sequenceID := by rw [(fill_ok hs hfill).1.same]
  rw [assemble_eq hs hfill] at h
  have h := Except.ok.inj h
  rw [← hf]
  split at h
  · cases h
    exact Or.inl rfl
  split at h
  · cases h
    exact Or.inl rfl
  · unfold Fill.finish Fill.pack at h
    simp only at h
    generalize hbuilt : f.built _ _ _ = b₁ at h
    have hseq : b₁.sequenceID = f.b.sequenceID + 1 := by
      rw [← hbuilt]
      rfl
    generalize f.b.payloadOf _ _ = payload at h
    have hcompress := (compress_eq b₁ tick payload).1
    split at h
    · rename_i b₂ err hc
      rw [hc] at hcompress
      have hreport := (reportError_eq b₂ tick.now err).1
      cases h
      have hnext : b₂.sequenceID = f.b.sequenceID + 1 :=
        (congrArg sequenceID hcompress).trans hseq
      exact Or.inr ((congrArg sequenceID hreport).trans hnext)
    · cases h

end Batcher

namespace Engine

/-- The calls of `Sink.Flush`, in order, each with the bytes of its slice. -/
def calls (events : List (Event T)) : List (Frame T × List UInt8) :=
  events.filterMap fun
    | .called frame bytes => some (frame, bytes)
    | _ => none

/-- The returns of `Sink.Flush`, in order, each with the bytes of the slice at that moment and the
result. -/
def returns (events : List (Event T)) : List ((Frame T × List UInt8) × Option Error) :=
  events.filterMap fun
    | .returned frame bytes err => some ((frame, bytes), err)
    | _ => none

@[simp] theorem calls_append (es es' : List (Event T)) :
    calls (es ++ es') = calls es ++ calls es' := List.filterMap_append

@[simp] theorem returns_append (es es' : List (Event T)) :
    returns (es ++ es') = returns es ++ returns es' := List.filterMap_append

@[simp] theorem calls_map (es : List (Effect T)) : calls (es.map .effect) = [] := by
  simp [calls, List.filterMap_map]

@[simp] theorem returns_map (es : List (Effect T)) : returns (es.map .effect) = [] := by
  simp [returns, List.filterMap_map]

/-- The flush that ends a drain is the only one among its last events. -/
theorem attempts_settled {b b' : Batcher T} {loop loop' : Loop} {now : Int64} {frame : Frame T}
    {err : Option Error} {reports : List (Effect T)}
    (h : b.settle loop now frame err = .ok (b', loop', reports)) :
    attempts (effects ((Effect.flush frame err :: reports).map .effect)) = [(frame, err)] := by
  rw [effects_map]
  exact Batcher.settle_attempts h

/-- The frames that are still to be given to `Sink.Flush`: that of a flush goroutine which has not
called it, and that of a drain which has not entered `flushWithTimeout`. -/
def toCall (e : Engine T) : List (Frame T) :=
  e.flights.filterMap Flight.unlaunched ++ e.drain.toFlush

/-- The frames assembled so far: those whose flush has been settled, and the one in the drain. -/
def assembled (events : List (Event T)) (e : Engine T) : List (Frame T) :=
  (attempts (effects events)).map Prod.fst ++ e.drain.frame?.toList

/-- What `Sink.Flush` has returned for the frame that the drain goroutine waits for, unless it is
the error of a deadline. -/
def awaited (e : Engine T) : List (Frame T × Option Error) :=
  match e.drain with
  | .waiting frame i =>
      ((e.flights[i]?.bind fun flight => flight.stage.outcome).map (frame, ·)).toList.filter
        conclusive
  | _ => []

variable {cfg : Config} {e e' : Engine T} {events new : List (Event T)}

/-! ## The last flush goroutine -/

/-- A flush goroutine that has not finished is the last one, and the others have. -/
theorem FlightInv.flights_eq (h : FlightInv cfg e) {i : Nat} {flight : Flight T}
    (hflight : e.flights[i]? = some flight) (hrunning : flight.stage.running = true) :
    ∃ older, e.flights = older ++ [flight] ∧ i = older.length ∧
      ∀ old ∈ older, old.stage.running = false := by
  have hlast := (h.last i flight hflight hrunning).1
  rcases List.eq_nil_or_concat e.flights with hnone | ⟨older, last, hflights⟩
  · rw [hnone] at hflight
    cases hflight
  rw [List.concat_eq_append] at hflights
  rw [hflights, List.length_append, List.length_singleton] at hlast
  have hi : i = older.length := by omega
  subst hi
  rw [hflights, List.getElem?_concat_length] at hflight
  cases hflight
  refine ⟨older, hflights, rfl, fun old hold => ?_⟩
  rw [← Bool.not_eq_true]
  intro hrunning'
  obtain ⟨k, hk⟩ := List.mem_iff_getElem?.mp hold
  have hlt := (List.getElem?_eq_some_iff.mp hk).1
  have hk' : e.flights[k]? = some old := by
    rw [hflights, List.getElem?_append_left hlt, hk]
  have := (h.last k old hk' hrunning').1
  rw [hflights, List.length_append, List.length_singleton] at this
  omega

/-- With the flag clear, all flush goroutines have finished. -/
theorem FlightInv.done_of_clear (h : FlightInv cfg e) (hflag : e.b.flushInFlight = false) :
    ∀ flight ∈ e.flights, flight.stage.running = false := by
  intro flight hmem
  rw [← Bool.not_eq_true]
  intro hrunning
  obtain ⟨i, hi⟩ := List.mem_iff_getElem?.mp hmem
  have := (h.last i flight hi hrunning).2
  rw [hflag] at this
  cases this

theorem setStage_flights {older : List (Flight T)} {flight : Flight T} (stage : FlightStage)
    (hflights : e.flights = older ++ [flight]) :
    (e.setStage older.length stage).flights = older ++ [{ flight with stage }] := by
  unfold setStage
  rw [hflights]
  clear hflights
  induction older with
  | nil => rfl
  | cons old older ih => exact congrArg (old :: ·) ih

/-- A flush goroutine that has finished is not in `Sink.Flush`, nor about to call it. -/
theorem filterMap_call_done {flights : List (Flight T)}
    (h : ∀ flight ∈ flights, flight.stage.running = false) :
    flights.filterMap Flight.call = [] ∧ flights.filterMap Flight.unlaunched = [] := by
  simp only [List.filterMap_eq_nil_iff]
  refine ⟨fun flight hmem => ?_, fun flight hmem => ?_⟩
  · have hdone := h flight hmem
    unfold Flight.call
    split
    · rename_i hstage
      rw [hstage] at hdone
      cases hdone
    · rfl
  · have hdone := h flight hmem
    unfold Flight.unlaunched
    split
    · rename_i hstage
      rw [hstage] at hdone
      cases hdone
    · rfl

/-- A flush goroutine is only started when `Sink.Flush` is not called directly. -/
theorem FlightInv.directCall_eq_none (h : FlightInv cfg e) {i : Nat} {flight : Flight T}
    (hflight : e.flights[i]? = some flight) : e.directCall = none := by
  have hpoint := h.point
  unfold directCall
  split
  · rename_i frame hdrain
    rw [hdrain] at hpoint
    rw [h.direct (h.cfg_eq ▸ hpoint.1)] at hflight
    cases hflight
  · rfl

/-- The call in progress while a flush goroutine has not finished, and after it has moved. -/
theorem FlightInv.inProgress_setStage (h : FlightInv cfg e) {i : Nat} {flight : Flight T}
    (hflight : e.flights[i]? = some flight) (hrunning : flight.stage.running = true)
    (stage : FlightStage) :
    e.inProgress = flight.call.toList ∧
      (e.setStage i stage).inProgress = (Flight.call { flight with stage }).toList := by
  obtain ⟨older, hflights, rfl, hdone⟩ := h.flights_eq hflight hrunning
  have hnone := h.directCall_eq_none hflight
  have hnone' : (e.setStage older.length stage).directCall = none := hnone
  have holder := (filterMap_call_done hdone).1
  refine ⟨?_, ?_⟩
  · rw [inProgress, hnone, hflights, List.filterMap_append, holder]
    cases hcall : flight.call <;> simp [hcall]
  · rw [inProgress, hnone', setStage_flights stage hflights, List.filterMap_append, holder]
    cases hcall : Flight.call { flight with stage } <;> simp [hcall]

/-- The frames still to be flushed while a flush goroutine has not finished, and after it has
moved. -/
theorem FlightInv.toCall_setStage (h : FlightInv cfg e) {i : Nat} {flight : Flight T}
    (hflight : e.flights[i]? = some flight) (hrunning : flight.stage.running = true)
    (stage : FlightStage) :
    e.toCall = flight.unlaunched.toList ++ e.drain.toFlush ∧
      (e.setStage i stage).toCall =
        (Flight.unlaunched { flight with stage }).toList ++ e.drain.toFlush := by
  obtain ⟨older, hflights, rfl, hdone⟩ := h.flights_eq hflight hrunning
  have holder := (filterMap_call_done hdone).2
  refine ⟨?_, ?_⟩
  · rw [toCall, hflights, List.filterMap_append, holder]
    cases hcall : flight.unlaunched <;> simp [hcall]
  · rw [toCall, setStage_flights stage hflights, List.filterMap_append, holder]
    have hdrain : (e.setStage older.length stage).drain = e.drain := rfl
    cases hcall : Flight.unlaunched { flight with stage } <;> simp [hcall, hdrain]

/-! ## Calls return in order, with the bytes they were given -/

/-- Every call but the one in progress has returned, in the order of the calls, and the bytes of its
slice have not changed in the meantime. -/
def Paired (events : List (Event T)) (e : Engine T) : Prop :=
  calls events = (returns events).map Prod.fst ++
    e.inProgress.map fun call => (call.frame, e.bytes call)

section Steps

variable [Serializable T] {host : ByteOrder} {a : Action T}

/-- A step that neither calls `Sink.Flush` nor returns from it. -/
theorem Paired.quiet (h : Paired events e) (hinv : FlightInv cfg e)
    (hstep : step host e a = some (e', new)) (hcalls : calls new = []) (hreturns : returns new = [])
    (hsame : e'.inProgress = e.inProgress) : Paired (events ++ new) e' := by
  unfold Paired
  rw [calls_append, hcalls, List.append_nil, returns_append, hreturns, List.append_nil, hsame, h]
  refine congrArg _ (List.map_congr_left fun call hcall => ?_)
  -- no step writes to the buffer of a call in progress
  unfold bytes
  rw [step_writes hinv hstep (step_spares hinv hstep hcall)]

/-- Every step keeps calls and returns paired. -/
theorem step_paired (h : Paired events e) (hinv : FlightInv cfg e)
    (hstep : step host e a = some (e', new)) : Paired (events ++ new) e' := by
  have hpoint := hinv.point
  cases step_cases hstep with
  | @assemble _ tick b out es stage ha hidle hassemble =>
      refine h.quiet hinv hstep (calls_map _) (returns_map _) ?_
      cases out <;> simp [inProgress, directCall, hidle]
  | direct hdrain hzero =>
      rw [hdrain] at hpoint
      have hflights : e.flights = [] := hinv.direct (hinv.cfg_eq ▸ hzero)
      unfold Paired at h ⊢
      rw [calls_append, h, returns_append]
      simp [inProgress, directCall, hdrain, hflights, calls, returns, bytes,
        ← List.prefix_iff_eq_take.mp hpoint.2.2]
  | reject hdrain _ _ hsettle =>
      refine h.quiet hinv hstep (calls_map _) (returns_map _) ?_
      simp [inProgress, directCall, hdrain]
  | handOver hdrain _ hflag _ =>
      refine h.quiet hinv hstep rfl rfl ?_
      simp [inProgress, directCall, hdrain, Flight.call]
  | @callReturn now frame err b loop reports hdrain hsettle =>
      rw [hdrain] at hpoint
      have hflights : e.flights = [] := hinv.direct (hinv.cfg_eq ▸ hpoint.1)
      have hcalls : calls (.returned frame frame.sent err ::
          (Effect.flush frame err :: reports).map .effect) = [] := calls_map _
      have hreturns : returns (.returned frame frame.sent err ::
          (Effect.flush frame err :: reports).map .effect) = [((frame, frame.sent), err)] :=
        congrArg (_ :: ·) (returns_map _)
      unfold Paired at h ⊢
      rw [calls_append, hcalls, h, returns_append, hreturns]
      simp [inProgress, directCall, hdrain, hflights, bytes,
        ← List.prefix_iff_eq_take.mp hpoint.2.2]
  | @launch i flight hflight hstage =>
      obtain ⟨hbefore, hafter⟩ :=
        hinv.inProgress_setStage hflight (by rw [hstage]; rfl) .calling
      unfold Paired at h ⊢
      rw [calls_append, h, returns_append, hbefore, hafter, Flight.call, hstage]
      simp [calls, returns, Flight.call, snapshot, bytes, Batcher.buffer, setStage]
  | @flushReturn i flight err hflight hstage =>
      obtain ⟨hbefore, hafter⟩ :=
        hinv.inProgress_setStage hflight (by rw [hstage]; rfl) (.returned err)
      unfold Paired at h ⊢
      rw [calls_append, h, returns_append, hbefore, hafter, Flight.call, hstage]
      simp [calls, returns, Flight.call, snapshot, bytes, Batcher.buffer]
  | @send i flight err hflight hstage =>
      obtain ⟨hbefore, hafter⟩ :=
        hinv.inProgress_setStage hflight (by rw [hstage]; rfl) (.sent err)
      have hcall : flight.call = none := by rw [Flight.call, hstage]
      exact h.quiet hinv hstep rfl rfl (hafter.trans (by rw [hbefore, hcall]; rfl))
  | @clear i flight err hflight hstage =>
      obtain ⟨hbefore, hafter⟩ :=
        hinv.inProgress_setStage hflight (by rw [hstage]; rfl) (.done err)
      have hcall : flight.call = none := by rw [Flight.call, hstage]
      exact h.quiet hinv hstep rfl rfl (hafter.trans (by rw [hbefore, hcall]; rfl))
  | receive hdrain hflight hchannel hsettle =>
      refine h.quiet hinv hstep (calls_map _) (returns_map _) ?_
      simp [inProgress, directCall, hdrain]
  | deadline hdrain hsettle =>
      refine h.quiet hinv hstep (calls_map _) (returns_map _) ?_
      simp [inProgress, directCall, hdrain]
  | shutdownDeadline hfinal htimeout =>
      refine h.quiet hinv hstep (calls_map _) (returns_map _) ?_
      unfold inProgress directCall
      rw [(Batcher.reportError_keeps e.b _ (.shutdownTimeout e.b.cfg.shutdownTimeout)).cfg]

/-! ## Frames reach the sink once, in the order of their numbers -/

/-- What a step adds to the frames assembled: none, or one that the drain of `tick` has assembled,
with the next sequence number. A drain may also use up a sequence number without a frame. -/
def Assembles (host : ByteOrder) (e : Engine T) (a : Action T) (e' : Engine T)
    (out : Option (Frame T)) : Prop :=
  e'.b.sequenceID = e.b.sequenceID ∧ out = none ∨
    ∃ tick, drainsOf [a] = [tick] ∧ e'.b.sequenceID = e.b.sequenceID + 1 ∧
      ∀ frame, out = some frame → frame.seq = e.b.sequenceID + 1 ∧
        ∃ b es, e.b.assemble host e.loop tick = .ok (b, some frame, es)

/-- A step that assembles no frame and leaves the sequence number alone. -/
theorem assembled_same {flushes : List (Frame T × Option Error)}
    (hattempts : attempts (effects new) = flushes)
    (hframe : flushes.map Prod.fst ++ e'.drain.frame?.toList = e.drain.frame?.toList)
    (hseq : e'.b.sequenceID = e.b.sequenceID) :
    ∃ out, assembled (events ++ new) e' = assembled events e ++ out.toList ∧
      Assembles host e a e' out := by
  refine ⟨none, ?_, Or.inl ⟨hseq, rfl⟩⟩
  unfold assembled
  rw [effects_append, attempts_append, hattempts, List.map_append, List.append_assoc, hframe]
  exact (List.append_nil _).symm

omit [Serializable T] in
/-- The frame that a drain has assembled comes after the others. -/
theorem assembled_assemble {b : Batcher T} {out : Option (Frame T)} {es : List (Effect T)}
    (stage : Stage) (hidle : e.drain = .idle) (hquiet : attempts es = []) :
    assembled (events ++ es.map .effect)
      { e with b, drain := (out.map .flushing).getD .idle, stage } =
        assembled events e ++ out.toList := by
  unfold assembled
  rw [effects_append, effects_map, attempts_append, hquiet, List.append_nil, hidle]
  cases out <;> simp [DrainPoint.frame?]

/-- A step assembles at most one frame. -/
theorem step_assembled (events : List (Event T)) (hinv : FlightInv cfg e)
    (hstep : step host e a = some (e', new)) :
    ∃ out, assembled (events ++ new) e' = assembled events e ++ out.toList ∧
      Assembles host e a e' out := by
  cases step_cases hstep with
  | @assemble _ tick b out es stage ha hidle hassemble =>
      obtain ⟨_, _, hquiet, hframe⟩ := Batcher.assemble_ok hinv.sized hassemble
      have hdrain : drainsOf [a] = [tick] := by
        obtain rfl | rfl := ha
        · rfl
        · rfl
      refine ⟨out, assembled_assemble stage hidle hquiet, ?_⟩
      cases out with
      | none =>
          rcases Batcher.assemble_sequenceID hinv.sized hassemble with hsame | hnext
          · exact Or.inl ⟨hsame, rfl⟩
          · exact Or.inr ⟨tick, hdrain, hnext, fun frame hnone => by cases hnone⟩
      | some frame =>
          obtain ⟨hbuilt, hseq⟩ := hframe frame rfl
          refine Or.inr ⟨tick, hdrain, hseq.trans hbuilt.seq, fun frame' hsome => ?_⟩
          cases hsome
          exact ⟨hbuilt.seq, b, es, hassemble⟩
  | direct hdrain _ => exact assembled_same rfl (by rw [hdrain]; rfl) rfl
  | handOver hdrain _ _ _ => exact assembled_same rfl (by rw [hdrain]; rfl) rfl
  | reject hdrain _ _ hsettle =>
      exact assembled_same (attempts_settled hsettle)
        (by rw [hdrain]; rfl) (Batcher.settle_sequenceID hsettle)
  | callReturn hdrain hsettle =>
      exact assembled_same (attempts_settled hsettle)
        (by rw [hdrain]; rfl) (Batcher.settle_sequenceID hsettle)
  | receive hdrain _ _ hsettle =>
      exact assembled_same (attempts_settled hsettle)
        (by rw [hdrain]; rfl) (Batcher.settle_sequenceID hsettle)
  | deadline hdrain hsettle =>
      exact assembled_same (attempts_settled hsettle)
        (by rw [hdrain]; rfl) (Batcher.settle_sequenceID hsettle)
  | shutdownDeadline _ _ =>
      obtain ⟨hreport, hquiet⟩ :=
        Batcher.reportError_eq e.b _ (.shutdownTimeout e.b.cfg.shutdownTimeout)
      exact assembled_same ((congrArg attempts (effects_map _)).trans hquiet) rfl
        (by rw [hreport])
  | launch | flushReturn | send | clear => exact assembled_same rfl rfl rfl

/-- Every frame is given to the sink at most once, in the order in which the frames were
assembled. -/
def Once (events : List (Event T)) (e : Engine T) : Prop :=
  ((calls events).map Prod.fst ++ e.toCall).Sublist (assembled events e)

/-- A step that assembles no frame, and gives to the sink what was due. -/
theorem Once.shrink (h : Once events e) (hinv : FlightInv cfg e)
    (hstep : step host e a = some (e', new))
    (hsub : ((calls new).map Prod.fst ++ e'.toCall).Sublist e.toCall) :
    Once (events ++ new) e' := by
  obtain ⟨out, hassembled, _⟩ := step_assembled events hinv hstep
  unfold Once
  rw [hassembled, calls_append, List.map_append, List.append_assoc]
  exact ((hsub.append_left _).trans h).trans (List.sublist_append_left _ _)

/-- A step without a call. -/
theorem Once.quiet (h : Once events e) (hinv : FlightInv cfg e)
    (hstep : step host e a = some (e', new)) (hcalls : calls new = [])
    (hsub : e'.toCall.Sublist e.toCall) : Once (events ++ new) e' := by
  refine h.shrink hinv hstep ?_
  rw [hcalls]
  exact hsub

omit [Serializable T] in
/-- A drain that has ended leaves nothing to be flushed but what a flush goroutine has. -/
theorem toCall_idle (e : Engine T) (b : Batcher T) (loop : Loop) (stage : Stage) :
    (toCall { e with b, loop, drain := .idle, stage }).Sublist e.toCall :=
  (List.Sublist.refl _).append (List.nil_sublist _)

/-- Every step keeps to the order. -/
theorem step_once (h : Once events e) (hinv : FlightInv cfg e)
    (hstep : step host e a = some (e', new)) : Once (events ++ new) e' := by
  cases step_cases hstep with
  | @assemble _ tick b out es stage ha hidle hassemble =>
      have hquiet := (Batcher.assemble_ok hinv.sized hassemble).2.2.1
      have htoCall : toCall { e with b, drain := (out.map .flushing).getD .idle, stage } =
          e.toCall ++ out.toList := by
        cases out <;> simp [toCall, hidle, DrainPoint.toFlush]
      unfold Once
      rw [assembled_assemble stage hidle hquiet, calls_append, calls_map, List.append_nil, htoCall,
        ← List.append_assoc]
      exact h.append_right _
  | direct hdrain hzero =>
      have hflights : e.flights = [] := hinv.direct (hinv.cfg_eq ▸ hzero)
      refine h.shrink hinv hstep ?_
      simp [toCall, hdrain, hflights, calls, DrainPoint.toFlush]
  | handOver hdrain _ hflag _ =>
      have hnone := (filterMap_call_done (hinv.done_of_clear hflag)).2
      refine h.quiet hinv hstep rfl ?_
      simp [toCall, hdrain, hnone, DrainPoint.toFlush, Flight.unlaunched]
  | reject _ _ _ hsettle => exact h.quiet hinv hstep (calls_map _) (toCall_idle e _ _ _)
  | callReturn _ hsettle => exact h.quiet hinv hstep (calls_map _) (toCall_idle e _ _ _)
  | receive _ _ _ hsettle => exact h.quiet hinv hstep (calls_map _) (toCall_idle e _ _ _)
  | deadline _ hsettle => exact h.quiet hinv hstep (calls_map _) (toCall_idle e _ _ _)
  | shutdownDeadline _ _ => exact h.quiet hinv hstep (calls_map _) (List.Sublist.refl _)
  | @launch i flight hflight hstage =>
      obtain ⟨hbefore, hafter⟩ := hinv.toCall_setStage hflight (by rw [hstage]; rfl) .calling
      have hdue : flight.unlaunched = some flight.frame := by rw [Flight.unlaunched, hstage]
      refine h.shrink hinv hstep ?_
      rw [hbefore, hafter, hdue]
      exact List.Sublist.refl _
  | @flushReturn i flight err hflight hstage =>
      obtain ⟨hbefore, hafter⟩ :=
        hinv.toCall_setStage hflight (by rw [hstage]; rfl) (.returned err)
      refine h.quiet hinv hstep rfl ?_
      rw [hbefore, hafter]
      exact List.sublist_append_right _ _
  | @send i flight err hflight hstage =>
      obtain ⟨hbefore, hafter⟩ := hinv.toCall_setStage hflight (by rw [hstage]; rfl) (.sent err)
      refine h.quiet hinv hstep rfl ?_
      rw [hbefore, hafter]
      exact List.sublist_append_right _ _
  | @clear i flight err hflight hstage =>
      obtain ⟨hbefore, hafter⟩ := hinv.toCall_setStage hflight (by rw [hstage]; rfl) (.done err)
      refine h.quiet hinv hstep rfl ?_
      show (e.setStage i (.done err)).toCall.Sublist e.toCall
      rw [hbefore, hafter]
      exact List.sublist_append_right _ _

/-- The numbers of the frames assembled so far, in order, are some of those that the engine has
given out, at most one for each drain. -/
def Numbered (actions : List (Action T)) (events : List (Event T)) (e : Engine T) : Prop :=
  ∃ n, n ≤ (drainsOf actions).length ∧ e.b.sequenceID = UInt32.ofNat n ∧
    ((assembled events e).map Frame.seq).Sublist ((List.range' 1 n).map UInt32.ofNat)

theorem step_numbered {actions : List (Action T)} (h : Numbered actions events e)
    (hinv : FlightInv cfg e) (hstep : step host e a = some (e', new)) :
    Numbered (actions ++ [a]) (events ++ new) e' := by
  obtain ⟨n, hle, hn, hsub⟩ := h
  have hdrains : drainsOf (actions ++ [a]) = drainsOf actions ++ drainsOf [a] :=
    List.filterMap_append
  unfold Numbered
  rw [hdrains, List.length_append]
  obtain ⟨out, hassembled, ⟨hseq, rfl⟩ | ⟨tick, hdrain, hseq, hout⟩⟩ :=
    step_assembled events hinv hstep
  · refine ⟨n, Nat.le_add_right_of_le hle, hseq.trans hn, ?_⟩
    rw [hassembled, Option.toList_none, List.append_nil]
    exact hsub
  · have hnext : UInt32.ofNat (n + 1) = e.b.sequenceID + 1 := by
      rw [UInt32.ofNat_add, hn]
      rfl
    refine ⟨n + 1, ?_, hseq.trans hnext.symm, ?_⟩
    · rw [hdrain]
      exact Nat.add_le_add_right hle 1
    rw [hassembled, List.map_append, List.range'_concat, List.map_append]
    refine hsub.append ?_
    cases out with
    | none => exact List.nil_sublist _
    | some frame =>
        have hframe : frame.seq = UInt32.ofNat (1 + 1 * n) := by
          rw [(hout frame rfl).1, ← hnext]
          congr 1
          omega
        show [frame.seq].Sublist [UInt32.ofNat (1 + 1 * n)]
        rw [hframe]

/-! ## Verdicts are those of the sink -/

/-- The drain goroutine waits for the flush of its own frame, and every flush that has been settled
otherwise than by a deadline is settled with what the sink has returned for that frame. -/
structure Truthful (events : List (Event T)) (e : Engine T) : Prop where
  own : ∀ frame i, e.drain = .waiting frame i →
    ∃ flight, e.flights[i]? = some flight ∧ flight.frame = frame
  verdicts : ((attempts (effects events)).filter conclusive ++ e.awaited).Sublist
    ((returns events).map fun r => (r.1.1, r.2))

omit [Serializable T] in
/-- The end of a drain whose flush has been settled with `err`: by a deadline, or with the outcome
that was awaited. -/
theorem Truthful.settle (h : Truthful events e) {frame : Frame T} {err : Option Error}
    (hattempts : attempts (effects new) = [(frame, err)]) (hreturns : returns new = [])
    (hdrain : e'.drain = .idle) (hawaited : ([(frame, err)].filter conclusive).Sublist e.awaited) :
    Truthful (events ++ new) e' := by
  refine ⟨fun frame i hwaiting => ?_, ?_⟩
  · rw [hdrain] at hwaiting
    cases hwaiting
  · have hidle : e'.awaited = [] := by rw [awaited, hdrain]
    rw [effects_append, attempts_append, hattempts, returns_append, hreturns, List.append_nil,
      List.filter_append, hidle, List.append_nil]
    exact (hawaited.append_left _).trans h.verdicts

omit [Serializable T] in
/-- A step between the flushes. -/
theorem Truthful.quiet (h : Truthful events e) (hattempts : attempts (effects new) = [])
    (hreturns : returns new = []) (hawaited : e'.awaited = e.awaited)
    (hown : ∀ frame i, e'.drain = .waiting frame i →
      ∃ flight, e'.flights[i]? = some flight ∧ flight.frame = frame) :
    Truthful (events ++ new) e' := by
  refine ⟨hown, ?_⟩
  rw [effects_append, attempts_append, hattempts, List.append_nil, returns_append, hreturns,
    List.append_nil, hawaited]
  exact h.verdicts

omit [Serializable T] in
theorem Truthful.own_setStage (h : Truthful events e) (i : Nat) (stage : FlightStage)
    (frame : Frame T) (k : Nat) (hwaiting : (e.setStage i stage).drain = .waiting frame k) :
    ∃ flight, (e.setStage i stage).flights[k]? = some flight ∧ flight.frame = frame := by
  obtain ⟨flight, hflight, hframe⟩ := h.own frame k hwaiting
  rw [getElem?_setStage, hflight]
  split
  · exact ⟨_, rfl, hframe⟩
  · exact ⟨flight, rfl, hframe⟩

omit [Serializable T] in
/-- A flush goroutine that moves without a new outcome. -/
theorem awaited_setStage {i : Nat} {flight : Flight T} {stage : FlightStage}
    (hflight : e.flights[i]? = some flight) (houtcome : stage.outcome = flight.stage.outcome) :
    (e.setStage i stage).awaited = e.awaited := by
  unfold awaited
  rw [show (e.setStage i stage).drain = e.drain from rfl]
  split
  · rename_i frame k _
    rw [getElem?_setStage]
    split
    · rename_i hik
      subst hik
      simp [hflight, houtcome]
    · rfl
  · rfl

omit [Serializable T] in
/-- A flush goroutine whose `Sink.Flush` has returned. -/
theorem Truthful.awaited_return (h : Truthful events e) {i : Nat} {flight : Flight T}
    (hflight : e.flights[i]? = some flight) (err : Option Error) :
    (e.setStage i (.returned err)).awaited.Sublist (e.awaited ++ [(flight.frame, err)]) := by
  cases hdrain : e.drain with
  | waiting frame k =>
      unfold awaited
      rw [show (e.setStage i (.returned err)).drain = e.drain from rfl, hdrain]
      simp only [getElem?_setStage]
      split
      · rename_i hik
        subst hik
        obtain ⟨_, hflight', hframe⟩ := h.own frame i hdrain
        cases hflight.symm.trans hflight'
        rw [hflight, ← hframe]
        exact List.filter_sublist.trans (List.sublist_append_right _ _)
      · exact List.sublist_append_left _ _
  | _ =>
      have hnone : (e.setStage i (.returned err)).awaited = [] := by
        unfold awaited
        rw [show (e.setStage i (.returned err)).drain = e.drain from rfl, hdrain]
      rw [hnone]
      exact List.nil_sublist _

/-- Every step keeps the verdicts true. -/
theorem step_truthful (h : Truthful events e) (hinv : FlightInv cfg e)
    (hstep : step host e a = some (e', new)) : Truthful (events ++ new) e' := by
  cases step_cases hstep with
  | @assemble _ tick b out es stage ha hidle hassemble =>
      have hquiet := (Batcher.assemble_ok hinv.sized hassemble).2.2.1
      refine h.quiet (by rw [effects_map]; exact hquiet) (returns_map _) ?_ ?_
      · cases out <;> simp [awaited, hidle]
      · intro frame i hwaiting
        cases out <;> cases hwaiting
  | direct hdrain _ =>
      refine h.quiet rfl rfl (by simp [awaited, hdrain]) ?_
      intro frame i hwaiting
      cases hwaiting
  | handOver hdrain _ _ _ =>
      refine h.quiet rfl rfl (by simp [awaited, hdrain, FlightStage.outcome]) ?_
      intro frame i hwaiting
      cases hwaiting
      exact ⟨_, List.getElem?_concat_length, rfl⟩
  | reject hdrain _ _ hsettle =>
      exact h.settle (attempts_settled hsettle)
        (returns_map _) rfl (List.nil_sublist _)
  | @callReturn now frame err b loop reports hdrain hsettle =>
      have hattempts : attempts (effects (.returned frame frame.sent err ::
          (Effect.flush frame err :: reports).map .effect)) = [(frame, err)] :=
        attempts_settled hsettle
      have hreturns : returns (.returned frame frame.sent err ::
          (Effect.flush frame err :: reports).map .effect) = [((frame, frame.sent), err)] :=
        congrArg (_ :: ·) (returns_map _)
      have hnone : e.awaited = [] := by rw [awaited, hdrain]
      have hverdicts := h.verdicts
      rw [hnone, List.append_nil] at hverdicts
      refine ⟨fun frame i hwaiting => (by cases hwaiting), ?_⟩
      rw [effects_append, attempts_append, hattempts, returns_append, hreturns, List.filter_append,
        List.map_append]
      show (_ ++ [(frame, err)].filter conclusive ++ []).Sublist (_ ++ [(frame, err)])
      rw [List.append_nil]
      exact hverdicts.append List.filter_sublist
  | launch hflight hstage =>
      exact h.quiet rfl rfl (awaited_setStage hflight (by rw [hstage]; rfl)) (h.own_setStage _ _)
  | @flushReturn i flight err hflight hstage =>
      refine ⟨h.own_setStage _ _, ?_⟩
      have hattempts : attempts (effects (events ++
          [.returned flight.frame (e.snapshot flight) err])) = attempts (effects events) := by
        rw [effects_append]
        exact congrArg attempts (List.append_nil _)
      rw [hattempts, returns_append, List.map_append]
      show (_ ++ (e.setStage i (.returned err)).awaited).Sublist (_ ++ [(flight.frame, err)])
      refine ((h.awaited_return hflight err).append_left _).trans ?_
      rw [← List.append_assoc]
      exact h.verdicts.append_right _
  | send hflight hstage =>
      exact h.quiet rfl rfl (awaited_setStage hflight (by rw [hstage]; rfl)) (h.own_setStage _ _)
  | clear hflight hstage =>
      exact h.quiet rfl rfl (awaited_setStage hflight (by rw [hstage]; rfl)) (h.own_setStage _ _)
  | @receive now frame i flight err b loop reports hdrain hflight hchannel hsettle =>
      refine h.settle (attempts_settled hsettle)
        (returns_map _) rfl ?_
      have houtcome : flight.stage.outcome = some err := by
        cases hs : flight.stage with
        | sent e => rwa [hs] at hchannel
        | done e => rwa [hs] at hchannel
        | _ =>
            rw [hs] at hchannel
            cases hchannel
      simp [awaited, hdrain, hflight, houtcome]
  | deadline hdrain hsettle =>
      exact h.settle (attempts_settled hsettle)
        (returns_map _) rfl (List.nil_sublist _)
  | @shutdownDeadline now _ _ =>
      have hquiet := (Batcher.reportError_eq e.b now (.shutdownTimeout e.b.cfg.shutdownTimeout)).2
      exact h.quiet (by rw [effects_map]; exact hquiet) (returns_map _) rfl h.own

end Steps

/-! ## Whole runs -/

section Runs

variable [Serializable T] [Inhabited T] {host : ByteOrder} {sizeofT : Int64} {b : Batcher T}
  {actions : List (Action T)}

/-- Calls and returns stay paired, and frames in order, along every run. -/
theorem run_ordered (hnew : Batcher.new sizeofT cfg = .ok b)
    (hrun : run host (initial b) actions = some (e, events)) :
    FlightInv b.cfg e ∧ Paired events e ∧ Once events e ∧ Numbered actions events e := by
  have hzero : b.sequenceID = 0 := congrArg Counters.sequenceID (Batcher.new_counters hnew)
  exact Transition.run_invariant
    (I := fun actions events e =>
      FlightInv b.cfg e ∧ Paired events e ∧ Once events e ∧ Numbered actions events e)
    (fun _ events e a e' new ⟨hinv, hpaired, honce, hnumbered⟩ hstep =>
      ⟨step_flightInv hinv hstep, step_paired hpaired hinv hstep, step_once honce hinv hstep,
        step_numbered hnumbered hinv hstep⟩)
    ⟨initial_flightInv hnew, rfl, List.Sublist.refl _, 0, Nat.zero_le _, hzero,
      List.nil_sublist _⟩ hrun

omit [Serializable T] [Inhabited T] in
/-- The frames given to the sink are some of those assembled. -/
theorem Once.calls_sublist (h : Once events e) :
    ((calls events).map Prod.fst).Sublist (assembled events e) :=
  (List.sublist_append_left _ _).trans h

/-- For every configuration that `New` accepts, whatever its `FlushTimeout`, and every interleaving:
the calls of `Sink.Flush` return in the order of the calls, each before the next one and with the
bytes that it was called with; no frame is given to the sink twice; and the sequence numbers of the
frames handed to the sink are, in this order, some of 1, 2, 3, ... modulo `2 ^ 32`, up to the last
one given out, at most one for each drain. -/
theorem sink_order (hnew : Batcher.new sizeofT cfg = .ok b)
    (hrun : run host (initial b) actions = some (e, events)) :
    calls events = (returns events).map Prod.fst ++
        (e.inProgress.map fun call => (call.frame, e.bytes call)) ∧
      e.inProgress.length ≤ 1 ∧
      ((calls events).map Prod.fst).Sublist (assembled events e) ∧
      ∃ n, n ≤ (drainsOf actions).length ∧ e.b.sequenceID = UInt32.ofNat n ∧
        ((calls events).map fun call => call.1.seq).Sublist
          ((List.range' 1 n).map UInt32.ofNat) := by
  obtain ⟨hinv, hpaired, honce, n, hle, hn, hnumbered⟩ := run_ordered hnew hrun
  have hcalls := honce.calls_sublist
  refine ⟨hpaired, hinv.inProgress_le, hcalls, n, hle, hn, ?_⟩
  have hseqs := (hcalls.map Frame.seq).trans hnumbered
  rwa [List.map_map] at hseqs

/-- The first frame has been given up but is still in the sink when the second one is assembled,
with number 2. -/
theorem sink_order_abandoned : ∃ b e events,
    Batcher.new 24 { Batcher.shortConfig with flushTimeout := 1 } = .ok b ∧
    run .little (initial b) abandonedFlush = some (e, events) ∧
    calls events = e.inProgress.map (fun call => (call.frame, e.bytes call)) ∧
    (calls events).map (fun call => call.1.seq) = [1] ∧
    (assembled events e).map Frame.seq = [1, 2] := by
  obtain ⟨b, ⟨e, events⟩, hnew, hrun, _, htest⟩ := exists_of_testNew
    { Batcher.shortConfig with flushTimeout := 1 } (fun b => run .little (initial b) abandonedFlush)
    (fun _ out => (returns out.2).isEmpty && (calls out.2).map (fun call => call.1.seq) == [1] &&
      (assembled out.2 out.1).map Frame.seq == [1, 2]) (by decide +kernel)
  simp only [Bool.and_eq_true, beq_iff_eq, List.isEmpty_iff] at htest
  obtain ⟨⟨hreturns, hcalls⟩, hassembled⟩ := htest
  have hpaired := (sink_order hnew hrun).1
  rw [hreturns] at hpaired
  exact ⟨b, e, events, hnew, hrun, hpaired, hcalls, hassembled⟩

omit [Serializable T] [Inhabited T] in
theorem initial_truthful (b : Batcher T) : Truthful [] (initial b) := by
  refine ⟨fun frame i hwaiting => ?_, List.Sublist.refl _⟩
  cases hwaiting

/-- The verdicts stay true along every run. -/
theorem run_truthful (hnew : Batcher.new sizeofT cfg = .ok b)
    (hrun : run host (initial b) actions = some (e, events)) : Truthful events e := by
  exact (Transition.run_invariant (I := fun _ events e => FlightInv b.cfg e ∧ Truthful events e)
    (fun _ events e a e' new ⟨hinv, h⟩ hstep =>
      ⟨step_flightInv hinv hstep, step_truthful h hinv hstep⟩)
    ⟨initial_flightInv hnew, initial_truthful b⟩ hrun).2

omit [Serializable T] [Inhabited T] in
/-- A flush that a deadline has settled has not succeeded. -/
theorem successes_conclusive (flushes : List (Frame T × Option Error)) :
    successes (flushes.filter conclusive) = successes flushes := by
  unfold successes
  rw [List.filterMap_filter]
  refine congrArg (List.filterMap · flushes) (funext fun flush => ?_)
  obtain ⟨frame, err⟩ := flush
  cases err with
  | none => rfl
  | some err => split <;> rfl

omit [Serializable T] [Inhabited T] in
/-- The frames that the sink has accepted. -/
theorem successes_returns (events : List (Event T)) :
    successes ((returns events).map fun r => (r.1.1, r.2)) = (deliveries events).map Prod.fst := by
  induction events with
  | nil => rfl
  | cons event events ih =>
      cases event with
      | effect effect => exact ih
      | called frame bytes => exact ih
      | returned frame bytes err =>
          cases err with
          | none => exact congrArg (frame :: ·) ih
          | some err => exact ih

omit [Serializable T] [Inhabited T] in
/-- The frames that have become the baseline are some of those delivered. -/
theorem Truthful.advances_sublist (h : Truthful events e) :
    (advances events).Sublist ((deliveries events).map Prod.fst) := by
  have hdelivered : (successes ((attempts (effects events)).filter conclusive)).Sublist
      (successes ((returns events).map fun r => (r.1.1, r.2))) :=
    ((List.sublist_append_left _ _).trans h.verdicts).filterMap _
  rwa [successes_conclusive, successes_returns] at hdelivered

/-- Unless `FlushTimeout` is negative, a call that returns has been given the frame. -/
theorem run_returns (hnew : Batcher.new sizeofT cfg = .ok b) (htimeout : 0 ≤ b.cfg.flushTimeout)
    (hrun : run host (initial b) actions = some (e, events)) :
    ∀ r ∈ returns events, r.1.2 = r.1.1.sent := by
  refine (Transition.run_invariant
    (I := fun _ events e => FlightInv b.cfg e ∧ ∀ r ∈ returns events, r.1.2 = r.1.1.sent)
    (fun _ events e a e' new ⟨hinv, h⟩ hstep => ⟨step_flightInv hinv hstep, ?_⟩)
    ⟨initial_flightInv hnew, fun r hr => (by cases hr)⟩ hrun).2
  intro r hr
  rw [returns_append, List.mem_append] at hr
  rcases hr with hold | hlast
  · exact h r hold
  · obtain ⟨event, hevent, hreturned⟩ := List.mem_filterMap.mp hlast
    cases event with
    | returned frame bytes err =>
        cases hreturned
        exact (step_saw hinv hstep (Or.inr ⟨err, hevent⟩)).mpr (Or.inl htimeout)
    | _ => cases hreturned

omit [Serializable T] [Inhabited T] in
theorem mem_returns_of_mem_deliveries {delivery : Frame T × List UInt8}
    (h : delivery ∈ deliveries events) : (delivery, none) ∈ returns events := by
  obtain ⟨event, hevent, hdelivered⟩ := List.mem_filterMap.mp h
  refine List.mem_filterMap.mpr ⟨event, hevent, ?_⟩
  cases event with
  | returned frame bytes err =>
      cases err with
      | none =>
          cases hdelivered
          rfl
      | some err => cases hdelivered
  | _ => cases hdelivered

/-- Unless `FlushTimeout` is negative, what is delivered for a frame is its payload. -/
theorem deliveries_sent (hnew : Batcher.new sizeofT cfg = .ok b) (htimeout : 0 ≤ b.cfg.flushTimeout)
    (hrun : run host (initial b) actions = some (e, events)) :
    ∀ delivery ∈ deliveries events, delivery.2 = delivery.1.sent :=
  fun _ hdelivery => run_returns hnew htimeout hrun _ (mem_returns_of_mem_deliveries hdelivery)

/-- For every configuration that `New` accepts, whatever its `FlushTimeout`, and every interleaving:
the flushes that were settled otherwise than by `ErrFlushTimeout`, with the results they were
settled with, are some of the calls of `Sink.Flush` that have returned, with the results they have
returned, in this order. In particular every frame that has become the delta baseline, and that the
counters count as flushed, is one for which `Sink.Flush` has returned nil, and unless `FlushTimeout`
is negative it has returned nil for exactly the payload of the frame. -/
theorem truthful_verdicts (hnew : Batcher.new sizeofT cfg = .ok b)
    (hrun : run host (initial b) actions = some (e, events)) :
    ((attempts (effects events)).filter conclusive).Sublist
        ((returns events).map fun r => (r.1.1, r.2)) ∧
      (advances events).Sublist ((deliveries events).map Prod.fst) ∧
      (0 ≤ b.cfg.flushTimeout →
        ((advances events).map fun frame => (frame, frame.sent)).Sublist (deliveries events)) := by
  have htruthful := run_truthful hnew hrun
  have hadvances := htruthful.advances_sublist
  refine ⟨(List.sublist_append_left _ _).trans htruthful.verdicts, hadvances, fun htimeout => ?_⟩
  have hsent : ((deliveries events).map Prod.fst).map (fun frame => (frame, frame.sent)) =
      deliveries events := by
    rw [List.map_map]
    refine (List.map_congr_left fun delivery hdelivery => ?_).trans (List.map_id _)
    exact Prod.ext rfl (deliveries_sent hnew htimeout hrun delivery hdelivery).symm
  rw [← hsent]
  exact hadvances.map _

/-- A frame that was given up is delivered, and another one whose flush is settled in time: one of
the two deliveries is known to the engine. -/
theorem truthful_verdicts_late : ∃ b e events,
    Batcher.new 24 { Batcher.shortConfig with flushTimeout := 1 } = .ok b ∧
    run .little (initial b) (lateDrain [[1, 2]] 0 none ++ timelyDrain [[3]] 1) =
      some (e, events) ∧
    ((advances events).map fun frame => (frame, frame.sent)).Sublist (deliveries events) ∧
    (advances events).map Frame.items = [[[3]]] ∧
    (deliveries events).map (fun delivery => delivery.1.items) = [[[1, 2]], [[3]]] := by
  obtain ⟨b, ⟨e, events⟩, hnew, hrun, hcfg, htest⟩ := exists_of_testNew
    { Batcher.shortConfig with flushTimeout := 1 }
    (fun b => run .little (initial b) (lateDrain [[1, 2]] 0 none ++ timelyDrain [[3]] 1))
    (fun _ out => (advances out.2).map Frame.items == [[[3]]] &&
      (deliveries out.2).map (fun delivery => delivery.1.items) == [[[1, 2]], [[3]]])
    (by decide +kernel)
  rw [Bool.and_eq_true, beq_iff_eq, beq_iff_eq] at htest
  exact ⟨b, e, events, hnew, hrun,
    (truthful_verdicts hnew hrun).2.2 (by rw [hcfg]; decide), htest.1, htest.2⟩

end Runs

end Engine

end TickBatch
