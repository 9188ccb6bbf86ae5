import TickBatch.Engine.Delivery

/-!
# A sink that keeps its payloads

`Sink.Flush` must not keep the payload: the engine reuses the buffer. A client that queues the slice
and transmits later is wrapped in a `CopyingSink`, which copies the payload into a buffer of its own
and gives that to the inner sink. The wrapper runs in the goroutine that called `Sink.Flush`, byte
by byte, while the engine goes on. `copying_sink` says that it is transparent: its runs are the runs
of the engine, and whatever the inner sink keeps reads at any later time as the payload of its
frame. Without the wrapper the same client transmits the bytes of a later frame
(`copying_sink_overwritten`).
-/

namespace TickBatch

variable {T : Type}

/-- A slice that a sink may keep: of a buffer of the engine, or a buffer of its own. -/
inductive Kept where
  | shared (buffer : Buffer) (length : Nat)
  | owned (bytes : List UInt8)
  deriving DecidableEq

/-- The bytes of a slice, as they are now. -/
def Kept.read (e : Engine T) : Kept → List UInt8
  | .shared buffer length => (e.b.buffer buffer).take length
  | .owned bytes => bytes

/-- The program points of `CopyingSink.Flush`: not called, copying, and inside the inner `Flush`.
`cp` is as much of the copy as has been made. -/
inductive CopyPoint where
  | idle
  | copying (cp : List UInt8)
  | forwarded
  deriving DecidableEq

/-- The engine with its sink, and the slices that the inner sink keeps. -/
structure CopyingSink (T : Type) where
  engine : Engine T
  point : CopyPoint
  inner : List Kept

namespace CopyingSink

open Engine (calls returns)

/-- What may happen next: a step of the engine, the copy of one byte, and the call of the inner
sink. -/
inductive Action (T : Type) where
  | engine (a : Engine.Action T)
  | copy
  | forward

/-- An engine that has just been started. -/
def initial (b : Batcher T) : CopyingSink T :=
  { engine := Engine.initial b, point := .idle, inner := [] }

/-- Where the sink is after a step of the engine: a call starts it, and it returns only from within
the inner `Flush`. -/
def follow (point : CopyPoint) (new : List (Engine.Event T)) : Option CopyPoint :=
  match calls new, returns new, point with
  | [], [], point => some point
  | [_], [], .idle => some (.copying [])
  | [], [_], .forwarded => some .idle
  | _, _, _ => none

/-- One step. With `wrapped` the inner sink is given the copy, once it is complete; without, it is
given the slice of the engine. -/
def step [Serializable T] (wrapped : Bool) (host : ByteOrder) (s : CopyingSink T) :
    Action T → Option (CopyingSink T × List (Engine.Event T))
  | .engine a => do
      let (engine, new) ← s.engine.step host a
      let point ← follow s.point new
      pure ({ s with engine, point }, new)
  | .copy =>
      match s.point, s.engine.inProgress with
      | .copying cp, [call] => do
          let byte ← (s.engine.bytes call)[cp.length]?
          pure ({ s with point := .copying (cp ++ [byte]) }, [])
      | _, _ => none
  | .forward =>
      match s.point, s.engine.inProgress with
      | .copying cp, [call] =>
          if wrapped = false then
            some ({ s with
              point := .forwarded
              inner := s.inner ++ [.shared call.buffer call.length] }, [])
          else if cp.length = (s.engine.bytes call).length then
            some ({ s with point := .forwarded, inner := s.inner ++ [.owned cp] }, [])
          else none
      | _, _ => none

/-- Execute a sequence of actions. -/
abbrev run [Serializable T] (wrapped : Bool) (host : ByteOrder) (s : CopyingSink T)
    (actions : List (Action T)) : Option (CopyingSink T × List (Engine.Event T)) :=
  Transition.run (step wrapped host) s actions

/-- The steps of the engine among the actions. -/
def engineActions (actions : List (Action T)) : List (Engine.Action T) :=
  actions.filterMap fun
    | .engine a => some a
    | _ => none

/-- The frames for which the inner sink has been called: those whose flush has returned, and the one
in progress once it has been forwarded. -/
def forwarded (events : List (Engine.Event T)) (s : CopyingSink T) : List (Frame T) :=
  (returns events).map (fun flush => flush.1.1) ++
    if s.point = .forwarded then s.engine.inProgress.map FlushCall.frame else []

/-! ## Calls in progress -/

section Steps

variable [Serializable T] {host : ByteOrder} {cfg : Config} {s s' : CopyingSink T}
  {events new : List (Engine.Event T)}

/-- The calls in progress, as the events of a run in which nothing else has happened. -/
def ongoing (e : Engine T) : List (Engine.Event T) :=
  e.inProgress.map fun call => .called call.frame (e.bytes call)

omit [Serializable T] in
theorem calls_ongoing (e : Engine T) :
    calls (ongoing e) = e.inProgress.map fun call => (call.frame, e.bytes call) := by
  simp [ongoing, calls, List.filterMap_map]

omit [Serializable T] in
theorem returns_ongoing (e : Engine T) : returns (ongoing e) = [] := by
  simp [ongoing, returns, List.filterMap_map]

/-- A step of the engine starts calls after those in progress, and ends them in order. -/
theorem step_inProgress {e e' : Engine T} {a : Engine.Action T} (hinv : e.FlightInv cfg)
    (hstep : e.step host a = some (e', new)) :
    e.inProgress.map FlushCall.frame ++ (calls new).map Prod.fst =
      (returns new).map (fun flush => flush.1.1) ++ e'.inProgress.map FlushCall.frame := by
  have hpaired : Engine.Paired (ongoing e) e := by
    unfold Engine.Paired
    rw [calls_ongoing, returns_ongoing]
    rfl
  have hnext := Engine.step_paired hpaired hinv hstep
  unfold Engine.Paired at hnext
  rw [Engine.calls_append, Engine.returns_append, calls_ongoing, returns_ongoing,
    List.nil_append] at hnext
  have hframes := congrArg (List.map Prod.fst) hnext
  simpa [List.map_append, Function.comp_def] using hframes

omit [Serializable T] in
/-- What a step of the engine does to the sink. -/
theorem follow_eq_some {point point' : CopyPoint} (h : follow point new = some point') :
    calls new = [] ∧ returns new = [] ∧ point' = point ∨
      (∃ call, calls new = [call]) ∧ returns new = [] ∧ point = .idle ∧ point' = .copying [] ∨
      calls new = [] ∧ (∃ flush, returns new = [flush]) ∧ point = .forwarded ∧ point' = .idle := by
  unfold follow at h
  split at h
  · rename_i hcalls hreturns
    exact Or.inl ⟨hcalls, hreturns, (Option.some.inj h).symm⟩
  · rename_i call hcalls hreturns
    exact Or.inr (Or.inl ⟨⟨call, hcalls⟩, hreturns, rfl, (Option.some.inj h).symm⟩)
  · rename_i flush hcalls hreturns
    exact Or.inr (Or.inr ⟨hcalls, ⟨flush, hreturns⟩, rfl, (Option.some.inj h).symm⟩)
  · cases h

/-- The states of the sink. It is idle exactly while no call is in progress, a copy that is being
made is the beginning of the payload of its frame, and the inner sink has been given the complete
copies in order. -/
structure Copied (cfg : Config) (events : List (Engine.Event T)) (s : CopyingSink T) : Prop where
  flights : s.engine.FlightInv cfg
  idle : s.point = .idle ↔ s.engine.inProgress = []
  copying : ∀ cp, s.point = .copying cp → ∀ call ∈ s.engine.inProgress, cp <+: call.frame.sent
  inner : s.inner = (s.forwarded events).map fun frame => .owned frame.sent

omit [Serializable T] in
/-- A sink that is not idle is in the one call in progress. -/
theorem Copied.exists_call (h : Copied cfg events s) (hpoint : s.point ≠ .idle) :
    ∃ call, s.engine.inProgress = [call] := by
  have hne : s.engine.inProgress ≠ [] := fun hempty => hpoint (h.idle.mpr hempty)
  have hpos := List.length_pos_of_ne_nil hne
  have hle := h.flights.inProgress_le
  exact List.length_eq_one_iff.mp (by omega)

/-- A step of the engine, with what it does to the sink. -/
theorem step_engine {wrapped : Bool} {a : Engine.Action T}
    (h : step wrapped host s (.engine a) = some (s', new)) :
    ∃ engine point, s.engine.step host a = some (engine, new) ∧ follow s.point new = some point ∧
      s' = { s with engine, point } := by
  simp only [step, bind, Option.bind_eq_some_iff, pure, Option.some.injEq, Prod.mk.injEq] at h
  obtain ⟨⟨engine, new'⟩, hengine, point, hfollow, rfl, rfl⟩ := h
  exact ⟨engine, point, hengine, hfollow, rfl⟩

/-- A step of the engine keeps the copies in order. -/
theorem Copied.engine (h : Copied cfg events s) {a : Engine.Action T}
    {engine : Engine T} {point : CopyPoint} (hengine : s.engine.step host a = some (engine, new))
    (hfollow : follow s.point new = some point) :
    Copied cfg (events ++ new) { s with engine, point } := by
  have hflights := Engine.step_flightInv h.flights hengine
  have hframes := step_inProgress h.flights hengine
  have hinner := h.inner
  unfold forwarded at hinner
  rcases follow_eq_some hfollow with
    ⟨hcalls, hreturns, rfl⟩ | ⟨⟨call, hcalls⟩, hreturns, hidle, rfl⟩ |
    ⟨hcalls, ⟨flush, hreturns⟩, hforwarded, rfl⟩
  · -- the calls in progress are those of the same frames
    rw [hcalls, hreturns, List.map_nil, List.map_nil, List.append_nil, List.nil_append] at hframes
    have hmem : ∀ call ∈ engine.inProgress, ∃ old ∈ s.engine.inProgress,
        old.frame = call.frame := by
      intro call hcall
      have hmem := List.mem_map_of_mem (f := FlushCall.frame) hcall
      rw [← hframes] at hmem
      exact List.mem_map.mp hmem
    refine ⟨hflights, h.idle.trans ?_, ?_, ?_⟩
    · rw [← List.map_eq_nil_iff (f := FlushCall.frame), hframes, List.map_eq_nil_iff]
    · intro cp hcp call hcall
      obtain ⟨old, hold, hframe⟩ := hmem call hcall
      rw [← hframe]
      exact h.copying cp hcp old hold
    · unfold forwarded
      rw [Engine.returns_append, hreturns, List.append_nil, ← hframes]
      exact hinner
  · have hnone := h.idle.mp hidle
    rw [hcalls, hreturns, hnone] at hframes
    refine ⟨hflights, ⟨nofun, ?_⟩, ?_, ?_⟩
    · intro hempty
      change engine.inProgress = [] at hempty
      rw [hempty] at hframes
      cases hframes
    · intro cp hcp call' _
      cases hcp
      exact List.nil_prefix
    · unfold forwarded
      rw [Engine.returns_append, hreturns, List.append_nil]
      rw [hidle] at hinner
      exact hinner
  · have hlength := congrArg List.length hframes
    have hle := h.flights.inProgress_le
    rw [hcalls, hreturns] at hlength hframes
    simp only [List.length_append, List.length_map, List.length_nil, List.length_singleton]
      at hlength
    have hnone : engine.inProgress = [] := List.eq_nil_of_length_eq_zero (by omega)
    refine ⟨hflights, ⟨fun _ => hnone, fun _ => rfl⟩, nofun, ?_⟩
    have hpoint : ¬ CopyPoint.idle = .forwarded := nofun
    unfold forwarded
    rw [if_pos hforwarded] at hinner
    rw [hnone, List.map_nil, List.append_nil, List.map_nil, List.append_nil] at hframes
    rw [Engine.returns_append, hreturns, if_neg hpoint, List.append_nil, List.map_append,
      ← hframes]
    exact hinner

/-- The copy of one byte. -/
theorem step_copy {wrapped : Bool} (h : step wrapped host s .copy = some (s', new)) :
    ∃ cp call byte, s.point = .copying cp ∧ s.engine.inProgress = [call] ∧
      (s.engine.bytes call)[cp.length]? = some byte ∧
      s' = { s with point := .copying (cp ++ [byte]) } ∧ new = [] := by
  simp only [step] at h
  split at h
  · rename_i cp call hpoint hcall
    simp only [bind, Option.bind_eq_some_iff, pure, Option.some.injEq, Prod.mk.injEq] at h
    obtain ⟨byte, hbyte, rfl, rfl⟩ := h
    exact ⟨cp, call, byte, hpoint, hcall, hbyte, rfl, rfl⟩
  · cases h

/-- The call of the inner sink. -/
theorem step_forward (h : step true host s .forward = some (s', new)) :
    ∃ cp call, s.point = .copying cp ∧ s.engine.inProgress = [call] ∧
      cp.length = (s.engine.bytes call).length ∧
      s' = { s with point := .forwarded, inner := s.inner ++ [.owned cp] } ∧ new = [] := by
  simp only [step] at h
  split at h
  · rename_i cp call hpoint hcall
    rw [if_neg Bool.true_eq_false.mp] at h
    split at h
    · rename_i hlength
      cases h
      exact ⟨cp, call, hpoint, hcall, hlength, rfl, rfl⟩
    · cases h
  · cases h

omit [Serializable T] in
/-- A sink that is not idle while a call is in progress. -/
theorem busy_iff {point : CopyPoint} {e : Engine T} {call : FlushCall T} (hpoint : point ≠ .idle)
    (hcall : e.inProgress = [call]) : point = .idle ↔ e.inProgress = [] := by
  rw [hcall]
  exact ⟨fun hidle => absurd hidle hpoint, nofun⟩

/-- Every step of the wrapped sink keeps its copies in order. -/
theorem step_copied {a : Action T} (htimeout : 0 ≤ cfg.flushTimeout) (h : Copied cfg events s)
    (hstep : step true host s a = some (s', new)) : Copied cfg (events ++ new) s' := by
  cases a with
  | engine a =>
      obtain ⟨engine, point, hengine, hfollow, rfl⟩ := step_engine hstep
      exact h.engine hengine hfollow
  | copy =>
      obtain ⟨cp, call, byte, hpoint, hcall, hbyte, rfl, rfl⟩ := step_copy hstep
      have hmem : call ∈ s.engine.inProgress := by rw [hcall]; exact List.mem_singleton_self call
      rw [h.flights.bytes_eq htimeout hmem] at hbyte
      have hinner := h.inner
      unfold forwarded at hinner
      refine ⟨h.flights, busy_iff nofun hcall, ?_, ?_⟩
      · intro cp' hcp call' hcall'
        change call' ∈ s.engine.inProgress at hcall'
        rw [hcall, List.mem_singleton] at hcall'
        cases hcp
        subst hcall'
        -- the next byte of the payload comes after what has been copied
        obtain ⟨rest, hrest⟩ := h.copying cp hpoint call' hmem
        rw [← hrest, List.getElem?_append_right (Nat.le_refl _), Nat.sub_self] at hbyte
        obtain ⟨rest', rfl⟩ : ∃ rest', rest = byte :: rest' := by
          cases rest with
          | nil => cases hbyte
          | cons first rest' =>
              cases hbyte
              exact ⟨rest', rfl⟩
        exact ⟨rest', by rw [← hrest, List.append_assoc]; rfl⟩
      · rw [List.append_nil]
        unfold forwarded
        rw [hpoint] at hinner
        exact hinner
  | forward =>
      obtain ⟨cp, call, hpoint, hcall, hlength, rfl, rfl⟩ := step_forward hstep
      have hmem : call ∈ s.engine.inProgress := by rw [hcall]; exact List.mem_singleton_self call
      have hsent := h.flights.bytes_eq htimeout hmem
      have hcopy : cp = call.frame.sent :=
        (h.copying cp hpoint call hmem).eq_of_length (hlength.trans (by rw [hsent]))
      have hinner := h.inner
      unfold forwarded at hinner
      rw [hpoint, if_neg nofun, List.append_nil] at hinner
      refine ⟨h.flights, busy_iff nofun hcall, nofun, ?_⟩
      rw [List.append_nil]
      unfold forwarded
      rw [if_pos rfl, hcall, hinner, hcopy, List.map_append]
      rfl

/-! ## The wrapper is transparent -/

/-- No step of the engine both starts a call and ends one. -/
theorem step_calls_or_returns {e e' : Engine T} {a : Engine.Action T}
    (hstep : e.step host a = some (e', new)) : calls new = [] ∨ returns new = [] := by
  cases Engine.step_cases hstep with
  | assemble | reject | receive | deadline | shutdownDeadline => exact Or.inl (Engine.calls_map _)
  | callReturn => exact Or.inl (Engine.calls_map _)
  | direct | handOver | launch | send | clear => exact Or.inr rfl
  | flushReturn => exact Or.inl rfl

/-- While the sink is idle or in the inner `Flush`, the engine can take each of its steps. -/
theorem Copied.follows (h : Copied cfg events s) {engine : Engine T} {a : Engine.Action T}
    (hpoint : s.point = .idle ∨ s.point = .forwarded)
    (hengine : s.engine.step host a = some (engine, new)) :
    ∃ point, follow s.point new = some point := by
  have hframes := step_inProgress h.flights hengine
  have hle := h.flights.inProgress_le
  have hle' := (Engine.step_flightInv h.flights hengine).inProgress_le
  have hlength := congrArg List.length hframes
  simp only [List.length_append, List.length_map] at hlength
  cases hcalls : calls new with
  | nil =>
      cases hreturns : returns new with
      | nil => exact ⟨s.point, by simp [follow, hcalls, hreturns]⟩
      | cons flush rest =>
          rw [hcalls, hreturns, List.length_nil, List.length_cons] at hlength
          have hrest : rest = [] := List.eq_nil_of_length_eq_zero (by omega)
          -- a call that returns was in progress
          have hforwarded : s.point = .forwarded := by
            refine hpoint.resolve_left fun hidle => ?_
            rw [h.idle.mp hidle, List.length_nil] at hlength
            omega
          exact ⟨.idle, by simp [follow, hcalls, hreturns, hrest, hforwarded]⟩
  | cons call rest =>
      have hreturns : returns new = [] := by
        refine (step_calls_or_returns hengine).resolve_left fun hnone => ?_
        rw [hcalls] at hnone
        cases hnone
      rw [hcalls, hreturns, List.length_nil, List.length_cons] at hlength
      have hrest : rest = [] := List.eq_nil_of_length_eq_zero (by omega)
      have hidle : s.point = .idle :=
        h.idle.mpr (List.eq_nil_of_length_eq_zero (by omega))
      exact ⟨.copying [], by simp [follow, hcalls, hreturns, hrest, hidle]⟩

/-- The sink goes on by itself until it is inside the inner `Flush`. -/
theorem run_copy (host : ByteOrder) {call : FlushCall T} (n : Nat) {cp : List UInt8}
    (hpoint : s.point = .copying cp) (hcall : s.engine.inProgress = [call])
    (hlength : cp.length + n = (s.engine.bytes call).length) :
    ∃ s', run true host s (List.replicate n .copy ++ [.forward]) = some (s', []) ∧
      s'.engine = s.engine ∧ s'.point = .forwarded := by
  induction n generalizing s cp with
  | zero =>
      have hstep : step true host s .forward =
          some ({ s with point := .forwarded, inner := s.inner ++ [.owned cp] }, []) := by
        simp [step, hpoint, hcall, ← hlength]
      exact ⟨_, Transition.run_cons_eq_some.mpr ⟨_, [], [], hstep, rfl, rfl⟩, rfl, rfl⟩
  | succ n ih =>
      have hlt : cp.length < (s.engine.bytes call).length := by omega
      obtain ⟨byte, hbyte⟩ : ∃ byte, (s.engine.bytes call)[cp.length]? = some byte :=
        ⟨_, List.getElem?_eq_getElem hlt⟩
      have hstep : step true host s .copy =
          some ({ s with point := .copying (cp ++ [byte]) }, []) := by
        simp [step, hpoint, hcall, hbyte]
      obtain ⟨s', hrun, hengine, hforwarded⟩ :=
        ih (s := { s with point := .copying (cp ++ [byte]) }) rfl hcall
          (by rw [List.length_append, List.length_singleton, ← hlength]; omega)
      refine ⟨s', ?_, hengine, hforwarded⟩
      exact Transition.run_cons_eq_some.mpr ⟨_, [], [], hstep, hrun, rfl⟩

end Steps

section Runs

variable [Serializable T] [Inhabited T] {host : ByteOrder} {sizeofT : Int64} {cfg : Config}
  {b : Batcher T}

omit [Serializable T] in
/-- A new sink has copied nothing. -/
theorem initial_copied (hnew : Batcher.new sizeofT cfg = .ok b) :
    Copied b.cfg [] (initial b) :=
  ⟨Engine.initial_flightInv hnew, ⟨fun _ => rfl, fun _ => rfl⟩, nofun, rfl⟩

/-- The copies are in order along every run. -/
theorem run_copied (hnew : Batcher.new sizeofT cfg = .ok b) (htimeout : 0 ≤ b.cfg.flushTimeout)
    {actions : List (Action T)} {s : CopyingSink T} {events : List (Engine.Event T)}
    (hrun : run true host (initial b) actions = some (s, events)) : Copied b.cfg events s :=
  Transition.run_invariant (I := fun _ events s => Copied b.cfg events s)
    (fun _ _ _ _ _ _ h hstep => step_copied htimeout h hstep) (initial_copied hnew) hrun

omit [Inhabited T] in
/-- The engine's part of a run is a run of the engine, with the same events. -/
theorem run_engine {actions : List (Action T)} {s : CopyingSink T}
    {events : List (Engine.Event T)}
    (hrun : run true host (initial b) actions = some (s, events)) :
    Engine.run host (Engine.initial b) (engineActions actions) = some (s.engine, events) := by
  refine Transition.run_invariant
    (I := fun actions events s =>
      Engine.run host (Engine.initial b) (engineActions actions) = some (s.engine, events))
    ?_ rfl hrun
  intro actions events s a s' new h hstep
  cases a with
  | engine a =>
      obtain ⟨engine, point, hengine, _, rfl⟩ := step_engine hstep
      have hlast : engineActions (actions ++ [.engine a]) = engineActions actions ++ [a] := by
        simp [engineActions]
      rw [hlast]
      exact Transition.run_append h
        (Transition.run_cons_eq_some.mpr ⟨engine, new, [], hengine, rfl, by simp⟩)
  | copy =>
      obtain ⟨cp, call, byte, _, _, _, rfl, rfl⟩ := step_copy hstep
      simpa [engineActions] using h
  | forward =>
      obtain ⟨cp, call, _, _, _, rfl, rfl⟩ := step_forward hstep
      simpa [engineActions] using h

/-- Every run of the engine is that of a run with the wrapper, which at the end is idle or inside
the inner `Flush`. -/
theorem exists_run (hnew : Batcher.new sizeofT cfg = .ok b) (htimeout : 0 ≤ b.cfg.flushTimeout)
    {actions : List (Engine.Action T)} {e : Engine T} {events : List (Engine.Event T)}
    (hrun : Engine.run host (Engine.initial b) actions = some (e, events)) :
    ∃ actions' s, run true host (initial b) actions' = some (s, events) ∧ s.engine = e ∧
      engineActions actions' = actions ∧ (s.point = .idle ∨ s.point = .forwarded) := by
  refine Transition.run_invariant
    (I := fun actions events e => ∃ actions' s, run true host (initial b) actions' =
      some (s, events) ∧ s.engine = e ∧ engineActions actions' = actions ∧
        (s.point = .idle ∨ s.point = .forwarded))
    ?_ ⟨[], initial b, rfl, rfl, rfl, Or.inl rfl⟩ hrun
  intro actions events e a e' new h hstep
  obtain ⟨actions', s, hrun', rfl, rfl, hpoint⟩ := h
  have hcopied := run_copied hnew htimeout hrun'
  obtain ⟨point, hfollow⟩ := hcopied.follows hpoint hstep
  have hengine : step true host s (.engine a) = some ({ s with engine := e', point }, new) := by
    simp [step, hstep, hfollow]
  have hnext : run true host (initial b) (actions' ++ [.engine a]) =
      some ({ s with engine := e', point }, events ++ new) :=
    Transition.run_append hrun'
      (Transition.run_cons_eq_some.mpr ⟨_, new, [], hengine, rfl, by simp⟩)
  have hactions : engineActions (actions' ++ [.engine a]) = engineActions actions' ++ [a] := by
    simp [engineActions]
  cases point with
  | idle => exact ⟨_, _, hnext, rfl, hactions, Or.inl rfl⟩
  | forwarded => exact ⟨_, _, hnext, rfl, hactions, Or.inr rfl⟩
  | copying cp =>
      -- let the sink go on to the inner call before anything else happens
      have hnext' := run_copied hnew htimeout hnext
      obtain ⟨call, hcall⟩ : ∃ call, e'.inProgress = [call] := hnext'.exists_call nofun
      have hmem : call ∈ e'.inProgress := by rw [hcall]; exact List.mem_singleton_self call
      have hle : cp.length ≤ (e'.bytes call).length := by
        rw [hnext'.flights.bytes_eq htimeout hmem]
        exact (hnext'.copying cp rfl call hmem).length_le
      obtain ⟨s', hcopies, hsame, hforwarded⟩ :=
        run_copy host (s := { s with engine := e', point := .copying cp })
          ((e'.bytes call).length - cp.length) rfl hcall (Nat.add_sub_cancel' hle)
      have hrun'' := Transition.run_append hnext hcopies
      rw [List.append_nil] at hrun''
      refine ⟨_, s', hrun'', hsame, ?_, Or.inr hforwarded⟩
      rw [← hactions]
      simp [engineActions, List.filterMap_append]

/-- A sink behind a `CopyingSink`. The runs of the engine are those with the wrapper: it never
stands in the way. And in every interleaving of the engine with the copying, the inner sink has been
called once for each frame whose flush has returned, and for the one in progress once it has been
forwarded, in this order, each time with a buffer of its own that holds the payload of the frame;
the copy in progress is the beginning of its payload. So whatever the inner sink keeps, it may read
at any later time. -/
theorem copying_sink (hnew : Batcher.new sizeofT cfg = .ok b)
    (htimeout : 0 ≤ b.cfg.flushTimeout) :
    (∀ actions e events, Engine.run host (Engine.initial b) actions = some (e, events) →
      ∃ actions' s, run true host (initial b) actions' = some (s, events) ∧ s.engine = e ∧
        engineActions actions' = actions) ∧
    ∀ actions s events, run true host (initial b) actions = some (s, events) →
      Engine.run host (Engine.initial b) (engineActions actions) = some (s.engine, events) ∧
      (∀ later : Engine T, s.inner.map (Kept.read later) =
        (s.forwarded events).map Frame.sent) ∧
      ∀ cp, s.point = .copying cp →
        ∃ call, s.engine.inProgress = [call] ∧ cp <+: call.frame.sent := by
  constructor
  · intro actions e events hrun
    obtain ⟨actions', s, hrun', hengine, hactions, _⟩ := exists_run hnew htimeout hrun
    exact ⟨actions', s, hrun', hengine, hactions⟩
  · intro actions s events hrun
    have h := run_copied hnew htimeout hrun
    refine ⟨run_engine hrun, ?_, ?_⟩
    · intro later
      rw [h.inner, List.map_map]
      rfl
    · intro cp hcp
      obtain ⟨call, hcall⟩ := h.exists_call (by rw [hcp]; exact nofun)
      exact ⟨call, hcall, h.copying cp hcp call (hcall ▸ List.mem_singleton_self call)⟩

end Runs

/-- A frame is flushed and its payload kept; then the next drain assembles another frame. -/
def keptPayload : List (Action (List UInt8)) :=
  [.engine (.tick (plainTick [[1, 2]] none)), .engine (.enter 0)] ++ List.replicate 10 .copy ++
    [.forward, .engine (.callReturn 0 none), .engine (.tick (plainTick [[3]] none))]

/-- The wrapped sink still reads the payload it was given, and the bare one the bytes of the next
frame. -/
theorem copying_sink_overwritten : ∃ b s s' events events',
    Batcher.new 24 Batcher.shortConfig = .ok b ∧
    run true .little (initial b) keptPayload = some (s, events) ∧
    run false .little (initial b) keptPayload = some (s', events') ∧
    (s.forwarded events).length = 1 ∧ (s'.forwarded events').length = 1 ∧
    s.inner.map (Kept.read s.engine) = (s.forwarded events).map Frame.sent ∧
    s'.inner.map (Kept.read s'.engine) ≠ (s'.forwarded events').map Frame.sent := by
  obtain ⟨b, ⟨s, events⟩, hnew, hrun, hcfg, htest⟩ := exists_of_testNew Batcher.shortConfig
    (fun b => run true .little (initial b) keptPayload)
    (fun b (s, events) => (s.forwarded events).length == 1 &&
      (run false .little (initial b) keptPayload).any fun (s', events') =>
        (s'.forwarded events').length == 1 &&
          s'.inner.map (Kept.read s'.engine) != (s'.forwarded events').map Frame.sent)
    (by decide +kernel)
  rw [Bool.and_eq_true, beq_iff_eq] at htest
  obtain ⟨⟨s', events'⟩, hrun', htest'⟩ := (Option.any_eq_true _ _).mp htest.2
  rw [Bool.and_eq_true, beq_iff_eq, bne_iff_ne] at htest'
  have hsink := (copying_sink hnew (by rw [hcfg]; decide)).2 keptPayload s events hrun
  exact ⟨b, s, s', events, events', hnew, hrun, hrun', htest.1, htest'.1, hsink.2.1 s.engine,
    htest'.2⟩

end CopyingSink

end TickBatch
