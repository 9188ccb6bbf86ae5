import TickBatch.Engine.Accounting
import TickBatch.Engine.Flights

/-!
# Every interleaving is a sequence of drains

The flush goroutines touch the engine through a flag and a buffer of their own, and an error that is
reported out of turn only moves the clock of the log. None of this influences what the drains do:
`assemble` and `settle` give the same result on two batchers that agree on everything else
(`core`). A run of the machine, however its flushes, deadlines and goroutines are interleaved, is
therefore a sequence of calls of `drainAndFlush` in which each flush returns what the select of
`flushWithTimeout` has settled on (`interleaving_sequential`), and what holds of all sequences of
drains holds of all interleavings: `interleaving_accounting` is the accounting of the batcher with
any `FlushTimeout`.
-/

namespace TickBatch

variable {T : Type}

namespace Batcher

/-- What the flush goroutines and the log keep in the batcher. -/
structure Aside where
  timeoutBuf : List UInt8
  flushInFlight : Bool
  lastLogTime : Int64

/-- The batcher with other contents of these fields. -/
def withAside (b : Batcher T) (x : Aside) : Batcher T :=
  { b with
    timeoutBuf := x.timeoutBuf
    flushInFlight := x.flushInFlight
    lastLogTime := x.lastLogTime }

/-- What a batcher has in these fields. -/
def aside (b : Batcher T) : Aside := ⟨b.timeoutBuf, b.flushInFlight, b.lastLogTime⟩

/-- What a drain depends on. -/
def core (b : Batcher T) : Batcher T := b.withAside ⟨[], false, 0⟩

@[simp] theorem core_withAside (b : Batcher T) (x : Aside) : (b.withAside x).core = b.core := rfl

/-- Two batchers with the same core differ in these fields only. -/
theorem eq_withAside {b b' : Batcher T} (h : b'.core = b.core) : b' = b.withAside b'.aside := by
  have hwith := congrArg (withAside · b'.aside) h
  exact hwith

end Batcher

/-- What a drain meets before the flush: the items and the compressor. -/
def Tick.inputs (tick : Tick T) :
    (Nat → List T) × (List UInt8 → List UInt8 → Compressed) := (tick.arrivals, tick.compress)

/-- The effects other than reports of errors. -/
def essential (effects : List (Effect T)) : List (Effect T) :=
  effects.filter fun
    | .onFlushError _ | .slogError _ => false
    | _ => true

@[simp] theorem essential_append (es es' : List (Effect T)) :
    essential (es ++ es') = essential es ++ essential es' := List.filter_append ..

namespace Batcher

/-! ## A drain does not depend on them -/

@[simp] theorem withAside_ring (b : Batcher T) (x : Aside) : (b.withAside x).ring = b.ring := rfl

@[simp] theorem withAside_cfg (b : Batcher T) (x : Aside) : (b.withAside x).cfg = b.cfg := rfl

@[simp] theorem withAside_byteBuffer (b : Batcher T) (x : Aside) :
    (b.withAside x).byteBuffer = b.byteBuffer := rfl

@[simp] theorem withAside_compressBuffer (b : Batcher T) (x : Aside) :
    (b.withAside x).compressBuffer = b.compressBuffer := rfl

theorem push_withAside (b : Batcher T) (x : Aside) (item : T) :
    (b.withAside x).push item = (b.push item).map (withAside · x) := by
  simp only [push, withAside_ring, withAside_cfg]
  cases b.ring.push item b.cfg.backpressure with
  | none => rfl
  | some out =>
      obtain ⟨ring, accepted⟩ := out
      cases accepted <;> rfl

theorem pushAll_withAside (b : Batcher T) (x : Aside) (items : List T) :
    (b.withAside x).pushAll items = (b.pushAll items).map (withAside · x) := by
  unfold pushAll
  induction items generalizing b with
  | nil => rfl
  | cons item items ih =>
      rw [List.foldlM_cons, List.foldlM_cons, push_withAside]
      cases b.push item with
      | error e => rfl
      | ok b' => exact ih b'

/-- The marshaling loop of a batcher with other contents of these fields. -/
def Fill.withAside (f : Fill T) (x : Aside) : Fill T := { f with b := f.b.withAside x }

section Assemble

variable [Serializable T]

theorem fillLoop_withAside (arrivals : Nat → List T) (left : Nat) (f : Fill T) (x : Aside) :
    fillLoop arrivals left (f.withAside x) =
      (fillLoop arrivals left f).map (Fill.withAside · x) := by
  induction left generalizing f with
  | zero => rfl
  | succ left ih =>
      unfold fillLoop
      simp only [Fill.withAside, withAside_byteBuffer, withAside_cfg, pushAll_withAside]
      by_cases hfull : (f.b.byteBuffer.length : Int) - f.offset < f.b.cfg.maxItemSize.toInt
      · simp only [hfull, if_true]
        rfl
      simp only [hfull, if_false]
      cases f.b.pushAll (arrivals f.n) with
      | error e => rfl
      | ok b =>
          simp only [Except.map, bind, Except.bind, withAside_byteBuffer, withAside_ring]
          cases sliceFrom b.byteBuffer f.offset with
          | error e => rfl
          | ok buf =>
              simp only
              cases b.ring.popMarshal buf with
              | none => rfl
              | some out =>
                  obtain ⟨ring, taken⟩ := out
                  cases taken with
                  | none => rfl
                  | some m =>
                      simp only
                      by_cases hbad : m.written ≤ 0 ∨
                          m.written > (f.b.byteBuffer.length : Int) - f.offset
                      · simp only [hbad, if_true]
                        rfl
                      · simp only [hbad, if_false]
                        exact ih
                          { b := { b with ring, byteBuffer := b.byteBuffer.take f.offset ++ m.buf },
                            offset := f.offset + m.written.toNat, n := f.n + 1,
                            items := f.items ++ [m.item],
                            effects := f.effects ++ (arrivals f.n).map .pushed }

theorem fill_withAside (b : Batcher T) (arrivals : Nat → List T) (x : Aside) :
    (b.withAside x).fill arrivals = (b.fill arrivals).map (Fill.withAside · x) := by
  unfold fill
  rw [← fillLoop_withAside]
  rfl

end Assemble

/-- Reports are not essential, and they only move the clock of the log. -/
theorem reportError_core (b : Batcher T) (now : Int64) (err : Error) :
    (b.reportError now err).1.core = b.core ∧ essential (b.reportError now err).2 = [] := by
  unfold reportError
  split
  · exact ⟨rfl, rfl⟩
  · split
    · exact ⟨rfl, rfl⟩
    · exact ⟨rfl, rfl⟩

theorem compress_withAside {tick tick' : Tick T} (h : tick'.compress = tick.compress)
    (b : Batcher T) (payload : List UInt8) (x : Aside) :
    (b.withAside x).compress tick' payload =
      ((b.compress tick payload).1.withAside x, (b.compress tick payload).2) := by
  unfold compress
  rw [h]
  by_cases hc : b.cfg.compressor = true
  · simp only [withAside_cfg, withAside_compressBuffer, hc, if_true]
    cases (tick.compress b.compressBuffer payload).err with
    | some err => rfl
    | none =>
        simp only
        by_cases hrange : (tick.compress b.compressBuffer payload).n < 0 ∨
            (tick.compress b.compressBuffer payload).n >
              (tick.compress b.compressBuffer payload).dst.length
        · simp only [hrange, if_true]
          rfl
        · simp only [hrange, if_false]
          rfl
  · simp only [withAside_cfg, hc]
    rfl

theorem pack_alike {tick tick' : Tick T} (h : tick'.compress = tick.compress) (f : Fill T)
    (keyframe : Bool) (b : Batcher T) (raw payload : List UInt8) (x : Aside) :
    ((f.withAside x).pack tick' keyframe (b.withAside x) raw payload).1.core =
        (f.pack tick keyframe b raw payload).1.core ∧
      ((f.withAside x).pack tick' keyframe (b.withAside x) raw payload).2.1 =
        (f.pack tick keyframe b raw payload).2.1 ∧
      essential ((f.withAside x).pack tick' keyframe (b.withAside x) raw payload).2.2 =
        essential (f.pack tick keyframe b raw payload).2.2 := by
  unfold Fill.pack
  rw [compress_withAside h]
  obtain ⟨b₁, out⟩ := b.compress tick payload
  cases out with
  | error err =>
      obtain ⟨hcore, hreports⟩ := reportError_core b₁ tick.now err
      obtain ⟨hcore', hreports'⟩ := reportError_core (b₁.withAside x) tick'.now err
      simp only
      generalize b₁.reportError tick.now err = out at hcore hreports ⊢
      generalize (b₁.withAside x).reportError tick'.now err = out' at hcore' hreports' ⊢
      refine ⟨hcore'.trans hcore.symm, trivial, ?_⟩
      show essential (f.effects ++ ([.discarded f.items] ++ out'.2)) =
        essential (f.effects ++ ([.discarded f.items] ++ out.2))
      simp only [essential_append, hreports, hreports']
  | ok sent => exact ⟨rfl, rfl, rfl⟩

/-- What a drain makes of a filled buffer depends on the core of the batcher only. -/
theorem finish_alike {tick tick' : Tick T} (h : tick'.compress = tick.compress) (f : Fill T)
    (loop : Loop) (x : Aside) :
    ((f.withAside x).finish loop tick').1.core = (f.finish loop tick).1.core ∧
      ((f.withAside x).finish loop tick').2.1 = (f.finish loop tick).2.1 ∧
      essential ((f.withAside x).finish loop tick').2.2 =
        essential (f.finish loop tick).2.2 := by
  unfold Fill.finish
  exact pack_alike h f (f.b.isKeyframe loop) (f.built _ _ _) (f.raw _) (f.b.payloadOf _ _) x

/-- Two batchers with the same core that meet the same items and the same compressor assemble the
same frame. -/
theorem assemble_alike [Serializable T] {host : ByteOrder} {b b' b₁ : Batcher T} {loop : Loop}
    {tick tick' : Tick T} {out : Option (Frame T)} {es : List (Effect T)} (hs : b.Sized)
    (hs' : b'.Sized) (hcore : b'.core = b.core) (hinputs : tick'.inputs = tick.inputs)
    (h : b.assemble host loop tick = .ok (b₁, out, es)) :
    ∃ b₁' es', b'.assemble host loop tick' = .ok (b₁', out, es') ∧ b₁'.core = b₁.core ∧
      essential es' = essential es := by
  obtain ⟨f, hfill, _⟩ := bind_eq_ok h
  have harrivals : tick'.arrivals = tick.arrivals := congrArg Prod.fst hinputs
  have hfill' : b'.fill tick'.arrivals = .ok (f.withAside b'.aside) := by
    rw [eq_withAside hcore, harrivals, fill_withAside, hfill]
    rfl
  rw [assemble_eq hs hfill] at h
  rw [assemble_eq hs' hfill']
  have h := Except.ok.inj h
  by_cases hn : f.n = 0
  · rw [if_pos hn] at h
    cases h
    exact ⟨_, _, congrArg _ (if_pos hn), rfl, rfl⟩
  rw [if_neg hn] at h
  have hn' : ¬(f.withAside b'.aside).n = 0 := hn
  rw [if_neg hn']
  by_cases hsink : f.b.cfg.sink = none
  · rw [if_pos hsink] at h
    cases h
    exact ⟨_, _, congrArg _ (if_pos hsink), rfl, rfl⟩
  · rw [if_neg hsink] at h
    have hsink' : ¬(f.withAside b'.aside).b.cfg.sink = none := hsink
    obtain ⟨hb, hout, hes⟩ := finish_alike (congrArg Prod.snd hinputs) f loop b'.aside
    rw [h] at hb hout hes
    rw [if_neg hsink']
    refine ⟨_, _, congrArg Except.ok ?_, hb, hes⟩
    exact Prod.ext rfl (Prod.ext hout rfl)

theorem advance_withAside (b : Batcher T) (loop : Loop) (raw : List UInt8) (x : Aside) :
    (b.withAside x).advance loop raw =
      (b.advance loop raw).map fun out => (out.1.withAside x, out.2) := by
  unfold advance
  show (store b.previousState 0 raw >>= _) = _
  cases store b.previousState 0 raw with
  | error e => rfl
  | ok previousState =>
      show (clearStale previousState raw.length loop.prevOffset >>= _) = Except.map _
        (clearStale previousState raw.length loop.prevOffset >>= _)
      cases clearStale previousState raw.length loop.prevOffset <;> rfl

/-- A flush that has failed is counted and reported. -/
theorem settle_failure (b : Batcher T) (loop : Loop) (now : Int64) (frame : Frame T) (err : Error) :
    ∃ b' reports, b.settle loop now frame (some err) = .ok (b', loop, reports) ∧
      b'.core = { b with flushErrs := b.flushErrs + 1 }.core ∧ essential reports = [] := by
  obtain ⟨hcore, hreports⟩ := reportError_core { b with flushErrs := b.flushErrs + 1 } now err
  exact ⟨_, _, rfl, hcore, hreports⟩

/-- Two batchers with the same core settle a flush in the same way. -/
theorem settle_alike {b b' b₁ : Batcher T} {loop loop₁ : Loop} {now : Int64} {frame : Frame T}
    {err : Option Error} {reports : List (Effect T)} (hcore : b'.core = b.core)
    (h : b.settle loop now frame err = .ok (b₁, loop₁, reports)) :
    ∃ b₁' reports', b'.settle loop now frame err = .ok (b₁', loop₁, reports') ∧
      b₁'.core = b₁.core ∧ essential reports = [] ∧ essential reports' = [] := by
  rw [eq_withAside hcore]
  generalize b'.aside = x
  cases err with
  | some err =>
      obtain ⟨b₂, reports₂, hsettle, hcore, hreports⟩ := settle_failure b loop now frame err
      obtain ⟨b₃, reports₃, hsettle', hcore', hreports'⟩ :=
        settle_failure (b.withAside x) loop now frame err
      cases hsettle.symm.trans h
      exact ⟨b₃, reports₃, hsettle', hcore'.trans hcore.symm, hreports, hreports'⟩
  | none =>
      simp only [settle, withAside_cfg] at h ⊢
      by_cases hdelta : b.cfg.deltaEncoding = true
      · simp only [hdelta, if_true] at h ⊢
        obtain ⟨⟨b₂, loop₂⟩, hadvance, h⟩ := bind_eq_ok h
        cases h
        rw [advance_withAside, hadvance]
        exact ⟨_, _, rfl, rfl, rfl, rfl⟩
      · simp only [hdelta] at h ⊢
        cases h
        exact ⟨_, _, rfl, rfl, rfl, rfl⟩

/-- A drain whose frame has been assembled, and whose flush has been settled on a batcher with the
same core, as one call in which the flush returns what was settled on. -/
theorem drain_whole [Serializable T] {host : ByteOrder} {b b₁ c c' : Batcher T}
    {loop loop' : Loop} {tick : Tick T} {frame : Frame T} {es reports : List (Effect T)}
    {now : Int64} {err : Option Error} (hs : b.Sized)
    (hassemble : b.assemble host loop tick = .ok (b₁, some frame, es)) (hcore : c.core = b₁.core)
    (hsettle : c.settle loop now frame err = .ok (c', loop', reports)) :
    ∃ tick' b' new, tick'.inputs = tick.inputs ∧
      b.drainAndFlush host loop tick' = .ok (b', loop', new) ∧ b'.core = c'.core ∧
      essential reports = [] ∧ essential new = essential (es ++ [.flush frame err]) := by
  let whole : Tick T := { tick with flush := fun _ => err, now }
  have hwhole : whole.inputs = tick.inputs := rfl
  obtain ⟨b₂, es₂, hassemble₂, hcore₂, hes₂⟩ := assemble_alike hs hs rfl hwhole hassemble
  obtain ⟨b₃, reports₃, hsettle₃, hcore₃, hreports, hreports₃⟩ :=
    settle_alike (hcore₂.trans hcore.symm) hsettle
  refine ⟨whole, b₃, es₂ ++ ([.flush frame err] ++ reports₃), hwhole, ?_, hcore₃, hreports, ?_⟩
  · unfold drainAndFlush
    rw [hassemble₂]
    show (b₂.settle loop now frame err >>= _) = _
    rw [hsettle₃]
    rfl
  · simp only [essential_append, hes₂, hreports₃, List.append_nil]

/-- One more drain. -/
theorem drains_append [Serializable T] {host : ByteOrder} {b b₁ b₂ : Batcher T}
    {loop loop₁ loop₂ : Loop} {ticks : List (Tick T)} {tick : Tick T} {es new : List (Effect T)}
    (h : b.drains host loop ticks = .ok (b₁, loop₁, es))
    (hdrain : b₁.drainAndFlush host loop₁ tick = .ok (b₂, loop₂, new)) :
    b.drains host loop (ticks ++ [tick]) = .ok (b₂, loop₂, es ++ new) := by
  induction ticks generalizing b loop es with
  | nil =>
      cases h
      simp [drains, hdrain, bind, Except.bind, pure, Except.pure]
  | cons first ticks ih =>
      obtain ⟨⟨b₃, loop₃, es₃⟩, hfirst, h⟩ := bind_eq_ok h
      obtain ⟨⟨b₄, loop₄, rest⟩, hrest, h⟩ := bind_eq_ok h
      cases h
      show (b.drainAndFlush host loop first >>= _) = _
      rw [hfirst]
      show (b₃.drains host loop₃ (ticks ++ [tick]) >>= _) = _
      rw [ih hrest, List.append_assoc]
      rfl

end Batcher

/-- The frame that the drain goroutine is flushing, if it is. -/
def DrainPoint.frame? : DrainPoint T → Option (Frame T)
  | .idle => none
  | .flushing frame | .calling frame | .waiting frame _ => some frame

namespace Engine

/-- The drains that `runLoop` has started. -/
def drainsOf (actions : List (Action T)) : List (Tick T) :=
  actions.filterMap fun
    | .tick tick | .cancel tick => some tick
    | _ => none

variable [Serializable T]

/-- Where the engine is after some drains have left `b` and had the effects `es`: between drains, or
in the drain of `tick`, with its frame assembled and not yet settled. -/
inductive Resumes (host : ByteOrder) (b : Batcher T) (es : List (Effect T)) (e : Engine T)
    (events : List (Event T)) : List (Tick T) → Prop where
  | idle (hidle : e.drain.frame? = none) (hcore : e.b.core = b.core)
      (heffects : essential (effects events) = essential es) : Resumes host b es e events []
  | flushing {tick : Tick T} {frame : Frame T} {b₁ : Batcher T} {es₁ : List (Effect T)}
      (hframe : e.drain.frame? = some frame)
      (hassemble : b.assemble host e.loop tick = .ok (b₁, some frame, es₁))
      (hcore : e.b.core = b₁.core)
      (heffects : essential (effects events) = essential (es ++ es₁)) :
      Resumes host b es e events [tick]

/-- A run as a sequence of drains: `ticks` are the drains that have ended, `rest` the one in
progress, if there is one. -/
structure Serial (host : ByteOrder) (b₀ : Batcher T) (actions : List (Action T))
    (events : List (Event T)) (e : Engine T) (ticks rest : List (Tick T)) (b : Batcher T)
    (es : List (Effect T)) : Prop where
  drains : b₀.drains host Loop.initial ticks = .ok (b, e.loop, es)
  inputs : (drainsOf actions).map Tick.inputs = (ticks ++ rest).map Tick.inputs
  resumes : Resumes host b es e events rest

variable {host : ByteOrder} {b₀ b : Batcher T} {actions : List (Action T)} {a : Action T}
  {events new : List (Event T)} {e e' : Engine T} {ticks rest : List (Tick T)}
  {es : List (Effect T)} {cfg : Config}

/-- A step that neither starts nor ends a drain. -/
theorem Serial.stutter (h : Serial host b₀ actions events e ticks rest b es)
    (hstart : drainsOf [a] = []) (hframe : e'.drain.frame? = e.drain.frame?)
    (hloop : e'.loop = e.loop) (hcore : e'.b.core = e.b.core)
    (hnew : essential (effects new) = []) :
    Serial host b₀ (actions ++ [a]) (events ++ new) e' ticks rest b es := by
  have hactions : drainsOf (actions ++ [a]) = drainsOf actions := by
    unfold drainsOf at hstart ⊢
    rw [List.filterMap_append, hstart, List.append_nil]
  have hevents : essential (effects (events ++ new)) = essential (effects events) := by
    rw [effects_append, essential_append, hnew, List.append_nil]
  refine ⟨by rw [hloop]; exact h.drains, by rw [hactions]; exact h.inputs, ?_⟩
  cases h.resumes with
  | idle hidle hb heffects =>
      exact .idle (hframe.trans hidle) (hcore.trans hb) (hevents.trans heffects)
  | flushing hflushing hassemble hb heffects =>
      rw [← hloop] at hassemble
      exact .flushing (hframe.trans hflushing) hassemble (hcore.trans hb) (hevents.trans heffects)

/-- A drain starts; without a frame to flush it ends at once. -/
theorem Serial.start (h : Serial host b₀ actions events e ticks rest b es)
    (hidle₀ : b₀.Idle Loop.initial) (hinv : FlightInv cfg e) {tick : Tick T}
    (ha : a = .tick tick ∨ a = .cancel tick) (hidle : e.drain = .idle) {b' : Batcher T}
    {out : Option (Frame T)} {new : List (Effect T)} (stage : Stage)
    (hassemble : e.b.assemble host e.loop tick = .ok (b', out, new)) :
    ∃ ticks rest b es, Serial host b₀ (actions ++ [a]) (events ++ new.map .effect)
      { e with b := b', drain := (out.map .flushing).getD .idle, stage } ticks rest b es := by
  have hsized := (Batcher.drains_idle hidle₀ h.drains).sized
  have hactions : drainsOf (actions ++ [a]) = drainsOf actions ++ [tick] := by
    unfold drainsOf
    rw [List.filterMap_append]
    obtain rfl | rfl := ha
    · rfl
    · rfl
  cases h.resumes with
  | flushing hframe =>
      rw [hidle] at hframe
      cases hframe
  | idle _ hcore heffects =>
      obtain ⟨b₁, es₁, hassemble', hcore₁, hes₁⟩ :=
        Batcher.assemble_alike hinv.sized hsized hcore.symm rfl hassemble
      have hinputs : (drainsOf (actions ++ [a])).map Tick.inputs =
          (ticks ++ [tick]).map Tick.inputs := by
        rw [hactions, List.map_append, h.inputs, List.append_nil, List.map_append]
      have hevents : essential (effects (events ++ new.map .effect)) = essential (es ++ es₁) := by
        rw [effects_append, effects_map, essential_append, essential_append, heffects, hes₁]
      cases out with
      | none =>
          have hdrain : b.drainAndFlush host e.loop tick = .ok (b₁, e.loop, es₁) := by
            unfold Batcher.drainAndFlush
            rw [hassemble']
            rfl
          exact ⟨ticks ++ [tick], [], b₁, es ++ es₁, Batcher.drains_append h.drains hdrain,
            by rw [List.append_nil]; exact hinputs, .idle rfl hcore₁.symm hevents⟩
      | some frame =>
          exact ⟨ticks, [tick], b, es, h.drains, hinputs,
            .flushing rfl hassemble' hcore₁.symm hevents⟩

/-- The drain in progress ends once its flush has been settled. -/
theorem Serial.settle (h : Serial host b₀ actions events e ticks rest b es)
    (hidle₀ : b₀.Idle Loop.initial) {frame : Frame T} (hframe : e.drain.frame? = some frame)
    (hstart : drainsOf [a] = []) {now : Int64} {err : Option Error} {b' : Batcher T} {loop : Loop}
    {reports : List (Effect T)}
    (hsettle : e.b.settle e.loop now frame err = .ok (b', loop, reports))
    (hnew : effects new = .flush frame err :: reports) (stage : Stage) :
    ∃ ticks rest b es, Serial host b₀ (actions ++ [a]) (events ++ new)
      { e with b := b', loop, drain := .idle, stage } ticks rest b es := by
  have hsized := (Batcher.drains_idle hidle₀ h.drains).sized
  have hactions : drainsOf (actions ++ [a]) = drainsOf actions := by
    unfold drainsOf at hstart ⊢
    rw [List.filterMap_append, hstart, List.append_nil]
  cases h.resumes with
  | idle hidle =>
      rw [hidle] at hframe
      cases hframe
  | @flushing tick _ b₁ es₁ hframe' hassemble hcore heffects =>
      cases hframe'.symm.trans hframe
      obtain ⟨whole, b₂, es₂, hwhole, hdrain, hcore₂, hreports, hes₂⟩ :=
        Batcher.drain_whole hsized hassemble hcore hsettle
      refine ⟨ticks ++ [whole], [], b₂, es ++ es₂, Batcher.drains_append h.drains hdrain, ?_,
        .idle rfl hcore₂.symm ?_⟩
      · rw [hactions, h.inputs]
        simp [hwhole]
      · have hsplit : effects new = [.flush frame err] ++ reports := hnew
        rw [effects_append, hsplit]
        simp only [essential_append, heffects, hes₂, hreports, List.append_nil, List.append_assoc]

/-- Every step keeps the run a sequence of drains. -/
theorem step_serial (h : Serial host b₀ actions events e ticks rest b es)
    (hidle₀ : b₀.Idle Loop.initial) (hinv : FlightInv cfg e)
    (hstep : step host e a = some (e', new)) :
    ∃ ticks rest b es, Serial host b₀ (actions ++ [a]) (events ++ new) e' ticks rest b es := by
  cases step_cases hstep with
  | assemble stage ha hidle hassemble => exact h.start hidle₀ hinv ha hidle stage hassemble
  | direct hdrain _ =>
      exact ⟨_, _, _, _, h.stutter rfl (by rw [hdrain]; rfl) rfl rfl rfl⟩
  | reject hdrain _ _ hsettle =>
      exact h.settle hidle₀ (by rw [hdrain]; rfl) rfl hsettle (effects_map _) _
  | handOver hdrain _ _ _ =>
      exact ⟨_, _, _, _, h.stutter rfl (by rw [hdrain]; rfl) rfl rfl rfl⟩
  | @callReturn now frame err _ _ reports hdrain hsettle =>
      have hnew : effects (.returned frame frame.sent err ::
          (Effect.flush frame err :: reports).map .effect) = .flush frame err :: reports :=
        effects_map _
      exact h.settle hidle₀ (by rw [hdrain]; rfl) rfl hsettle hnew _
  | receive hdrain _ _ hsettle =>
      exact h.settle hidle₀ (by rw [hdrain]; rfl) rfl hsettle (effects_map _) _
  | deadline hdrain hsettle =>
      exact h.settle hidle₀ (by rw [hdrain]; rfl) rfl hsettle (effects_map _) _
  | shutdownDeadline _ _ =>
      obtain ⟨hcore, hreports⟩ :=
        Batcher.reportError_core e.b _ (.shutdownTimeout e.b.cfg.shutdownTimeout)
      exact ⟨_, _, _, _, h.stutter rfl rfl rfl hcore (by rw [effects_map]; exact hreports)⟩
  | launch | flushReturn | send | clear => exact ⟨_, _, _, _, h.stutter rfl rfl rfl rfl rfl⟩

/-- Every run is a sequence of drains. -/
theorem run_serial [Inhabited T] {sizeofT : Int64} (hnew : Batcher.new sizeofT cfg = .ok b₀)
    (hrun : run host (initial b₀) actions = some (e, events)) :
    ∃ ticks rest b es, Serial host b₀ actions events e ticks rest b es := by
  have hinit : Serial host b₀ [] [] (initial b₀) [] [] b₀ [] := ⟨rfl, rfl, .idle rfl rfl rfl⟩
  refine (Transition.run_invariant (I := fun actions events e => FlightInv b₀.cfg e ∧
    ∃ ticks rest b es, Serial host b₀ actions events e ticks rest b es) ?_
    ⟨initial_flightInv hnew, _, _, _, _, hinit⟩ hrun).2
  rintro actions events e a e' new ⟨hinv, ticks, rest, b, es, h⟩ hstep
  exact ⟨step_flightInv hinv hstep, step_serial h (Batcher.new_idle hnew) hinv hstep⟩

/-- For every configuration that `New` accepts, whatever its `FlushTimeout`, and every interleaving
of the drain goroutine, the flush goroutines, the deadlines and the shutdown: the drains that have
ended are a sequence of calls of `drainAndFlush` on the items that the run has met, each with some
outcome of its flush. Between drains the engine is in the state which that sequence leaves, with the
same effects, but for the reports of errors, the log time and what the flush goroutines keep; during
a drain it is so once the next call has assembled its frame. -/
theorem interleaving_sequential [Inhabited T] {sizeofT : Int64}
    (hnew : Batcher.new sizeofT cfg = .ok b₀)
    (hrun : run host (initial b₀) actions = some (e, events)) :
    ∃ ticks rest b es, b₀.drains host Loop.initial ticks = .ok (b, e.loop, es) ∧
      (drainsOf actions).map Tick.inputs = (ticks ++ rest).map Tick.inputs ∧
      (e.drain.frame? = none →
        rest = [] ∧ e.b.core = b.core ∧ essential (effects events) = essential es) ∧
      ∀ frame, e.drain.frame? = some frame → ∃ tick b₁ es₁, rest = [tick] ∧
        b.assemble host e.loop tick = .ok (b₁, some frame, es₁) ∧ e.b.core = b₁.core ∧
        essential (effects events) = essential (es ++ es₁) := by
  obtain ⟨ticks, rest, b, es, hdrains, hinputs, hresumes⟩ := run_serial hnew hrun
  refine ⟨ticks, rest, b, es, hdrains, hinputs, ?_⟩
  cases hresumes with
  | idle hidle hcore heffects =>
      refine ⟨fun _ => ⟨rfl, hcore, heffects⟩, fun frame hframe => ?_⟩
      rw [hidle] at hframe
      cases hframe
  | flushing hframe hassemble hcore heffects =>
      refine ⟨fun hidle => ?_, fun frame' hframe' => ?_⟩
      · rw [hidle] at hframe
        cases hframe
      · cases hframe.symm.trans hframe'
        exact ⟨_, _, _, rfl, hassemble, hcore, heffects⟩

/-- A flush has been given up while its goroutine is still running, and the next drain is at its
frame. -/
theorem interleaving_sequential_abandoned : ∃ b e events ticks b' es,
    Batcher.new 24 { Batcher.shortConfig with flushTimeout := 1 } = .ok b ∧
    run .little (initial b) abandonedFlush = some (e, events) ∧
    e.drain.frame?.isSome = true ∧
    b.drains .little Loop.initial ticks = .ok (b', e.loop, es) ∧ ticks.length = 1 := by
  obtain ⟨b, ⟨e, events⟩, hnew, hrun, _, htest⟩ := exists_of_testNew
    { Batcher.shortConfig with flushTimeout := 1 } (fun b => run .little (initial b) abandonedFlush)
    (fun _ out => out.1.drain.frame?.isSome) (by decide +kernel)
  obtain ⟨frame, hframe⟩ := Option.isSome_iff_exists.mp htest
  obtain ⟨ticks, rest, b', es, hdrains, hinputs, _, hflushing⟩ := interleaving_sequential hnew hrun
  obtain ⟨tick, _, _, rfl, _⟩ := hflushing frame hframe
  have hlength := congrArg List.length hinputs
  rw [List.length_map, List.length_map, List.length_append, List.length_singleton] at hlength
  have htwo : (drainsOf abandonedFlush).length = 2 := rfl
  exact ⟨b, e, events, ticks, b', es, hnew, hrun, htest, hdrains, by omega⟩

end Engine

/-! ## Loss accounting for every interleaving -/

theorem filterMap_essential {α : Type} {f : Effect T → Option α}
    (hcallback : ∀ err, f (.onFlushError err) = none) (hlog : ∀ err, f (.slogError err) = none)
    (es : List (Effect T)) : (essential es).filterMap f = es.filterMap f := by
  unfold essential
  rw [List.filterMap_filter]
  refine congrArg (List.filterMap · es) (funext fun effect => ?_)
  cases effect with
  | onFlushError err => exact (hcallback err).symm
  | slogError err => exact (hlog err).symm
  | _ => rfl

@[simp] theorem attempts_essential (es : List (Effect T)) : attempts (essential es) = attempts es :=
  filterMap_essential (fun _ => rfl) (fun _ => rfl) es

/-- The flushes are essential. -/
theorem attempts_congr {es es' : List (Effect T)} (h : essential es' = essential es) :
    attempts es' = attempts es := by
  rw [← attempts_essential, h, attempts_essential]

@[simp] theorem pushes_essential (es : List (Effect T)) : pushes (essential es) = pushes es :=
  filterMap_essential (fun _ => rfl) (fun _ => rfl) es

@[simp] theorem discards_essential (es : List (Effect T)) : discards (essential es) = discards es :=
  filterMap_essential (fun _ => rfl) (fun _ => rfl) es

namespace Batcher

open TickBatch.Ring (depth)

/-- What holds of a batcher with these effects so far, while the frames `inFlush` are being
flushed. The counters are compared modulo their width. -/
structure Balanced (b : Batcher T) (effects : List (Effect T)) (inFlush : List (Frame T)) :
    Prop where
  /-- every pushed item is accounted for once -/
  items : UInt64.ofNat (pushes effects).length =
    b.dropped + b.ring.evicted + b.truncated + b.flushedItems + depth b.ring +
      UInt64.ofNat (undelivered effects).length +
      UInt64.ofNat (inFlush.flatMap Frame.items).length
  /-- the payloads hold pushed items, each at most once and in push order -/
  order : (attempted effects ++ inFlush.flatMap Frame.items).Sublist (pushes effects)
  sequence : b.sequenceID = (b.flushedBatches + b.flushErrs).toUInt32 +
    UInt32.ofNat (compressFailures b.cfg effects) + UInt32.ofNat inFlush.length
  batches : b.flushedBatches = UInt64.ofNat (delivered effects).length
  flushed : b.flushedItems = UInt64.ofNat ((delivered effects).flatMap Frame.items).length
  errors : b.flushErrs = UInt64.ofNat (failures (attempts effects)).length
  bytes : b.bytesFlushed =
    UInt64.ofNat ((delivered effects).map fun frame => frame.sent.length).sum

/-- The balance depends on the core of the batcher and the essential effects only. -/
theorem Balanced.congr {b b' : Batcher T} {es es' : List (Effect T)} {inFlush : List (Frame T)}
    (h : b.Balanced es inFlush) (hcore : b'.core = b.core) (hes : essential es' = essential es) :
    b'.Balanced es' inFlush := by
  have hattempts := attempts_congr hes
  have hpushes : pushes es' = pushes es := by
    rw [← pushes_essential, hes, pushes_essential]
  have hdiscards : discards es' = discards es := by
    rw [← discards_essential, hes, discards_essential]
  rw [eq_withAside hcore]
  refine ⟨?_, ?_, ?_, ?_, ?_, ?_, ?_⟩
  · rw [hpushes, undelivered, hattempts, hdiscards]
    exact h.items
  · rw [attempted, hattempts, hpushes]
    exact h.order
  · rw [compressFailures, hdiscards]
    exact h.sequence
  · rw [delivered, hattempts]
    exact h.batches
  · rw [delivered, hattempts]
    exact h.flushed
  · rw [hattempts]
    exact h.errors
  · rw [delivered, hattempts]
    exact h.bytes

/-- The calls of a run of drains. -/
theorem drains_runCalls [Serializable T] {host : ByteOrder} {b b' : Batcher T} {loop loop' : Loop}
    {ticks : List (Tick T)} {es : List (Effect T)}
    (h : b.drains host loop ticks = .ok (b', loop', es)) :
    ∃ journal, runCalls host (b, loop) (ticks.map .drain) = some ((b', loop'), journal) ∧
      effectsOf journal = es := by
  induction ticks generalizing b loop es with
  | nil =>
      cases h
      exact ⟨[], rfl, rfl⟩
  | cons tick ticks ih =>
      obtain ⟨⟨b₁, loop₁, first⟩, hfirst, h⟩ := bind_eq_ok h
      obtain ⟨⟨b₂, loop₂, others⟩, hothers, h⟩ := bind_eq_ok h
      cases h
      obtain ⟨journal, hrun, heffects⟩ := ih hothers
      refine ⟨record (b.drainVerdicts tick.arrivals) first ++ journal,
        Transition.run_cons_eq_some.mpr ⟨(b₁, loop₁), _, journal, ?_, hrun, rfl⟩, ?_⟩
      · simp only [call, hfirst]
      · rw [effectsOf_append, effectsOf_record, heffects]

/-- The accepted items are among the pushed ones. -/
theorem acceptedItems_sublist (log : List (T × Bool)) :
    (acceptedItems log).Sublist (log.map Prod.fst) := by
  induction log with
  | nil => exact .slnil
  | cons entry log ih =>
      obtain ⟨item, accepted⟩ := entry
      cases accepted with
      | true => exact ih.cons_cons item
      | false => exact ih.cons item

/-- A sequence of drains is balanced. -/
theorem drains_balanced [Inhabited T] [Serializable T] {host : ByteOrder} {sizeofT : Int64}
    {cfg : Config} {b b' : Batcher T} {loop : Loop} {ticks : List (Tick T)}
    {es : List (Effect T)} (hnew : Batcher.new sizeofT cfg = .ok b)
    (hsize : 2 ≤ b.cfg.queueSize)
    (h : b.drains host Loop.initial ticks = .ok (b', loop, es)) : b'.Balanced es [] := by
  obtain ⟨journal, hrun, rfl⟩ := drains_runCalls h
  obtain ⟨_, _, _, hrun', _, _, k, queue, exits, hk, hbooks⟩ :=
    run_books host hnew hsize (ticks.map .drain)
  cases hrun.symm.trans hrun'
  obtain ⟨hcalls, hitems, horder, hsequence, hbytes⟩ := hbooks.accounted hk
  refine ⟨?_, ?_, ?_, hbooks.tally.flushedBatches, hbooks.tally.flushedItems,
    hbooks.tally.flushErrs, hbytes⟩
  · rw [hitems]
    exact (UInt64.add_zero _).symm
  · rw [← hcalls]
    exact (List.append_nil _).symm ▸ horder.trans (acceptedItems_sublist _)
  · rw [hsequence]
    exact (UInt32.add_zero _).symm

/-- Before its flush has failed, a drain has the frame in flight. -/
theorem Balanced.unsettle {b : Batcher T} {es : List (Effect T)} {frame : Frame T} {err : Error}
    (h : { b with flushErrs := b.flushErrs + 1 }.Balanced
      (es ++ [Effect.flush frame (some err)]) []) : b.Balanced es [frame] := by
  obtain ⟨hitems, horder, hsequence, hbatches, hflushed, herrors, hbytes⟩ := h
  have hattempts : attempts (es ++ [.flush frame (some err)]) =
      attempts es ++ [(frame, some err)] := attempts_append _ _
  have hdelivered : delivered (es ++ [.flush frame (some err)]) = delivered es := by
    rw [delivered, hattempts, successes_append]
    exact List.append_nil _
  have hpushes : pushes (es ++ [.flush frame (some err)]) = pushes es := by
    rw [pushes_append]
    exact List.append_nil _
  have hdiscards : discards (es ++ [.flush frame (some err)]) = discards es := by
    rw [discards_append]
    exact List.append_nil _
  rw [hdelivered] at hbatches hflushed hbytes
  refine ⟨?_, ?_, ?_, hbatches, hflushed, ?_, hbytes⟩
  · have hcount : (undelivered (es ++ [.flush frame (some err)])).length =
        (undelivered es).length + frame.items.length := by
      rw [undelivered, undelivered, hattempts, hdiscards, failures_append]
      simp [failures]
      omega
    rw [hpushes, hcount, UInt64.ofNat_add, ← UInt64.add_assoc] at hitems
    rw [List.flatMap_singleton]
    exact hitems.trans (UInt64.add_zero _)
  · rw [hpushes, attempted_append, List.flatMap_nil, List.append_nil] at horder
    exact horder
  · have hfailures : compressFailures b.cfg (es ++ [.flush frame (some err)]) =
        compressFailures b.cfg es := by
      rw [compressFailures, compressFailures, hdiscards]
    have hsequence : b.sequenceID = (b.flushedBatches + (b.flushErrs + 1)).toUInt32 +
        UInt32.ofNat (compressFailures b.cfg (es ++ [.flush frame (some err)])) :=
      hsequence.trans (UInt32.add_zero _)
    rw [hsequence, hfailures, ← UInt64.add_assoc, UInt64.toUInt32_add, UInt32.add_assoc,
      UInt32.add_comm (UInt64.toUInt32 1), ← UInt32.add_assoc]
    rfl
  · rw [hattempts, failures_append, List.length_append, UInt64.ofNat_add] at herrors
    exact (UInt64.add_left_inj _).mp herrors

end Batcher

namespace Engine

section Accounting

variable [Serializable T] [Inhabited T] {host : ByteOrder} {sizeofT : Int64} {cfg : Config}
  {b : Batcher T} {actions : List (Action T)} {e : Engine T} {events : List (Event T)}

/-- A run that is a sequence of drains is balanced. -/
theorem Serial.balanced {b' : Batcher T} {ticks rest : List (Tick T)} {es : List (Effect T)}
    (h : Serial host b actions events e ticks rest b' es) (hnew : Batcher.new sizeofT cfg = .ok b)
    (hsize : 2 ≤ b.cfg.queueSize) : e.b.Balanced (effects events) e.drain.frame?.toList := by
  obtain ⟨hdrains, _, hresumes⟩ := h
  cases hresumes with
  | idle hidle hcore heffects =>
      rw [hidle]
      exact (Batcher.drains_balanced hnew hsize hdrains).congr hcore heffects
  | @flushing tick frame b₁ es₁ hframe hassemble hcore heffects =>
      rw [hframe]
      have hidle := Batcher.drains_idle (Batcher.new_idle hnew) hdrains
      -- had the flush failed by now, the drain would be one more call
      obtain ⟨b₂, reports, hsettle, hcore₂, _⟩ :=
        e.b.settle_failure e.loop 0 frame .flushTimeout
      obtain ⟨_, b₃, es₃, _, hdrain, hcore₃, _, hes₃⟩ :=
        Batcher.drain_whole hidle.sized hassemble hcore hsettle
      have hbalanced := Batcher.drains_balanced hnew hsize (Batcher.drains_append hdrains hdrain)
      have heffects₃ : essential (effects events ++ [.flush frame (some .flushTimeout)]) =
          essential (es ++ es₃) := by
        simp only [essential_append, heffects, hes₃, List.append_assoc]
      exact (hbalanced.congr (hcore₃.trans hcore₂).symm heffects₃).unsettle

end Accounting

end Engine

end TickBatch
