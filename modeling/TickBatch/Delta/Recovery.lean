import TickBatch.Delta.Resync
import TickBatch.Delta.Timeouts
import TickBatch.Engine.Cadence
import TickBatch.Engine.Delivery

/-!
# Recovery from a late delivery

A flush that returns nil after its deadline puts sender and receiver out of step. This does not
last: the sender's baseline is in order in every state of every interleaving, because a run is a
sequence of drains (`interleaving_sequential`), so the next keyframe that is delivered in time
brings the receiver back, whatever state it is in (`timeout_resync`), and a keyframe is due again
after `KeyframeInterval` frames that the engine knows to be delivered (`interleaving_cadence`).
-/

namespace TickBatch

variable {T : Type}

namespace Batcher

/-- What the flush goroutines and the log keep does not concern the delta encoding. -/
theorem Sender.of_core {b b' : Batcher T} {loop : Loop} {prev : List UInt8} {j : Nat}
    (h : b.Sender loop prev j) (hcore : b'.core = b.core) (hs : b'.Sized) :
    b'.Sender loop prev j := by
  rw [eq_withAside hcore] at hs ⊢
  exact ⟨hs, h.delta, ⟨h.baseline.state, h.baseline.offset⟩, h.cycle⟩

/-- Whether a drain can be decompressed depends on its compressor only. -/
theorem Inverts.of_inputs {decompress : List UInt8 → List UInt8} {tick tick' : Tick T}
    (h : Inverts decompress tick) (hinputs : tick'.inputs = tick.inputs) :
    Inverts decompress tick' := by
  have hcompress : tick'.compress = tick.compress := congrArg Prod.snd hinputs
  unfold Inverts
  rw [hcompress]
  exact h

end Batcher

namespace Engine

open Batcher (Link Sender recovered receive after unpack Inverts)

variable [Serializable T] [Inhabited T] {cfg : Config} {decompress : List UInt8 → List UInt8}
  {host : ByteOrder} {sizeofT : Int64} {b : Batcher T} {e e₁ e₂ e₃ : Engine T}
  {actions before later : List (Action T)} {events new events₁ events₂ : List (Event T)}
  {frame : Frame T} {i : Nat}

omit [Inhabited T] in
/-- The drains of a run are those that its actions have started, with the same compressors. -/
theorem Serial.inverts {b₀ : Batcher T} {es : List (Effect T)} {ticks rest : List (Tick T)}
    (h : Serial host b₀ actions events e ticks rest b es)
    (hinv : ∀ a ∈ actions, ∀ tick, a.tick? = some tick → Inverts decompress tick) :
    ∀ tick ∈ ticks ++ rest, Inverts decompress tick := by
  intro tick htick
  have hmem : tick.inputs ∈ (drainsOf actions).map Tick.inputs := by
    rw [h.inputs]
    exact List.mem_map_of_mem htick
  obtain ⟨started, hstarted, hinputs⟩ := List.mem_map.mp hmem
  obtain ⟨a, ha, hsome⟩ := List.mem_filterMap.mp hstarted
  exact (hinv a ha started hsome).of_inputs hinputs.symm

/-- In every state of every interleaving in which a frame is being flushed, the engine is a sender,
and the frame is linked to its baseline. -/
theorem run_link (hnew : Batcher.new sizeofT cfg = .ok b) (hdelta : b.cfg.deltaEncoding = true)
    (hinv : ∀ a ∈ actions, ∀ tick, a.tick? = some tick → Inverts decompress tick)
    (hrun : run host (initial b) actions = some (e, events))
    (hframe : e.drain.frame? = some frame) :
    ∃ base j, e.b.Sender e.loop base j ∧ Link b.cfg decompress base j frame := by
  obtain ⟨ticks, rest, b', es, hserial⟩ := run_serial hnew hrun
  cases hserial.resumes with
  | idle hidle =>
      rw [hidle] at hframe
      cases hframe
  | @flushing tick frame' b₁ es₁ hframe' hassemble hcore heffects =>
      cases hframe'.symm.trans hframe
      obtain ⟨hcfg, base, j, hsender⟩ :=
        (Batcher.new_sender hnew hdelta).drains hserial.drains
      obtain ⟨_, hsender₁, _, hplaced⟩ := hsender.assemble hassemble
      have htick := hserial.inverts hinv tick (List.mem_append_right _ (List.mem_singleton_self _))
      have hlink : Link b'.cfg decompress base j frame :=
        ⟨(hplaced frame rfl).1, (hplaced frame rfl).2 decompress htick⟩
      rw [hcfg] at hlink
      exact ⟨base, j, hsender₁.of_core hcore (run_flightInv hnew hrun).sized, hlink⟩

omit [Inhabited T] [Serializable T] in
/-- A keyframe that the drain goroutine waits for brings sender and receiver in step. -/
theorem ChainInv.of_keyframe {base : List UInt8} {j : Nat} {flight : Flight T}
    (hcfg : e.b.cfg = cfg) (hsender : e.b.Sender e.loop base j)
    (hlink : Link cfg decompress base j frame) (hkey : frame.keyframe = true)
    (hdrain : e.drain = .waiting frame i) (hflight : e.flights[i]? = some flight)
    (hframe : flight.frame = frame) (hsent : e.snapshot flight = frame.sent) :
    ChainInv cfg decompress [.returned flight.frame (e.snapshot flight) none]
      (e.setStage i (.returned none)) base j := by
  subst hframe
  have hpending : (e.setStage i (.returned none)).pending = some flight.frame := by
    simp [pending, show (e.setStage i (.returned none)).drain = e.drain from rfl, hdrain,
      getElem?_setStage, hflight, FlightStage.outcome]
  have hrecover := hlink.reconstruct_keyframe hkey {}
  have hpayloads : payloads cfg decompress [.returned flight.frame (e.snapshot flight) none] =
      [unpack cfg decompress flight.frame.sent] := by
    rw [hsent]
    rfl
  refine ⟨hcfg, hsender, ?_, ?_, ?_, ?_⟩
  · rw [show (e.setStage i (.returned none)).drain = e.drain from rfl, hdrain]
    refine ⟨hlink, { flight with stage := .returned none }, ?_, rfl, hsent⟩
    rw [getElem?_setStage, if_pos rfl, hflight]
    rfl
  · rw [hpayloads, hpending]
    exact congrArg Prod.fst hrecover
  · rw [hpayloads]
    exact congrArg ([·]) (congrArg Prod.snd hrecover)
  · rw [hpending]
    rfl

/-- For every configuration with delta encoding and a positive `FlushTimeout`, every interleaving,
whatever frames were delivered late before, and every state of the receiver: once a keyframe is
delivered that the drain goroutine waits for, the receiver recovers it and every frame delivered
after it, as long as every further delivery is one that the drain goroutine waits for and learns of,
and no frame is taken for a keyframe. -/
theorem timeout_resync (hnew : Batcher.new sizeofT cfg = .ok b)
    (hdelta : b.cfg.deltaEncoding = true) (htimeout : 0 < b.cfg.flushTimeout)
    (hinv : ∀ a ∈ before ++ later, ∀ tick, a.tick? = some tick → Inverts decompress tick)
    (hbefore : run host (initial b) before = some (e₁, events₁))
    (hdrain : e₁.drain = .waiting frame i) (hkey : frame.keyframe = true)
    (hstep : step host e₁ (.flushReturn i none) = some (e₂, new))
    (hlater : run host e₂ later = some (e₃, events₂))
    (hok : Transition.Along (step host) InStep e₂ later) (d : Codec.DeltaReconstructor) :
    receive d (payloads b.cfg decompress (new ++ events₂)) =
        (deliveries (new ++ events₂)).map (fun delivery => recovered delivery.1) ∧
      advances (new ++ events₂) ++ e₃.pending.toList =
        (deliveries (new ++ events₂)).map Prod.fst := by
  have hflightInv := run_flightInv hnew hbefore
  obtain ⟨base, j, hsender, hlink⟩ := run_link hnew hdelta
    (fun a ha => hinv a (List.mem_append_left _ ha)) hbefore (by rw [hdrain]; rfl)
  obtain ⟨flight, hflight, hframe⟩ := (run_truthful hnew hbefore).own frame i hdrain
  cases step_cases hstep with
  | assemble stage ha => rcases ha with ha | ha <;> cases ha
  | flushReturn hflight' hstage =>
      cases hflight.symm.trans hflight'
      have hsent : e₁.snapshot flight = frame.sent := by
        rw [← hframe]
        exact hflightInv.snapshot_eq (Int64.le_of_lt htimeout)
          (List.mem_of_getElem? hflight) (by rw [hstage]; rfl)
      have hinit := ChainInv.of_keyframe hflightInv.cfg_eq hsender hlink hkey hdrain hflight hframe
        hsent
      have hstart : Chained b.cfg decompress [] [.returned flight.frame (e₁.snapshot flight) none]
          (e₁.setStage i (.returned none)) := fun _ => ⟨base, j, hinit⟩
      obtain ⟨base', j', h⟩ := Transition.run_invariant_along_from (I := Chained b.cfg decompress)
        (fun _ _ _ _ _ _ h hok hstep => step_chained h htimeout hok hstep) hlater hok hstart
        fun a ha => hinv a (List.mem_append_right _ ha)
      refine ⟨?_, h.advanced⟩
      -- the keyframe is recovered by every receiver, and leaves them all in the same state
      rw [← h.recovered]
      unfold payloads
      rw [deliveries_append, List.map_append]
      show receive d (unpack b.cfg decompress (e₁.snapshot flight) :: _) =
        receive {} (unpack b.cfg decompress (e₁.snapshot flight) :: _)
      unfold receive
      rw [hsent, hlink.reconstruct_keyframe hkey d, hlink.reconstruct_keyframe hkey {}]

/-- For every configuration with delta encoding and a `KeyframeInterval` of `K`, whatever its
`FlushTimeout`, and every interleaving: a frame whose flush has been settled was sent as a keyframe
if and only if `K` divides the number of frames that the engine had settled as delivered before it,
and the same is true of the frame that is being flushed. However many frames were given up, lost or
delivered late, the next keyframe is due after less than `K` frames that become the baseline. -/
theorem interleaving_cadence (hnew : Batcher.new sizeofT cfg = .ok b)
    (hdelta : b.cfg.deltaEncoding = true) (hinterval : 1 ≤ b.cfg.keyframeInterval)
    (hrun : run host (initial b) actions = some (e, events)) :
    (∀ k frame err, (attempts (effects events))[k]? = some (frame, err) →
      (frame.SentAsKeyframe ↔ b.cfg.keyframeInterval.toNat ∣
        (successes ((attempts (effects events)).take k)).length)) ∧
    ∀ frame, e.drain.frame? = some frame →
      (frame.SentAsKeyframe ↔ b.cfg.keyframeInterval.toNat ∣ (advances events).length) := by
  have hpos : 0 < b.cfg.keyframeInterval := UInt32.lt_of_lt_of_le (by decide) hinterval
  obtain ⟨ticks, rest, b', es, hserial⟩ := run_serial hnew hrun
  obtain ⟨journal, hcalls, rfl⟩ := Batcher.drains_runCalls hserial.drains
  obtain ⟨hcfg, hpaced⟩ := Batcher.run_paced hnew hdelta hcalls
  have hplace : ∀ k frame err, (attempts (effectsOf journal))[k]? = some (frame, err) →
      (frame.SentAsKeyframe ↔ b.cfg.keyframeInterval.toNat ∣
        (successes ((attempts (effectsOf journal)).take k)).length) := by
    intro k frame err hget
    obtain ⟨prev, hplaced⟩ := hpaced.placed k frame err hget
    rw [hcfg] at hplaced
    exact hplaced.sentAsKeyframe_iff hpos
  cases hserial.resumes with
  | idle hidle hcore heffects =>
      refine ⟨?_, fun frame hframe => ?_⟩
      · rw [attempts_congr heffects]
        exact hplace
      · rw [hidle] at hframe
        cases hframe
  | @flushing tick frame b₁ es₁ hframe hassemble hcore heffects =>
      obtain ⟨prev, hsender⟩ := hpaced.sender
      obtain ⟨_, _, hquiet, hplaced⟩ := hsender.assemble hassemble
      have hattempts : attempts (effects events) = attempts (effectsOf journal) := by
        rw [attempts_congr heffects, attempts_append, hquiet, List.append_nil]
      refine ⟨?_, fun frame' hframe' => ?_⟩
      · rw [hattempts]
        exact hplace
      · cases hframe.symm.trans hframe'
        have hturn := (hplaced frame rfl).1
        rw [hcfg] at hturn
        unfold advances delivered
        rw [hattempts]
        exact hturn.sentAsKeyframe_iff hpos

/-! ## A concrete run -/

/-- A small delta-encoding configuration with a flush timeout, and a keyframe every two frames. -/
def resyncConfig : Config := { Batcher.deltaConfig 2 with flushTimeout := 1000000 }

/-- A keyframe, a delta frame that is delivered late, another one, and a keyframe that is being
flushed. -/
def damaged : List (Action (List UInt8)) :=
  timelyDrain [[1, 2]] 0 ++ lateDrain [[3]] 1 none ++ timelyDrain [[4]] 2 ++
    [.tick (plainTick [[5, 6]] none), .enter 0, .launch 3]

/-- The drain goroutine learns of the keyframe, and one more frame is delivered. -/
def repaired : List (Action (List UInt8)) :=
  [.send 3, .receive 0, .clear 3] ++ timelyDrain [[7]] 4

/-- Whether the receiver has recovered all that it was given. -/
def allRecovered (d : Codec.DeltaReconstructor) (events : List (Event (List UInt8))) : Bool :=
  decide (receive d (payloads resyncConfig id events) =
    (deliveries events).map fun delivery => recovered delivery.1)

/-- The frame of the flight that the drain goroutine waits for. -/
def awaitedFrame (e : Engine T) (i : Nat) : Option (Frame T) :=
  match e.drain with
  | .waiting frame j => if i = j then some frame else none
  | _ => none

omit [Serializable T] [Inhabited T] in
theorem waiting_of_awaitedFrame {e : Engine T} {i : Nat} {frame : Frame T}
    (h : e.awaitedFrame i = some frame) : e.drain = .waiting frame i := by
  unfold awaitedFrame at h
  split at h
  · rename_i hdrain
    split at h
    · rename_i hij
      cases h
      rw [hdrain, hij]
    · cases h
  · cases h

/-- The receiver has lost a frame to a late delivery. The keyframe brings it back, and it recovers
the frame after it. -/
theorem timeout_resync_damaged : ∃ b e₁ events₁ e₂ new e₃ events₂,
    Batcher.new 24 resyncConfig = .ok b ∧
    run .little (initial b) damaged = some (e₁, events₁) ∧
    step .little e₁ (.flushReturn 3 none) = some (e₂, new) ∧
    run .little e₂ repaired = some (e₃, events₂) ∧
    allRecovered {} events₁ = false ∧ (deliveries events₂).length = 1 ∧
    receive (after {} (payloads b.cfg id events₁)) (payloads b.cfg id (new ++ events₂)) =
      (deliveries (new ++ events₂)).map fun delivery => recovered delivery.1 := by
  obtain ⟨b, ⟨e₁, events₁⟩, hnew, hdamaged, hcfg, htest⟩ := exists_of_testNew resyncConfig
    (fun b => run .little (initial b) damaged)
    (fun _ out => !allRecovered {} out.2 && (out.1.awaitedFrame 3).any Frame.keyframe &&
      (step .little out.1 (.flushReturn 3 none)).any fun next =>
        decide (Transition.Along (step .little) InStep next.1 repaired) &&
          (run .little next.1 repaired).any fun later => (deliveries later.2).length == 1)
    (by decide +kernel)
  simp only [Bool.and_eq_true, Bool.not_eq_true', Option.any_eq_true, decide_eq_true_eq,
    beq_iff_eq] at htest
  obtain ⟨⟨hlost, frame, hframe, hkey⟩, ⟨e₂, new⟩, hstep, hok, ⟨e₃, events₂⟩, hrepaired, hone⟩ :=
    htest
  exact ⟨b, e₁, events₁, e₂, new, e₃, events₂, hnew, hdamaged, hstep, hrepaired, hlost, hone,
    (timeout_resync hnew (by rw [hcfg]; rfl) (by rw [hcfg]; decide) (inverts_of_plain 5 rfl)
      hdamaged (waiting_of_awaitedFrame hframe) hkey hstep hrepaired hok _).1⟩

/-- Three flushes have been settled, two of them as delivered, so the frame that is being flushed is
a keyframe. -/
theorem interleaving_cadence_damaged : ∃ b e events frame,
    Batcher.new 24 resyncConfig = .ok b ∧ run .little (initial b) damaged = some (e, events) ∧
    (advances events).length = 2 ∧ e.drain = .waiting frame 3 ∧ frame.SentAsKeyframe := by
  obtain ⟨b, ⟨e, events⟩, hnew, hdamaged, hcfg, htest⟩ := exists_of_testNew resyncConfig
    (fun b => run .little (initial b) damaged)
    (fun _ out => (advances out.2).length == 2 && (out.1.awaitedFrame 3).isSome)
    (by decide +kernel)
  rw [Bool.and_eq_true, beq_iff_eq, Option.isSome_iff_exists] at htest
  obtain ⟨htwo, frame, hframe⟩ := htest
  have hdrain := waiting_of_awaitedFrame hframe
  have hturn := (interleaving_cadence hnew (by rw [hcfg]; rfl) (by rw [hcfg]; decide) hdamaged).2
    frame (by rw [hdrain]; rfl)
  rw [htwo, hcfg] at hturn
  exact ⟨b, e, events, frame, hnew, hdamaged, htwo, hdrain, hturn.mpr (by decide)⟩

end Engine

end TickBatch
