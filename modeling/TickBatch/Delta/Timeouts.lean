import TickBatch.Delta.RoundTrip
import TickBatch.Engine.Flights

/-!
# The delta chain under flush timeouts

The receiver is given the bytes of every `Sink.Flush` that returns nil, whether or not the drain
goroutine still waits for it. Sender and receiver stay in step as long as a flush that returns nil
is one that the drain goroutine waits for, and the goroutine then learns of it (`timeout_chain`).
The engine does not ensure this: a flush that is given up at its deadline and returns nil afterwards
is delivered without becoming the baseline, and the frame after it cannot be decoded
(`late_delivery`).
-/

namespace TickBatch

variable {T : Type}

namespace Batcher

/-- A receiver after some payloads. -/
def after (d : Codec.DeltaReconstructor) (payloads : List (List UInt8)) :
    Codec.DeltaReconstructor :=
  payloads.foldl (fun d payload => (d.reconstruct payload).1) d

theorem after_append (d : Codec.DeltaReconstructor) (payloads : List (List UInt8))
    (payload : List UInt8) :
    after d (payloads ++ [payload]) = ((after d payloads).reconstruct payload).1 := by
  simp [after]

/-- One more payload is decoded by the receiver that the earlier ones have left. -/
theorem receive_append (d : Codec.DeltaReconstructor) (payloads : List (List UInt8))
    (payload : List UInt8) :
    receive d (payloads ++ [payload]) =
      receive d payloads ++ [((after d payloads).reconstruct payload).2] := by
  induction payloads generalizing d with
  | nil => rfl
  | cons first payloads ih => exact congrArg _ (ih _)

/-- The baseline of a sender, read off its buffer. -/
theorem Sender.take_prevOffset {b : Batcher T} {loop : Loop} {prev : List UInt8} {j : Nat}
    (h : b.Sender loop prev j) : b.previousState.take loop.prevOffset = prev := by
  rw [h.baseline.state, h.baseline.offset]
  exact List.take_left

/-- The buffer and the flag of the flush goroutines do not concern the delta encoding. -/
theorem Sender.of_timeoutBuf {b : Batcher T} {loop : Loop} {prev : List UInt8} {j : Nat}
    (h : b.Sender loop prev j) {timeoutBuf : List UInt8} (inFlight : Bool)
    (hlen : timeoutBuf.length = b.timeoutBuf.length) :
    Sender { b with flushInFlight := inFlight, timeoutBuf } loop prev j :=
  ⟨⟨h.sized.header, h.sized.item, h.sized.previous, h.sized.delta, h.sized.compress,
    fun ht => hlen.trans (h.sized.timeout ht)⟩, h.delta, ⟨h.baseline.state, h.baseline.offset⟩,
    h.cycle⟩

end Batcher

namespace Engine

open Batcher (Link Sender Confused recovered receive after unpack Inverts)

/-! ## Sender and receiver in step -/

/-- The frame that the drain goroutine is waiting for, if it has been delivered. -/
def pending (e : Engine T) : Option (Frame T) :=
  match e.drain with
  | .waiting frame i =>
      if (e.flights[i]?.bind fun flight => flight.stage.outcome) = some none then some frame
      else none
  | _ => none

/-- The last frame that has become the delta baseline. -/
def baseline (e : Engine T) : List UInt8 := e.b.previousState.take e.loop.prevOffset

/-- The drain goroutine waits for a flush goroutine, with a frame that is not taken for a
keyframe. -/
def Awaits (base : List UInt8) (i : Nat) : DrainPoint T → Prop
  | .waiting frame flight => flight = i ∧ ¬ Confused base frame
  | _ => False

instance (base : List UInt8) (i : Nat) : ∀ p : DrainPoint T, Decidable (Awaits base i p)
  | .waiting _ _ => inferInstanceAs (Decidable (_ ∧ _))
  | .idle | .flushing _ | .calling _ => inferInstanceAs (Decidable False)

/-- The steps that keep sender and receiver in step: `Sink.Flush` returns nil only while the drain
goroutine waits for it, with a frame that is not taken for a keyframe, and the deadline is not
taken once it has. -/
def InStep (e : Engine T) : Action T → Prop
  | .flushReturn i none => Awaits e.baseline i e.drain
  | .deadline _ => e.pending.isNone = true
  | _ => True

instance (e : Engine T) : ∀ a, Decidable (e.InStep a)
  | .flushReturn _ none => inferInstanceAs (Decidable (Awaits _ _ _))
  | .deadline _ => inferInstanceAs (Decidable (_ = true))
  | .tick _ | .cancel _ | .enter _ | .callReturn _ _ | .launch _ | .flushReturn _ (some _)
  | .send _ | .clear _ | .receive _ | .shutdownDeadline _ => inferInstanceAs (Decidable True)

section Invariant

variable (cfg : Config) (decompress : List UInt8 → List UInt8)

/-- The payloads that the receiver is given. -/
def payloads (events : List (Event T)) : List (List UInt8) :=
  (deliveries events).map fun delivery => unpack cfg decompress delivery.2

/-- What holds at a program point of the drain goroutine, when the baseline is `base`. -/
def PointOk (e : Engine T) (base : List UInt8) (j : Nat) : DrainPoint T → Prop
  | .idle => True
  | .flushing frame =>
      Link cfg decompress base j frame ∧ frame.sent.length ≤ e.b.timeoutBuf.length
  | .calling _ => False
  | .waiting frame i =>
      Link cfg decompress base j frame ∧
        ∃ flight, e.flights[i]? = some flight ∧ flight.frame = frame ∧
          e.snapshot flight = frame.sent

/-- Sender and receiver are in step: the receiver has recovered every frame it was given, its
baseline is the sender's, or the frame that the drain goroutine is about to learn of, and the frames
delivered are those that have become the baseline, in order. -/
structure ChainInv (events : List (Event T)) (e : Engine T) (base : List UInt8) (j : Nat) :
    Prop where
  cfg_eq : e.b.cfg = cfg
  sender : e.b.Sender e.loop base j
  point : PointOk cfg decompress e base j e.drain
  prev : after {} (payloads cfg decompress events) =
    { prev := (e.pending.map Frame.raw).getD base }
  recovered : receive {} (payloads cfg decompress events) =
    (deliveries events).map fun delivery => recovered delivery.1
  advanced : advances events ++ e.pending.toList = (deliveries events).map Prod.fst

end Invariant

variable {cfg : Config} {decompress : List UInt8 → List UInt8} {events new : List (Event T)}
  {e e' : Engine T} {base : List UInt8} {j : Nat}

/-- Events without a delivery and without a flush leave sender and receiver in step. -/
theorem ChainInv.append_quiet (h : ChainInv cfg decompress events e base j)
    (hdeliveries : deliveries new = []) (hattempts : attempts (effects new) = []) :
    ChainInv cfg decompress (events ++ new) e base j := by
  have hdelivered : deliveries (events ++ new) = deliveries events := by
    rw [deliveries_append, hdeliveries, List.append_nil]
  have hadvances : advances (events ++ new) = advances events := by
    unfold advances
    rw [effects_append, delivered_append]
    simp [delivered, hattempts, successes]
  refine ⟨h.cfg_eq, h.sender, h.point, ?_, ?_, ?_⟩
  · rw [payloads, hdelivered]
    exact h.prev
  · rw [payloads, hdelivered]
    exact h.recovered
  · rw [hadvances, hdelivered]
    exact h.advanced

/-! ## The end of a drain -/

/-- When the drain goroutine learns the outcome of its flush, it takes exactly a delivered frame as
its baseline. -/
theorem ChainInv.finish (h : ChainInv cfg decompress events e base j) {now : Int64}
    {frame : Frame T} {err : Option Error} {b : Batcher T} {loop : Loop}
    {reports : List (Effect T)} {stage : Stage}
    (hpending : e.pending = if err = none then some frame else none)
    (hsettle : e.b.settle e.loop now frame err = .ok (b, loop, reports)) :
    ∃ base' j', ChainInv cfg decompress (events ++ (.flush frame err :: reports).map .effect)
      { e with b, loop, drain := .idle, stage } base' j' := by
  obtain ⟨hkeeps, hquiet, hsettled⟩ := h.sender.settle hsettle
  have hprev := h.prev
  have hadvanced := h.advanced
  have hattempts : attempts (.flush frame err :: reports) = [(frame, err)] := by
    show (frame, err) :: attempts reports = _
    rw [hquiet]
  have hadvances : advances (events ++ (.flush frame err :: reports).map .effect) =
      advances events ++ successes [(frame, err)] := by
    unfold advances
    rw [effects_append, effects_map, delivered_append]
    simp only [delivered, hattempts]
  have hdeliveries : deliveries (events ++ (.flush frame err :: reports).map .effect) =
      deliveries events := by
    rw [deliveries_append, deliveries_map, List.append_nil]
  have hpayloads : payloads cfg decompress (events ++ (.flush frame err :: reports).map .effect) =
      payloads cfg decompress events := by
    rw [payloads, hdeliveries, payloads]
  cases err with
  | none =>
      rw [if_pos rfl] at hpending
      rw [hpending] at hprev hadvanced
      -- the receiver has had the frame since its delivery, and now the sender catches up
      refine ⟨frame.raw, j + 1, hkeeps.cfg.trans h.cfg_eq, hsettled, trivial, ?_, ?_, ?_⟩
      · rw [hpayloads]
        exact hprev
      · rw [hpayloads, hdeliveries]
        exact h.recovered
      · rw [hadvances, hdeliveries, ← hadvanced]
        simp [successes, pending]
  | some err =>
      rw [if_neg (by simp)] at hpending
      rw [hpending] at hprev hadvanced
      refine ⟨base, j, hkeeps.cfg.trans h.cfg_eq, hsettled, trivial, ?_, ?_, ?_⟩
      · rw [hpayloads]
        exact hprev
      · rw [hpayloads, hdeliveries]
        exact h.recovered
      · rw [hadvances, hdeliveries, ← hadvanced]
        simp [successes, pending]

/-! ## The other steps -/

/-- A frame is built from the baseline. -/
theorem ChainInv.assemble [Serializable T] (h : ChainInv cfg decompress events e base j)
    (htimeout : 0 < cfg.flushTimeout) {host : ByteOrder} {tick : Tick T} {b : Batcher T}
    {out : Option (Frame T)} {es : List (Effect T)} {stage : Stage} (hidle : e.drain = .idle)
    (hinv : Inverts decompress tick)
    (hassemble : e.b.assemble host e.loop tick = .ok (b, out, es)) :
    ChainInv cfg decompress (events ++ es.map .effect)
      { e with b, drain := (out.map .flushing).getD .idle, stage } base j := by
  obtain ⟨hkeeps, hsender, hquiet, hframe⟩ := h.sender.assemble hassemble
  obtain ⟨_, _, _, hbuilt⟩ := Batcher.assemble_ok h.sender.sized hassemble
  have hcfg := h.cfg_eq
  have hprev := h.prev
  have hadvanced := h.advanced
  have hnone : e.pending = none := by simp [pending, hidle]
  rw [hnone] at hprev hadvanced
  refine ChainInv.append_quiet ?_ (deliveries_map es) (by rw [effects_map]; exact hquiet)
  cases out with
  | none => exact ⟨hkeeps.cfg.trans hcfg, hsender, trivial, hprev, h.recovered, hadvanced⟩
  | some frame =>
      have hlink : Link e.b.cfg decompress base j frame :=
        ⟨(hframe frame rfl).1, (hframe frame rfl).2 decompress hinv⟩
      rw [hcfg] at hlink
      refine ⟨hkeeps.cfg.trans hcfg, hsender, ⟨hlink, ?_⟩, hprev, h.recovered, hadvanced⟩
      show frame.sent.length ≤ b.timeoutBuf.length
      rw [hkeeps.timeoutBuf, h.sender.sized.timeout (by rw [hcfg]; exact htimeout)]
      exact (hbuilt frame rfl).1.sent_length

/-- The bytes of the frame are handed to a new flush goroutine. -/
theorem ChainInv.handOver (h : ChainInv cfg decompress events e base j) {frame : Frame T}
    {length : Nat} (hdrain : e.drain = .flushing frame)
    (hlength : length = min e.b.timeoutBuf.length frame.sent.length) :
    ChainInv cfg decompress events
      { e with
        b := { e.b with
          flushInFlight := true
          timeoutBuf := frame.sent.take length ++ e.b.timeoutBuf.drop length }
        drain := .waiting frame e.flights.length
        flights := e.flights ++ [{ frame, length, stage := .starting }] } base j := by
  have hnone : e.pending = none := by simp [pending, hdrain]
  have hpoint := h.point
  rw [hdrain] at hpoint
  obtain ⟨hlink, hfits⟩ := hpoint
  -- the frame fits into `timeoutBuf`, so the copy is not cut short
  have hwhole : length = frame.sent.length := by omega
  subst hwhole
  have hprev := h.prev
  have hadvanced := h.advanced
  rw [hnone] at hprev hadvanced
  have hpending : pending { e with
      b := { e.b with
        flushInFlight := true
        timeoutBuf := frame.sent.take frame.sent.length ++ e.b.timeoutBuf.drop frame.sent.length }
      drain := .waiting frame e.flights.length
      flights := e.flights ++ [{ frame, length := frame.sent.length, stage := .starting }] } =
        none := by
    simp [pending, FlightStage.outcome]
  refine ⟨h.cfg_eq, h.sender.of_timeoutBuf true (by simp; omega), ⟨hlink, ?_⟩, ?_, h.recovered, ?_⟩
  · refine ⟨_, List.getElem?_concat_length, rfl, ?_⟩
    simp [snapshot]
  · rw [hpending]
    exact hprev
  · rw [hpending]
    exact hadvanced

/-- A step of a flush goroutine that is not a delivery. -/
theorem ChainInv.setStage (h : ChainInv cfg decompress events e base j) {i : Nat}
    {flight : Flight T} (stage : FlightStage) (hflight : e.flights[i]? = some flight)
    (houtcome : stage.outcome = some none ↔ flight.stage.outcome = some none) :
    ChainInv cfg decompress events (e.setStage i stage) base j := by
  have hpending : (e.setStage i stage).pending = e.pending := by
    unfold pending
    cases hdrain : e.drain with
    | waiting frame k =>
        simp only [show (e.setStage i stage).drain = e.drain from rfl, hdrain, getElem?_setStage]
        by_cases hik : i = k
        · subst hik
          simp [hflight, houtcome]
        · simp [hik]
    | _ => simp only [show (e.setStage i stage).drain = e.drain from rfl, hdrain]
  have hpoint : PointOk cfg decompress (e.setStage i stage) base j e.drain := by
    have hpoint := h.point
    cases hdrain : e.drain with
    | waiting frame k =>
        rw [hdrain] at hpoint
        obtain ⟨hlink, awaited, hk, hframe, hsent⟩ := hpoint
        refine ⟨hlink, if i = k then { awaited with stage } else awaited, ?_, ?_, ?_⟩
        · rw [getElem?_setStage, hk]
          split <;> rfl
        · split <;> exact hframe
        · split <;> exact hsent
    | idle => trivial
    | flushing frame =>
        rw [hdrain] at hpoint
        exact hpoint
    | calling frame =>
        rw [hdrain] at hpoint
        exact hpoint
  exact ⟨h.cfg_eq, h.sender, hpoint, by rw [hpending]; exact h.prev, h.recovered,
    by rw [hpending]; exact h.advanced⟩

/-- A delivery that the drain goroutine waits for. -/
theorem ChainInv.deliver (h : ChainInv cfg decompress events e base j) {i : Nat}
    {flight : Flight T} (hflight : e.flights[i]? = some flight) (hstage : flight.stage = .calling)
    (hawaits : Awaits e.baseline i e.drain) :
    ChainInv cfg decompress (events ++ [.returned flight.frame (e.snapshot flight) none])
      (e.setStage i (.returned none)) base j := by
  cases hdrain : e.drain with
  | waiting frame k =>
      rw [hdrain] at hawaits
      obtain ⟨rfl, hclear⟩ := hawaits
      rw [show e.baseline = base from h.sender.take_prevOffset] at hclear
      have hpoint := h.point
      rw [hdrain] at hpoint
      obtain ⟨hlink, awaited, hk, hframe, hsent⟩ := hpoint
      rw [hflight] at hk
      cases hk
      subst hframe
      have hnone : e.pending = none := by
        simp [pending, hdrain, hflight, hstage, FlightStage.outcome]
      have hsome : (e.setStage k (.returned none)).pending = some flight.frame := by
        simp [pending, show (e.setStage k (.returned none)).drain = e.drain from rfl, hdrain,
          getElem?_setStage, hflight, FlightStage.outcome]
      have hprev := h.prev
      have hadvanced := h.advanced
      rw [hnone] at hprev hadvanced
      have hdeliveries : deliveries (events ++ [.returned flight.frame (e.snapshot flight) none]) =
          deliveries events ++ [(flight.frame, flight.frame.sent)] := by
        rw [deliveries_append, hsent]
        rfl
      have hpayloads : payloads cfg decompress
          (events ++ [.returned flight.frame (e.snapshot flight) none]) =
          payloads cfg decompress events ++ [unpack cfg decompress flight.frame.sent] := by
        unfold payloads
        rw [hdeliveries, List.map_append]
        rfl
      -- the receiver's baseline is the sender's, and the frame is not confused
      have hrecover := hlink.reconstruct
      rw [if_neg hclear] at hrecover
      refine ⟨h.cfg_eq, h.sender, ?_, ?_, ?_, ?_⟩
      · rw [show (e.setStage k (.returned none)).drain = e.drain from rfl, hdrain]
        refine ⟨hlink, { flight with stage := .returned none }, ?_, rfl, hsent⟩
        rw [getElem?_setStage, if_pos rfl, hflight]
        rfl
      · rw [hpayloads, Batcher.after_append, hprev, hsome]
        exact congrArg Prod.fst hrecover
      · rw [hpayloads, Batcher.receive_append, hprev, hdeliveries, List.map_append, h.recovered]
        exact congrArg (fun out => _ ++ [out]) (congrArg Prod.snd hrecover)
      · rw [hsome, hdeliveries, List.map_append, ← hadvanced]
        simp [advances, effects]
  | _ =>
      rw [hdrain] at hawaits
      exact hawaits.elim

/-- Reporting an error changes nothing. -/
theorem ChainInv.report (h : ChainInv cfg decompress events e base j) {stage : Stage}
    (now : Int64) (err : Error) :
    ChainInv cfg decompress (events ++ (e.b.reportError now err).2.map .effect)
      { e with b := (e.b.reportError now err).1, stage } base j := by
  obtain ⟨hreport, hquiet⟩ := Batcher.reportError_eq e.b now err
  have hkeeps := Batcher.reportError_keeps e.b now err
  have htimeoutBuf := hkeeps.timeoutBuf
  refine ChainInv.append_quiet ?_ (deliveries_map _) (by rw [effects_map]; exact hquiet)
  refine ⟨hkeeps.cfg.trans h.cfg_eq, h.sender.of_keeps hkeeps (by rw [hreport]), ?_, h.prev,
    h.recovered, h.advanced⟩
  have hpoint := h.point
  cases hdrain : e.drain with
  | idle => trivial
  | calling frame =>
      rw [hdrain] at hpoint
      exact hpoint
  | flushing frame =>
      rw [hdrain] at hpoint
      exact ⟨hpoint.1, by rw [htimeoutBuf]; exact hpoint.2⟩
  | waiting frame i =>
      rw [hdrain] at hpoint
      obtain ⟨hlink, flight, hflight, hframe, hsent⟩ := hpoint
      refine ⟨hlink, flight, hflight, hframe, ?_⟩
      unfold snapshot
      rw [htimeoutBuf]
      exact hsent

/-! ## Whole runs -/

/-- The drain that an action starts. -/
def Action.tick? : Action T → Option (Tick T)
  | .tick t | .cancel t => some t
  | _ => none

variable [Serializable T] {host : ByteOrder}

/-- One step that meets the condition keeps sender and receiver in step. -/
theorem step_chain {a : Action T} (h : ChainInv cfg decompress events e base j)
    (htimeout : 0 < cfg.flushTimeout) (hinv : ∀ tick, a.tick? = some tick → Inverts decompress tick)
    (hok : e.InStep a) (hstep : step host e a = some (e', new)) :
    ∃ base' j', ChainInv cfg decompress (events ++ new) e' base' j' := by
  cases step_cases hstep with
  | @assemble a tick b out es stage ha hidle hassemble =>
      have htick : a.tick? = some tick := by
        rcases ha with rfl | rfl
        · rfl
        · rfl
      exact ⟨base, j, h.assemble htimeout hidle (hinv tick htick) hassemble⟩
  | direct hdrain hzero =>
      rw [h.cfg_eq] at hzero
      rw [hzero] at htimeout
      exact absurd htimeout (by decide)
  | reject hdrain hpositive hflag hsettle =>
      exact h.finish (by simp [pending, hdrain]) hsettle
  | handOver hdrain hpositive hflag hlength =>
      rw [List.append_nil]
      exact ⟨base, j, h.handOver hdrain hlength⟩
  | callReturn hdrain hsettle =>
      -- with a positive timeout `Sink.Flush` is never called directly
      have hpoint := h.point
      rw [hdrain] at hpoint
      exact hpoint.elim
  | launch hflight hstage =>
      have hnext := h.setStage .calling hflight (by simp [hstage, FlightStage.outcome])
      exact ⟨base, j, hnext.append_quiet rfl rfl⟩
  | @flushReturn i flight err hflight hstage =>
      cases err with
      | none => exact ⟨base, j, h.deliver hflight hstage hok⟩
      | some err =>
          have hnext := h.setStage (.returned (some err)) hflight
            (by simp [hstage, FlightStage.outcome])
          exact ⟨base, j, hnext.append_quiet rfl rfl⟩
  | send hflight hstage =>
      rw [List.append_nil]
      exact ⟨base, j, h.setStage _ hflight (by simp [hstage, FlightStage.outcome])⟩
  | clear hflight hstage =>
      rw [List.append_nil]
      have hcleared : ChainInv cfg decompress events
          { e with b := { e.b with flushInFlight := false } } base j :=
        ⟨h.cfg_eq, h.sender.of_timeoutBuf false rfl, h.point, h.prev, h.recovered, h.advanced⟩
      exact ⟨base, j, hcleared.setStage _ hflight (by simp [hstage, FlightStage.outcome])⟩
  | @receive now frame i flight err b loop reports hdrain hflight hchannel hsettle =>
      refine h.finish ?_ hsettle
      have houtcome : flight.stage.outcome = some err := by
        cases hs : flight.stage with
        | sent e => rwa [hs] at hchannel
        | done e => rwa [hs] at hchannel
        | _ =>
            rw [hs] at hchannel
            cases hchannel
      simp [pending, hdrain, hflight, houtcome]
  | deadline hdrain hsettle =>
      -- nothing has been delivered yet, so giving the frame up agrees with the receiver
      exact h.finish (by simpa using Option.isNone_iff_eq_none.mp hok) hsettle
  | shutdownDeadline hfinal hpositive => exact ⟨base, j, h.report _ _⟩

/-- Sender and receiver are in step, if every compression so far can be undone. -/
def Chained (cfg : Config) (decompress : List UInt8 → List UInt8) (actions : List (Action T))
    (events : List (Event T)) (e : Engine T) : Prop :=
  (∀ a ∈ actions, ∀ tick, a.tick? = some tick → Inverts decompress tick) →
    ∃ base j, ChainInv cfg decompress events e base j

/-- One step that meets the condition keeps them so. -/
theorem step_chained {actions : List (Action T)} (h : Chained cfg decompress actions events e)
    (htimeout : 0 < cfg.flushTimeout) (hok : InStep e a)
    (hstep : step host e a = some (e', new)) :
    Chained cfg decompress (actions ++ [a]) (events ++ new) e' := by
  intro hall
  obtain ⟨base, j, h⟩ := h fun a ha => hall a (List.mem_append_left _ ha)
  exact step_chain h htimeout (hall a (by simp)) hok hstep

section Runs

variable [Inhabited T] {sizeofT : Int64} {b : Batcher T} {actions : List (Action T)}

/-- In every run whose steps keep sender and receiver in step, the receiver recovers every frame
that is delivered, and the frames that become the baseline are exactly the delivered ones, in order;
the last one may still have to be noticed by the drain goroutine that waits for it. -/
theorem timeout_chain (hnew : Batcher.new sizeofT cfg = .ok b)
    (hdelta : b.cfg.deltaEncoding = true) (htimeout : 0 < b.cfg.flushTimeout)
    (hinv : ∀ a ∈ actions, ∀ tick, a.tick? = some tick → Inverts decompress tick)
    (hrun : run host (initial b) actions = some (e, events))
    (hok : Transition.Along (step host) InStep (initial b) actions) :
    receive {} ((deliveries events).map fun delivery => unpack b.cfg decompress delivery.2) =
        (deliveries events).map (fun delivery => recovered delivery.1) ∧
      advances events ++ e.pending.toList = (deliveries events).map Prod.fst := by
  have hinit : ChainInv b.cfg decompress [] (initial b) [] 0 :=
    ⟨rfl, Batcher.new_sender hnew hdelta, trivial, rfl, rfl, rfl⟩
  obtain ⟨base, j, h⟩ := Transition.run_invariant_along (I := Chained b.cfg decompress)
    (fun _ _ _ _ _ _ h hok hstep => step_chained h htimeout hok hstep)
    (fun _ => ⟨[], 0, hinit⟩) hrun hok hinv
  exact ⟨h.recovered, h.advanced⟩

end Runs

/-! ## Concrete runs -/

/-- A small delta-encoding configuration with a flush timeout. -/
def timeoutConfig : Config := { Batcher.deltaConfig 0 with flushTimeout := 1000000 }

omit [Serializable T] in
/-- Without a compressor there is nothing to undo. -/
theorem inverts_of_plain {actions : List (Action T)} (n : Nat)
    (h : (actions.filterMap Action.tick?).map Tick.compress =
      List.replicate n (plainTick ([] : List T) none).compress) :
    ∀ a ∈ actions, ∀ tick, a.tick? = some tick → Inverts decompress tick :=
  fun a ha tick htick =>
    Batcher.inverts_of_plain n h tick (List.mem_filterMap.mpr ⟨a, ha, htick⟩)

/-- A flush that fails after its deadline does no harm. -/
theorem timeout_chain_failed : ∃ b e events, Batcher.new 24 timeoutConfig = .ok b ∧
    run .little (initial b) (timelyDrain [[1, 2]] 0 ++ lateDrain [[3]] 1 (some (.other "down")) ++
      timelyDrain [[4, 5, 6]] 2) = some (e, events) ∧
    (deliveries events).length = 2 ∧
    receive {} ((deliveries events).map fun delivery => unpack b.cfg id delivery.2) =
      (deliveries events).map fun delivery => recovered delivery.1 := by
  obtain ⟨b, ⟨e, events⟩, hnew, hrun, hcfg, htest⟩ := exists_of_testNew timeoutConfig
    (fun b => run .little (initial b) (timelyDrain [[1, 2]] 0 ++
      lateDrain [[3]] 1 (some (.other "down")) ++ timelyDrain [[4, 5, 6]] 2))
    (fun b out => (deliveries out.2).length == 2 &&
      decide (Transition.Along (step .little) InStep (initial b)
        (timelyDrain [[1, 2]] 0 ++ lateDrain [[3]] 1 (some (.other "down")) ++
          timelyDrain [[4, 5, 6]] 2))) (by decide +kernel)
  rw [Bool.and_eq_true, beq_iff_eq, decide_eq_true_eq] at htest
  exact ⟨b, e, events, hnew, hrun, htest.1, (timeout_chain hnew (by rw [hcfg]; rfl)
    (by rw [hcfg]; decide) (inverts_of_plain 3 rfl) hrun htest.2).1⟩

/-- A flush that returns nil after its deadline: its frame is delivered but never becomes the
baseline, and the receiver rejects the frame that is delivered next. -/
theorem late_delivery : ∃ b e events, Batcher.new 24 timeoutConfig = .ok b ∧
    run .little (initial b) (lateDrain [[1, 2]] 0 none ++ timelyDrain [[3]] 1) =
      some (e, events) ∧
    b.cfg.deltaEncoding = true ∧ 0 < b.cfg.flushTimeout ∧
    (deliveries events).length = 2 ∧ (advances events).length = 1 ∧ e.pending = none ∧
    receive {} ((deliveries events).map fun delivery => unpack b.cfg id delivery.2) ≠
      (deliveries events).map fun delivery => recovered delivery.1 := by
  obtain ⟨b, ⟨e, events⟩, hnew, hrun, hcfg, htest⟩ := exists_of_testNew timeoutConfig
    (fun b => run .little (initial b) (lateDrain [[1, 2]] 0 none ++ timelyDrain [[3]] 1))
    (fun b out => (deliveries out.2).length == 2 && (advances out.2).length == 1 &&
      out.1.pending.isNone && decide (
        receive {} ((deliveries out.2).map fun delivery => unpack b.cfg id delivery.2) ≠
          (deliveries out.2).map fun delivery => recovered delivery.1)) (by decide +kernel)
  simp only [Bool.and_eq_true, beq_iff_eq, decide_eq_true_eq, Option.isNone_iff_eq_none] at htest
  exact ⟨b, e, events, hnew, hrun, by rw [hcfg]; rfl, by rw [hcfg]; decide, htest.1.1.1,
    htest.1.1.2, htest.1.2, htest.2⟩

end Engine

end TickBatch
