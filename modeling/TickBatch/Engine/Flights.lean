import TickBatch.Engine.Machine

/-!
# Flushes in flight

At most one call of `Sink.Flush` is in progress, and the engine does not write to the slice that it
was given (`single_flush`). The flag `flushInFlight` is what makes this work: it is set exactly
while one flush goroutine has not finished, and that goroutine is the last one started
(`FlightInv`). The flag is cleared after the result has been sent, so a drain that has already
received the result can find it still set and be turned away although no flush is running
(`justified_iff_cleared`, `spurious_timeout`). `sink_bytes_iff` says when the sink is given the
bytes that were assembled: a negative `FlushTimeout` is accepted by `New`, but then `timeoutBuf` has
no room.
-/

namespace TickBatch

variable {T : Type}

/-- The preallocated buffers that a flush may be given a slice of. -/
inductive Buffer where
  | byteBuffer
  | deltaBuffer
  | compressBuffer
  | timeoutBuf
  deriving DecidableEq

namespace Batcher

/-- The bytes of a buffer. -/
def buffer (b : Batcher T) : Buffer → List UInt8
  | .byteBuffer => b.byteBuffer
  | .deltaBuffer => b.deltaBuffer
  | .compressBuffer => b.compressBuffer
  | .timeoutBuf => b.timeoutBuf

end Batcher

/-- The buffer that the payload of a frame is a slice of. -/
def Config.payloadBuffer (cfg : Config) (frame : Frame T) : Buffer :=
  if cfg.compressor then .compressBuffer
  else if cfg.deltaEncoding && !frame.keyframe then .deltaBuffer
  else .byteBuffer

/-- A call of `Sink.Flush` that has not returned, with the slice `buffer[:length]` it was given. -/
structure FlushCall (T : Type) where
  frame : Frame T
  buffer : Buffer
  length : Nat

/-- The flush goroutine has not finished. -/
def FlightStage.running : FlightStage → Bool
  | .starting | .calling | .returned _ | .sent _ => true
  | .done _ => false

/-- The call of `Sink.Flush` that a flush goroutine is in. -/
def Flight.call (flight : Flight T) : Option (FlushCall T) :=
  match flight.stage with
  | .calling => some { frame := flight.frame, buffer := .timeoutBuf, length := flight.length }
  | _ => none

namespace Engine

/-- The call of `Sink.Flush` that the drain goroutine is in, if it calls it directly. -/
def directCall (e : Engine T) : Option (FlushCall T) :=
  match e.drain with
  | .calling frame =>
      some { frame, buffer := e.b.cfg.payloadBuffer frame, length := frame.sent.length }
  | _ => none

/-- The calls of `Sink.Flush` in progress. -/
def inProgress (e : Engine T) : List (FlushCall T) :=
  e.directCall.toList ++ e.flights.filterMap Flight.call

/-- The bytes of the slice that a call was given, as they are now. -/
def bytes (e : Engine T) (call : FlushCall T) : List UInt8 :=
  (e.b.buffer call.buffer).take call.length

/-- The buffers that an action may write to. A drain marshals into `byteBuffer`, takes the delta
into `deltaBuffer` and compresses into `compressBuffer`; a frame that is handed to a flush goroutine
is copied into `timeoutBuf`. -/
def writes (e : Engine T) : Action T → List Buffer
  | .tick _ | .cancel _ => [.byteBuffer, .deltaBuffer, .compressBuffer]
  | .enter _ => if e.b.cfg.flushTimeout = 0 ∨ e.b.flushInFlight then [] else [.timeoutBuf]
  | _ => []

end Engine

/-! ## The payload is a slice of its buffer -/

namespace Batcher

theorem compress_prefix {b b' : Batcher T} {tick : Tick T} {payload sent : List UInt8}
    (h : b.compress tick payload = (b', .ok sent)) :
    if b.cfg.compressor then sent <+: b'.compressBuffer
    else b' = b ∧ sent = payload := by
  unfold compress at h
  split at h
  · rename_i hc
    rw [if_pos hc]
    simp only at h
    split at h
    · cases h
    · split at h
      · cases h
      · cases h
        exact List.take_prefix _ _
  · rename_i hc
    rw [if_neg hc]
    cases h
    exact ⟨rfl, rfl⟩

/-- What `assemble` hands to the flush is a slice of the buffer it was written to. -/
theorem assemble_prefix [Serializable T] {host : ByteOrder} {b b' : Batcher T} {loop : Loop}
    {tick : Tick T} {frame : Frame T} {effects : List (Effect T)} (hs : b.Sized)
    (h : b.assemble host loop tick = .ok (b', some frame, effects)) :
    frame.sent <+: b'.buffer (b'.cfg.payloadBuffer frame) := by
  obtain ⟨f, hfill, _⟩ := bind_eq_ok h
  rw [assemble_eq hs hfill] at h
  have h := Except.ok.inj h
  split at h
  · cases h
  split at h
  · cases h
  unfold Fill.finish Fill.pack at h
  simp only at h
  generalize hkey : f.b.isKeyframe loop = keyframe at h
  generalize hraw : f.raw keyframe = raw at h
  split at h
  · cases h
  · rename_i b₂ sent hc
    have hcfg : b₂.cfg = f.b.cfg :=
      (congrArg (Batcher.cfg ∘ Prod.fst) hc).symm.trans (compress_keeps _ tick _).cfg
    have hsent := compress_prefix hc
    cases h
    unfold Config.payloadBuffer
    rw [hcfg]
    split at hsent
    · rename_i hcompressor
      rw [if_pos (show f.b.cfg.compressor = true from hcompressor)]
      exact hsent
    · rename_i hcompressor
      obtain ⟨rfl, rfl⟩ := hsent
      rw [if_neg (show ¬f.b.cfg.compressor = true from hcompressor)]
      -- a keyframe, or any frame without delta encoding, is sent from the byte buffer
      by_cases hdelta : (!f.b.cfg.deltaEncoding || keyframe) = true
      · have hplain : (f.b.cfg.deltaEncoding && !keyframe) = false := by
          cases hd : f.b.cfg.deltaEncoding <;> simp_all
        simp only [Fill.built, hplain, payloadOf, hdelta, if_true, Bool.false_eq_true, if_false,
          buffer]
        exact List.prefix_append _ _
      · have hxor : (f.b.cfg.deltaEncoding && !keyframe) = true := by
          cases hd : f.b.cfg.deltaEncoding <;> simp_all
        simp only [Fill.built, hxor, hdelta, if_true, Bool.false_eq_true, if_false, buffer]
        exact List.prefix_append _ _

theorem reportError_buffer (b : Batcher T) (now : Int64) (err : Error) (buf : Buffer) :
    (b.reportError now err).1.buffer buf = b.buffer buf := by
  rw [(reportError_eq b now err).1]
  cases buf <;> rfl

/-- The bookkeeping after a flush writes to none of the buffers. -/
theorem settle_buffer {b b' : Batcher T} {loop loop' : Loop} {now : Int64} {frame : Frame T}
    {err : Option Error} {reports : List (Effect T)}
    (h : b.settle loop now frame err = .ok (b', loop', reports)) (buf : Buffer) :
    b'.buffer buf = b.buffer buf := by
  cases err with
  | some err =>
      have hb' : ({ b with flushErrs := b.flushErrs + 1 }.reportError now err).1 = b' :=
        congrArg Prod.fst (Except.ok.inj h)
      rw [← hb']
      exact (reportError_buffer _ now err buf).trans (by cases buf <;> rfl)
  | none =>
      simp only [settle] at h
      split at h
      · obtain ⟨⟨b₁, loop₁⟩, hadvance, h⟩ := bind_eq_ok h
        obtain ⟨_, _, hadvance⟩ := bind_eq_ok hadvance
        obtain ⟨_, _, hadvance⟩ := bind_eq_ok hadvance
        cases hadvance
        cases h
        cases buf <;> rfl
      · cases h
        cases buf <;> rfl

end Batcher

namespace Engine

/-! ## The flag and the flush goroutines -/

/-- What a frame on its way to the flush promises about the buffers. -/
def PointFits (e : Engine T) : DrainPoint T → Prop
  | .idle => True
  | .flushing frame =>
      frame.raw.length ≤ e.b.byteBuffer.length ∧ frame.sent.length ≤ e.b.byteBuffer.length ∧
        frame.sent <+: e.b.buffer (e.b.cfg.payloadBuffer frame)
  | .calling frame =>
      e.b.cfg.flushTimeout = 0 ∧ frame.raw.length ≤ e.b.byteBuffer.length ∧
        frame.sent <+: e.b.buffer (e.b.cfg.payloadBuffer frame)
  | .waiting frame _ => frame.raw.length ≤ e.b.byteBuffer.length

/-- The invariant of the flush goroutines. `flushInFlight` is set exactly while one of them has not
finished; it is the last one started, and its snapshot is as much of its payload as `timeoutBuf`
holds. -/
structure FlightInv (cfg : Config) (e : Engine T) : Prop where
  cfg_eq : e.b.cfg = cfg
  sized : e.b.Sized
  offset : cfg.deltaEncoding = true → e.loop.prevOffset ≤ e.b.previousState.length
  timeoutBuf : e.b.timeoutBuf.length = if cfg.flushTimeout > 0 then e.b.byteBuffer.length else 0
  point : e.PointFits e.drain
  direct : cfg.flushTimeout = 0 → e.flights = []
  last : ∀ i flight, e.flights[i]? = some flight → flight.stage.running = true →
    i + 1 = e.flights.length ∧ e.b.flushInFlight = true
  flagged : e.b.flushInFlight = true → ∃ flight ∈ e.flights, flight.stage.running = true
  snapshots : ∀ flight ∈ e.flights, flight.stage.running = true →
    flight.frame.sent.length ≤ e.b.byteBuffer.length ∧
      e.snapshot flight = flight.frame.sent.take e.b.timeoutBuf.length

variable {cfg : Config} {e e' : Engine T}

/-- A new engine has no flush goroutines. -/
theorem initial_flightInv [Inhabited T] {sizeofT : Int64} {b : Batcher T}
    (h : Batcher.new sizeofT cfg = .ok b) : FlightInv b.cfg (initial b) := by
  obtain ⟨_, _, _, hbyte, _, _, _, htimeout, hflag⟩ := Batcher.new_ok h
  refine ⟨rfl, Batcher.new_sized h, fun _ => Nat.zero_le _, ?_, trivial, fun _ => rfl, ?_, ?_, ?_⟩
  · show b.timeoutBuf.length = if b.cfg.flushTimeout > 0 then b.byteBuffer.length else 0
    rw [htimeout, hbyte]
    split <;> simp
  · intro i flight hflight
    cases hflight
  · intro h
    rw [show (initial b).b.flushInFlight = b.flushInFlight from rfl, hflag] at h
    cases h
  · intro flight hmem
    cases hmem

/-- A step of the drain goroutine that starts no flush and leaves `timeoutBuf` alone. -/
theorem FlightInv.drain (h : FlightInv cfg e) {b : Batcher T} {loop : Loop} {p : DrainPoint T}
    {stage : Stage} (hkeeps : e.b.Keeps b)
    (hprevious : b.previousState.length = e.b.previousState.length)
    (hoffset : cfg.deltaEncoding = true → loop.prevOffset ≤ b.previousState.length)
    (hpoint : PointFits { e with b, loop, drain := p, stage } p) :
    FlightInv cfg { e with b, loop, drain := p, stage } := by
  have hcfg := hkeeps.cfg
  have hlength := hkeeps.length
  have htimeoutBuf := hkeeps.timeoutBuf
  have hflag := hkeeps.flushInFlight
  refine ⟨hcfg.trans h.cfg_eq, hkeeps.sized h.sized hprevious, hoffset, ?_, hpoint, h.direct,
    ?_, ?_, ?_⟩
  · show b.timeoutBuf.length = if cfg.flushTimeout > 0 then b.byteBuffer.length else 0
    rw [htimeoutBuf, hlength]
    exact h.timeoutBuf
  · intro i flight hflight hrunning
    rw [show ({ e with b, loop, drain := p, stage } : Engine T).b.flushInFlight =
      e.b.flushInFlight from hflag]
    exact h.last i flight hflight hrunning
  · intro hset
    exact h.flagged (hflag.symm.trans hset)
  · intro flight hmem hrunning
    obtain ⟨hfits, hsnapshot⟩ := h.snapshots flight hmem hrunning
    refine ⟨hfits.trans (Nat.le_of_eq hlength.symm), ?_⟩
    show b.timeoutBuf.take flight.length = flight.frame.sent.take b.timeoutBuf.length
    rw [htimeoutBuf]
    exact hsnapshot

/-- The end of a drain. -/
theorem FlightInv.settle (h : FlightInv cfg e) {now : Int64} {frame : Frame T}
    {err : Option Error} {b : Batcher T} {loop : Loop} {reports : List (Effect T)}
    (hraw : frame.raw.length ≤ e.b.byteBuffer.length)
    (hsettle : e.b.settle e.loop now frame err = .ok (b, loop, reports)) :
    FlightInv cfg { e with b, loop, drain := .idle, stage := e.stage.afterDrain } := by
  have hoffset : e.b.cfg.deltaEncoding = true → e.loop.prevOffset ≤ e.b.previousState.length := by
    rw [h.cfg_eq]
    exact h.offset
  obtain ⟨b₁, loop₁, reports₁, hok, hrests⟩ := Batcher.settle_ok now err h.sized hoffset hraw
  rw [hok] at hsettle
  cases hsettle
  refine h.drain hrests.keeps hrests.previous (fun hdelta => hrests.offset ?_) trivial
  rw [hrests.keeps.cfg, h.cfg_eq]
  exact hdelta

/-- Handing a frame to a new flush goroutine. The flag was clear, so all others have finished. -/
theorem FlightInv.handOver (h : FlightInv cfg e) {frame : Frame T} {length : Nat}
    (hdrain : e.drain = .flushing frame) (hpositive : e.b.cfg.flushTimeout ≠ 0)
    (hflag : e.b.flushInFlight = false)
    (hlength : length = min e.b.timeoutBuf.length frame.sent.length) :
    FlightInv cfg { e with
      b := { e.b with
        flushInFlight := true
        timeoutBuf := frame.sent.take length ++ e.b.timeoutBuf.drop length }
      drain := .waiting frame e.flights.length
      flights := e.flights ++ [{ frame, length, stage := .starting }] } := by
  have hpoint := h.point
  rw [hdrain] at hpoint
  obtain ⟨hraw, hsent, _⟩ := hpoint
  have hlen : (frame.sent.take length ++ e.b.timeoutBuf.drop length).length =
      e.b.timeoutBuf.length := by
    rw [List.length_append, List.length_take, List.length_drop]
    omega
  have hdone : ∀ (i : Nat) (flight : Flight T), e.flights[i]? = some flight →
      flight.stage.running = false := by
    intro i flight hflight
    rw [← Bool.not_eq_true]
    intro hrunning
    have := (h.last i flight hflight hrunning).2
    rw [hflag] at this
    cases this
  refine ⟨h.cfg_eq, ⟨h.sized.header, h.sized.item, h.sized.previous, h.sized.delta,
    h.sized.compress, fun ht => hlen.trans (h.sized.timeout ht)⟩, h.offset, hlen.trans h.timeoutBuf,
    hraw, fun hzero => absurd (h.cfg_eq ▸ hzero) hpositive, ?_, ?_, ?_⟩
  · intro i flight hflight hrunning
    rw [List.getElem?_append] at hflight
    split at hflight
    · rw [hdone i flight hflight] at hrunning
      cases hrunning
    · have hlt := (List.getElem?_eq_some_iff.mp hflight).1
      simp only [List.length_append, List.length_singleton] at hlt ⊢
      exact ⟨by omega, trivial⟩
  · intro _
    exact ⟨_, List.mem_append_right _ (List.mem_singleton_self _), rfl⟩
  · intro flight hmem hrunning
    rcases List.mem_append.mp hmem with hold | hnew
    · obtain ⟨i, hi⟩ := List.mem_iff_getElem?.mp hold
      rw [hdone i flight hi] at hrunning
      cases hrunning
    · rw [List.mem_singleton.mp hnew]
      refine ⟨hsent, ?_⟩
      show (frame.sent.take length ++ e.b.timeoutBuf.drop length).take length =
        frame.sent.take (frame.sent.take length ++ e.b.timeoutBuf.drop length).length
      rw [hlen, List.take_append_of_le_length (by rw [List.length_take]; omega), List.take_take,
        Nat.min_self, hlength, ← List.take_eq_take_min]

/-- The flush goroutines after one of them has moved. -/
theorem of_getElem?_setStage {i k : Nat} {stage : FlightStage} {flight flight' : Flight T}
    (hflight : e.flights[i]? = some flight)
    (hk : (e.setStage i stage).flights[k]? = some flight') :
    k = i ∧ flight' = { flight with stage } ∨ k ≠ i ∧ e.flights[k]? = some flight' := by
  rw [getElem?_setStage] at hk
  split at hk
  · rename_i hik
    subst hik
    rw [hflight] at hk
    exact Or.inl ⟨rfl, (Option.some.inj hk).symm⟩
  · exact Or.inr ⟨fun h => by omega, hk⟩

theorem length_setStage (e : Engine T) (i : Nat) (stage : FlightStage) :
    (e.setStage i stage).flights.length = e.flights.length := by
  simp [setStage]

/-- What a flush goroutine promises is not affected by the program point it is at. -/
theorem FlightInv.setStage_snapshots (h : FlightInv cfg e) {i : Nat} {stage : FlightStage}
    {flight : Flight T} (hflight : e.flights[i]? = some flight)
    (hrunning : flight.stage.running = true) :
    ∀ flight' ∈ (e.setStage i stage).flights, flight'.stage.running = true →
      flight'.frame.sent.length ≤ e.b.byteBuffer.length ∧
        e.snapshot flight' = flight'.frame.sent.take e.b.timeoutBuf.length := by
  intro flight' hmem hrunning'
  obtain ⟨k, hk⟩ := List.mem_iff_getElem?.mp hmem
  rcases of_getElem?_setStage hflight hk with ⟨_, rfl⟩ | ⟨_, hold⟩
  · exact h.snapshots flight (List.mem_of_getElem? hflight) hrunning
  · exact h.snapshots flight' (List.mem_of_getElem? hold) hrunning'

/-- A step of a flush goroutine that does not finish it. -/
theorem FlightInv.setStage (h : FlightInv cfg e) {i : Nat} {stage : FlightStage}
    {flight : Flight T} (hflight : e.flights[i]? = some flight)
    (hrunning : flight.stage.running = true) (hstage : stage.running = true) :
    FlightInv cfg (e.setStage i stage) := by
  have hlast := h.last i flight hflight hrunning
  refine ⟨h.cfg_eq, h.sized, h.offset, h.timeoutBuf, ?_, ?_, ?_, ?_, ?_⟩
  · have hpoint := h.point
    show PointFits _ e.drain
    cases hdrain : e.drain <;> rw [hdrain] at hpoint <;> exact hpoint
  · intro hzero
    rw [h.direct hzero] at hflight
    cases hflight
  · intro k flight' hk hrunning'
    rw [length_setStage]
    rcases of_getElem?_setStage hflight hk with ⟨rfl, _⟩ | ⟨_, hold⟩
    · exact hlast
    · exact h.last k flight' hold hrunning'
  · intro _
    refine ⟨{ flight with stage }, ?_, hstage⟩
    refine List.mem_of_getElem? (i := i) ?_
    rw [getElem?_setStage, if_pos rfl, hflight]
    rfl
  · exact h.setStage_snapshots hflight hrunning

/-- A flush goroutine clears the flag and finishes. It was the last one running. -/
theorem FlightInv.clear (h : FlightInv cfg e) {i : Nat} {flight : Flight T} {err : Option Error}
    (hflight : e.flights[i]? = some flight) (hstage : flight.stage = .sent err) :
    FlightInv cfg ({ e with b := { e.b with flushInFlight := false } }.setStage i (.done err)) := by
  have hrunning : flight.stage.running = true := by rw [hstage]; rfl
  have hlast := h.last i flight hflight hrunning
  refine ⟨h.cfg_eq, ⟨h.sized.header, h.sized.item, h.sized.previous, h.sized.delta,
    h.sized.compress, h.sized.timeout⟩, h.offset, h.timeoutBuf, ?_, ?_, ?_, ?_, ?_⟩
  · have hpoint := h.point
    show PointFits _ e.drain
    cases hdrain : e.drain <;> rw [hdrain] at hpoint <;> exact hpoint
  · intro hzero
    rw [h.direct hzero] at hflight
    cases hflight
  · intro k flight' hk hrunning'
    have hk' : (e.setStage i (.done err)).flights[k]? = some flight' := hk
    rcases of_getElem?_setStage hflight hk' with ⟨_, rfl⟩ | ⟨hne, hold⟩
    · cases hrunning'
    · have := (h.last k flight' hold hrunning').1
      omega
  · intro hset
    cases hset
  · exact h.setStage_snapshots hflight hrunning

section Runs

variable [Serializable T] {host : ByteOrder} {new : List (Event T)} {a : Action T}

/-- Every step keeps the flag and the flush goroutines in order. -/
theorem step_flightInv (h : FlightInv cfg e) (hstep : step host e a = some (e', new)) :
    FlightInv cfg e' := by
  have hpoint := h.point
  cases step_cases hstep with
  | @assemble _ tick b out es stage _ hidle hassemble =>
      obtain ⟨hkeeps, hprevious, _, hframe⟩ := Batcher.assemble_ok h.sized hassemble
      refine h.drain hkeeps (by rw [hprevious]) (by rw [hprevious]; exact h.offset) ?_
      cases out with
      | none => trivial
      | some frame =>
          obtain ⟨hbuilt, _⟩ := hframe frame rfl
          refine ⟨?_, ?_, Batcher.assemble_prefix h.sized hassemble⟩
          · rw [hkeeps.length]
            exact hbuilt.length
          · rw [hkeeps.length]
            exact hbuilt.sent_length
  | direct hdrain hzero =>
      rw [hdrain] at hpoint
      exact h.drain ⟨rfl, rfl, rfl, rfl, rfl, rfl⟩ rfl h.offset ⟨hzero, hpoint.1, hpoint.2.2⟩
  | reject hdrain _ _ hsettle =>
      rw [hdrain] at hpoint
      exact h.settle hpoint.1 hsettle
  | handOver hdrain hpositive hflag hlength => exact h.handOver hdrain hpositive hflag hlength
  | callReturn hdrain hsettle =>
      rw [hdrain] at hpoint
      exact h.settle hpoint.2.1 hsettle
  | launch hflight hstage => exact h.setStage hflight (by rw [hstage]; rfl) rfl
  | flushReturn hflight hstage => exact h.setStage hflight (by rw [hstage]; rfl) rfl
  | send hflight hstage => exact h.setStage hflight (by rw [hstage]; rfl) rfl
  | clear hflight hstage => exact h.clear hflight hstage
  | receive hdrain _ _ hsettle =>
      rw [hdrain] at hpoint
      exact h.settle hpoint hsettle
  | deadline hdrain hsettle =>
      rw [hdrain] at hpoint
      exact h.settle hpoint hsettle
  | @shutdownDeadline now _ _ =>
      have hkeeps := Batcher.reportError_keeps e.b now (.shutdownTimeout e.b.cfg.shutdownTimeout)
      have hbuffer := Batcher.reportError_buffer e.b now (.shutdownTimeout e.b.cfg.shutdownTimeout)
      have hreport := (Batcher.reportError_eq e.b now
        (.shutdownTimeout e.b.cfg.shutdownTimeout)).1
      have hprevious := congrArg Batcher.previousState hreport
      refine h.drain hkeeps (by rw [hprevious]) (by rw [hprevious]; exact h.offset) ?_
      cases hdrain : e.drain with
      | idle => trivial
      | flushing frame =>
          rw [hdrain] at hpoint
          refine ⟨?_, ?_, ?_⟩
          · rw [hkeeps.length]
            exact hpoint.1
          · rw [hkeeps.length]
            exact hpoint.2.1
          · rw [hkeeps.cfg, hbuffer]
            exact hpoint.2.2
      | calling frame =>
          rw [hdrain] at hpoint
          refine ⟨?_, ?_, ?_⟩
          · rw [hkeeps.cfg]
            exact hpoint.1
          · rw [hkeeps.length]
            exact hpoint.2.1
          · rw [hkeeps.cfg, hbuffer]
            exact hpoint.2.2
      | waiting frame i =>
          rw [hdrain] at hpoint
          show frame.raw.length ≤ _
          rw [hkeeps.length]
          exact hpoint

/-! ## One call at a time, on bytes that do not change -/

omit [Serializable T] in
/-- At most one call of `Sink.Flush` is in progress. -/
theorem FlightInv.inProgress_le (h : FlightInv cfg e) : e.inProgress.length ≤ 1 := by
  have hpoint := h.point
  cases hdrain : e.drain with
  | calling frame =>
      rw [hdrain] at hpoint
      have hnone : e.flights = [] := h.direct (by rw [← h.cfg_eq]; exact hpoint.1)
      simp [inProgress, directCall, hdrain, hnone]
  | _ =>
      have hdirect : e.directCall = none := by simp [directCall, hdrain]
      rw [inProgress, hdirect, Option.toList_none, List.nil_append]
      rcases List.eq_nil_or_concat e.flights with hnone | ⟨older, flight, hflights⟩
      · simp [hnone]
      · -- the goroutines before the last one have finished
        have hdone : older.filterMap Flight.call = [] := by
          rw [List.filterMap_eq_nil_iff]
          intro old hmem
          obtain ⟨i, hi⟩ := List.mem_iff_getElem?.mp hmem
          have hlt := (List.getElem?_eq_some_iff.mp hi).1
          unfold Flight.call
          split
          · rename_i hcalling
            have hold : e.flights[i]? = some old := by
              rw [hflights, List.concat_eq_append, List.getElem?_append_left hlt, hi]
            have hlast := (h.last i old hold (by rw [hcalling]; rfl)).1
            rw [hflights, List.concat_eq_append, List.length_append,
              List.length_singleton] at hlast
            omega
          · rfl
        rw [hflights, List.concat_eq_append, List.filterMap_append, hdone, List.nil_append]
        exact List.length_filterMap_le _ _

omit [Serializable T] in
/-- A flush goroutine inside `Sink.Flush` has not finished. -/
theorem mem_inProgress {call : FlushCall T} (h : call ∈ e.inProgress) :
    e.directCall = some call ∨ ∃ flight ∈ e.flights, flight.stage = .calling ∧
      call = { frame := flight.frame, buffer := .timeoutBuf, length := flight.length } := by
  rcases List.mem_append.mp h with hdirect | hflight
  · exact Or.inl (Option.mem_toList.mp hdirect)
  · obtain ⟨flight, hmem, hcall⟩ := List.mem_filterMap.mp hflight
    unfold Flight.call at hcall
    split at hcall
    · exact Or.inr ⟨flight, hmem, ‹_›, (Option.some.inj hcall).symm⟩
    · cases hcall

omit [Serializable T] in
/-- A positive `FlushTimeout` comes with a `timeoutBuf` that holds every payload. -/
theorem FlightInv.snapshot_eq (h : FlightInv cfg e) (htimeout : 0 ≤ cfg.flushTimeout)
    {flight : Flight T} (hmem : flight ∈ e.flights) (hrunning : flight.stage.running = true) :
    e.snapshot flight = flight.frame.sent := by
  have hpositive : cfg.flushTimeout > 0 := by
    refine Int64.lt_of_le_of_ne htimeout fun hzero => ?_
    rw [h.direct hzero.symm] at hmem
    cases hmem
  have hlength := h.timeoutBuf
  rw [if_pos hpositive] at hlength
  obtain ⟨hfits, hsnapshot⟩ := h.snapshots flight hmem hrunning
  rw [hsnapshot, hlength]
  exact List.take_of_length_le hfits

omit [Serializable T] in
/-- The slice of a call in progress holds the payload that was assembled. -/
theorem FlightInv.bytes_eq (h : FlightInv cfg e) (htimeout : 0 ≤ cfg.flushTimeout)
    {call : FlushCall T} (hcall : call ∈ e.inProgress) : e.bytes call = call.frame.sent := by
  rcases mem_inProgress hcall with hdirect | ⟨flight, hmem, hcalling, rfl⟩
  · have hpoint := h.point
    unfold directCall at hdirect
    split at hdirect
    · rename_i frame hdrain
      cases hdirect
      rw [hdrain] at hpoint
      exact (List.prefix_iff_eq_take.mp hpoint.2.2).symm
    · cases hdirect
  · exact h.snapshot_eq htimeout hmem (by rw [hcalling]; rfl)

/-- A step writes to no other buffer than those listed. -/
theorem step_writes (h : FlightInv cfg e) (hstep : step host e a = some (e', new)) {buf : Buffer}
    (hbuf : buf ∉ e.writes a) : e'.b.buffer buf = e.b.buffer buf := by
  cases step_cases hstep with
  | assemble stage ha _ hassemble =>
      have hkeeps := (Batcher.assemble_ok h.sized hassemble).1
      have htimeoutBuf : buf = .timeoutBuf := by
        rcases ha with rfl | rfl <;> cases buf <;> simp [writes] at hbuf ⊢
      subst htimeoutBuf
      exact hkeeps.timeoutBuf
  | handOver _ hpositive hflag _ =>
      have hother : buf ≠ .timeoutBuf := by
        simpa [writes, hpositive, hflag] using hbuf
      cases buf with
      | timeoutBuf => exact absurd rfl hother
      | _ => rfl
  | reject _ _ _ hsettle => exact Batcher.settle_buffer hsettle buf
  | callReturn _ hsettle => exact Batcher.settle_buffer hsettle buf
  | receive _ _ _ hsettle => exact Batcher.settle_buffer hsettle buf
  | deadline _ hsettle => exact Batcher.settle_buffer hsettle buf
  | shutdownDeadline _ _ => exact Batcher.reportError_buffer _ _ _ buf
  | direct _ _ => rfl
  | launch _ _ => rfl
  | flushReturn _ _ => rfl
  | send _ _ => rfl
  | clear _ _ => cases buf <;> rfl

/-- No step writes to the buffer of a call in progress. -/
theorem step_spares (h : FlightInv cfg e) (hstep : step host e a = some (e', new))
    {call : FlushCall T} (hcall : call ∈ e.inProgress) : call.buffer ∉ e.writes a := by
  cases step_cases hstep with
  | assemble stage ha hidle _ =>
      rcases mem_inProgress hcall with hdirect | ⟨flight, _, _, rfl⟩
      · simp [directCall, hidle] at hdirect
      · rcases ha with rfl | rfl <;> simp [writes]
  | handOver hdrain _ hflag _ =>
      -- the flag is clear, so no flush goroutine is running
      rcases mem_inProgress hcall with hdirect | ⟨flight, hmem, hcalling, rfl⟩
      · simp [directCall, hdrain] at hdirect
      · obtain ⟨i, hi⟩ := List.mem_iff_getElem?.mp hmem
        have hset := (h.last i flight hi (by rw [hcalling]; rfl)).2
        rw [hflag] at hset
        cases hset
  | direct _ hzero => simp [writes, hzero]
  | reject _ _ hflag _ => simp [writes, hflag]
  | _ => simp [writes]

variable [Inhabited T] {sizeofT : Int64} {b : Batcher T} {actions : List (Action T)}
  {events : List (Event T)}

/-- The invariant holds along every run. -/
theorem run_flightInv (hnew : Batcher.new sizeofT cfg = .ok b)
    (hrun : run host (initial b) actions = some (e, events)) : FlightInv b.cfg e :=
  Transition.run_invariant (I := fun _ _ e => FlightInv b.cfg e)
    (fun _ _ _ _ _ _ h hstep => step_flightInv h hstep) (initial_flightInv hnew) hrun

/-- In every reachable state at most one call of `Sink.Flush` is in progress, its slice holds the
payload that was assembled, and no step that can be taken writes to the buffer of that slice: a step
writes to the buffers of `writes` only. -/
theorem single_flush (hnew : Batcher.new sizeofT cfg = .ok b) (htimeout : 0 ≤ b.cfg.flushTimeout)
    (hrun : run host (initial b) actions = some (e, events)) :
    e.inProgress.length ≤ 1 ∧
    (∀ call ∈ e.inProgress, e.bytes call = call.frame.sent) ∧
    ∀ a e' new, step host e a = some (e', new) →
      (∀ call ∈ e.inProgress, call.buffer ∉ e.writes a ∧ e'.bytes call = e.bytes call) ∧
      ∀ buf, buf ∉ e.writes a → e'.b.buffer buf = e.b.buffer buf := by
  have h := run_flightInv hnew hrun
  refine ⟨h.inProgress_le, fun call hcall => h.bytes_eq htimeout hcall, fun a e' new hstep => ?_⟩
  refine ⟨fun call hcall => ?_, fun buf hbuf => step_writes h hstep hbuf⟩
  have hspares := step_spares h hstep hcall
  refine ⟨hspares, ?_⟩
  unfold bytes
  rw [step_writes h hstep hspares]

end Runs

/-! ## Concrete runs -/

/-- A drain whose flush returns nil in time. -/
def timelyDrain (items : List (List UInt8)) (i : Nat) : List (Action (List UInt8)) :=
  [.tick (plainTick items none), .enter 0, .launch i, .flushReturn i none, .send i, .receive 0,
    .clear i]

/-- A drain that gives up at the deadline; the flush returns `err` afterwards. -/
def lateDrain (items : List (List UInt8)) (i : Nat) (err : Option Error) :
    List (Action (List UInt8)) :=
  [.tick (plainTick items none), .enter 0, .launch i, .deadline 0, .flushReturn i err, .send i,
    .clear i]

/-- A flush has been given up and is still running while the next drain has assembled its frame. -/
def abandonedFlush : List (Action (List UInt8)) :=
  [.tick (plainTick [[1, 2]] none), .enter 0, .launch 0, .deadline 0, .tick (plainTick [[3]] none)]

theorem single_flush_abandoned : ∃ b e events,
    Batcher.new 24 { Batcher.shortConfig with flushTimeout := 1 } = .ok b ∧
    run .little (initial b) abandonedFlush = some (e, events) ∧
    0 ≤ b.cfg.flushTimeout ∧ e.inProgress.length = 1 ∧
    ∀ call ∈ e.inProgress, e.bytes call = call.frame.sent := by
  obtain ⟨b, ⟨e, events⟩, hnew, hrun, hcfg, htest⟩ := exists_of_testNew
    { Batcher.shortConfig with flushTimeout := 1 } (fun b => run .little (initial b) abandonedFlush)
    (fun _ out => out.1.inProgress.length == 1) (by decide +kernel)
  have hle : 0 ≤ b.cfg.flushTimeout := by
    rw [hcfg]
    decide
  exact ⟨b, e, events, hnew, hrun, hle, by simpa using htest, (single_flush hnew hle hrun).2.1⟩

section Runs

variable [Serializable T] [Inhabited T] {host : ByteOrder} {new : List (Event T)} {a : Action T}
  {sizeofT : Int64} {b : Batcher T} {actions : List (Action T)} {events : List (Event T)}

/-! ## Turning a frame away -/

/-- The drain goroutine is about to enter `flushWithTimeout`. -/
def Entering : DrainPoint T → Prop
  | .flushing _ => True
  | _ => False

/-- When `flushWithTimeout` returns `ErrFlushTimeout` without starting a flush, an earlier
`Sink.Flush` has not returned. -/
def Justified (host : ByteOrder) (e : Engine T) (a : Action T) : Prop :=
  ∀ now e' new frame, a = .enter now → step host e a = some (e', new) →
    .effect (.flush frame (some .flushTimeout)) ∈ new →
      ∃ flight ∈ e.flights, flight.stage.outcome = none

/-- `flushWithTimeout` is not entered while a flush goroutine is between the return of its
`Sink.Flush` and the store that clears the flag. -/
def Cleared (e : Engine T) : Action T → Prop
  | .enter _ => Entering e.drain →
      ∀ flight ∈ e.flights, flight.stage.running = true → flight.stage.outcome = none
  | _ => True

instance : ∀ p : DrainPoint T, Decidable (Entering p)
  | .flushing _ => inferInstanceAs (Decidable True)
  | .idle | .calling _ | .waiting _ _ => inferInstanceAs (Decidable False)

instance (e : Engine T) : ∀ a, Decidable (e.Cleared a)
  | .enter _ => inferInstanceAs (Decidable (_ → _))
  | .tick _ | .cancel _ | .callReturn _ _ | .launch _ | .flushReturn _ _ | .send _ | .clear _
  | .receive _ | .deadline _ | .shutdownDeadline _ => inferInstanceAs (Decidable True)

omit [Inhabited T] in
/-- A frame that finds the flag set is turned away. -/
theorem step_reject (e : Engine T) (host : ByteOrder) (now : Int64) {frame : Frame T}
    (hdrain : e.drain = .flushing frame) (hpositive : e.b.cfg.flushTimeout ≠ 0)
    (hflag : e.b.flushInFlight = true) :
    ∃ e' new, step host e (.enter now) = some (e', new) ∧
      .effect (.flush frame (some .flushTimeout)) ∈ new := by
  obtain ⟨b, loop, reports, hsettle⟩ : ∃ b loop reports,
      e.b.settle e.loop now frame (some .flushTimeout) = .ok (b, loop, reports) := ⟨_, _, _, rfl⟩
  refine ⟨{ e with b, loop, drain := .idle, stage := e.stage.afterDrain },
    (.flush frame (some .flushTimeout) :: reports).map .effect, ?_, by simp⟩
  simp only [step, hdrain, flushWithTimeout, if_neg hpositive, hflag, if_true, finish, hsettle]

omit [Inhabited T] in
/-- In a state in order, the two conditions are the same: the flag is set exactly while the last
flush goroutine runs, and that one may have returned already. -/
theorem FlightInv.justified_iff (h : FlightInv cfg e) (a : Action T) :
    e.Justified host a ↔ e.Cleared a := by
  constructor
  · intro hjust
    cases a with
    | enter now =>
        intro hentering flight hmem hrunning
        obtain ⟨i, hi⟩ := List.mem_iff_getElem?.mp hmem
        obtain ⟨hlast, hflag⟩ := h.last i flight hi hrunning
        have hpositive : e.b.cfg.flushTimeout ≠ 0 := by
          rw [h.cfg_eq]
          intro hzero
          rw [h.direct hzero] at hmem
          cases hmem
        cases hdrain : e.drain with
        | flushing frame =>
            obtain ⟨e', new, hstep, hmem'⟩ :=
              e.step_reject host now hdrain hpositive hflag
            -- the one that has not returned is the one that is running
            obtain ⟨flight', hmem', hnone⟩ := hjust now e' new frame rfl hstep hmem'
            obtain ⟨k, hk⟩ := List.mem_iff_getElem?.mp hmem'
            have hrunning' : flight'.stage.running = true := by
              cases hs : flight'.stage <;> simp_all [FlightStage.outcome, FlightStage.running]
            have hlast' := (h.last k flight' hk hrunning').1
            have hik : i = k := by omega
            subst hik
            rw [hi] at hk
            cases hk
            exact hnone
        | _ =>
            rw [hdrain] at hentering
            exact hentering.elim
    | _ => trivial
  · intro hcleared now e' new frame ha hstep hmem
    subst ha
    cases step_cases hstep with
    | assemble stage ha _ _ => rcases ha with ha | ha <;> cases ha
    | direct hdrain hzero => simp at hmem
    | handOver hdrain _ _ _ => simp at hmem
    | reject hdrain hpositive hflag hsettle =>
        obtain ⟨flight, hflight, hrunning⟩ := h.flagged hflag
        exact ⟨flight, hflight, hcleared (by rw [hdrain]; trivial) flight hflight hrunning⟩

/-- In every run, each frame that `flushWithTimeout` turns away is turned away because an earlier
`Sink.Flush` has not returned, if and only if `flushWithTimeout` is never entered while a flush
goroutine has its result but has not yet cleared the flag. -/
theorem justified_iff_cleared (hnew : Batcher.new sizeofT cfg = .ok b)
    (actions : List (Action T)) :
    Transition.Along (step host) (Justified host) (initial b) actions ↔
      Transition.Along (step host) Cleared (initial b) actions :=
  Transition.along_congr (I := fun e => FlightInv b.cfg e)
    (fun _ _ _ _ h hstep => step_flightInv h hstep) (fun _ a h => h.justified_iff a) actions
    (initial_flightInv hnew)

/-- Two drains, the second after the flag has been cleared. -/
theorem justified_iff_cleared_timely : ∃ b,
    Batcher.new 24 { Batcher.shortConfig with flushTimeout := 1 } = .ok b ∧
    Transition.Along (step .little) (Justified .little) (initial b)
      (timelyDrain [[1]] 0 ++ timelyDrain [[2]] 1) := by
  obtain ⟨b, _, hnew, _, _, htest⟩ := exists_of_testNew
    { Batcher.shortConfig with flushTimeout := 1 }
    (fun b => run .little (initial b) (timelyDrain [[1]] 0 ++ timelyDrain [[2]] 1))
    (fun b _ => decide (Transition.Along (step .little) Cleared (initial b)
      (timelyDrain [[1]] 0 ++ timelyDrain [[2]] 1))) (by decide +kernel)
  exact ⟨b, hnew, (justified_iff_cleared hnew _).mpr (decide_eq_true_eq.mp htest)⟩

/-- A drain receives the result of its flush, and the next one assembles its frame before the flush
goroutine has cleared the flag. -/
def staleFlag : List (Action (List UInt8)) :=
  [.tick (plainTick [[1]] none), .enter 0, .launch 0, .flushReturn 0 none, .send 0, .receive 0,
    .tick (plainTick [[2]] none)]

/-- The second frame is turned away with `ErrFlushTimeout` although every `Sink.Flush` has
returned. -/
theorem spurious_timeout : ∃ b e events e' new frame,
    Batcher.new 24 { Batcher.shortConfig with flushTimeout := 1 } = .ok b ∧
    0 < b.cfg.flushTimeout ∧ run .little (initial b) staleFlag = some (e, events) ∧
    step .little e (.enter 0) = some (e', new) ∧
    .effect (.flush frame (some .flushTimeout)) ∈ new ∧
    ∀ flight ∈ e.flights, flight.stage.outcome ≠ none := by
  obtain ⟨b, ⟨e, events⟩, hnew, hrun, hcfg, htest⟩ := exists_of_testNew
    { Batcher.shortConfig with flushTimeout := 1 } (fun b => run .little (initial b) staleFlag)
    (fun _ out => decide (Entering out.1.drain) && decide (out.1.b.cfg.flushTimeout ≠ 0) &&
      out.1.b.flushInFlight && out.1.flights.all fun flight => flight.stage.outcome.isSome)
    (by decide +kernel)
  simp only [Bool.and_eq_true, decide_eq_true_eq, List.all_eq_true] at htest
  obtain ⟨⟨⟨hentering, hpositive⟩, hflag⟩, hreturned⟩ := htest
  cases hdrain : e.drain with
  | flushing frame =>
      obtain ⟨e', new, hstep, hmem⟩ := e.step_reject .little 0 hdrain hpositive hflag
      refine ⟨b, e, events, e', new, frame, hnew, by rw [hcfg]; decide, hrun, hstep, hmem, ?_⟩
      exact fun flight hflight => Option.isSome_iff_ne_none.mp (hreturned flight hflight)
  | _ =>
      rw [hdrain] at hentering
      exact hentering.elim

/-! ## What the sink is given -/

/-- `Sink.Flush` has been called with some bytes for a frame, or has returned from such a call. -/
def Saw (events : List (Event T)) (frame : Frame T) (bytes : List UInt8) : Prop :=
  .called frame bytes ∈ events ∨ ∃ err, .returned frame bytes err ∈ events

omit [Inhabited T] in
/-- What the sink is given in one step. -/
theorem step_saw (h : FlightInv cfg e) (hstep : step host e a = some (e', new)) {frame : Frame T}
    {bytes : List UInt8} (hsaw : Saw new frame bytes) :
    bytes = frame.sent ↔ 0 ≤ cfg.flushTimeout ∨ frame.sent = [] := by
  -- a snapshot is the whole payload, or empty when there is no `timeoutBuf`
  have hsnapshot : ∀ flight ∈ e.flights, flight.stage.running = true →
      (e.snapshot flight = flight.frame.sent ↔ 0 ≤ cfg.flushTimeout ∨ flight.frame.sent = []) := by
    intro flight hmem hrunning
    by_cases htimeout : 0 ≤ cfg.flushTimeout
    · simp [htimeout, h.snapshot_eq htimeout hmem hrunning]
    · have hlength := h.timeoutBuf
      have hnot : ¬cfg.flushTimeout > 0 := fun hpos => htimeout (Int64.le_of_lt hpos)
      rw [if_neg hnot] at hlength
      rw [(h.snapshots flight hmem hrunning).2, hlength, List.take_zero]
      simp [htimeout, eq_comm]
  have hquiet : ∀ es : List (Effect T), ¬Saw (es.map .effect) frame bytes := by
    intro es hsaw
    rcases hsaw with hmem | ⟨err, hmem⟩ <;> simp at hmem
  cases step_cases hstep with
  | assemble => exact (hquiet _ hsaw).elim
  | direct hdrain hzero =>
      have hframe : frame.sent = bytes := by
        rcases hsaw with hmem | ⟨err, hmem⟩ <;> simp at hmem
        rw [hmem.1, hmem.2]
      have hle : 0 ≤ cfg.flushTimeout := by
        rw [← h.cfg_eq, hzero]
        decide
      simp [hframe, hle]
  | reject => exact (hquiet _ hsaw).elim
  | handOver => exact (hquiet [] hsaw).elim
  | callReturn hdrain hsettle =>
      have hpoint := h.point
      rw [hdrain] at hpoint
      have hframe : frame.sent = bytes := by
        rcases hsaw with hmem | ⟨err, hmem⟩ <;> simp at hmem
        rw [hmem.1, hmem.2.1]
      have hle : 0 ≤ cfg.flushTimeout := by
        rw [← h.cfg_eq, hpoint.1]
        decide
      simp [hframe, hle]
  | @launch _ flight hflight hstage =>
      rcases hsaw with hmem | ⟨err, hmem⟩ <;> simp at hmem
      rw [hmem.1, hmem.2]
      exact hsnapshot flight (List.mem_of_getElem? hflight) (by rw [hstage]; rfl)
  | @flushReturn _ flight _ hflight hstage =>
      rcases hsaw with hmem | ⟨err, hmem⟩ <;> simp at hmem
      rw [hmem.1, hmem.2.1]
      exact hsnapshot flight (List.mem_of_getElem? hflight) (by rw [hstage]; rfl)
  | send => exact (hquiet [] hsaw).elim
  | clear => exact (hquiet [] hsaw).elim
  | receive => exact (hquiet _ hsaw).elim
  | deadline => exact (hquiet _ hsaw).elim
  | shutdownDeadline => exact (hquiet _ hsaw).elim

/-- In every run, each call of `Sink.Flush` is given the payload that was assembled, unless
`FlushTimeout` is negative, in which case it is given no bytes at all. -/
theorem sink_bytes_iff (hnew : Batcher.new sizeofT cfg = .ok b)
    (hrun : run host (initial b) actions = some (e, events)) {frame : Frame T}
    {bytes : List UInt8} (hsaw : Saw events frame bytes) :
    bytes = frame.sent ↔ 0 ≤ b.cfg.flushTimeout ∨ frame.sent = [] := by
  have hall := (Transition.run_invariant
    (I := fun _ events e => FlightInv b.cfg e ∧ ∀ frame bytes, Saw events frame bytes →
      (bytes = frame.sent ↔ 0 ≤ b.cfg.flushTimeout ∨ frame.sent = []))
    (fun acts events e a e' new h hstep => by
      refine ⟨step_flightInv h.1 hstep, fun frame bytes hsaw => ?_⟩
      unfold Saw at hsaw
      simp only [List.mem_append, exists_or] at hsaw
      rcases hsaw with (hold | hnew) | (hold | hnew)
      · exact h.2 frame bytes (Or.inl hold)
      · exact step_saw h.1 hstep (Or.inl hnew)
      · exact h.2 frame bytes (Or.inr hold)
      · exact step_saw h.1 hstep (Or.inr hnew))
    ⟨initial_flightInv hnew, fun _ _ hsaw => by simp [Saw] at hsaw⟩ hrun).2
  exact hall frame bytes hsaw

/-- The first call of `Sink.Flush` in a run. -/
def firstCall (events : List (Event (List UInt8))) : Option (Frame (List UInt8) × List UInt8) :=
  events.findSome? fun
    | .called frame bytes => some (frame, bytes)
    | _ => none

theorem saw_of_firstCall {events : List (Event (List UInt8))} {frame : Frame (List UInt8)}
    {bytes : List UInt8} (h : firstCall events = some (frame, bytes)) : Saw events frame bytes := by
  obtain ⟨event, hmem, hevent⟩ := List.exists_of_findSome?_eq_some h
  cases event with
  | called frame' bytes' =>
      cases hevent
      exact Or.inl hmem
  | _ => cases hevent

/-- Run some actions of a new engine and look at its first call of `Sink.Flush`. -/
theorem exists_firstCall (flushTimeout : Int64) (actions : List (Action (List UInt8)))
    (test : Frame (List UInt8) → List UInt8 → Engine (List UInt8) → Bool)
    (h : testNew { Batcher.shortConfig with flushTimeout }
      (fun b => run .little (initial b) actions)
      (fun _ out => (firstCall out.2).any fun call => test call.1 call.2 out.1) = true) :
    ∃ b e events frame bytes,
      Batcher.new 24 { Batcher.shortConfig with flushTimeout } = .ok b ∧
      run .little (initial b) actions = some (e, events) ∧ b.cfg.flushTimeout = flushTimeout ∧
      Saw events frame bytes ∧ test frame bytes e = true := by
  obtain ⟨b, ⟨e, events⟩, hnew, hrun, hcfg, htest⟩ := exists_of_testNew _ _ _ h
  obtain ⟨⟨frame, bytes⟩, hcall, htest⟩ := (Option.any_eq_true _ _).mp htest
  exact ⟨b, e, events, frame, bytes, hnew, hrun, by rw [hcfg], saw_of_firstCall hcall, htest⟩

/-- With a positive `FlushTimeout` the sink is given the frame. -/
theorem sink_bytes_iff_timely : ∃ b e events frame bytes,
    Batcher.new 24 { Batcher.shortConfig with flushTimeout := 1 } = .ok b ∧
    run .little (initial b) (timelyDrain [[1]] 0) = some (e, events) ∧ Saw events frame bytes ∧
    frame.sent ≠ [] ∧ bytes = frame.sent := by
  obtain ⟨b, e, events, frame, bytes, hnew, hrun, htimeout, hsaw, htest⟩ := exists_firstCall 1
    (timelyDrain [[1]] 0) (fun frame _ _ => decide (frame.sent ≠ [])) (by decide +kernel)
  refine ⟨b, e, events, frame, bytes, hnew, hrun, hsaw, decide_eq_true_eq.mp htest, ?_⟩
  refine (sink_bytes_iff hnew hrun hsaw).mpr (Or.inl ?_)
  rw [htimeout]
  decide

/-- `New` accepts a negative `FlushTimeout` and allocates no `timeoutBuf` for it: the sink is given
an empty slice for a frame of nine bytes, and these nine bytes are counted as flushed. -/
theorem empty_snapshot : ∃ b e events frame bytes,
    Batcher.new 24 { Batcher.shortConfig with flushTimeout := -1 } = .ok b ∧
    run .little (initial b) (timelyDrain [[1]] 0) = some (e, events) ∧ Saw events frame bytes ∧
    bytes ≠ frame.sent ∧ bytes = [] ∧ e.b.bytesFlushed = 9 := by
  obtain ⟨b, e, events, frame, bytes, hnew, hrun, _, hsaw, htest⟩ := exists_firstCall (-1)
    (timelyDrain [[1]] 0) (fun frame bytes e => decide (bytes ≠ frame.sent) &&
      decide (bytes = []) && decide (e.b.bytesFlushed = 9)) (by decide +kernel)
  simp only [Bool.and_eq_true, decide_eq_true_eq] at htest
  exact ⟨b, e, events, frame, bytes, hnew, hrun, hsaw, htest.1.1, htest.1.2, htest.2⟩

end Runs

end Engine

end TickBatch
