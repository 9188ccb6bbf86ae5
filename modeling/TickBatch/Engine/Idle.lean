import TickBatch.Engine.Capacity
import TickBatch.Engine.Stream

/-!
# The batcher between calls

`Idle` is the state of a batcher on which no call is in progress. It holds of a new batcher and is
kept by pushes and drains, whatever the transport, the compressor and the items do (`drains_idle`).
From an idle state a drain returns as soon as its marshaling loop has stopped, and `drain_ok` says
what becomes of the items it has taken.
-/

namespace TickBatch

variable {T : Type}

namespace Batcher

/-- A batcher on which no call is in progress. -/
structure Idle (b : Batcher T) (loop : Loop) : Prop where
  sized : b.Sized
  accepted : b.cfg.Accepted
  ring : Ring.Quiescent b.cfg.queueSize b.ring
  offset : b.cfg.deltaEncoding = true → loop.prevOffset ≤ b.previousState.length

/-- A new batcher is idle. -/
theorem new_idle [Inhabited T] {sizeofT : Int64} {cfg : Config} {b : Batcher T}
    (h : Batcher.new sizeofT cfg = .ok b) : b.Idle Loop.initial := by
  obtain ⟨_, haccepted, hring, _⟩ := new_ok h
  exact ⟨new_sized h, haccepted, .initial hring, fun _ => Nat.zero_le _⟩

/-! ## The ring -/

theorem push_quiescent {size : UInt64} {b b' : Batcher T} {item : T}
    (h : Ring.Quiescent size b.ring) (hpush : b.push item = .ok b') :
    Ring.Quiescent size b'.ring := by
  unfold push at hpush
  split at hpush
  · cases hpush
  · rename_i ring hring
    cases hpush
    exact h.push hring
  · rename_i ring hring
    cases hpush
    exact h.push hring

theorem pushAll_quiescent {size : UInt64} {b b' : Batcher T} {items : List T}
    (h : Ring.Quiescent size b.ring) (hpush : b.pushAll items = .ok b') :
    Ring.Quiescent size b'.ring := by
  unfold pushAll at hpush
  induction items generalizing b with
  | nil =>
      cases hpush
      exact h
  | cons item items ih =>
      rw [List.foldlM_cons] at hpush
      obtain ⟨b₁, hfirst, hrest⟩ := bind_eq_ok hpush
      exact ih (push_quiescent h hfirst) hrest

/-- Pushes leave a batcher idle. -/
theorem Idle.pushAll {b b' : Batcher T} {loop : Loop} {items : List T} (h : b.Idle loop)
    (hpush : b.pushAll items = .ok b') : b'.Idle loop := by
  have hring := pushAll_quiescent h.ring hpush
  rw [pushAll_eq hpush] at hring ⊢
  exact ⟨⟨h.sized.header, h.sized.item, h.sized.previous, h.sized.delta, h.sized.compress,
    h.sized.timeout⟩, h.accepted, hring, h.offset⟩

section Fill

variable [Serializable T]

theorem popMarshal_quiescent {size : UInt64} {r r' : Ringbuf T} {buf : List UInt8}
    {out : Option (Ringbuf.Marshaled T)} (h : Ring.Quiescent size r)
    (hpop : r.popMarshal buf = some (r', out)) : Ring.Quiescent size r' := by
  simp only [Ringbuf.popMarshal, bind, Option.bind_eq_some_iff, pure, Option.some.injEq,
    Prod.mk.injEq] at hpop
  obtain ⟨⟨r₁, item⟩, htake, rfl, _⟩ := hpop
  exact h.take htake

/-- The marshaling loop leaves the ring quiescent. -/
theorem fillLoop_quiescent {size : UInt64} {arrivals : Nat → List T} {left : Nat} {f f' : Fill T}
    (h : Ring.Quiescent size f.b.ring) (hloop : fillLoop arrivals left f = .ok f') :
    Ring.Quiescent size f'.b.ring := by
  induction left generalizing f with
  | zero =>
      cases hloop
      exact h
  | succ left ih =>
      obtain rfl | ⟨b, buf, r, out, hpush, _, hpop, hout⟩ := fillLoop_succ hloop
      · exact h
      have hr := popMarshal_quiescent (pushAll_quiescent h hpush) hpop
      cases out with
      | none =>
          simp only at hout
          subst hout
          exact hr
      | some m =>
          simp only at hout
          split at hout
          · subst hout
            exact hr
          · exact ih hr hout

end Fill

/-! ## After the flush -/

/-- Clearing stale bytes that lie inside the buffer keeps its length. -/
theorem clearStale_ok {buf : List UInt8} (offset : Nat) {prevOffset : Nat}
    (h : prevOffset ≤ buf.length) :
    ∃ buf', clearStale buf offset prevOffset = .ok buf' ∧ buf'.length = buf.length := by
  unfold clearStale
  split
  · have hfits : offset + (List.replicate (prevOffset - offset) (0 : UInt8)).length ≤
        buf.length := by
      rw [List.length_replicate]
      omega
    exact ⟨_, store_ok hfits, length_splice hfits⟩
  · exact ⟨buf, rfl, rfl⟩

/-- Advancing the baseline never panics. -/
theorem advance_ok {b : Batcher T} {loop : Loop} (raw : List UInt8)
    (hraw : raw.length ≤ b.previousState.length)
    (hoffset : loop.prevOffset ≤ b.previousState.length) :
    ∃ previousState loop', b.advance loop raw = .ok ({ b with previousState }, loop') ∧
      previousState.length = b.previousState.length ∧ loop'.prevOffset = raw.length := by
  have hfits : 0 + raw.length ≤ b.previousState.length := by rwa [Nat.zero_add]
  have hlen := length_splice hfits
  obtain ⟨buf, hclear, hbuf⟩ := clearStale_ok raw.length
    (show loop.prevOffset ≤ (splice b.previousState 0 raw).length by rw [hlen]; exact hoffset)
  refine ⟨buf, { prevOffset := raw.length, keyframeN := nextKeyframe b.cfg loop.keyframeN }, ?_,
    hbuf.trans hlen, rfl⟩
  unfold advance
  rw [store_ok hfits]
  simp only [bind, Except.bind, hclear]
  rfl

/-- What the bookkeeping after a flush leaves alone. -/
structure Rests (b b' : Batcher T) (loop' : Loop) (reports : List (Effect T)) : Prop where
  keeps : b.Keeps b'
  previous : b'.previousState.length = b.previousState.length
  offset : b'.cfg.deltaEncoding = true → loop'.prevOffset ≤ b'.previousState.length
  ring : b'.ring = b.ring
  truncated : b'.truncated = b.truncated
  quiet : attempts reports = []
  whole : truncations reports = []

/-- Reporting an error leaves everything alone. -/
theorem reportError_rests (b : Batcher T) (loop : Loop) (now : Int64) (err : Error)
    (hoffset : b.cfg.deltaEncoding = true → loop.prevOffset ≤ b.previousState.length) :
    Rests b (b.reportError now err).1 loop (b.reportError now err).2 := by
  unfold reportError
  split
  · exact ⟨⟨rfl, rfl, rfl, rfl, rfl, rfl⟩, rfl, hoffset, rfl, rfl, rfl, rfl⟩
  · split
    · exact ⟨⟨rfl, rfl, rfl, rfl, rfl, rfl⟩, rfl, hoffset, rfl, rfl, rfl, rfl⟩
    · exact ⟨⟨rfl, rfl, rfl, rfl, rfl, rfl⟩, rfl, hoffset, rfl, rfl, rfl, rfl⟩

/-- The bookkeeping after a flush never panics. -/
theorem settle_ok {b : Batcher T} {loop : Loop} (now : Int64) {frame : Frame T}
    (err : Option Error) (hs : b.Sized)
    (hoffset : b.cfg.deltaEncoding = true → loop.prevOffset ≤ b.previousState.length)
    (hraw : frame.raw.length ≤ b.byteBuffer.length) :
    ∃ b' loop' reports, b.settle loop now frame err = .ok (b', loop', reports) ∧
      Rests b b' loop' reports := by
  cases err with
  | some err =>
      have hkeeps : b.Keeps { b with flushErrs := b.flushErrs + 1 } :=
        ⟨rfl, rfl, rfl, rfl, rfl, rfl⟩
      have hreport := reportError_rests { b with flushErrs := b.flushErrs + 1 } loop now err hoffset
      exact ⟨_, loop, _, rfl, hkeeps.trans hreport.keeps, hreport.previous, hreport.offset,
        hreport.ring, hreport.truncated, hreport.quiet, hreport.whole⟩
  | none =>
      unfold settle
      simp only
      by_cases hdelta : b.cfg.deltaEncoding = true
      · have hprev := hs.previous hdelta
        obtain ⟨previousState, loop', hadvance, hlen, hloop⟩ :=
          advance_ok frame.raw (by omega) (hoffset hdelta)
        rw [if_pos hdelta, hadvance]
        refine ⟨_, loop', [], rfl, ⟨rfl, rfl, rfl, rfl, rfl, rfl⟩, hlen, fun _ => ?_, rfl, rfl, rfl,
          rfl⟩
        -- the next drain clears up to the length of this frame, which fits
        show loop'.prevOffset ≤ previousState.length
        rw [hloop, hlen, hprev]
        exact hraw
      · rw [if_neg hdelta]
        exact ⟨_, loop, [], rfl, ⟨rfl, rfl, rfl, rfl, rfl, rfl⟩, rfl, fun h => absurd h hdelta, rfl,
          rfl, rfl, rfl⟩

/-! ## A whole drain -/

/-- Whether the compressor, if there is one, succeeds on a payload and reports a possible length. -/
def compresses (b : Batcher T) (tick : Tick T) (payload : List UInt8) : Bool :=
  !b.cfg.compressor ||
    let c := tick.compress b.compressBuffer payload
    c.err.isNone && decide (0 ≤ c.n) && decide (c.n ≤ c.dst.length)

theorem compress_cases (b : Batcher T) (tick : Tick T) (payload : List UInt8) :
    (b.compresses tick payload = true ∧ ∃ b' sent, b.compress tick payload = (b', .ok sent)) ∨
      (b.compresses tick payload = false ∧
        ∃ b' err, b.compress tick payload = (b', .error err)) := by
  unfold compresses compress
  by_cases hc : b.cfg.compressor = true
  · simp only [hc, Bool.not_true, Bool.false_or, if_true]
    cases herr : (tick.compress b.compressBuffer payload).err with
    | some err => exact Or.inr ⟨rfl, _, _, rfl⟩
    | none =>
        simp only [Option.isNone_none, Bool.true_and, Bool.and_eq_true, decide_eq_true_eq]
        split
        · rename_i hrange
          refine Or.inr ⟨?_, _, _, rfl⟩
          rw [Bool.and_eq_false_iff, decide_eq_false_iff_not, decide_eq_false_iff_not]
          omega
        · rename_i hrange
          exact Or.inl ⟨by omega, _, _, rfl⟩
  · simp only [hc, Bool.not_false, Bool.true_or, if_false, Bool.false_eq_true]
    exact Or.inl ⟨trivial, _, _, rfl⟩

/-- The payload of the frame of a filled buffer, before compression. -/
def Fill.payload (f : Fill T) (loop : Loop) : List UInt8 :=
  f.b.payloadOf (f.b.isKeyframe loop) (f.raw (f.b.isKeyframe loop))

/-- The items of a filled buffer are handed to the flush. -/
def Fill.Sends (f : Fill T) (loop : Loop) (tick : Tick T) : Prop :=
  f.n ≠ 0 ∧ f.b.cfg.sink ≠ none ∧ f.b.compresses tick (f.payload loop) = true

/-- Packing a frame leaves the ring alone, and yields a frame unless the compressor fails. -/
theorem Fill.finish_cases (f : Fill T) (loop : Loop) (tick : Tick T) :
    ∃ b' out effects, f.finish loop tick = (b', out, effects) ∧ b'.ring = f.b.ring ∧
      b'.truncated = f.b.truncated ∧ truncations effects = truncations f.effects ∧
      (out = none ∧ f.b.compresses tick (f.payload loop) = false ∨
        ∃ frame, out = some frame ∧ frame.items = f.items ∧
          f.b.compresses tick (f.payload loop) = true) := by
  unfold Fill.finish Fill.pack
  simp only
  have hcases := compress_cases (f.built (f.b.isKeyframe loop) (f.raw (f.b.isKeyframe loop))
    (f.payload loop)) tick (f.payload loop)
  have hkeep := (compress_eq (f.built (f.b.isKeyframe loop) (f.raw (f.b.isKeyframe loop))
    (f.payload loop)) tick (f.payload loop)).1
  rcases hcases with ⟨hok, b', sent, hc⟩ | ⟨hbad, b', err, hc⟩
  · rw [hc] at hkeep
    have hring := congrArg ring hkeep
    have htruncated := congrArg truncated hkeep
    exact ⟨b', _, f.effects, by rw [show f.b.payloadOf _ _ = f.payload loop from rfl, hc], hring,
      htruncated, rfl, Or.inr ⟨_, rfl, rfl, hok⟩⟩
  · rw [hc] at hkeep
    have hring := congrArg ring hkeep
    have htruncated := congrArg truncated hkeep
    have hreport := reportError_rests b' Loop.initial tick.now err fun _ => Nat.zero_le _
    refine ⟨_, none, f.effects ++ .discarded f.items :: (b'.reportError tick.now err).2,
      by rw [show f.b.payloadOf _ _ = f.payload loop from rfl, hc],
      hreport.ring.trans hring, hreport.truncated.trans htruncated, ?_, Or.inl ⟨rfl, hbad⟩⟩
    rw [truncations_append]
    exact (congrArg _ hreport.whole).trans (List.append_nil _)

variable [Serializable T]

/-- What `assemble` does with the items of a filled buffer. -/
theorem assemble_cases (host : ByteOrder) {b : Batcher T} (loop : Loop) {tick : Tick T}
    {f : Fill T} (hs : b.Sized) (hfill : b.fill tick.arrivals = .ok f) :
    ∃ b' out effects, b.assemble host loop tick = .ok (b', out, effects) ∧ b'.ring = f.b.ring ∧
      b'.truncated = f.b.truncated ∧ truncations effects = truncations f.effects ∧
      (out = none ∧ ¬ f.Sends loop tick ∨
        ∃ frame, out = some frame ∧ frame.items = f.items ∧ f.Sends loop tick) := by
  rw [assemble_eq hs hfill]
  by_cases hn : f.n = 0
  · rw [if_pos hn]
    exact ⟨_, _, _, rfl, rfl, rfl, rfl, Or.inl ⟨rfl, fun h => h.1 hn⟩⟩
  by_cases hsink : f.b.cfg.sink = none
  · rw [if_neg hn, if_pos hsink]
    refine ⟨_, _, _, rfl, rfl, rfl, ?_, Or.inl ⟨rfl, fun h => h.2.1 hsink⟩⟩
    rw [truncations_append]
    exact List.append_nil _
  rw [if_neg hn, if_neg hsink]
  obtain ⟨b', out, effects, hfinish, hring, htruncated, hwhole, hcase⟩ := f.finish_cases loop tick
  refine ⟨b', out, effects, by rw [hfinish], hring, htruncated, hwhole, ?_⟩
  rcases hcase with ⟨hout, hbad⟩ | ⟨frame, hout, hitems, hok⟩
  · exact Or.inl ⟨hout, fun h => by rw [h.2.2] at hbad; cases hbad⟩
  · exact Or.inr ⟨frame, hout, hitems, hn, hsink, hok⟩

/-- Once its marshaling loop has stopped, a drain of an idle batcher returns and leaves it idle.
Its items are handed to the flush in one frame, or not at all. -/
theorem drain_ok (host : ByteOrder) {b : Batcher T} {loop : Loop} {tick : Tick T} {f : Fill T}
    (h : b.Idle loop) (hfill : b.fill tick.arrivals = .ok f) :
    ∃ b' loop' effects, b.drainAndFlush host loop tick = .ok (b', loop', effects) ∧
      b'.Idle loop' ∧ b'.ring = f.b.ring ∧ b'.truncated = f.b.truncated ∧
      truncations effects = truncations f.effects ∧
      (attempts effects = [] ∧ ¬ f.Sends loop tick ∨
        ∃ frame, attempts effects = [(frame, tick.flush frame.sent)] ∧ frame.items = f.items ∧
          f.Sends loop tick) := by
  obtain ⟨b₁, out, es, hassemble, hring, htruncated, hwhole, hcase⟩ :=
    assemble_cases host loop h.sized hfill
  obtain ⟨hkeeps, hprev, hquiet, hframe⟩ := assemble_ok h.sized hassemble
  have hring' : Ring.Quiescent b.cfg.queueSize b₁.ring := by
    rw [hring]
    exact fillLoop_quiescent h.ring hfill
  -- assembling the frame moves neither the baseline nor the loop variables
  have hidle : b₁.Idle loop := by
    refine ⟨hkeeps.sized h.sized (by rw [hprev]), ?_, ?_, ?_⟩
    · rw [hkeeps.cfg]
      exact h.accepted
    · rw [hkeeps.cfg]
      exact hring'
    · rw [hkeeps.cfg, hprev]
      exact h.offset
  unfold drainAndFlush
  rw [hassemble]
  rcases hcase with ⟨rfl, hnone⟩ | ⟨frame, rfl, hitems, hsends⟩
  · exact ⟨b₁, loop, es, rfl, hidle, hring, htruncated, hwhole, Or.inl ⟨hquiet, hnone⟩⟩
  · have hraw : frame.raw.length ≤ b₁.byteBuffer.length := by
      rw [hkeeps.length]
      exact (hframe frame rfl).1.length
    obtain ⟨b₂, loop₂, reports, hsettle, hrests⟩ := settle_ok tick.now
      (tick.flush frame.sent) hidle.sized hidle.offset hraw
    refine ⟨b₂, loop₂, es ++ .flush frame (tick.flush frame.sent) :: reports, ?_, ?_,
      hrests.ring.trans hring, hrests.truncated.trans htruncated, ?_,
      Or.inr ⟨frame, ?_, hitems, hsends⟩⟩
    · simp only [bind, Except.bind, hsettle]
      rfl
    · refine ⟨hrests.keeps.sized hidle.sized hrests.previous, ?_, ?_, hrests.offset⟩
      · rw [hrests.keeps.cfg]
        exact hidle.accepted
      · rw [hrests.keeps.cfg, hrests.ring]
        exact hidle.ring
    · rw [truncations_append, hwhole]
      exact (congrArg _ hrests.whole).trans (List.append_nil _)
    · rw [attempts_append, hquiet]
      show (frame, tick.flush frame.sent) :: attempts reports = _
      rw [hrests.quiet]

/-- A drain leaves a batcher idle. -/
theorem drain_idle {host : ByteOrder} {tick : Tick T} {b b' : Batcher T} {loop loop' : Loop}
    {effects : List (Effect T)} (h : b.Idle loop)
    (hdrain : b.drainAndFlush host loop tick = .ok (b', loop', effects)) : b'.Idle loop' := by
  obtain ⟨⟨_, _, _⟩, hassemble, _⟩ := bind_eq_ok hdrain
  obtain ⟨f, hfill, _⟩ := bind_eq_ok hassemble
  obtain ⟨_, _, _, hok, hidle, _⟩ := drain_ok host h hfill
  rw [hok] at hdrain
  cases hdrain
  exact hidle

theorem drains_idle {host : ByteOrder} {ticks : List (Tick T)} {b b' : Batcher T}
    {loop loop' : Loop} {effects : List (Effect T)} (h : b.Idle loop)
    (hrun : b.drains host loop ticks = .ok (b', loop', effects)) : b'.Idle loop' := by
  induction ticks generalizing b loop effects with
  | nil =>
      cases hrun
      exact h
  | cons tick ticks ih =>
      obtain ⟨⟨b₁, loop₁, es⟩, hfirst, hrun⟩ := bind_eq_ok hrun
      obtain ⟨⟨b₂, loop₂, rest⟩, hrest, hrun⟩ := bind_eq_ok hrun
      cases hrun
      exact ih (drain_idle h hfirst) hrest

end Batcher

end TickBatch
