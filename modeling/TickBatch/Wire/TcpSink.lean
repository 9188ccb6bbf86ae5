import TickBatch.Engine.Drain
import TickBatch.Lib.Framing

/-!
# Length-prefixed frames over a connection

`TCPSink.Flush` writes each payload with its length in front. The connection is a byte stream that
accepts some prefix of what it is given, and stays usable after a failed write. `Recovers` says that
a receiver gets back every payload whose flush returned nil, and no other frames than those that
were flushed. It holds as long as nothing is written after a call that has left a part of a frame
behind, and such a call always spoils some later payload (`tcp_framing`): `Flush` neither closes the
connection nor completes the frame, so `torn_frame` loses a payload whose flush returned nil.
-/

namespace TickBatch

/-- A stream connection, as far as writing goes: the bytes it has accepted, and the write
deadline. -/
structure Conn where
  stream : List UInt8
  writeDeadline : Option Int64

/-- The sink, with the scratch buffer of the length prefix. -/
structure TCPSink where
  conn : Conn
  lbuf : List UInt8

/-- What `net.Buffers.WriteTo` reports: the number of bytes written, and the error. -/
structure WriteResult where
  n : Nat
  err : Option Error

/-- A call of `Flush`: the payload, the deadline of its context, and what becomes of the write of
the 4-byte length and the payload. The connection accepts a prefix of them, and reports no error if
and only if it accepts all of them. -/
structure TcpFlush where
  payload : List UInt8
  deadline : Option Int64
  write : WriteResult
  prefix_le : write.n ≤ 4 + payload.length
  nil_iff : write.err = none ↔ write.n = 4 + payload.length

namespace TCPSink

/-- A sink on a connection that has just been dialled. -/
def new : TCPSink := { conn := { stream := [], writeDeadline := none }, lbuf := [0, 0, 0, 0] }

/-- Apply the deadline of the context, if it has one. -/
def setWriteDeadline (t : TCPSink) (deadline : Option Int64) : TCPSink :=
  match deadline with
  | some dl => { t with conn := { t.conn with writeDeadline := some dl } }
  | none => t

/-- Clear the deadline again, if the context has one. -/
def clearWriteDeadline (t : TCPSink) (deadline : Option Int64) : TCPSink :=
  match deadline with
  | some _ => { t with conn := { t.conn with writeDeadline := none } }
  | none => t

/-- Write the length prefix and the payload to the connection, which accepts the first `w.n` bytes
of them. -/
def writeTo (t : TCPSink) (payload : List UInt8) (w : WriteResult) : TCPSink :=
  let lbuf := Framing.lengthBytes (UInt32.ofNat payload.length)
  { conn := { t.conn with stream := t.conn.stream ++ (lbuf ++ payload).take w.n }, lbuf }

/-- Transmit a payload as one frame. A payload whose length does not fit into the prefix is rejected
before anything is written. -/
def flush (t : TCPSink) (call : TcpFlush) : TCPSink × Option Error :=
  let t := t.setWriteDeadline call.deadline
  if call.payload.length > 0xffffffff then
    (t.clearWriteDeadline call.deadline,
      some (.other ("tickbatch: TCPSink payload " ++ toString call.payload.length ++
        " bytes exceeds the 4 GiB length-prefix limit")))
  else
    let t := (t.writeTo call.payload call.write).clearWriteDeadline call.deadline
    match call.write.err with
    | some err => (t, some err)
    | none =>
        let want := 4 + call.payload.length
        if call.write.n ≠ want then
          (t, some (.other ("tickbatch: TCPSink short write: wrote " ++ toString call.write.n ++
            " of " ++ toString want ++ " bytes: short write")))
        else (t, none)

/-- Successive calls of `Flush` on one sink, with the payload and the result of each. -/
def flushes : TCPSink → List TcpFlush → TCPSink × List (List UInt8 × Option Error)
  | t, [] => (t, [])
  | t, call :: calls =>
      let (t, err) := t.flush call
      let (t, results) := flushes t calls
      (t, (call.payload, err) :: results)

/-- The payloads whose flush returned nil. -/
def accepted (results : List (List UInt8 × Option Error)) : List (List UInt8) :=
  results.filterMap fun
    | (payload, none) => some payload
    | (_, some _) => none

/-- A receiver of the stream gets every payload whose flush returned nil, in order, and no frame
that was not passed to a flush. -/
def Recovers (calls : List TcpFlush) : Prop :=
  let (t, results) := new.flushes calls
  (accepted results).Sublist (Framing.readFrames t.conn.stream) ∧
    ∀ frame ∈ Framing.readFrames t.conn.stream, frame ∈ calls.map TcpFlush.payload

end TCPSink

/-! ## What a call leaves on the stream -/

namespace TcpFlush

/-- The payload is too long for the prefix. -/
def TooLong (call : TcpFlush) : Prop := 0xffffffff < call.payload.length

/-- The call writes nothing. -/
def Silent (call : TcpFlush) : Prop := call.TooLong ∨ call.write.n = 0

/-- The call writes a part of its frame. -/
def Partial (call : TcpFlush) : Prop :=
  ¬call.TooLong ∧ 0 < call.write.n ∧ call.write.n < 4 + call.payload.length

/-- The call writes its whole frame. -/
def Whole (call : TcpFlush) : Prop := ¬call.TooLong ∧ call.write.n = 4 + call.payload.length

instance : DecidablePred TooLong := fun _ => inferInstanceAs (Decidable (_ < _))

instance : DecidablePred Silent := fun _ => inferInstanceAs (Decidable (_ ∨ _))

instance : DecidablePred Partial := fun _ => inferInstanceAs (Decidable (_ ∧ _))

instance : DecidablePred Whole := fun _ => inferInstanceAs (Decidable (_ ∧ _))

/-- The bytes that the call appends to the stream. -/
def appended (call : TcpFlush) : List UInt8 :=
  if call.TooLong then [] else (Framing.encode call.payload).take call.write.n

/-- A call writes nothing, its whole frame or a part of it. -/
theorem silent_or_whole {call : TcpFlush} (h : ¬call.Partial) : call.Silent ∨ call.Whole := by
  have hle := call.prefix_le
  by_cases hlong : call.TooLong
  · exact Or.inl (Or.inl hlong)
  · rcases Nat.eq_zero_or_pos call.write.n with hzero | hpos
    · exact Or.inl (Or.inr hzero)
    · have hlt : ¬call.write.n < 4 + call.payload.length := fun hlt => h ⟨hlong, hpos, hlt⟩
      exact Or.inr ⟨hlong, by omega⟩

theorem Silent.appended {call : TcpFlush} (h : call.Silent) : call.appended = [] := by
  unfold TcpFlush.appended
  split
  · rfl
  · rename_i hlong
    rw [h.resolve_left hlong, List.take_zero]

theorem Whole.appended {call : TcpFlush} (h : call.Whole) :
    call.appended = Framing.encode call.payload := by
  rw [TcpFlush.appended, if_neg h.1, h.2]
  exact List.take_of_length_le (Nat.le_of_eq (Framing.length_encode _))

theorem Partial.appended {call : TcpFlush} (h : call.Partial) :
    call.appended = (Framing.encode call.payload).take call.write.n :=
  if_neg h.1

/-- A payload that is not too long has a length that fits into the prefix. -/
theorem length_lt {call : TcpFlush} (h : ¬call.TooLong) : call.payload.length < 2 ^ 32 := by
  unfold TooLong at h
  omega

/-- Nothing is silent and whole. -/
theorem Silent.not_whole {call : TcpFlush} (h : call.Silent) : ¬call.Whole := by
  rintro ⟨hlong, hn⟩
  rcases h with h | h
  · exact hlong h
  · omega

end TcpFlush

/-- The payloads of the calls that have written their whole frame. -/
def wholeFrames (calls : List TcpFlush) : List (List UInt8) :=
  (calls.filter fun call => call.Whole).map TcpFlush.payload

/-- After a call that has left a part of a frame nothing more is written. -/
def Unbroken : List TcpFlush → Prop
  | [] => True
  | call :: calls => (call.Partial → ∀ later ∈ calls, later.Silent) ∧ Unbroken calls

instance : DecidablePred Unbroken
  | [] => isTrue trivial
  | _ :: calls =>
      have : Decidable (Unbroken calls) := instDecidablePredListTcpFlushUnbroken calls
      inferInstanceAs (Decidable (_ ∧ _))

namespace TCPSink

/-- What one call does to the stream, and when it returns nil. -/
theorem flush_spec (t : TCPSink) (call : TcpFlush) :
    (t.flush call).1.conn.stream = t.conn.stream ++ call.appended ∧
      ((t.flush call).2 = none ↔ call.Whole) := by
  have hset : (t.setWriteDeadline call.deadline).conn.stream = t.conn.stream := by
    cases hd : call.deadline <;> rfl
  have hclear : ∀ t' : TCPSink,
      (t'.clearWriteDeadline call.deadline).conn.stream = t'.conn.stream := by
    intro t'
    cases hd : call.deadline <;> rfl
  have hnil := call.nil_iff
  by_cases hlong : call.TooLong
  · have hlong' : call.payload.length > 0xffffffff := hlong
    simp only [flush, if_pos hlong', hclear, hset, TcpFlush.appended, if_pos hlong, TcpFlush.Whole]
    simp [hlong]
  · have hlong' : ¬call.payload.length > 0xffffffff := hlong
    simp only [flush, if_neg hlong', TcpFlush.appended, if_neg hlong, TcpFlush.Whole]
    cases herr : call.write.err with
    | some err =>
        have hpart : call.write.n ≠ 4 + call.payload.length := by
          intro hall
          rw [hnil.mpr hall] at herr
          cases herr
        simp only [hclear, writeTo, hset]
        exact ⟨rfl, by simp [hpart]⟩
    | none =>
        have hall := hnil.mp herr
        simp only [hall, ne_eq, not_true_eq_false, if_false, hclear, writeTo, hset]
        exact ⟨rfl, by simp [hlong]⟩

/-- What a sequence of calls does to the stream, and which payloads it accepts. -/
theorem flushes_spec (t : TCPSink) (calls : List TcpFlush) :
    (t.flushes calls).1.conn.stream = t.conn.stream ++ calls.flatMap TcpFlush.appended ∧
      accepted (t.flushes calls).2 = wholeFrames calls := by
  induction calls generalizing t with
  | nil => exact ⟨(List.append_nil _).symm, rfl⟩
  | cons call calls ih =>
      obtain ⟨hstream, hnil⟩ := t.flush_spec call
      obtain ⟨hrest, haccepted⟩ := ih (t.flush call).1
      refine ⟨?_, ?_⟩
      · rw [List.flatMap_cons, ← List.append_assoc, ← hstream]
        exact hrest
      · show accepted ((call.payload, (t.flush call).2) :: ((t.flush call).1.flushes calls).2) = _
        generalize ((t.flush call).1.flushes calls).2 = results at haccepted
        by_cases hw : call.Whole
        · rw [hnil.mpr hw]
          simpa [accepted, wholeFrames, hw] using haccepted
        · obtain ⟨err, herr⟩ := Option.ne_none_iff_exists'.mp fun h => hw (hnil.mp h)
          rw [herr]
          simpa [accepted, wholeFrames, hw] using haccepted

/-! ## The receiver -/

/-- A call that leaves no part of a frame adds its frame, or nothing, to what the receiver reads. -/
theorem readFrames_appended {call : TcpFlush} (h : ¬call.Partial) (rest : List UInt8) :
    Framing.readFrames (call.appended ++ rest) =
      wholeFrames [call] ++ Framing.readFrames rest := by
  rcases TcpFlush.silent_or_whole h with hs | hw
  · rw [hs.appended]
    simp [wholeFrames, hs.not_whole]
  · rw [hw.appended, Framing.readFrames_encode (TcpFlush.length_lt hw.1)]
    simp [wholeFrames, hw]

theorem wholeFrames_cons (call : TcpFlush) (calls : List TcpFlush) :
    wholeFrames (call :: calls) = wholeFrames [call] ++ wholeFrames calls := by
  by_cases hw : call.Whole <;> simp [wholeFrames, hw]

/-- Calls that leave no part of a frame are read back, whatever comes after them. -/
theorem readFrames_flatMap {calls : List TcpFlush} (h : ∀ call ∈ calls, ¬call.Partial)
    (rest : List UInt8) :
    Framing.readFrames (calls.flatMap TcpFlush.appended ++ rest) =
      wholeFrames calls ++ Framing.readFrames rest := by
  induction calls with
  | nil => rfl
  | cons call calls ih =>
      rw [List.flatMap_cons, List.append_assoc, readFrames_appended (h call (by simp)),
        ih fun c hc => h c (List.mem_cons_of_mem _ hc), wholeFrames_cons call calls,
        List.append_assoc]

/-- A sequence of calls in which nothing is written after a part of a frame is read back. -/
theorem readFrames_unbroken {calls : List TcpFlush} (h : Unbroken calls) :
    Framing.readFrames (calls.flatMap TcpFlush.appended) = wholeFrames calls := by
  induction calls with
  | nil => rfl
  | cons call calls ih =>
      rw [List.flatMap_cons]
      by_cases htorn : call.Partial
      · have hsilent := h.1 htorn
        have hnothing : calls.flatMap TcpFlush.appended = [] := by
          rw [List.flatMap_eq_nil_iff]
          exact fun later hlater => (hsilent later hlater).appended
        have hnone : wholeFrames (call :: calls) = [] := by
          unfold wholeFrames
          rw [List.map_eq_nil_iff, List.filter_eq_nil_iff]
          intro later hlater hwhole
          rw [decide_eq_true_eq] at hwhole
          rcases List.mem_cons.mp hlater with rfl | hlater
          · have := htorn.2.2
            have := hwhole.2
            omega
          · exact (hsilent later hlater).not_whole hwhole
        rw [hnothing, List.append_nil, htorn.appended, hnone]
        exact Framing.readFrames_torn (TcpFlush.length_lt htorn.1) htorn.2.2
      · rw [readFrames_appended htorn, ih h.2, ← wholeFrames_cons]

/-- Whether a sequence of calls is recovered, in terms of the stream. -/
theorem recovers_iff (calls : List TcpFlush) :
    Recovers calls ↔
      (wholeFrames calls).Sublist
          (Framing.readFrames (calls.flatMap TcpFlush.appended)) ∧
        ∀ frame ∈ Framing.readFrames (calls.flatMap TcpFlush.appended),
          frame ∈ calls.map TcpFlush.payload := by
  obtain ⟨hstream, haccepted⟩ := new.flushes_spec calls
  have hempty : new.conn.stream = [] := rfl
  rw [hempty, List.nil_append] at hstream
  unfold Recovers
  rw [← hstream, ← haccepted]

theorem recovers_of_unbroken {calls : List TcpFlush} (h : Unbroken calls) : Recovers calls := by
  rw [recovers_iff, readFrames_unbroken h]
  refine ⟨List.Sublist.refl _, fun frame hframe => ?_⟩
  obtain ⟨call, hcall, rfl⟩ := List.mem_map.mp hframe
  exact List.mem_map_of_mem (List.mem_of_mem_filter hcall)

/-- Calls that leave no part of a frame break nothing. -/
theorem unbroken_of_forall {calls : List TcpFlush} (h : ∀ call ∈ calls, ¬call.Partial) :
    Unbroken calls := by
  induction calls with
  | nil => trivial
  | cons call calls ih =>
      exact ⟨fun htorn => absurd htorn (h call (by simp)),
        ih fun c hc => h c (List.mem_cons_of_mem _ hc)⟩

/-- A call of `Flush` whose write succeeds. -/
def wholeWrite (payload : List UInt8) : TcpFlush where
  payload := payload
  deadline := none
  write := { n := 4 + payload.length, err := none }
  prefix_le := Nat.le_refl _
  nil_iff := ⟨fun _ => rfl, fun _ => rfl⟩

/-- A receiver recovers every sequence of calls in which nothing is written after a call that has
left a part of its frame on the stream. Conversely, after calls that have left no part of a frame,
every payload that is then written whole is recovered if and only if the call before it leaves no
part of a frame either. -/
theorem tcp_framing (calls done : List TcpFlush) (call : TcpFlush) :
    (Unbroken calls → Recovers calls) ∧
      ((∀ c ∈ done, ¬c.Partial) →
        ((∀ next : TcpFlush, next.Whole → Recovers (done ++ [call, next])) ↔ ¬call.Partial)) := by
  refine ⟨fun h => recovers_of_unbroken h, fun hdone => ⟨fun h htorn => ?_, ?_⟩⟩
  · have hlength := TcpFlush.length_lt htorn.1
    obtain ⟨payload, hshort, hlost⟩ :=
      Framing.exists_lost hlength htorn.2.1 htorn.2.2
    have hwhole : (wholeWrite payload).Whole := by
      refine ⟨fun hlong => ?_, rfl⟩
      have : 0xffffffff < payload.length := hlong
      omega
    have hnext := h (wholeWrite payload) hwhole
    have hcall : ¬call.Whole := fun hw => by
      have := htorn.2.2
      have := hw.2
      omega
    -- the frames before the torn one cancel out
    have hframes : wholeFrames (done ++ [call, wholeWrite payload]) =
        wholeFrames done ++ [payload] := by
      simp [wholeFrames, hcall, hwhole]
      rfl
    rw [recovers_iff, List.flatMap_append, readFrames_flatMap hdone, hframes,
      List.append_sublist_append_left, List.singleton_sublist] at hnext
    refine hlost ?_
    have hstream : [call, wholeWrite payload].flatMap TcpFlush.appended =
        (Framing.encode call.payload).take call.write.n ++ Framing.encode payload := by
      simp [htorn.appended, hwhole.appended]
      rfl
    rw [← hstream]
    exact hnext.1
  · intro htorn next hnext
    refine recovers_of_unbroken (unbroken_of_forall fun c hc => ?_)
    rcases List.mem_append.mp hc with hc | hc
    · exact hdone c hc
    · simp only [List.mem_cons, List.not_mem_nil, or_false] at hc
      rcases hc with rfl | rfl
      · exact htorn
      · exact fun hp => by
          have := hp.2.2
          have := hnext.2
          omega

/-- A call of `Flush` whose write deadline expires after five bytes: the length and the first of two
bytes of the payload. -/
def tornWrite : TcpFlush where
  payload := [7, 7]
  deadline := some 0
  write := { n := 5, err := some (.other "i/o timeout") }
  prefix_le := by decide
  nil_iff := by decide

/-- A frame is read back although the call after it leaves a part of its own. -/
theorem tcp_framing_torn_last : Unbroken [wholeWrite [1], tornWrite] ∧
    Recovers [wholeWrite [1], tornWrite] ∧
    ((∀ next : TcpFlush, next.Whole → Recovers ([] ++ [wholeWrite [1], next])) ↔
      ¬(wholeWrite [1]).Partial) := by
  have hunbroken : Unbroken [wholeWrite [1], tornWrite] := by decide
  have hboth := tcp_framing [wholeWrite [1], tornWrite] [] (wholeWrite [1])
  exact ⟨hunbroken, hboth.1 hunbroken, hboth.2 (by simp)⟩

/-- The flush of `[7, 7]` fails midway and the flush of `[9]` returns nil. The receiver reads a
frame `[7, 1]` that nobody has sent, and never gets `[9]`. -/
theorem torn_frame :
    accepted (new.flushes [tornWrite, wholeWrite [9]]).2 = [[9]] ∧
    Framing.readFrames (new.flushes [tornWrite, wholeWrite [9]]).1.conn.stream = [[7, 1]] ∧
    ¬Recovers [tornWrite, wholeWrite [9]] := by
  have haccepted : accepted (new.flushes [tornWrite, wholeWrite [9]]).2 = [[9]] := by decide
  have hread : Framing.readFrames (new.flushes [tornWrite, wholeWrite [9]]).1.conn.stream =
      [[7, 1]] := by decide
  refine ⟨haccepted, hread, fun h => ?_⟩
  have hlost : (accepted (new.flushes [tornWrite, wholeWrite [9]]).2).Sublist
      (Framing.readFrames (new.flushes [tornWrite, wholeWrite [9]]).1.conn.stream) := h.1
  rw [haccepted, hread] at hlost
  exact absurd hlost (by decide)

end TCPSink

end TickBatch
