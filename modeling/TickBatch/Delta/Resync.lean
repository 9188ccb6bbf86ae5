import TickBatch.Delta.RoundTrip

/-!
# Resynchronization at a keyframe

A receiver in any state whatever, fresh, stale or desynchronized, is in step with the sender again
once it has been given a delivered keyframe: a keyframe is sent raw, and resets the baseline
(`Link.reconstruct_keyframe`). A frame that `Reconstruct` rejects leaves the baseline alone
(`reconstruct_error`), so foreign frames may arrive in between. `keyframe_resync` follows the stream
from the keyframe on.
-/

namespace TickBatch

/-- A receiver that rejects a frame keeps its baseline. -/
theorem Codec.reconstruct_error {d : DeltaReconstructor} {frame : List UInt8} {e : Error}
    (h : (d.reconstruct frame).2 = .error e) : (d.reconstruct frame).1 = d := by
  by_cases hlen : headerSize ≤ frame.length
  · rw [reconstruct_eq d hlen] at h ⊢
    split at h
    · cases h
    · rename_i hkey
      split at h
      · cases h
      · rename_i htagged
        rw [if_neg hkey, if_neg htagged]
  · unfold DeltaReconstructor.reconstruct
    rw [if_pos (Nat.lt_of_not_le hlen)]

namespace Batcher

open Codec (DeltaReconstructor ReadsAsKeyframe)

variable {T : Type}

/-- What reaches the receiver: a delivered frame of the stream, or bytes from elsewhere. -/
inductive Arrival (T : Type) where
  | delivered (frame : Frame T)
  | foreign (bytes : List UInt8)

/-- The delivered frames among the arrivals, in order. -/
def streamed (arrivals : List (Arrival T)) : List (Frame T) :=
  arrivals.filterMap fun
    | .delivered frame => some frame
    | .foreign _ => none

section Receiver

variable (cfg : Config) (decompress : List UInt8 → List UInt8)

/-- Every foreign frame is rejected with an error when it arrives. -/
def RejectsForeign : DeltaReconstructor → List (Arrival T) → Prop
  | _, [] => True
  | d, .delivered frame :: rest =>
      RejectsForeign (d.reconstruct (unpack cfg decompress frame.sent)).1 rest
  | d, .foreign bytes :: rest =>
      (∃ e, (d.reconstruct bytes).2 = .error e) ∧ RejectsForeign (d.reconstruct bytes).1 rest

/-- What `Reconstruct` returns for the delivered frames among the arrivals. -/
def outcomes : DeltaReconstructor → List (Arrival T) →
    List (Except Codec.Error (List UInt8 × Codec.Header))
  | _, [] => []
  | d, .delivered frame :: rest =>
      (d.reconstruct (unpack cfg decompress frame.sent)).2 ::
        outcomes (d.reconstruct (unpack cfg decompress frame.sent)).1 rest
  | d, .foreign bytes :: rest => outcomes (d.reconstruct bytes).1 rest

end Receiver

variable {cfg : Config} {decompress : List UInt8 → List UInt8} {prev : List UInt8} {j : Nat}
  {frame : Frame T}

/-- A delta frame that does not read as a keyframe is not confused with one. -/
theorem Link.not_confused (h : Link cfg decompress prev j frame)
    (hclear : frame.keyframe = false → ¬ ReadsAsKeyframe (unpack cfg decompress frame.sent)) :
    ¬ Confused prev frame := by
  rintro ⟨hdelta, hreads⟩
  refine hclear hdelta ?_
  rw [h.unpacked, h.payload, hdelta]
  exact hreads

/-- What follows some frames of a chain is a chain of its own. -/
theorem Chain.suffix {before rest : List (Frame T)}
    (h : Chain cfg decompress prev j (before ++ rest)) :
    ∃ prev' j', Chain cfg decompress prev' j' rest := by
  induction before generalizing prev j with
  | nil => exact ⟨prev, j, h⟩
  | cons frame before ih => exact ih h.2

/-- A receiver in step recovers every frame of a chain among foreign frames that it rejects. -/
theorem Chain.recovers {arrivals : List (Arrival T)}
    (h : Chain cfg decompress prev j (streamed arrivals))
    (hforeign : RejectsForeign cfg decompress { prev } arrivals)
    (hclear : ∀ frame ∈ streamed arrivals, frame.keyframe = false →
      ¬ ReadsAsKeyframe (unpack cfg decompress frame.sent)) :
    outcomes cfg decompress { prev } arrivals = (streamed arrivals).map recovered := by
  induction arrivals generalizing prev j with
  | nil => rfl
  | cons arrival rest ih =>
      cases arrival with
      | foreign bytes =>
          obtain ⟨⟨e, herror⟩, hrest⟩ := hforeign
          rw [Codec.reconstruct_error herror] at hrest
          unfold outcomes
          rw [Codec.reconstruct_error herror]
          exact ih h hrest hclear
      | delivered frame =>
          obtain ⟨hlink, hchain⟩ := h
          have hnot := hlink.not_confused (hclear frame List.mem_cons_self)
          have hrecover := hlink.reconstruct
          rw [if_neg hnot] at hrecover
          unfold RejectsForeign at hforeign
          rw [hrecover] at hforeign
          unfold outcomes
          rw [hrecover, ih hchain hforeign fun f hf => hclear f (List.mem_cons_of_mem _ hf)]
          rfl

/-- The same from any state of the receiver, when the first frame is a keyframe. -/
theorem Chain.recovers_keyframe {arrivals : List (Arrival T)} {key : Frame T}
    {rest : List (Frame T)} (h : Chain cfg decompress prev j (key :: rest))
    (hkey : key.keyframe = true) (harrivals : streamed arrivals = key :: rest)
    (d : DeltaReconstructor) (hforeign : RejectsForeign cfg decompress d arrivals)
    (hclear : ∀ frame ∈ rest, frame.keyframe = false →
      ¬ ReadsAsKeyframe (unpack cfg decompress frame.sent)) :
    outcomes cfg decompress d arrivals = (key :: rest).map recovered := by
  induction arrivals with
  | nil => cases harrivals
  | cons arrival later ih =>
      cases arrival with
      | foreign bytes =>
          obtain ⟨⟨e, herror⟩, hlater⟩ := hforeign
          rw [Codec.reconstruct_error herror] at hlater
          unfold outcomes
          rw [Codec.reconstruct_error herror]
          exact ih harrivals hlater
      | delivered frame =>
          have hcons : frame :: streamed later = key :: rest := harrivals
          obtain ⟨rfl, rfl⟩ := List.cons.inj hcons
          have hrecover := h.1.reconstruct_keyframe hkey d
          unfold RejectsForeign at hforeign
          rw [hrecover] at hforeign
          unfold outcomes
          rw [hrecover, h.2.recovers hforeign hclear]
          rfl

variable [Serializable T]

/-- Drains leave a sender a sender. -/
theorem Sender.drains {host : ByteOrder} {ticks : List (Tick T)} {b b' : Batcher T}
    {loop loop' : Loop} {effects : List (Effect T)} (h : b.Sender loop prev j)
    (hrun : b.drains host loop ticks = .ok (b', loop', effects)) :
    b'.cfg = b.cfg ∧ ∃ prev' j', b'.Sender loop' prev' j' := by
  induction ticks generalizing b loop prev j effects with
  | nil =>
      cases hrun
      exact ⟨rfl, prev, j, h⟩
  | cons tick ticks ih =>
      obtain ⟨⟨b₁, loop₁, es⟩, hfirst, hrun⟩ := bind_eq_ok hrun
      obtain ⟨⟨b₂, loop₂, rest⟩, hrest, hrun⟩ := bind_eq_ok hrun
      cases hrun
      obtain ⟨hcfg, hcase⟩ := h.drain hfirst
      rw [← hcfg]
      rcases hcase with ⟨_, hsender⟩ | ⟨frame, err, _, _, _, hsettled⟩
      · exact ih hsender hrest
      · cases err with
        | none => exact ih hsettled hrest
        | some e => exact ih hsettled hrest

/-- From every reachable state of the sender and every state of the receiver: once a delivered
keyframe arrives, the receiver recovers it and every frame delivered after it, whatever flushes and
compressions fail at the sender and whatever frames that it rejects arrive in between, provided no
delivered delta frame reads as a keyframe whose checksum validates. -/
theorem keyframe_resync [Inhabited T] {sizeofT : Int64} {host : ByteOrder} {b b₁ b₂ : Batcher T}
    {earlier ticks : List (Tick T)} {loop₁ loop₂ : Loop} {past effects : List (Effect T)}
    {before rest : List (Frame T)} {key : Frame T} {arrivals : List (Arrival T)}
    (hnew : Batcher.new sizeofT cfg = .ok b) (hdelta : b.cfg.deltaEncoding = true)
    (hinv : ∀ tick ∈ earlier ++ ticks, Inverts decompress tick)
    (hreach : b.drains host Loop.initial earlier = .ok (b₁, loop₁, past))
    (hrun : b₁.drains host loop₁ ticks = .ok (b₂, loop₂, effects))
    (hdelivered : delivered effects = before ++ key :: rest) (hkey : key.keyframe = true)
    (harrivals : streamed arrivals = key :: rest) (d : DeltaReconstructor)
    (hforeign : RejectsForeign b.cfg decompress d arrivals)
    (hclear : ∀ frame ∈ rest, frame.keyframe = false →
      ¬ ReadsAsKeyframe (unpack b.cfg decompress frame.sent)) :
    outcomes b.cfg decompress d arrivals = (key :: rest).map recovered := by
  obtain ⟨hcfg, prev, j, hsender⟩ := (new_sender hnew hdelta).drains hreach
  have hchain := (drains_stream hsender
    (fun tick htick => hinv tick (List.mem_append_right _ htick)) hrun).chain
  rw [hcfg, show successes (attempts effects) = before ++ key :: rest from hdelivered] at hchain
  obtain ⟨prev', j', hsuffix⟩ := hchain.suffix
  exact hsuffix.recovers_keyframe hkey harrivals d hforeign hclear

/-- Two keyframes, each with a delta frame after it. -/
def resyncTicks : List (Tick (List UInt8)) :=
  [plainTick [[1, 2]] none, plainTick [[3]] none, plainTick [[4, 5, 6]] none,
    plainTick [[7]] none]

/-- A receiver with a baseline of its own that joins at the second keyframe, with two truncated
frames around it. -/
theorem keyframe_resync_join : ∃ b b' loop effects before key next,
    Batcher.new 24 (deltaConfig 2) = .ok b ∧
    b.drains .little Loop.initial resyncTicks = .ok (b', loop, effects) ∧
    delivered effects = before ++ [key, next] ∧ before.length = 2 ∧
    outcomes b.cfg id { prev := [9] }
      [.foreign [1, 2, 3], .delivered key, .foreign [], .delivered next] =
      [recovered key, recovered next] := by
  obtain ⟨b, ⟨b', loop, effects⟩, hnew, hdrains, hcfg, htest⟩ := exists_of_testNew (deltaConfig 2)
    (fun b => (b.drains .little Loop.initial resyncTicks).toOption)
    (fun b out => (delivered out.2.2).length == 4 &&
      ((delivered out.2.2)[2]?.any Frame.keyframe && (delivered out.2.2)[3]?.any fun next =>
        decide (¬ ReadsAsKeyframe (unpack b.cfg id next.sent)))) (by decide +kernel)
  have hrun := toOption_eq_some.mp hdrains
  rw [Bool.and_eq_true, beq_iff_eq] at htest
  obtain ⟨hlength, htest⟩ := htest
  obtain ⟨first, second, key, next, hdelivered⟩ := List.length_eq_four.mp hlength
  simp only [hdelivered, List.getElem?_cons_succ, List.getElem?_cons_zero, Option.any_some,
    Bool.and_eq_true, decide_eq_true_eq] at htest
  have hreach : b.drains .little Loop.initial [] = .ok (b, Loop.initial, []) := rfl
  have harrivals : streamed [.foreign [1, 2, 3], .delivered key, .foreign [], .delivered next] =
      [key, next] := rfl
  have hforeign : RejectsForeign b.cfg id { prev := [9] }
      [.foreign [1, 2, 3], .delivered key, .foreign [], .delivered next] :=
    ⟨⟨_, rfl⟩, ⟨_, rfl⟩, trivial⟩
  refine ⟨b, b', loop, effects, [first, second], key, next, hnew, hrun, hdelivered, rfl, ?_⟩
  refine keyframe_resync hnew (by rw [hcfg]; rfl) (inverts_of_plain 4 rfl) hreach hrun
    (show delivered effects = [first, second] ++ [key, next] from hdelivered) htest.1 harrivals
    _ hforeign fun frame hframe _ => ?_
  cases List.mem_singleton.mp hframe
  exact htest.2

end Batcher

end TickBatch
