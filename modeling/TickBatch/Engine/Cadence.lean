import TickBatch.Engine.Accounting
import TickBatch.Engine.Header

/-!
# The cadence of keyframes

A sender with a `KeyframeInterval` makes every frame a keyframe whose turn it is in the cycle, and
the cycle moves on only when a flush has returned nil. `Paced` keeps, along a run, the number of
frames delivered before each flush; `keyframe_cadence` reads off it which delivered frames are
keyframes, that a failed one is tried again as a keyframe, and how far apart keyframes are.
-/

namespace TickBatch

variable {T : Type}

/-- A keyframe as it is sent, before any compression: the raw frame, not its delta, with bit 15 of
the tag set. -/
def Frame.SentAsKeyframe (frame : Frame T) : Prop :=
  frame.payload = frame.raw ∧ Codec.tag frame.raw &&& Codec.keyframeBit ≠ 0

/-- A frame that was delivered, among the flushes before and after it. -/
theorem getElem?_successes {flushes : List (Frame T × Option Error)} {j : Nat} {frame : Frame T}
    (h : (successes flushes)[j]? = some frame) :
    ∃ i, flushes[i]? = some (frame, none) ∧ (successes (flushes.take i)).length = j := by
  induction flushes generalizing j with
  | nil => cases h
  | cons flush flushes ih =>
      obtain ⟨first, err⟩ := flush
      cases err with
      | some err =>
          obtain ⟨i, hi, hcount⟩ := ih (show (successes flushes)[j]? = some frame from h)
          exact ⟨i + 1, hi, hcount⟩
      | none =>
          have h : (first :: successes flushes)[j]? = some frame := h
          cases j with
          | zero =>
              cases h
              exact ⟨0, rfl, rfl⟩
          | succ j =>
              obtain ⟨i, hi, hcount⟩ := ih h
              exact ⟨i + 1, hi, congrArg Nat.succ hcount⟩

namespace Batcher

section Placed

variable {cfg : Config} {prev : List UInt8} {j : Nat} {frame : Frame T}

/-- The turn of a keyframe depends only on how many frames were delivered before. -/
theorem Placed.keyframe_iff (h : Placed cfg prev j frame) (hinterval : 0 < cfg.keyframeInterval) :
    frame.keyframe = true ↔ cfg.keyframeInterval.toNat ∣ j := by
  rw [h.keyframe, keyframeAt, decide_eq_true_eq, Nat.dvd_iff_mod_eq_zero]
  exact and_iff_right hinterval

/-- Bit 15 of the tag marks the keyframes, whatever the checksum of the body is. -/
theorem Placed.keyframeBit_iff (h : Placed cfg prev j frame)
    (hinterval : 0 < cfg.keyframeInterval) :
    Codec.tag frame.raw &&& Codec.keyframeBit ≠ 0 ↔ cfg.keyframeInterval.toNat ∣ j := by
  obtain ⟨body, _, hraw⟩ := h.body
  rw [hraw, tag_encodeFrame, integrityTag_and_keyframeBit, h.keyframe_iff hinterval]

theorem Placed.sentAsKeyframe_iff (h : Placed cfg prev j frame)
    (hinterval : 0 < cfg.keyframeInterval) :
    frame.SentAsKeyframe ↔ cfg.keyframeInterval.toNat ∣ j := by
  rw [Frame.SentAsKeyframe, h.keyframeBit_iff hinterval]
  refine and_iff_right_of_imp fun hdvd => ?_
  rw [h.payload, if_pos ((h.keyframe_iff hinterval).mpr hdvd)]

end Placed

/-- The pace of a run so far: the sender's position in the cycle counts the frames delivered, and
every flush was of a frame made for the number of frames delivered before it. -/
structure Paced (b : Batcher T) (loop : Loop) (effects : List (Effect T)) : Prop where
  sender : ∃ prev, b.Sender loop prev (delivered effects).length
  placed : ∀ i frame err, (attempts effects)[i]? = some (frame, err) →
    ∃ prev, Placed b.cfg prev (successes ((attempts effects).take i)).length frame

section Steps

variable {b b' : Batcher T} {loop loop' : Loop} {effects new : List (Effect T)}

/-- A call without a flush. -/
theorem Paced.quiet (h : Paced b loop effects) (hquiet : attempts new = []) (hcfg : b'.cfg = b.cfg)
    (hsender : ∀ prev, b.Sender loop prev (delivered effects).length →
      ∃ prev', b'.Sender loop' prev' (delivered effects).length) :
    Paced b' loop' (effects ++ new) := by
  have hattempts : attempts (effects ++ new) = attempts effects := by
    rw [attempts_append, hquiet, List.append_nil]
  have hdelivered : delivered (effects ++ new) = delivered effects := congrArg successes hattempts
  obtain ⟨prev, hprev⟩ := h.sender
  refine ⟨?_, ?_⟩
  · rw [hdelivered]
    exact hsender prev hprev
  · rw [hattempts, hcfg]
    exact h.placed

/-- A call with one flush. -/
theorem Paced.flush {prev : List UInt8} {frame : Frame T} {err : Option Error}
    (h : Paced b loop effects) (hone : attempts new = [(frame, err)]) (hcfg : b'.cfg = b.cfg)
    (hplaced : Placed b.cfg prev (delivered effects).length frame)
    (hsettled : Settled b' loop' prev (delivered effects).length frame err) :
    Paced b' loop' (effects ++ new) := by
  have hattempts : attempts (effects ++ new) = attempts effects ++ [(frame, err)] := by
    rw [attempts_append, hone]
  refine ⟨?_, fun i frame' err' hget => ?_⟩
  · unfold delivered
    rw [hattempts, successes_append, List.length_append]
    cases err with
    | none => exact ⟨_, hsettled⟩
    | some err => exact ⟨_, hsettled⟩
  · rw [hattempts] at hget
    rw [hattempts, hcfg]
    rcases Nat.lt_or_ge i (attempts effects).length with hlt | hge
    · rw [List.getElem?_append_left hlt] at hget
      rw [List.take_append_of_le_length hlt.le]
      exact h.placed i frame' err' hget
    · -- the flush is the new one
      have hi : i = (attempts effects).length := by
        have hlt := (List.getElem?_eq_some_iff.mp hget).1
        rw [List.length_append, List.length_singleton] at hlt
        omega
      subst hi
      rw [List.getElem?_concat_length] at hget
      cases hget
      rw [List.take_left]
      exact ⟨prev, hplaced⟩

end Steps

variable [Serializable T]

/-- Every call keeps the pace. -/
theorem call_paced {host : ByteOrder} {b b' : Batcher T} {loop loop' : Loop} {op : Op T}
    {journal new : List (Entry T)} (h : Paced b loop (effectsOf journal))
    (hcall : call host (b, loop) op = some ((b', loop'), new)) :
    b'.cfg = b.cfg ∧ Paced b' loop' (effectsOf (journal ++ new)) := by
  rw [effectsOf_append]
  unfold call at hcall
  cases op with
  | push item =>
      simp only at hcall
      split at hcall
      · rename_i b₁ hpush
        cases hcall
        have hkeeps := push_keeps hpush
        rw [effectsOf_record]
        refine ⟨hkeeps.cfg, h.quiet rfl hkeeps.cfg fun prev hprev => ⟨prev, ?_⟩⟩
        exact hprev.of_keeps hkeeps (by rw [push_eq hpush])
      · cases hcall
  | drain tick =>
      simp only at hcall
      split at hcall
      · rename_i b₁ loop₁ effects hdrain
        cases hcall
        rw [effectsOf_record]
        obtain ⟨prev, hprev⟩ := h.sender
        obtain ⟨hcfg, hcase⟩ := hprev.drain hdrain
        refine ⟨hcfg, ?_⟩
        rcases hcase with ⟨hquiet, hsender⟩ | ⟨frame, err, hone, hplaced, _, hsettled⟩
        · exact h.quiet hquiet hcfg fun _ _ => ⟨prev, hsender⟩
        · exact h.flush hone hcfg hplaced hsettled
      · cases hcall

/-- The pace of every run of a delta-encoding batcher. -/
theorem run_paced [Inhabited T] {host : ByteOrder} {sizeofT : Int64} {cfg : Config}
    {b b' : Batcher T} {loop : Loop} {ops : List (Op T)} {journal : List (Entry T)}
    (hnew : Batcher.new sizeofT cfg = .ok b) (hdelta : b.cfg.deltaEncoding = true)
    (hrun : runCalls host (b, Loop.initial) ops = some ((b', loop), journal)) :
    b'.cfg = b.cfg ∧ Paced b' loop (effectsOf journal) := by
  refine Transition.run_invariant
    (I := fun _ journal s => s.1.cfg = b.cfg ∧ Paced s.1 s.2 (effectsOf journal)) ?_ ?_ hrun
  · rintro _ journal ⟨b₁, loop₁⟩ op ⟨b₂, loop₂⟩ new ⟨hcfg, h⟩ hcall
    obtain ⟨hcfg', h'⟩ := call_paced h hcall
    exact ⟨hcfg'.trans hcfg, h'⟩
  · refine ⟨rfl, ⟨[], new_sender hnew hdelta⟩, ?_⟩
    intro i frame err hget
    cases hget

omit [Serializable T] in
/-- The positions of two keyframes with none between them, when every multiple of `K` is the
position of a keyframe. -/
theorem length_between_lt {K : Nat} (hK : 0 < K) {frames before between after : List (Frame T)}
    {key key' : Frame T} (hframes : frames = before ++ key :: (between ++ key' :: after))
    (hcadence : ∀ j frame, frames[j]? = some frame → (frame.SentAsKeyframe ↔ K ∣ j))
    (hkey : key.SentAsKeyframe) (hbetween : ∀ frame ∈ between, ¬ frame.SentAsKeyframe) :
    between.length < K := by
  by_contra hge
  have hlt : K - 1 < between.length := by omega
  have hdvd : K ∣ before.length :=
    (hcadence before.length key (by rw [hframes]; simp)).mp hkey
  -- the frame `K` places after a keyframe is one
  have hget : frames[before.length + K]? = some between[K - 1] := by
    rw [hframes, List.getElem?_append_right (Nat.le_add_right _ _), Nat.add_sub_cancel_left,
      List.getElem?_cons, if_neg (by omega), List.getElem?_append_left hlt,
      List.getElem?_eq_getElem hlt]
  exact hbetween _ (List.getElem_mem hlt)
    ((hcadence _ _ hget).mpr ((Nat.dvd_add_right hdvd).mpr dvd_rfl))

/-- In every run of pushes and drains of a delta-encoding batcher with a `KeyframeInterval` of `K`,
whatever batches, failed compressions and failed flushes it has: the frame delivered as number `j`,
counted from 0, is sent as a keyframe if and only if `K` divides `j`, and else has bit 15 of its tag
clear. A frame whose flush fails is a keyframe under the same condition on the number of frames
delivered before it, so the next flush after that of a failed keyframe is of a keyframe. Less than
`K` frames lie between two delivered keyframes, and `keyframeN` stays below `K` and can be
incremented without wrapping. -/
theorem keyframe_cadence [Inhabited T] {host : ByteOrder} {sizeofT : Int64} {cfg : Config}
    {b b' : Batcher T} {loop : Loop} {ops : List (Op T)} {journal : List (Entry T)}
    (hnew : Batcher.new sizeofT cfg = .ok b) (hdelta : b.cfg.deltaEncoding = true)
    (hinterval : 1 ≤ b.cfg.keyframeInterval)
    (hrun : runCalls host (b, Loop.initial) ops = some ((b', loop), journal)) :
    (∀ j frame, (delivered (effectsOf journal))[j]? = some frame →
      (frame.SentAsKeyframe ↔ b.cfg.keyframeInterval.toNat ∣ j) ∧
      (¬ b.cfg.keyframeInterval.toNat ∣ j → Codec.tag frame.raw &&& Codec.keyframeBit = 0)) ∧
    (∀ i frame err, (attempts (effectsOf journal))[i]? = some (frame, err) →
      (frame.SentAsKeyframe ↔ b.cfg.keyframeInterval.toNat ∣
        (successes ((attempts (effectsOf journal)).take i)).length)) ∧
    (∀ i frame err frame' err', (attempts (effectsOf journal))[i]? = some (frame, some err) →
      (attempts (effectsOf journal))[i + 1]? = some (frame', err') →
      frame.SentAsKeyframe → frame'.SentAsKeyframe) ∧
    (∀ before key between key' after,
      delivered (effectsOf journal) = before ++ key :: (between ++ key' :: after) →
      key.SentAsKeyframe → key'.SentAsKeyframe →
      (∀ frame ∈ between, ¬ frame.SentAsKeyframe) →
      between.length ≤ b.cfg.keyframeInterval.toNat - 1) ∧
    loop.keyframeN < b.cfg.keyframeInterval ∧
    (loop.keyframeN + 1).toNat = loop.keyframeN.toNat + 1 := by
  obtain ⟨hcfg, hpaced⟩ := run_paced hnew hdelta hrun
  have hpos : 0 < b.cfg.keyframeInterval := UInt32.lt_of_lt_of_le (by decide) hinterval
  have hflushed : ∀ i frame err, (attempts (effectsOf journal))[i]? = some (frame, err) →
      ∃ prev, Placed b.cfg prev (successes ((attempts (effectsOf journal)).take i)).length
        frame := by
    rw [← hcfg]
    exact hpaced.placed
  have hdelivered : ∀ j frame, (delivered (effectsOf journal))[j]? = some frame →
      ∃ prev, Placed b.cfg prev j frame := by
    intro j frame hget
    obtain ⟨i, hi, rfl⟩ := getElem?_successes hget
    exact hflushed i frame none hi
  have hattempt : ∀ i frame err, (attempts (effectsOf journal))[i]? = some (frame, err) →
      (frame.SentAsKeyframe ↔ b.cfg.keyframeInterval.toNat ∣
        (successes ((attempts (effectsOf journal)).take i)).length) := by
    intro i frame err hget
    obtain ⟨prev, hplaced⟩ := hflushed i frame err hget
    exact hplaced.sentAsKeyframe_iff hpos
  have hcadence : ∀ j frame, (delivered (effectsOf journal))[j]? = some frame →
      (frame.SentAsKeyframe ↔ b.cfg.keyframeInterval.toNat ∣ j) := by
    intro j frame hget
    obtain ⟨prev, hplaced⟩ := hdelivered j frame hget
    exact hplaced.sentAsKeyframe_iff hpos
  refine ⟨fun j frame hget => ⟨hcadence j frame hget, fun hnot => ?_⟩, hattempt, ?_, ?_, ?_⟩
  · obtain ⟨prev, hplaced⟩ := hdelivered j frame hget
    by_contra hbit
    exact hnot ((hplaced.keyframeBit_iff hpos).mp hbit)
  · intro i frame err frame' err' hget hget' hkey
    -- a failed flush delivers nothing, so the count is the same for the next one
    have hsame : successes ((attempts (effectsOf journal)).take (i + 1)) =
        successes ((attempts (effectsOf journal)).take i) := by
      rw [List.take_add_one, hget, successes_append]
      exact List.append_nil _
    rw [hattempt (i + 1) frame' err' hget', hsame]
    exact (hattempt i frame (some err) hget).mp hkey
  · intro before key between key' after hframes hkey _ hbetween
    exact Nat.le_sub_one_of_lt (length_between_lt hpos hframes hcadence hkey hbetween)
  · obtain ⟨prev, hsender⟩ := hpaced.sender
    have hcycle := hsender.cycle (by rw [hcfg]; exact hpos)
    rw [hcfg] at hcycle
    have hlt : loop.keyframeN.toNat < b.cfg.keyframeInterval.toNat := by
      rw [hcycle]
      exact Nat.mod_lt _ hpos
    refine ⟨hlt, ?_⟩
    have hmax := b.cfg.keyframeInterval.toNat_lt
    rw [UInt32.toNat_add, UInt32.toNat_one]
    omega

/-- A keyframe, a delta frame, two keyframes whose flushes fail, and a keyframe. -/
def retriedOps : List (Op (List UInt8)) :=
  [.push [1], .drain (plainTick [] none), .drain (plainTick [[2]] none),
    .drain (plainTick [[3]] (some .flushTimeout)), .push [4],
    .drain (plainTick [] (some (.other "down"))), .drain (plainTick [[5]] none)]

theorem keyframe_cadence_retried : ∃ (b b' : Batcher (List UInt8)) (loop : Loop)
    (journal : List (Entry (List UInt8))) (k₀ d₁ k₂ : Frame (List UInt8)),
    Batcher.new 24 { shortConfig with deltaEncoding := true, keyframeInterval := 2 } = .ok b ∧
    runCalls .little (b, Loop.initial) retriedOps = some ((b', loop), journal) ∧
    delivered (effectsOf journal) = [k₀, d₁, k₂] ∧
    (attempts (effectsOf journal)).length = 5 ∧ k₀.SentAsKeyframe ∧ ¬ d₁.SentAsKeyframe ∧
    k₂.SentAsKeyframe ∧ loop.keyframeN < 2 := by
  obtain ⟨b, ⟨⟨b', loop⟩, journal⟩, hnew, hrun, hcfg, htest⟩ := exists_of_testNew
    { shortConfig with deltaEncoding := true, keyframeInterval := 2 }
    (fun b => runCalls .little (b, Loop.initial) retriedOps)
    (fun _ (_, journal) => (delivered (effectsOf journal)).length == 3 &&
      (attempts (effectsOf journal)).length == 5) (by decide +kernel)
  rw [Bool.and_eq_true, beq_iff_eq, beq_iff_eq] at htest
  obtain ⟨hthree, hfive⟩ := htest
  obtain ⟨k₀, d₁, k₂, hdelivered⟩ := List.length_eq_three.mp hthree
  obtain ⟨hcadence, _, _, _, hbelow, _⟩ := keyframe_cadence hnew (by rw [hcfg])
    (by rw [hcfg]; decide) hrun
  rw [hdelivered, hcfg] at hcadence
  rw [hcfg] at hbelow
  refine ⟨b, b', loop, journal, k₀, d₁, k₂, hnew, hrun, hdelivered, hfive, ?_, ?_, ?_, hbelow⟩
  · exact (hcadence 0 k₀ rfl).1.mpr (by decide)
  · exact fun hkey => absurd ((hcadence 1 d₁ rfl).1.mp hkey) (by decide)
  · exact (hcadence 2 k₂ rfl).1.mpr (by decide)

end Batcher

end TickBatch
