import TickBatch.Delta.RoundTrip

/-!
# Decoding with a stale baseline

A receiver that has missed frames holds an earlier raw frame of the stream in place of the sender's
baseline. The integrity tag is combined together with the body, so what it checks is a checksum of
three frames against a combination of three checksums: for frames of one length the two always
agree, and the receiver reports success on bytes that nobody sent (`stale_accepted`).
`stale_baseline_iff` is the exact condition under which a stale baseline is noticed.
-/

namespace TickBatch.Batcher

open Codec (bodyCrc syndrome Tagged ReadsAsKeyframe headerOf)

variable {T : Type} {cfg : Config} {decompress : List UInt8 → List UInt8} {prev : List UInt8}
  {j : Nat}

/-- A receiver returns an error or exactly the raw frame. -/
def Faithful (out : Except Codec.Error (List UInt8 × Codec.Header)) (frame : Frame T) : Prop :=
  (∃ e, out = .error e) ∨ out = recovered frame

/-- Every flushed frame of a stream is linked to some frame. -/
theorem Stream.link_of_mem {flushes : List (Frame T × Option Error)}
    (h : Stream cfg decompress prev j flushes) {frame : Frame T}
    (hmem : frame ∈ flushes.map Prod.fst) : ∃ prev' j', Link cfg decompress prev' j' frame := by
  induction flushes generalizing prev j with
  | nil => cases hmem
  | cons flush rest ih =>
      obtain ⟨f, err⟩ := flush
      rw [List.map_cons, List.mem_cons] at hmem
      cases err with
      | none =>
          rcases hmem with rfl | hmem
          · exact ⟨prev, j, h.1⟩
          · exact ih h.2 hmem
      | some e =>
          rcases hmem with rfl | hmem
          · exact ⟨prev, j, h.1⟩
          · exact ih h.2 hmem

/-- A delivered frame is a flushed one. -/
theorem mem_of_mem_successes {flushes : List (Frame T × Option Error)} {frame : Frame T}
    (h : frame ∈ successes flushes) : frame ∈ flushes.map Prod.fst := by
  obtain ⟨⟨f, err⟩, hmem, heq⟩ := List.mem_filterMap.mp h
  cases err with
  | none =>
      cases heq
      exact List.mem_map_of_mem hmem
  | some e => cases heq

/-- The last flushed frame is linked to the last one delivered before it. -/
theorem Stream.link_last {before : List (Frame T × Option Error)} {last : Frame T}
    {err : Option Error} (h : Stream cfg decompress prev j (before ++ [(last, err)])) :
    ∃ j', Link cfg decompress (((successes before).getLast?.map Frame.raw).getD prev) j' last := by
  induction before generalizing prev j with
  | nil => cases err <;> exact ⟨j, h.1⟩
  | cons flush rest ih =>
      obtain ⟨f, e⟩ := flush
      cases e with
      | none =>
          obtain ⟨j', hlink⟩ := ih h.2
          refine ⟨j', ?_⟩
          have hlast : ((successes ((f, none) :: rest)).getLast?.map Frame.raw).getD prev =
              ((successes rest).getLast?.map Frame.raw).getD f.raw := by
            show (((f :: successes rest).getLast?).map Frame.raw).getD prev = _
            cases successes rest with
            | nil => rfl
            | cons g gs => simp [List.getLast?_cons]
          rw [hlast]
          exact hlink
      | some e => exact ih h.2

/-- A receiver whose baseline is `q` while the sender's is `p` is faithful to the delta frame `r`
exactly when it does not take it for a keyframe and either notices the mismatch or cannot be
misled by it, because the baselines agree as far as `r` reaches. -/
theorem Link.faithful_iff {p q r : Frame T} {prev' prev'' : List UInt8} {j' j'' : Nat}
    (hp : Link cfg decompress prev' j' p) (hq : Link cfg decompress prev'' j'' q)
    (hr : Link cfg decompress p.raw j r) (hdelta : r.keyframe = false) :
    Faithful (Codec.DeltaReconstructor.reconstruct { prev := q.raw }
        (unpack cfg decompress r.sent)).2 r ↔
      ¬ (p.keyframe = true ∧
          Confusable (p.raw.drop headerSize) (r.raw.length - headerSize)) ∧
        (residue (p.raw.drop headerSize) (r.raw.length - headerSize) ≠
            residue (q.raw.drop headerSize) (r.raw.length - headerSize) ∨
          Bytes.fit r.raw.length p.raw = Bytes.fit r.raw.length q.raw) := by
  obtain ⟨pbody, _, hpraw⟩ := hp.body
  obtain ⟨qbody, _, hqraw⟩ := hq.body
  obtain ⟨rbody, _, hrraw⟩ := hr.body
  rw [hdelta] at hrraw
  have hlen : r.raw.length = 8 + rbody.length := by rw [hrraw, length_encodeFrame]; rfl
  have hcut : r.raw.length - headerSize = rbody.length := by
    rw [hlen]
    exact Nat.add_sub_cancel_left _ _
  have hpbody : p.raw.drop headerSize = pbody := by rw [hpraw, drop_encodeFrame]
  have hqbody : q.raw.drop headerSize = qbody := by rw [hqraw, drop_encodeFrame]
  have htagged : Tagged r.raw := hrraw ▸ tagged_encodeFrame _ _ _ _
  have h8 : Codec.headerSize ≤ r.raw.length := hr.length.le
  have hpayload : r.payload = Bytes.delta r.raw p.raw := by
    rw [hr.payload, hdelta]
    rfl
  have hheader : recovered r = .ok (r.raw, headerOf r.raw) := by
    unfold recovered
    rw [hrraw, headerOf_encodeFrame, drop_encodeFrame, hdelta]
  have hvalid : Tagged (Bytes.delta (Bytes.delta r.raw p.raw) q.raw) ↔
      residue pbody rbody.length = residue qbody rbody.length := by
    rw [Codec.tagged_delta_delta htagged h8, hlen, hpraw, hqraw, syndrome_fit_encodeFrame,
      syndrome_fit_encodeFrame]
  have hreads := readsAsKeyframe_delta hrraw hpraw
  have hsame : Bytes.delta (Bytes.delta r.raw p.raw) q.raw = r.raw ↔
      Bytes.fit r.raw.length p.raw = Bytes.fit r.raw.length q.raw := by
    unfold Bytes.delta
    rw [Bytes.length_xor, Bytes.length_fit, Nat.min_self]
    exact Bytes.xor_xor_eq_self (by simp) (by simp)
  rw [hr.unpacked, hpayload, Codec.reconstruct_eq _ (by rw [Bytes.length_delta]; exact h8), hcut,
    hpbody, hqbody]
  unfold Faithful
  rw [hheader]
  by_cases hkey : ReadsAsKeyframe (Bytes.delta r.raw p.raw)
  · -- the keyframe path returns the delta, whose bit 15 differs from that of the raw frame
    rw [if_pos hkey]
    have hconf := hreads.mp hkey
    simp only [hconf, not_true_eq_false, false_and, iff_false, reduceCtorEq, exists_false, false_or,
      Except.ok.injEq, Prod.mk.injEq, not_and, and_self]
    intro heq
    have hne := hr.confused_ne ⟨hdelta, hkey⟩
    rw [hpayload] at hne
    exact absurd heq hne
  · rw [if_neg hkey]
    have hconf : ¬ (p.keyframe = true ∧ Confusable pbody rbody.length) :=
      fun h => hkey (hreads.mpr h)
    simp only [hconf, not_false_eq_true, true_and]
    by_cases hok : Tagged (Bytes.delta (Bytes.delta r.raw p.raw) q.raw)
    · rw [if_pos hok]
      simp only [hvalid.mp hok, ne_eq, not_true_eq_false, false_or, reduceCtorEq, exists_false,
        Except.ok.injEq, Prod.mk.injEq]
      rw [← hsame]
      exact ⟨And.left, fun h => ⟨h, by rw [h]⟩⟩
    · rw [if_neg hok]
      have hne : residue pbody rbody.length ≠ residue qbody rbody.length :=
        fun h => hok (hvalid.mpr h)
      simp [hne]

/-! ## Whole runs -/

section Runs

variable [Inhabited T] [Serializable T] {sizeofT : Int64} {b b' : Batcher T} {host : ByteOrder}
  {ticks : List (Tick T)} {loop : Loop} {effects : List (Effect T)}

/-- A delta frame `r` whose sender has `p` as its baseline, and a receiver that holds an earlier
frame `q`: it returns an error or exactly `r`, if and only if `r` is not taken for a keyframe, and
either fitting them to the length of `r` changes the checksums of `p` and `q` differently, or the
two agree over that length. -/
theorem stale_baseline_iff {before : List (Frame T × Option Error)} {p q r : Frame T}
    {err : Option Error} (hnew : Batcher.new sizeofT cfg = .ok b)
    (hdelta : b.cfg.deltaEncoding = true) (hinv : ∀ tick ∈ ticks, Inverts decompress tick)
    (hrun : b.drains host Loop.initial ticks = .ok (b', loop, effects))
    (hlast : attempts effects = before ++ [(r, err)]) (hframe : r.keyframe = false)
    (hp : (successes before).getLast? = some p) (hq : q ∈ before.map Prod.fst) :
    Faithful (Codec.DeltaReconstructor.reconstruct { prev := q.raw }
        (unpack b.cfg decompress r.sent)).2 r ↔
      ¬ (p.keyframe = true ∧
          Confusable (p.raw.drop headerSize) (r.raw.length - headerSize)) ∧
        (residue (p.raw.drop headerSize) (r.raw.length - headerSize) ≠
            residue (q.raw.drop headerSize) (r.raw.length - headerSize) ∨
          Bytes.fit r.raw.length p.raw = Bytes.fit r.raw.length q.raw) := by
  have hstream := drains_stream (new_sender hnew hdelta) hinv hrun
  rw [hlast] at hstream
  obtain ⟨j', hr⟩ := hstream.link_last
  rw [hp] at hr
  have hpmem : p ∈ before.map Prod.fst := mem_of_mem_successes (List.mem_of_getLast? hp)
  have hmem : ∀ f ∈ before.map Prod.fst, f ∈ (before ++ [(r, err)]).map Prod.fst := by
    intro f hf
    rw [List.map_append]
    exact List.mem_append_left _ hf
  obtain ⟨_, _, hplink⟩ := hstream.link_of_mem (hmem p hpmem)
  obtain ⟨_, _, hqlink⟩ := hstream.link_of_mem (hmem q hq)
  exact hplink.faithful_iff hqlink hr hframe

end Runs

/-! ## Concrete streams -/

/-- Three frames of which the receiver misses the second. -/
def staleTicks (first second third : List UInt8) : List (Tick (List UInt8)) :=
  [plainTick [first] none, plainTick [second] none, plainTick [third] none]

/-- The three frames, if all of them were delivered and the last one was sent as a delta. -/
def staleFrames (effects : List (Effect (List UInt8))) :
    Option (Frame (List UInt8) × Frame (List UInt8) × Frame (List UInt8)) :=
  match attempts effects with
  | [(q, none), (p, none), (r, none)] => if r.keyframe then none else some (q, p, r)
  | _ => none

theorem staleFrames_eq_some {effects : List (Effect (List UInt8))} {q p r : Frame (List UInt8)}
    (h : staleFrames effects = some (q, p, r)) :
    attempts effects = [(q, none), (p, none), (r, none)] ∧ r.keyframe = false := by
  unfold staleFrames at h
  split at h
  · rename_i hattempts
    split at h
    · cases h
    · rename_i hframe
      cases h
      exact ⟨hattempts, Bool.eq_false_iff.mpr hframe⟩
  · cases h

/-- Frames of different lengths: the stale baseline is noticed. -/
theorem stale_noticed : ∃ b b' loop effects q p r,
    Batcher.new 24 (deltaConfig 0) = .ok b ∧
    b.drains .little Loop.initial (staleTicks [1, 2, 3, 4] [5] [6, 7]) = .ok (b', loop, effects) ∧
    attempts effects = [(q, none), (p, none), (r, none)] ∧
    Faithful (Codec.DeltaReconstructor.reconstruct { prev := q.raw }
      (unpack b.cfg id r.sent)).2 r := by
  obtain ⟨b, ⟨b', loop, effects⟩, hnew, hdrains, hcfg, htest⟩ := exists_of_testNew (deltaConfig 0)
    (fun b => (b.drains .little Loop.initial (staleTicks [1, 2, 3, 4] [5] [6, 7])).toOption)
    (fun _ out => (staleFrames out.2.2).any fun (q, p, r) => !p.keyframe &&
      residue (p.raw.drop headerSize) (r.raw.length - headerSize) !=
        residue (q.raw.drop headerSize) (r.raw.length - headerSize)) (by decide +kernel)
  have hrun := toOption_eq_some.mp hdrains
  obtain ⟨⟨q, p, r⟩, hframes, htest⟩ := (Option.any_eq_true _ _).mp htest
  obtain ⟨hattempts, hframe⟩ := staleFrames_eq_some hframes
  simp only [Bool.and_eq_true, Bool.not_eq_true', bne_iff_ne] at htest
  refine ⟨b, b', loop, effects, q, p, r, hnew, hrun, hattempts, ?_⟩
  have hsplit : attempts effects = [(q, none), (p, none)] ++ [(r, none)] := hattempts
  refine (stale_baseline_iff (p := p) hnew (by rw [hcfg]; rfl) (inverts_of_plain 3 rfl) hrun hsplit
    hframe rfl (by simp)).mpr ⟨?_, Or.inl htest.2⟩
  rw [htest.1]
  simp

/-- Three frames of one length: a receiver that has missed the second one decodes the third into
bytes that were never sent, and reports no error. -/
theorem stale_accepted : ∃ b b' loop effects q p r out,
    Batcher.new 24 (deltaConfig 0) = .ok b ∧
    b.drains .little Loop.initial (staleTicks [1] [2] [3]) = .ok (b', loop, effects) ∧
    b.cfg.deltaEncoding = true ∧ attempts effects = [(q, none), (p, none), (r, none)] ∧
    r.keyframe = false ∧ q.raw ≠ p.raw ∧
    (Codec.DeltaReconstructor.reconstruct { prev := q.raw } (unpack b.cfg id r.sent)).2 = .ok out ∧
    out.1.drop headerSize = [0] ∧ r.raw.drop headerSize = [3] := by
  obtain ⟨b, ⟨b', loop, effects⟩, hnew, hdrains, hcfg, htest⟩ := exists_of_testNew (deltaConfig 0)
    (fun b => (b.drains .little Loop.initial (staleTicks [1] [2] [3])).toOption)
    (fun _ out => (staleFrames out.2.2).any fun (q, p, r) =>
      q.raw != p.raw && r.raw.drop headerSize == [3] &&
        (Codec.DeltaReconstructor.reconstruct { prev := q.raw } r.sent).2.toOption.any fun out =>
          out.1.drop headerSize == [0]) (by decide +kernel)
  obtain ⟨⟨q, p, r⟩, hframes, htest⟩ := (Option.any_eq_true _ _).mp htest
  obtain ⟨hattempts, hframe⟩ := staleFrames_eq_some hframes
  simp only [Bool.and_eq_true, bne_iff_ne, beq_iff_eq, Option.any_eq_true] at htest
  obtain ⟨⟨hne, hbody⟩, out, hout, hzero⟩ := htest
  have hunpack : unpack b.cfg id r.sent = r.sent := by simp [unpack]
  refine ⟨b, b', loop, effects, q, p, r, out, hnew, toOption_eq_some.mp hdrains, by rw [hcfg]; rfl,
    hattempts, hframe, hne, ?_, hzero, hbody⟩
  rw [hunpack]
  exact toOption_eq_some.mp hout

end TickBatch.Batcher
