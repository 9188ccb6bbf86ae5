import TickBatch.Engine.Idle

/-!
# Shutdown

After the context is canceled, `runLoop` makes a single drain and returns. `final_drain_iff` says
exactly when that drain hands everything that was queued to the transport, or counts it as
truncated: the queue has to fit into one frame. `final_drain_leaves` is a queue of three items of
which one stays behind.
-/

namespace TickBatch

variable {T : Type}

/-- How `finalDrain` returns: with its drain done, or after its deadline, having reported that the
drain is still running in a goroutine of its own. -/
inductive Final (T : Type) where
  | drained (b : Batcher T) (loop : Loop) (effects : List (Effect T))
  | abandoned (reports : List (Effect T))

/-- No producer is running and the flush does not fail. -/
structure Tick.Quiet (tick : Tick T) : Prop where
  arrivals : tick.arrivals = fun _ => []
  flush : ∀ bytes, tick.flush bytes = none

namespace Batcher

open TickBatch.Ring (Represents contents depth)

/-- The drain after the context is canceled. `expired` is the case that the select of a positive
`ShutdownTimeout` takes: the deadline, before the drain goroutine is done. -/
def finalDrain [Serializable T] (host : ByteOrder) (b : Batcher T) (loop : Loop) (tick : Tick T)
    (expired : Bool) : Except Fault (Final T) :=
  let drain := do
    let (b, loop, effects) ← b.drainAndFlush host loop tick
    pure (.drained b loop effects)
  if b.cfg.shutdownTimeout ≤ 0 then drain
  else if expired then
    .ok (.abandoned (b.reportError tick.now (.shutdownTimeout b.cfg.shutdownTimeout)).2)
  else drain

/-- The ring is empty, and every item that was queued has been handed to the flush in one frame, or
is counted as truncated. -/
structure Emptied (b b' : Batcher T) (effects : List (Effect T)) : Prop where
  ring : depth b'.ring = 0
  items : ((attempts effects).flatMap (fun flush => flush.1.items) ++ truncations effects).Perm
    (contents b.ring)
  truncated : b'.truncated = b.truncated + UInt64.ofNat (truncations effects).length

variable [Serializable T]

/-- The part of the byte buffer that the items of a frame share. -/
def bodyBuffer (b : Batcher T) : List UInt8 := b.byteBuffer.drop headerSize

/-- The payload of a frame with the given encodings, before compression. -/
def payloadFor (b : Batcher T) (loop : Loop) (bodies : List (List UInt8)) : List UInt8 :=
  b.payloadOf (b.isKeyframe loop) (encodeFrame (b.sequenceID + 1) (UInt16.ofNat bodies.length)
    (b.isKeyframe loop) bodies.flatten)

section Represented

variable {k H : Nat} {host : ByteOrder} {b : Batcher T} {loop : Loop} {tick : Tick T}
  {items : List T}

/-- What the marshaling loop leaves of a represented queue, with the payload it makes of it. -/
theorem fill_alone (loop : Loop) (hk : k ≤ 63) (hrep : Represents k H b.ring items) (hs : b.Sized)
    (hquiet : tick.Quiet) :
    ∃ f H' rest, b.fill tick.arrivals = .ok f ∧ Represents k H' f.b.ring rest ∧
      f.items ++ truncations f.effects ++ rest = items ∧
      f.b.truncated = b.truncated + UInt64.ofNat (truncations f.effects).length ∧
      (rest = [] ↔ fitsFrame b.cfg.maxItemSize.toInt 65535 b.bodyBuffer items = true) ∧
      (rest = [] → f.n = (encodings b.bodyBuffer items).length ∧
        f.b.compresses tick (f.payload loop) =
          b.compresses tick (b.payloadFor loop (encodings b.bodyBuffer items))) := by
  rw [hquiet.arrivals]
  obtain ⟨f, H', rest, hfill, hrep', hfits, haccount, htruncated, hbody, hcount⟩ :=
    fillLoop_alone 65535
      (f := { b, offset := headerSize, n := 0, items := [], effects := [] }) hk hrep le_rfl
      hs.header rfl
  refine ⟨f, H', rest, hfill, hrep', haccount, htruncated, hfits, fun hempty => ?_⟩
  have hn : f.n = (encodings b.bodyBuffer items).length := by
    rw [hcount hempty, Nat.zero_add]
    rfl
  have hbody' : f.body = (encodings b.bodyBuffer items).flatten := by
    rw [hbody hempty]
    simp [Fill.body, bodyBuffer]
  have hsame := (fill_ok hs hfill).1.same
  refine ⟨hn, ?_⟩
  have hpayload : f.payload loop = b.payloadFor loop (encodings b.bodyBuffer items) := by
    unfold Fill.payload payloadFor Fill.raw
    rw [hbody', hn, hsame]
    rfl
  rw [hpayload, hsame]
  rfl

/-- The final drain of a represented queue. -/
theorem final_drain_represented (hk : k ≤ 63) (hrep : Represents k H b.ring items)
    (hidle : b.Idle loop) (hsink : b.cfg.sink ≠ none) (hquiet : tick.Quiet) :
    (∃ b' loop' effects, b.drainAndFlush host loop tick = .ok (b', loop', effects) ∧
        b.Emptied b' effects) ↔
      fitsFrame b.cfg.maxItemSize.toInt 65535 b.bodyBuffer items = true ∧
        (encodings b.bodyBuffer items ≠ [] →
          b.compresses tick (b.payloadFor loop (encodings b.bodyBuffer items)) = true) := by
  obtain ⟨f, H', rest, hfill, hrep', haccount, htruncated, hfits, hsent⟩ :=
    fill_alone loop hk hrep hidle.sized hquiet
  obtain ⟨b', loop', effects, hdrain, _, hring, htruncated', hwhole, hcase⟩ :=
    drain_ok host hidle hfill
  have hcount := (fill_ok hidle.sized hfill).1.count
  have hcfg := (fill_ok hidle.sized hfill).1.cfg
  have hempty : depth b'.ring = 0 ↔ rest = [] := by
    rw [hring]
    exact hrep'.depth_eq_zero hk
  have hcontents : contents b.ring = items := hrep.contents_eq hk
  constructor
  · rintro ⟨_, _, _, hrun, hdone⟩
    rw [hdrain] at hrun
    cases hrun
    have hrest := hempty.mp hdone.ring
    obtain ⟨hn, hcompress⟩ := hsent hrest
    refine ⟨hfits.mp hrest, fun hne => ?_⟩
    rw [← hcompress]
    -- a batch that is discarded is missing from the frames
    have hitems : f.items ≠ [] := by
      intro h0
      rw [h0, List.length_nil] at hcount
      exact hne (List.length_eq_zero_iff.mp (hn.symm.trans hcount.symm))
    rcases hcase with ⟨hnone, _⟩ | ⟨frame, _, _, hsends⟩
    · have hlen := hdone.items.length_eq
      rw [hnone, hwhole, hcontents, ← haccount, hrest] at hlen
      simp only [List.flatMap_nil, List.nil_append, List.append_nil, List.length_append] at hlen
      exact absurd (List.length_eq_zero_iff.mp (by omega)) hitems
    · exact hsends.2.2
  · rintro ⟨hfit, hcompress⟩
    have hrest := hfits.mpr hfit
    obtain ⟨hn, hsame⟩ := hsent hrest
    refine ⟨b', loop', effects, hdrain, hempty.mpr hrest, ?_, ?_⟩
    · rw [hcontents, ← haccount, hrest, List.append_nil, hwhole]
      rcases hcase with ⟨hnone, hsends⟩ | ⟨frame, hone, hitems, _⟩
      -- without a frame there was nothing to send, as the compressor accepts what there is
      · have hn0 : f.n = 0 := by
          by_contra hne
          refine hsends ⟨hne, by rw [hcfg]; exact hsink, ?_⟩
          rw [hsame]
          exact hcompress fun h0 => hne (by rw [hn, h0]; rfl)
        rw [hnone, List.length_eq_zero_iff.mp (hcount.trans hn0)]
        exact List.Perm.refl _
      · rw [hone, ← hitems]
        simp
    · rw [htruncated', htruncated, hwhole]

end Represented

/-- With more than one item pending in its only slot, a ring of size 1 keeps them all. -/
theorem final_drain_oneSlot {host : ByteOrder} {b b' : Batcher T} {loop loop' : Loop}
    {tick : Tick T} {effects : List (Effect T)} (hidle : b.Idle loop) (hone : Ring.OneSlot b.ring)
    (hdepth : 1 < (depth b.ring).toNat) (hquiet : tick.Quiet)
    (hrun : b.drainAndFlush host loop tick = .ok (b', loop', effects)) : depth b'.ring ≠ 0 := by
  obtain ⟨⟨_, _, _⟩, hassemble, _⟩ := bind_eq_ok hrun
  obtain ⟨f, hfill, _⟩ := bind_eq_ok hassemble
  obtain ⟨_, _, _, hdrain, _, hring, _⟩ := drain_ok host hidle hfill
  rw [hdrain] at hrun
  cases hrun
  have hsame : f.b.ring = b.ring := by
    rw [hquiet.arrivals] at hfill
    unfold fill at hfill
    rw [fillLoop_iterate (b := b) hidle.sized.header rfl] at hfill
    split at hfill
    · cases hfill
      rfl
    · rcases hone.take_stuck hdepth with hhang | hempty
      · simp only [hhang] at hfill
        cases hfill
      · simp only [hempty] at hfill
        cases hfill
        rfl
  rw [hring, hsame]
  intro h0
  rw [h0] at hdepth
  exact absurd hdepth (by decide)

/-- With all producers quiesced and a transport that does not fail, the final drain empties the ring
into one frame exactly when a ring of size 1 has at most one pending item, the queue fits into one
frame, and the compressor, if there is one, accepts that frame. -/
theorem final_drain_iff {host : ByteOrder} {b : Batcher T} {loop : Loop} {tick : Tick T}
    {expired : Bool} (hidle : b.Idle loop) (hsink : b.cfg.sink ≠ none)
    (hshutdown : b.cfg.shutdownTimeout = 0) (_hflush : b.cfg.flushTimeout = 0)
    (hquiet : tick.Quiet) :
    (∃ b' loop' effects, b.finalDrain host loop tick expired = .ok (.drained b' loop' effects) ∧
        b.Emptied b' effects) ↔
      (b.cfg.queueSize = 1 → (depth b.ring).toNat ≤ 1) ∧
      fitsFrame b.cfg.maxItemSize.toInt 65535 b.bodyBuffer (contents b.ring) = true ∧
      (encodings b.bodyBuffer (contents b.ring) ≠ [] →
        b.compresses tick (b.payloadFor loop (encodings b.bodyBuffer (contents b.ring))) =
          true) := by
  have hinline : ∀ b' loop' effects,
      b.finalDrain host loop tick expired = .ok (.drained b' loop' effects) ↔
        b.drainAndFlush host loop tick = .ok (b', loop', effects) := by
    intro b' loop' effects
    unfold finalDrain
    rw [hshutdown, if_pos (by decide)]
    cases b.drainAndFlush host loop tick with
    | error e => exact ⟨nofun, nofun⟩
    | ok out => exact ⟨fun h => (by cases h; rfl), fun h => (by cases h; rfl)⟩
  simp only [hinline]
  rcases hidle.ring with ⟨hsize, hone⟩ | ⟨k, H, items, hk, hk', hsize, hrep⟩
  -- a ring of size 1 represents a queue only while it holds at most one item
  · by_cases hdepth : (depth b.ring).toNat ≤ 1
    · obtain ⟨items, hrep⟩ := hone.represents hdepth
      rw [final_drain_represented (by decide) hrep hidle hsink hquiet,
        hrep.contents_eq (by decide)]
      simp [hdepth]
    · simp only [hsize, hdepth, forall_const, false_and, iff_false, not_exists, not_and]
      intro b' loop' effects hrun hdone
      exact final_drain_oneSlot hidle hone (by omega) hquiet hrun hdone.ring
  · have hne : b.cfg.queueSize ≠ 1 := by
      have htwo : 2 ≤ 2 ^ k := Nat.le_self_pow (by omega) 2
      have hlt : 2 ^ k ≤ 2 ^ 63 := Nat.pow_le_pow_right (by omega) hk'
      rw [hsize, ne_eq, ← UInt64.toNat_inj, UInt64.toNat_ofNat', UInt64.toNat_one]
      omega
    rw [final_drain_represented hk' hrep hidle hsink hquiet, hrep.contents_eq hk']
    simp [hne]

/-! ## Concrete queues -/

omit [Serializable T] in
theorem plainTick_quiet : (plainTick ([] : List T) none).Quiet where
  arrivals := by
    funext i
    exact ite_self _
  flush _ := rfl

/-- Two short items fit into one frame. -/
theorem final_drain_two : ∃ b₀ b : Batcher (List UInt8), Batcher.new 24 shortConfig = .ok b₀ ∧
    b₀.pushAll [[1], [2, 3]] = .ok b ∧ contents b.ring = [[1], [2, 3]] ∧
    ∃ b' loop' effects, b.finalDrain .little Loop.initial (plainTick [] none) false =
      .ok (.drained b' loop' effects) ∧ b.Emptied b' effects := by
  obtain ⟨b₀, b, hnew, hpushed, hcfg, htest⟩ := exists_of_testNew shortConfig
    (fun b₀ : Batcher (List UInt8) => (b₀.pushAll [[1], [2, 3]]).toOption)
    (fun _ b => contents b.ring == [[1], [2, 3]] &&
      fitsFrame b.cfg.maxItemSize.toInt 65535 b.bodyBuffer (contents b.ring)) (by decide +kernel)
  have hpush := toOption_eq_some.mp hpushed
  rw [← pushAll_cfg hpush] at hcfg
  rw [Bool.and_eq_true, beq_iff_eq] at htest
  refine ⟨b₀, b, hnew, hpush, htest.1, ?_⟩
  refine (final_drain_iff ((new_idle hnew).pushAll hpush) (by rw [hcfg]; decide) (by rw [hcfg]; rfl)
    (by rw [hcfg]; rfl) plainTick_quiet).mpr ⟨fun hsize => ?_, htest.2, fun _ => ?_⟩
  · rw [hcfg] at hsize
    cases hsize
  · unfold compresses
    rw [hcfg]
    rfl

/-- Three items of which only the first two fit: the third one is still queued when the final drain
has returned, in no frame and not counted. -/
theorem final_drain_leaves : ∃ (b₀ b b' : Batcher (List UInt8)) (loop' : Loop)
    (effects : List (Effect (List UInt8))), Batcher.new 24 shortConfig = .ok b₀ ∧
    b₀.pushAll [[1, 2, 3], [4, 5, 6], [7, 8, 9]] = .ok b ∧
    b.finalDrain .little Loop.initial (plainTick [] none) false =
      .ok (.drained b' loop' effects) ∧
    b.cfg.sink ≠ none ∧ b.cfg.shutdownTimeout = 0 ∧ b.cfg.flushTimeout = 0 ∧
    contents b'.ring = [[7, 8, 9]] ∧ b'.truncated = 0 ∧
    (attempts effects).flatMap (fun flush => flush.1.items) = [[1, 2, 3], [4, 5, 6]] := by
  obtain ⟨b₀, b, hnew, hpushed, hcfg, htest⟩ := exists_of_testNew shortConfig
    (fun b₀ : Batcher (List UInt8) => (b₀.pushAll [[1, 2, 3], [4, 5, 6], [7, 8, 9]]).toOption)
    (fun _ b =>
      match b.finalDrain .little Loop.initial (plainTick [] none) false with
      | .ok (.drained b' _ effects) => contents b'.ring == [[7, 8, 9]] && b'.truncated == 0 &&
          (attempts effects).flatMap (fun flush => flush.1.items) == [[1, 2, 3], [4, 5, 6]]
      | _ => false) (by decide +kernel)
  have hpush := toOption_eq_some.mp hpushed
  rw [← pushAll_cfg hpush] at hcfg
  split at htest
  · rename_i b' loop' effects hrun
    simp only [Bool.and_eq_true, beq_iff_eq] at htest
    exact ⟨b₀, b, b', loop', effects, hnew, hpush, hrun, by rw [hcfg]; decide, by rw [hcfg]; rfl,
      by rw [hcfg]; rfl, htest.1.1, htest.1.2, htest.2⟩
  · cases htest

end Batcher

end TickBatch
