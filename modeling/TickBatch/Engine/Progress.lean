import TickBatch.Engine.Accounting
import TickBatch.Engine.RawFrames

/-!
# Progress of drains

A drain stops before its first `popMarshal` call if the buffer behind the header is shorter than
`MaxItemSize`. `New` compares `MaxBatchSize` with `headerSize + MaxItemSize` to rule that out, but
the sum wraps, and a `MaxItemSize` within eight of the largest integer passes the comparison with
every `MaxBatchSize`. `drain_progress_iff` says that nothing else can stand in the way: in every
state that pushes and drains reach, a drain of a non-empty ring dequeues an item if and only if the
sum has not wrapped.
-/

namespace TickBatch

open QueueHistory (Exit History taken lost)

variable {T : Type}

/-! ## The sizes that `New` accepts -/

/-- An accepted configuration has room for an item behind the header unless the sum that `New`
compares with `MaxBatchSize` has wrapped. -/
theorem Config.Accepted.room_iff {cfg : Config} (h : cfg.Accepted) :
    8 + cfg.maxItemSize.toInt ≤ cfg.maxBatchSize.toInt ↔ 8 + cfg.maxItemSize.toInt < 2 ^ 63 := by
  have hitem : 0 < cfg.maxItemSize.toInt := Int64.lt_iff_toInt_lt.mp h.item
  constructor
  · intro hroom
    exact hroom.trans_lt (Int64.toInt_lt _)
  · intro hsum
    have hroom := Int64.le_iff_toInt_le.mp h.room
    have hnowrap : (8 + cfg.maxItemSize).toInt = 8 + cfg.maxItemSize.toInt := by
      rw [Int64.toInt_add]
      exact Int.bmod_eq_of_le (by simp; omega) (by simp; omega)
    rwa [hnowrap] at hroom

/-! ## What a drain takes -/

/-- The items that a drain has taken from the ring: those of its payload or of the batch that it
discarded, and then the one that it truncated. -/
def dequeued (effects : List (Effect T)) : List T :=
  attempted effects ++ (discards effects).flatten ++ truncations effects

/-- Every item that was dequeued is delivered or truncated, or in a batch that was not delivered. -/
theorem dequeued_perm (effects : List (Effect T)) :
    (dequeued effects).Perm ((delivered effects).flatMap Frame.items ++ truncations effects ++
      undelivered effects) := by
  unfold dequeued undelivered
  have hattempted := ((attempted_perm effects).append_right (discards effects).flatten).append_right
    (truncations effects)
  refine hattempted.trans ?_
  simp only [List.append_assoc]
  refine List.Perm.append_left _ ?_
  rw [← List.append_assoc]
  exact List.perm_append_comm

namespace Batcher

open TickBatch.Ring (Represents contents depth)

variable [Serializable T]

/-- The marshaling loop of a drain that has room for an item takes one from a queue that is not
empty, whatever producers push before it does. -/
theorem fill_takes {k H : Nat} {b : Batcher T} {queue : List T} {arrivals : Nat → List T}
    {f : Fill T} (hk : 1 ≤ k) (hk' : k ≤ 63) (hrep : Represents k H b.ring queue)
    (hqueue : queue ≠ []) (hs : b.Sized)
    (hroom : b.cfg.maxItemSize.toInt ≤ (b.byteBuffer.drop headerSize).length)
    (hfill : b.fill arrivals = .ok f) : f.items ++ truncations f.effects ≠ [] := by
  obtain ⟨b₁, queue₁, exits, hpush, hledger, _, hlength⟩ :=
    pushAll_ledger hk hk' (arrivals 0) hrep
  obtain ⟨H₁, hrep₁⟩ := hledger.ring
  let start : Fill T := { b, offset := headerSize, n := 0, items := [], effects := [] }
  have hfill : fillLoop arrivals (65534 + 1) start = .ok f := hfill
  have hhi : start.offset ≤ start.b.byteBuffer.length := hs.header
  cases queue₁ with
  | nil => exact absurd (List.eq_nil_of_length_eq_zero (Nat.le_zero.mp hlength)) hqueue
  | cons item rest =>
      obtain ⟨ring, htake, _⟩ := hrep₁.take_cons hk'
      cases fillLoop_takes hhi (not_lt.mpr hroom) hpush htake with
      | cut written buf hm hbad hloop =>
          rw [hloop] at hfill
          cases hfill
          simp [Fill.cut]
      | accept written buf hm hgood hhi₁ hloop =>
          rw [hloop] at hfill
          obtain ⟨new, hnew⟩ := fillLoop_marshals (Nat.le_add_right_of_le le_rfl) hhi₁ hfill
          rw [hnew.items]
          simp [Fill.accept]

/-- The marshaling loop of a drain without room for an item takes nothing. -/
theorem fill_takes_nothing {b : Batcher T} {arrivals : Nat → List T} {f : Fill T} (hs : b.Sized)
    (hroom : (b.byteBuffer.drop headerSize).length < b.cfg.maxItemSize.toInt)
    (hfill : b.fill arrivals = .ok f) : f.items ++ truncations f.effects = [] := by
  let start : Fill T := { b, offset := headerSize, n := 0, items := [], effects := [] }
  have hhi : start.offset ≤ start.b.byteBuffer.length := hs.header
  have hstop : fillLoop arrivals 65535 start = .ok start := fillLoop_full hhi hroom 65535
  have hf : f = start := Except.ok.inj (hfill.symm.trans hstop)
  rw [hf]
  rfl

/-- What a drain with these effects does to the queue: it takes the items `dequeued effects` from
it, while producers push and evict, and each of them is delivered or truncated and counted as such,
or in the batch that was not delivered. -/
structure Dequeues (b : Batcher T) (tick : Tick T) (b' : Batcher T) (effects : List (Effect T)) :
    Prop where
  queue : ∃ exits, History (contents b.ring) (acceptedItems (b.drainVerdicts tick.arrivals)) exits
    (contents b'.ring) ∧ taken exits = dequeued effects
  fate : (dequeued effects).Perm ((delivered effects).flatMap Frame.items ++ truncations effects ++
    undelivered effects)
  flushedItems : b'.flushedItems =
    b.flushedItems + UInt64.ofNat ((delivered effects).flatMap Frame.items).length
  truncated : b'.truncated = b.truncated + UInt64.ofNat (truncations effects).length

/-- A drain of an idle batcher returns. It takes an item from a queue that is not empty if and only
if there is room for an item behind the header. -/
theorem drain_dequeues (host : ByteOrder) {b : Batcher T} {loop : Loop} (hidle : b.Idle loop)
    (hsize : 2 ≤ b.cfg.queueSize) (tick : Tick T) :
    ∃ b' loop' effects, b.drainAndFlush host loop tick = .ok (b', loop', effects) ∧
      b.Dequeues tick b' effects ∧
      (contents b.ring ≠ [] → (dequeued effects ≠ [] ↔
        b.cfg.maxItemSize.toInt ≤ (b.byteBuffer.drop headerSize).length)) := by
  obtain ⟨k, H, hk, hk', hrep⟩ := hidle.represents hsize
  obtain ⟨f, queue', exits, hfill, hfilling, _⟩ :=
    fill_ledger tick.arrivals hk hk' hrep hidle.sized
  obtain ⟨b', loop', effects, hdrain, _, hring, _⟩ := drain_ok host hidle hfill
  have hf := (fill_ok hidle.sized hfill).1
  have hends := drain_ends hidle hfill hfilling.discards hdrain
  have hadds := hends.outcome.adds
  have htaken : dequeued effects = f.items ++ truncations f.effects := by
    unfold dequeued
    rw [hends.truncations, ← hends.outcome.account hf.count]
    rfl
  refine ⟨b', loop', effects, hdrain, ⟨⟨exits, ?_, ?_⟩, dequeued_perm effects, ?_, ?_⟩,
    fun hqueue => ⟨?_, ?_⟩⟩
  · obtain ⟨H', hrep'⟩ := hfilling.ledger.ring
    rw [hring, hrep'.contents_eq hk']
    exact hfilling.ledger.history
  · rw [hfilling.taken, htaken]
  · have hkept : f.b.flushedItems = b.flushedItems := by rw [hf.same]
    rw [← hkept]
    exact hadds.flushedItems
  · rw [hends.truncations, ← hfilling.truncated]
    exact hadds.truncated
  · intro hsome
    by_contra hroom
    exact hsome (htaken.trans (fill_takes_nothing hidle.sized (not_le.mp hroom) hfill))
  · intro hroom
    rw [htaken]
    exact fill_takes hk hk' hrep hqueue hidle.sized hroom hfill

/-! ## Every run -/

/-- For every configuration that `New` accepts with a queue of at least two slots, every run of
pushes and drains and every drain after it, whatever the items, the compressor and the transport do:
if the ring is not empty, the drain dequeues an item if and only if the sum of the header and the
item size, as `New` has defaulted it, fits into an integer. -/
theorem drain_progress_iff [Inhabited T] (host : ByteOrder) {sizeofT : Int64} {cfg : Config}
    {b : Batcher T} (hnew : Batcher.new sizeofT cfg = .ok b) (hsize : 2 ≤ cfg.queueSize)
    (ops : List (Op T)) :
    ∃ b' loop' journal, runCalls host (b, Loop.initial) ops = some ((b', loop'), journal) ∧
      ∀ tick, ∃ b'' loop'' effects,
        b'.drainAndFlush host loop' tick = .ok (b'', loop'', effects) ∧
        b'.Dequeues tick b'' effects ∧
        (depth b'.ring ≠ 0 → (dequeued effects ≠ [] ↔
          8 + (cfg.withItemSize sizeofT).maxItemSize.toInt < 2 ^ 63)) := by
  obtain ⟨hcfg, haccepted, _, hbuffer, _⟩ := new_ok hnew
  have hsize : 2 ≤ b.cfg.queueSize := by
    rw [hcfg, Config.withItemSize]
    split
    · exact hsize
    · exact hsize
  obtain ⟨b', loop', journal, hrun, hidle, hkeeps, _⟩ := run_books host hnew hsize ops
  refine ⟨b', loop', journal, hrun, fun tick => ?_⟩
  obtain ⟨b'', loop'', effects, hdrain, hdequeues, hiff⟩ :=
    drain_dequeues host hidle (by rw [hkeeps.cfg]; exact hsize) tick
  refine ⟨b'', loop'', effects, hdrain, hdequeues, fun hdepth => ?_⟩
  have hqueue : contents b'.ring ≠ [] := by
    intro hnil
    have hlen : (depth b'.ring).toNat = 0 := by simpa [contents] using congrArg List.length hnil
    exact hdepth (UInt64.toNat_inj.mp hlen)
  have hlength : b'.byteBuffer.length = b.cfg.maxBatchSize.toInt.toNat := by
    rw [hkeeps.length, hbuffer, length_makeBytes]
  rw [hiff hqueue, ← hcfg, ← haccepted.room_iff, hkeeps.cfg, List.length_drop, hlength]
  have hheader : (8 : Int64).toInt ≤ b.cfg.maxBatchSize.toInt :=
    Int64.le_iff_toInt_le.mp haccepted.header
  have height : (8 : Int64).toInt = 8 := rfl
  unfold headerSize
  omega

/-- One queued item, and room for it. -/
theorem drain_progress_short : ∃ (b b' b'' : Batcher (List UInt8)) (loop' loop'' : Loop)
    (journal : List (Entry (List UInt8))) (effects : List (Effect (List UInt8))),
    Batcher.new 24 shortConfig = .ok b ∧
    runCalls .little (b, Loop.initial) [.push [1]] = some ((b', loop'), journal) ∧
    depth b'.ring = 1 ∧
    b'.drainAndFlush .little loop' (plainTick [] none) = .ok (b'', loop'', effects) ∧
    dequeued effects ≠ [] := by
  obtain ⟨b, ⟨⟨b', loop'⟩, journal⟩, hnew, hrun, _, htest⟩ := exists_of_testNew shortConfig
    (fun b : Batcher (List UInt8) => runCalls .little (b, Loop.initial) [.push [1]])
    (fun _ ((b, _), _) => depth b.ring == 1) (by decide +kernel)
  have hdepth : depth b'.ring = 1 := beq_iff_eq.mp htest
  obtain ⟨_, _, _, hrun', hdrains⟩ :=
    drain_progress_iff .little hnew (by decide) [.push [1]]
  cases hrun.symm.trans hrun'
  obtain ⟨b'', loop'', effects, hdrain, _, hiff⟩ := hdrains (plainTick [] none)
  refine ⟨b, b', b'', loop', loop'', journal, effects, hnew, hrun, hdepth, hdrain, ?_⟩
  exact (hiff (by rw [hdepth]; decide)).mpr (by decide)

/-- An item size for which the sum that `New` compares with `MaxBatchSize` is negative. -/
def wedgedConfig : Config := { shortConfig with maxItemSize := 9223372036854775807 }

/-- `New` accepts that item size for frames of sixteen bytes, and then an item stays queued, in no
frame and not counted. -/
theorem drain_wedged : ∃ (b b' b'' : Batcher (List UInt8)) (loop' loop'' : Loop)
    (journal : List (Entry (List UInt8))) (effects : List (Effect (List UInt8))),
    Batcher.new 24 wedgedConfig = .ok b ∧
    runCalls .little (b, Loop.initial) [.push [1]] = some ((b', loop'), journal) ∧
    depth b'.ring = 1 ∧
    b'.drainAndFlush .little loop' (plainTick [] none) = .ok (b'', loop'', effects) ∧
    dequeued effects = [] ∧ contents b''.ring = [[1]] ∧ b''.truncated = 0 := by
  obtain ⟨b, ⟨⟨b', loop'⟩, journal⟩, hnew, hrun, _, htest⟩ := exists_of_testNew wedgedConfig
    (fun b : Batcher (List UInt8) => runCalls .little (b, Loop.initial) [.push [1]])
    (fun _ ((b, loop), _) => depth b.ring == 1 &&
      (b.drainAndFlush .little loop (plainTick [] none)).toOption.any fun (b', _, effects) =>
        dequeued effects == [] && contents b'.ring == [[1]] && b'.truncated == 0)
    (by decide +kernel)
  rw [Bool.and_eq_true, beq_iff_eq] at htest
  obtain ⟨hdepth, hdrained⟩ := htest
  obtain ⟨⟨b'', loop'', effects⟩, hdrain, htest⟩ := (Option.any_eq_true _ _).mp hdrained
  simp only [Bool.and_eq_true, beq_iff_eq] at htest
  exact ⟨b, b', b'', loop', loop'', journal, effects, hnew, hrun, hdepth,
    toOption_eq_some.mp hdrain, htest.1.1, htest.1.2, htest.2⟩

end Batcher

end TickBatch
