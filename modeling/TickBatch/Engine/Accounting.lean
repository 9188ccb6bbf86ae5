import TickBatch.Engine.Outcome
import TickBatch.Engine.Shutdown

/-!
# Loss accounting over whole runs

A run is any sequence of `Push` and `drainAndFlush` calls, with further pushes between the
`popMarshal` calls of each drain, whatever `Marshal`, the compressor and the transport do. Its
journal has the verdict of every push and the effects of every drain. `Books` says that each counter
counts in the journal what its name says; `accounting` reads off it that every pushed item is
accounted for exactly once, in no more than one payload, and in order.
-/

namespace TickBatch

open QueueHistory (Exit History taken lost)

variable {T : Type}

/-- A call on the batcher. -/
inductive Op (T : Type) where
  | push (item : T)
  | drain (tick : Tick T)

/-- An entry of the journal of a run: the verdict of a push, or an effect. -/
inductive Entry (T : Type) where
  | verdict (item : T) (accepted : Bool)
  | effect (e : Effect T)

/-- The verdicts in a journal. -/
def verdictsOf (journal : List (Entry T)) : List (T × Bool) :=
  journal.filterMap fun
    | .verdict item accepted => some (item, accepted)
    | .effect _ => none

/-- The effects in a journal. -/
def effectsOf (journal : List (Entry T)) : List (Effect T) :=
  journal.filterMap fun
    | .verdict _ _ => none
    | .effect e => some e

/-- The journal of a call with these verdicts and effects. -/
def record (log : List (T × Bool)) (effects : List (Effect T)) : List (Entry T) :=
  log.map (fun entry => .verdict entry.1 entry.2) ++ effects.map .effect

@[simp] theorem verdictsOf_append (journal journal' : List (Entry T)) :
    verdictsOf (journal ++ journal') = verdictsOf journal ++ verdictsOf journal' :=
  List.filterMap_append

@[simp] theorem effectsOf_append (journal journal' : List (Entry T)) :
    effectsOf (journal ++ journal') = effectsOf journal ++ effectsOf journal' :=
  List.filterMap_append

@[simp] theorem verdictsOf_record (log : List (T × Bool)) (effects : List (Effect T)) :
    verdictsOf (record log effects) = log := by
  simp [verdictsOf, record, List.filterMap_map]

@[simp] theorem effectsOf_record (log : List (T × Bool)) (effects : List (Effect T)) :
    effectsOf (record log effects) = effects := by
  simp [effectsOf, record, List.filterMap_map]

/-! ## Counting effects -/

/-- The frames whose flush returned an error. -/
def failures (flushes : List (Frame T × Option Error)) : List (Frame T) :=
  flushes.filterMap fun
    | (_, none) => none
    | (frame, some _) => some frame

/-- The items of the payloads handed to the flush, in order. -/
def attempted (effects : List (Effect T)) : List T :=
  (attempts effects).flatMap fun flush => flush.1.items

/-- The items of batches whose flush or compression failed, or that were drained without a sink. -/
def undelivered (effects : List (Effect T)) : List T :=
  (failures (attempts effects)).flatMap Frame.items ++ (discards effects).flatten

/-- The number of batches that the compressor has refused. Without a sink it is never called. -/
def compressFailures (cfg : Config) (effects : List (Effect T)) : Nat :=
  if cfg.sink = none then 0 else (discards effects).length

@[simp] theorem successes_append (flushes flushes' : List (Frame T × Option Error)) :
    successes (flushes ++ flushes') = successes flushes ++ successes flushes' :=
  List.filterMap_append

@[simp] theorem failures_append (flushes flushes' : List (Frame T × Option Error)) :
    failures (flushes ++ flushes') = failures flushes ++ failures flushes' :=
  List.filterMap_append

@[simp] theorem attempted_append (es es' : List (Effect T)) :
    attempted (es ++ es') = attempted es ++ attempted es' := by
  simp [attempted]

/-- Every flush succeeds or fails. -/
theorem length_successes_add_failures (flushes : List (Frame T × Option Error)) :
    (successes flushes).length + (failures flushes).length = flushes.length := by
  induction flushes with
  | nil => rfl
  | cons flush flushes ih =>
      obtain ⟨frame, err⟩ := flush
      cases err with
      | none =>
          show (successes flushes).length + 1 + (failures flushes).length = flushes.length + 1
          omega
      | some err =>
          show (successes flushes).length + ((failures flushes).length + 1) = flushes.length + 1
          omega

/-- The items of the payloads are those of the frames delivered and of the frames that failed. -/
theorem attempted_perm (effects : List (Effect T)) :
    (attempted effects).Perm ((delivered effects).flatMap Frame.items ++
      (failures (attempts effects)).flatMap Frame.items) := by
  unfold attempted delivered
  induction attempts effects with
  | nil => exact List.Perm.nil
  | cons flush flushes ih =>
      obtain ⟨frame, err⟩ := flush
      refine (ih.append_left frame.items).trans ?_
      cases err with
      | none =>
          show List.Perm _ (frame.items ++ (successes flushes).flatMap Frame.items ++ _)
          rw [List.append_assoc]
          exact List.Perm.refl _
      | some err => exact List.perm_append_comm_assoc _ _ _

namespace Batcher

open TickBatch.Ring (Represents contents depth)

/-! ## The counters -/

/-- What a drain with these flushes and discarded batches adds to the counters, once its marshaling
loop has stopped. -/
structure Adds (cfg : Config) (flushes : List (Frame T × Option Error)) (batches : List (List T))
    (c c' : Counters) : Prop where
  dropped : c'.dropped = c.dropped
  truncated : c'.truncated = c.truncated
  sequenceID : c'.sequenceID =
    c.sequenceID + UInt32.ofNat (flushes.length + if cfg.sink = none then 0 else batches.length)
  flushedBatches : c'.flushedBatches = c.flushedBatches + UInt64.ofNat (successes flushes).length
  flushedItems : c'.flushedItems =
    c.flushedItems + UInt64.ofNat ((successes flushes).flatMap Frame.items).length
  flushErrs : c'.flushErrs = c.flushErrs + UInt64.ofNat (failures flushes).length
  bytesFlushed : c'.bytesFlushed =
    c.bytesFlushed + UInt64.ofNat ((successes flushes).map fun frame => frame.sent.length).sum

theorem Outcome.adds {f : Fill T} {loop : Loop} {tick : Tick T} {c : Counters}
    {flushes : List (Frame T × Option Error)} {batches : List (List T)}
    (h : Outcome f loop tick c flushes batches) :
    Adds f.b.cfg flushes batches f.b.counters c := by
  cases h with
  | nothing hn => constructor <;> simp [successes, failures]
  | noSink hn hsink => constructor <;> simp [successes, failures, hsink]
  | notCompressed hn hsink hcompressor =>
      constructor <;> simp [successes, failures, hsink, counters]
  | failed hn hsink sent hplain err hflush => constructor <;> simp [successes, failures, counters]
  | flushed hn hsink sent hplain hflush =>
      constructor <;> simp [successes, failures, counters, Fill.frame]

/-- Each counter of a drain counts, modulo its width, what its name says. -/
structure Tally (cfg : Config) (effects : List (Effect T)) (c : Counters) : Prop where
  truncated : c.truncated = UInt64.ofNat (truncations effects).length
  sequenceID :
    c.sequenceID = UInt32.ofNat ((attempts effects).length + compressFailures cfg effects)
  flushedBatches : c.flushedBatches = UInt64.ofNat (delivered effects).length
  flushedItems : c.flushedItems = UInt64.ofNat ((delivered effects).flatMap Frame.items).length
  flushErrs : c.flushErrs = UInt64.ofNat (failures (attempts effects)).length
  bytesFlushed :
    c.bytesFlushed = UInt64.ofNat ((delivered effects).map fun frame => frame.sent.length).sum

/-- Batches that the compressor refuses add up. -/
theorem compressFailures_append (cfg : Config) (es es' : List (Effect T)) :
    compressFailures cfg (es ++ es') = compressFailures cfg es + compressFailures cfg es' := by
  unfold compressFailures
  rw [discards_append, List.length_append]
  split
  · rfl
  · rfl

/-- A drain keeps the tally. -/
theorem Tally.drain {es effects : List (Effect T)} {b b' : Batcher T} {f : Fill T} {loop : Loop}
    {tick : Tick T} (h : Tally b.cfg es b.counters) (hf : FillOk b f)
    (htruncated : f.b.truncated = b.truncated + UInt64.ofNat (truncations f.effects).length)
    (hends : Ends f loop tick b' effects) : Tally b.cfg (es ++ effects) b'.counters := by
  have hadds := hends.outcome.adds
  rw [hf.cfg] at hadds
  -- the marshaling loop has changed none of the counters but these two
  have hcounters : f.b.counters =
      { b.counters with dropped := f.b.dropped, truncated := f.b.truncated } := by
    rw [hf.same]
    rfl
  rw [hcounters] at hadds
  refine ⟨?_, ?_, ?_, ?_, ?_, ?_⟩
  · rw [hadds.truncated, truncations_append, hends.truncations, List.length_append,
      UInt64.ofNat_add, ← h.truncated]
    exact htruncated
  · rw [hadds.sequenceID, attempts_append, List.length_append, compressFailures_append,
      Nat.add_add_add_comm, UInt32.ofNat_add ((attempts es).length + _), ← h.sequenceID]
    rfl
  · rw [hadds.flushedBatches, delivered_append, List.length_append, UInt64.ofNat_add,
      ← h.flushedBatches]
    rfl
  · rw [hadds.flushedItems, delivered_append, List.flatMap_append, List.length_append,
      UInt64.ofNat_add, ← h.flushedItems]
    rfl
  · rw [hadds.flushErrs, attempts_append, failures_append, List.length_append, UInt64.ofNat_add,
      ← h.flushErrs]
  · rw [hadds.bytesFlushed, delivered_append, List.map_append, List.sum_append, UInt64.ofNat_add,
      ← h.bytesFlushed]
    rfl

/-- The tally does not see pushes. -/
theorem Tally.pushed {es : List (Effect T)} {b b' : Batcher T} {item : T}
    (h : Tally b.cfg es b.counters) (hpush : b.push item = .ok b') :
    Tally b'.cfg (es ++ [.pushed item]) b'.counters := by
  have hattempts : attempts (es ++ [.pushed item]) = attempts es := by
    rw [attempts_append]
    exact List.append_nil _
  have hdelivered : delivered (es ++ [.pushed item]) = delivered es := congrArg successes hattempts
  have htruncations : truncations (es ++ [.pushed item]) = truncations es := by
    rw [truncations_append]
    exact List.append_nil _
  have hdiscards : discards (es ++ [.pushed item]) = discards es := by
    rw [discards_append]
    exact List.append_nil _
  rw [push_eq hpush]
  refine ⟨?_, ?_, ?_, ?_, ?_, ?_⟩
  · rw [htruncations]
    exact h.truncated
  · rw [hattempts, compressFailures, hdiscards]
    exact h.sequenceID
  · rw [hdelivered]
    exact h.flushedBatches
  · rw [hdelivered]
    exact h.flushedItems
  · rw [hattempts]
    exact h.flushErrs
  · rw [hdelivered]
    exact h.bytesFlushed

/-- What a drain has marshaled is in its payload, or in a batch that was discarded. -/
theorem Outcome.account {f : Fill T} {loop : Loop} {tick : Tick T} {c : Counters}
    {flushes : List (Frame T × Option Error)} {batches : List (List T)}
    (h : Outcome f loop tick c flushes batches) (hcount : f.items.length = f.n) :
    (flushes.flatMap fun flush => flush.1.items) ++ batches.flatten = f.items := by
  cases h with
  | nothing hn => exact (List.length_eq_zero_iff.mp (hcount.trans hn)).symm
  | noSink hn hsink => simp
  | notCompressed hn hsink hcompressor => simp
  | failed hn hsink sent hplain err hflush => simp [Fill.frame]
  | flushed hn hsink sent hplain hflush => simp [Fill.frame]

/-! ## Runs -/

/-- One call of a run, with its journal. A call that does not return stops the run. -/
def call [Serializable T] (host : ByteOrder) :
    Batcher T × Loop → Op T → Option ((Batcher T × Loop) × List (Entry T))
  | (b, loop), .push item =>
      match b.push item with
      | .ok b' => some ((b', loop), record [(item, b.accepts item)] [.pushed item])
      | .error _ => none
  | (b, loop), .drain tick =>
      match b.drainAndFlush host loop tick with
      | .ok (b', loop', effects) =>
          some ((b', loop'), record (b.drainVerdicts tick.arrivals) effects)
      | .error _ => none

/-- A run of calls, with its journal. -/
def runCalls [Serializable T] (host : ByteOrder) (s : Batcher T × Loop) (ops : List (Op T)) :
    Option ((Batcher T × Loop) × List (Entry T)) :=
  Transition.run (call host) s ops

/-- The books of a run: the history of the queue, what has become of the items that were dequeued,
and what each counter counts. -/
structure Books (k : Nat) (log : List (T × Bool)) (effects : List (Effect T)) (b : Batcher T)
    (queue : List T) (exits : List (Exit T)) : Prop where
  ring : ∃ H, Represents k H b.ring queue
  history : History [] (acceptedItems log) exits queue
  pushes : pushes effects = log.map Prod.fst
  order : (attempted effects).Sublist (taken exits)
  account : (taken exits).length = (attempted effects).length + (truncations effects).length +
    (discards effects).flatten.length
  evicted : b.ring.evicted = UInt64.ofNat (lost exits).length
  dropped : b.dropped = UInt64.ofNat (refused log).length
  tally : Tally b.cfg effects b.counters

/-- What a ledger adds to the books of a run. -/
theorem Books.ledger {k : Nat} {log log' : List (T × Bool)} {effects : List (Effect T)}
    {b b' : Batcher T} {queue queue' : List T} {exits exits' : List (Exit T)}
    (h : Books k log effects b queue exits) (hledger : Ledger k b queue b' queue' log' exits') :
    History [] (acceptedItems (log ++ log')) (exits ++ exits') queue' ∧
      b'.ring.evicted = UInt64.ofNat (lost (exits ++ exits')).length ∧
      b'.dropped = UInt64.ofNat (refused (log ++ log')).length := by
  refine ⟨?_, ?_, ?_⟩
  · rw [acceptedItems_append]
    exact h.history.trans hledger.history
  · rw [hledger.evicted, h.evicted, QueueHistory.lost_append, List.length_append,
      UInt64.ofNat_add]
  · rw [hledger.dropped, h.dropped, refused_append, List.length_append, UInt64.ofNat_add]

/-- A push keeps the books. -/
theorem Books.push {k : Nat} {log : List (T × Bool)} {effects : List (Effect T)} {b : Batcher T}
    {queue : List T} {exits : List (Exit T)} (hk : 1 ≤ k) (hk' : k ≤ 63)
    (h : Books k log effects b queue exits) (item : T) :
    ∃ b' queue' exits', b.push item = .ok b' ∧
      Books k (log ++ [(item, b.accepts item)]) (effects ++ [.pushed item]) b' queue' exits' := by
  obtain ⟨H, hrep⟩ := h.ring
  obtain ⟨b', queue', exits', hpush, hledger, htaken, _⟩ := push_ledger hk hk' hrep item
  obtain ⟨hhistory, hevicted, hdropped⟩ := h.ledger hledger
  have hb' := push_eq hpush
  have htaken' : taken (exits ++ exits') = taken exits := by
    rw [QueueHistory.taken_append, htaken, List.append_nil]
  refine ⟨b', queue', exits ++ exits', hpush, hledger.ring, hhistory, ?_, ?_, ?_, hevicted,
    hdropped, ?_⟩
  · rw [pushes_append, h.pushes, List.map_append]
    rfl
  · rw [attempted_append, htaken']
    exact (List.append_nil _).symm ▸ h.order
  · rw [htaken', h.account, attempted_append, truncations_append, discards_append,
      List.flatten_append]
    simp [attempted, attempts, truncations, discards]
  · exact h.tally.pushed hpush

/-- A drain returns and keeps the books. -/
theorem Books.drain [Serializable T] (host : ByteOrder) {k : Nat} {log : List (T × Bool)}
    {effects : List (Effect T)} {b : Batcher T} {loop : Loop} {queue : List T}
    {exits : List (Exit T)} (hk : 1 ≤ k) (hk' : k ≤ 63) (hidle : b.Idle loop)
    (h : Books k log effects b queue exits) (tick : Tick T) :
    ∃ b' loop' new queue' exits', b.drainAndFlush host loop tick = .ok (b', loop', new) ∧
      b'.Idle loop' ∧ b.Keeps b' ∧
      Books k (log ++ b.drainVerdicts tick.arrivals) (effects ++ new) b' queue' exits' := by
  obtain ⟨H, hrep⟩ := h.ring
  obtain ⟨f, queue', exits', hfill, hfilling, _⟩ :=
    fill_ledger tick.arrivals hk hk' hrep hidle.sized
  obtain ⟨b', loop', new, hdrain, hidle', hring, _⟩ := drain_ok host hidle hfill
  have hf := (fill_ok hidle.sized hfill).1
  have hends := drain_ends hidle hfill hfilling.discards hdrain
  have hkeeps := drain_keeps hidle.sized hdrain
  have hledger := hfilling.ledger.congr hring hends.outcome.adds.dropped
  obtain ⟨hhistory, hevicted, hdropped⟩ := h.ledger hledger
  have haccount : attempted new ++ (discards new).flatten = f.items :=
    hends.outcome.account hf.count
  refine ⟨b', loop', new, queue', exits ++ exits', hdrain, hidle', hkeeps, hledger.ring, hhistory,
    ?_, ?_, ?_, hevicted, hdropped, ?_⟩
  · rw [pushes_append, h.pushes, hends.pushes, hfilling.pushes, List.map_append]
  · rw [attempted_append, QueueHistory.taken_append, hfilling.taken]
    rw [← haccount, List.append_assoc]
    exact h.order.append (List.sublist_append_left _ _)
  · have hnew := congrArg List.length haccount
    rw [List.length_append] at hnew
    rw [QueueHistory.taken_append, List.length_append, h.account, hfilling.taken, attempted_append,
      truncations_append, hends.truncations, discards_append, List.flatten_append]
    simp only [List.length_append]
    omega
  · rw [hkeeps.cfg]
    exact h.tally.drain hf hfilling.truncated hends

/-- What holds at the end of every drain of a run from a new batcher, and of every push. The
counters are compared modulo their width. -/
structure Accounted (b : Batcher T) (journal : List (Entry T)) : Prop where
  /-- the journal has a verdict for every push -/
  calls : (verdictsOf journal).map Prod.fst = pushes (effectsOf journal)
  /-- every pushed item is accounted for once -/
  items : UInt64.ofNat (pushes (effectsOf journal)).length =
    b.dropped + b.ring.evicted + b.truncated + b.flushedItems + depth b.ring +
      UInt64.ofNat (undelivered (effectsOf journal)).length
  /-- the payloads hold accepted items, each at most once and in push order -/
  order : (attempted (effectsOf journal)).Sublist (acceptedItems (verdictsOf journal))
  sequence : b.sequenceID = (b.flushedBatches + b.flushErrs).toUInt32 +
    UInt32.ofNat (compressFailures b.cfg (effectsOf journal))
  bytes : b.bytesFlushed =
    UInt64.ofNat ((delivered (effectsOf journal)).map fun frame => frame.sent.length).sum

/-- The books balance. -/
theorem Books.accounted {k : Nat} {journal : List (Entry T)} {b : Batcher T} {queue : List T}
    {exits : List (Exit T)} (hk : k ≤ 63)
    (h : Books k (verdictsOf journal) (effectsOf journal) b queue exits) :
    b.Accounted journal := by
  obtain ⟨H, hrep⟩ := h.ring
  have hdepth : depth b.ring = UInt64.ofNat queue.length := by
    rw [← hrep.toNat_depth hk, UInt64.ofNat_toNat]
  have htruncated : b.truncated = UInt64.ofNat _ := h.tally.truncated
  have hitems : b.flushedItems = UInt64.ofNat _ := h.tally.flushedItems
  have hbatches : b.flushedBatches = UInt64.ofNat _ := h.tally.flushedBatches
  have herrs : b.flushErrs = UInt64.ofNat _ := h.tally.flushErrs
  refine ⟨h.pushes.symm, ?_, ?_, ?_, h.tally.bytesFlushed⟩
  · have hverdicts := length_acceptedItems_add_refused (verdictsOf journal)
    have hhistory := h.history.length
    have haccount := h.account
    have hattempted := (attempted_perm (effectsOf journal)).length_eq
    rw [h.dropped, h.evicted, htruncated, hitems, hdepth, h.pushes, List.length_map]
    unfold undelivered
    rw [List.length_append] at hattempted
    simp only [← UInt64.ofNat_add, List.length_append]
    congr 1
    rw [List.length_nil, Nat.zero_add] at hhistory
    omega
  · have hsub := h.history.sublist
    rw [List.nil_append] at hsub
    exact h.order.trans ((List.sublist_append_left _ _).trans hsub)
  · rw [hbatches, herrs, ← UInt64.ofNat_add, UInt64.toUInt32_ofNat', ← UInt32.ofNat_add]
    have hsum := length_successes_add_failures (attempts (effectsOf journal))
    unfold delivered
    rw [hsum]
    exact h.tally.sequenceID

variable [Serializable T]

/-- Every call of a run returns and keeps the books. -/
theorem call_books {host : ByteOrder} {k : Nat} {journal : List (Entry T)} {b : Batcher T}
    {loop : Loop} {queue : List T} {exits : List (Exit T)} (hk : 1 ≤ k) (hk' : k ≤ 63)
    (hidle : b.Idle loop) (h : Books k (verdictsOf journal) (effectsOf journal) b queue exits)
    (op : Op T) :
    ∃ b' loop' new, call host (b, loop) op = some ((b', loop'), new) ∧ b'.Idle loop' ∧
      b.Keeps b' ∧ ∃ queue' exits',
        Books k (verdictsOf (journal ++ new)) (effectsOf (journal ++ new)) b' queue' exits' := by
  simp only [verdictsOf_append, effectsOf_append]
  unfold call
  cases op with
  | push item =>
      obtain ⟨b', queue', exits', hpush, hbooks⟩ := h.push hk hk' item
      have hall : b.pushAll [item] = .ok b' := by
        unfold pushAll
        rw [List.foldlM_cons, hpush]
        rfl
      refine ⟨b', loop, record [(item, b.accepts item)] [.pushed item], by simp only [hpush],
        hidle.pushAll hall, push_keeps hpush, queue', exits', ?_⟩
      · rw [verdictsOf_record, effectsOf_record]
        exact hbooks
  | drain tick =>
      obtain ⟨b', loop', new, queue', exits', hdrain, hidle', hkeeps, hbooks⟩ :=
        h.drain host hk hk' hidle tick
      refine ⟨b', loop', record (b.drainVerdicts tick.arrivals) new, by simp only [hdrain], hidle',
        hkeeps, queue', exits', ?_⟩
      rw [verdictsOf_record, effectsOf_record]
      exact hbooks

omit [Serializable T] in
/-- A new batcher has counted nothing. -/
theorem new_counters [Inhabited T] {sizeofT : Int64} {cfg : Config} {b : Batcher T}
    (hnew : Batcher.new sizeofT cfg = .ok b) : b.counters = ⟨0, 0, 0, 0, 0, 0, 0⟩ := by
  unfold Batcher.new at hnew
  simp only at hnew
  split at hnew
  · cases hnew
  · cases hnew
  · cases hnew
    rfl

omit [Serializable T] in
/-- The books of a new batcher. -/
theorem new_books [Inhabited T] {sizeofT : Int64} {cfg : Config} {b : Batcher T}
    (hnew : Batcher.new sizeofT cfg = .ok b) (hsize : b.cfg.queueSize ≠ 1) :
    ∃ k, 1 ≤ k ∧ k ≤ 63 ∧ Books k [] [] b [] [] := by
  obtain ⟨_, haccepted, hring, _⟩ := new_ok hnew
  obtain ⟨k, hk, hk', hpow⟩ := Ring.exists_size haccepted.queueSize hsize
  rw [hpow] at hring
  have hevicted : b.ring.evicted = 0 := by
    obtain ⟨_, hinit⟩ := newRingbuf_eq_some hring
    rw [hinit]
  have hzero := new_counters hnew
  refine ⟨k, hk, hk', ⟨0, .initial hk' hring⟩, .refl [], rfl, List.Sublist.refl [], rfl, hevicted,
    congrArg Counters.dropped hzero, ?_⟩
  rw [hzero]
  refine ⟨rfl, ?_, rfl, rfl, rfl, rfl⟩
  show 0 = UInt32.ofNat (0 + if b.cfg.sink = none then 0 else 0)
  rw [ite_self]
  rfl

/-- What holds of a batcher that was made as `b`, between two calls and with this journal so far. -/
def BooksInv (k : Nat) (b : Batcher T) (journal : List (Entry T)) (s : Batcher T × Loop) : Prop :=
  s.1.Idle s.2 ∧ b.Keeps s.1 ∧ ∃ queue exits,
    Books k (verdictsOf journal) (effectsOf journal) s.1 queue exits

/-- Every call returns and keeps the invariant. -/
theorem call_booksInv {k : Nat} (hk : 1 ≤ k) (hk' : k ≤ 63) {host : ByteOrder} {b : Batcher T}
    {journal : List (Entry T)} {s : Batcher T × Loop} (h : BooksInv k b journal s) (op : Op T) :
    ∃ s' new, call host s op = some (s', new) ∧ BooksInv k b (journal ++ new) s' := by
  obtain ⟨hidle, hkeeps, queue, exits, hbooks⟩ := h
  obtain ⟨b₂, loop₂, new, hcall, hidle', hkeeps', hbooks'⟩ := call_books hk hk' hidle hbooks op
  exact ⟨(b₂, loop₂), new, hcall, hidle', hkeeps.trans hkeeps', hbooks'⟩

/-- Every run of a new batcher returns, keeps the books and leaves the batcher idle. -/
theorem run_books [Inhabited T] (host : ByteOrder) {sizeofT : Int64} {cfg : Config}
    {b : Batcher T} (hnew : Batcher.new sizeofT cfg = .ok b) (hsize : 2 ≤ b.cfg.queueSize)
    (ops : List (Op T)) :
    ∃ b' loop' journal, runCalls host (b, Loop.initial) ops = some ((b', loop'), journal) ∧
      b'.Idle loop' ∧ b.Keeps b' ∧ ∃ k queue exits, k ≤ 63 ∧
        Books k (verdictsOf journal) (effectsOf journal) b' queue exits := by
  have hne : b.cfg.queueSize ≠ 1 := by
    intro hone
    rw [hone] at hsize
    exact absurd hsize (by decide)
  obtain ⟨k, hk, hk', hbooks⟩ := new_books hnew hne
  have hinit : BooksInv k b [] (b, Loop.initial) :=
    ⟨new_idle hnew, ⟨rfl, rfl, rfl, rfl, rfl, rfl⟩, [], [], hbooks⟩
  obtain ⟨⟨b', loop'⟩, journal, hrun, hidle, hkeeps, queue, exits, hend⟩ :=
    Transition.run_total (I := fun _ journal s => BooksInv k b journal s)
      (fun _ _ _ op h => call_booksInv hk hk' h op) hinit ops
  exact ⟨b', loop', journal, hrun, hidle, hkeeps, k, queue, exits, hk', hend⟩

/-- For every configuration that `New` accepts with a queue of at least two slots and without a
flush timeout, and every run of pushes and drains, whatever the items, the compressor and the
transport do: every call returns, and the batcher is accounted for after it. -/
theorem accounting [Inhabited T] (host : ByteOrder) {sizeofT : Int64} {cfg : Config}
    {b : Batcher T} (hnew : Batcher.new sizeofT cfg = .ok b) (hsize : 2 ≤ b.cfg.queueSize)
    (_hflush : b.cfg.flushTimeout = 0) (ops : List (Op T)) :
    ∃ b' loop' journal, runCalls host (b, Loop.initial) ops = some ((b', loop'), journal) ∧
      b'.cfg = b.cfg ∧ b'.Accounted journal := by
  obtain ⟨b', loop', journal, hrun, _, hkeeps, k, queue, exits, hk', hbooks⟩ :=
    run_books host hnew hsize ops
  exact ⟨b', loop', journal, hrun, hkeeps.cfg, hbooks.accounted hk'⟩

/-- Five pushes on four slots, an item without an encoding, and a flush that fails. -/
def mixedOps : List (Op (List UInt8)) :=
  [.push [1], .push [2], .push [3], .push [], .push [5], .drain (plainTick [] none),
    .drain (plainTick [[6], [7]] (some .flushTimeout)), .push [8]]

/-- One item is refused, one truncated, three are delivered, two are in the frame that failed and
one is still queued. -/
theorem accounting_mixed : ∃ b b' : Batcher (List UInt8), ∃ loop' journal,
    Batcher.new 24 shortConfig = .ok b ∧
    runCalls .little (b, Loop.initial) mixedOps = some ((b', loop'), journal) ∧
    b'.Accounted journal ∧ (pushes (effectsOf journal)).length = 8 ∧ b'.dropped = 1 ∧
    b'.truncated = 1 ∧ b'.flushedItems = 3 ∧ depth b'.ring = 1 ∧
    undelivered (effectsOf journal) = [[6], [7]] := by
  obtain ⟨b, ⟨⟨b', loop'⟩, journal⟩, hnew, hrun, hcfg, htest⟩ := exists_of_testNew shortConfig
    (fun b => runCalls .little (b, Loop.initial) mixedOps)
    (fun _ ((b, _), journal) => (pushes (effectsOf journal)).length == 8 && b.dropped == 1 &&
      b.truncated == 1 && b.flushedItems == 3 && depth b.ring == 1 &&
      undelivered (effectsOf journal) == [[6], [7]]) (by decide +kernel)
  simp only [Bool.and_eq_true, beq_iff_eq] at htest
  obtain ⟨⟨⟨⟨⟨hpushes, hdropped⟩, htruncated⟩, hitems⟩, hdepth⟩, hlost⟩ := htest
  obtain ⟨_, _, _, hrun', _, haccounted⟩ := accounting .little hnew
    (by rw [hcfg]; decide) (by rw [hcfg]; rfl) mixedOps
  cases hrun.symm.trans hrun'
  exact ⟨b, b', loop', journal, hnew, hrun, haccounted, hpushes, hdropped, htruncated, hitems,
    hdepth, hlost⟩

end Batcher

end TickBatch
