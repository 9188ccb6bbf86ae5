import TickBatch.Engine.Idle
import TickBatch.Lib.QueueHistory

/-!
# What pushes and drains do to the queue

While a drain is running, producers push, and a push may be refused or evict the oldest item.
`Ledger` says what a stretch of such calls does to a represented ring: the history of its queue,
with the verdict of every push, and what the stretch adds to the counters of refused and evicted
items. `fill_ledger` is the ledger of the marshaling loop. Every item that the loop has dequeued is
in the frame, except for at most one that was truncated.
-/

namespace TickBatch

open QueueHistory (Exit History taken lost)

variable {T : Type}

/-! ## Verdicts of pushes -/

/-- The items that were accepted, from a log of pushes with their verdicts. -/
def acceptedItems (log : List (T × Bool)) : List T :=
  log.filterMap fun (item, accepted) => if accepted then some item else none

/-- The items that were refused. -/
def refused (log : List (T × Bool)) : List T :=
  log.filterMap fun (item, accepted) => if accepted then none else some item

@[simp] theorem acceptedItems_append (log log' : List (T × Bool)) :
    acceptedItems (log ++ log') = acceptedItems log ++ acceptedItems log' :=
  List.filterMap_append

@[simp] theorem refused_append (log log' : List (T × Bool)) :
    refused (log ++ log') = refused log ++ refused log' := List.filterMap_append

/-- Every push is accepted or refused. -/
theorem length_acceptedItems_add_refused (log : List (T × Bool)) :
    (acceptedItems log).length + (refused log).length = log.length := by
  induction log with
  | nil => rfl
  | cons entry log ih =>
      obtain ⟨item, accepted⟩ := entry
      cases accepted with
      | true =>
          show (acceptedItems log).length + 1 + (refused log).length = log.length + 1
          omega
      | false =>
          show (acceptedItems log).length + ((refused log).length + 1) = log.length + 1
          omega

/-- The items that producers have pushed during a drain. -/
def pushes (effects : List (Effect T)) : List T :=
  effects.filterMap fun
    | .pushed item => some item
    | _ => none

@[simp] theorem pushes_append (es es' : List (Effect T)) :
    pushes (es ++ es') = pushes es ++ pushes es' := List.filterMap_append

@[simp] theorem pushes_map_pushed (items : List T) : pushes (items.map .pushed) = items := by
  simp [pushes, List.filterMap_map]

@[simp] theorem truncations_map_pushed (items : List T) :
    truncations (items.map .pushed) = [] := by
  simp [truncations, List.filterMap_map]

/-- The batches that never reached the flush. -/
def discards (effects : List (Effect T)) : List (List T) :=
  effects.filterMap fun
    | .discarded items => some items
    | _ => none

@[simp] theorem discards_append (es es' : List (Effect T)) :
    discards (es ++ es') = discards es ++ discards es' := List.filterMap_append

@[simp] theorem discards_map_pushed (items : List T) : discards (items.map .pushed) = [] := by
  simp [discards, List.filterMap_map]

/-! ## The queue -/

namespace Ring

/-- A push on the abstract queue: the item enters unless it is refused, and the oldest item is lost
if it has to make room. The queue never gets shorter. -/
theorem Queue.push_history {cap : Nat} (hcap : 0 < cap) (q : Queue T) (item : T)
    (policy : BackpressurePolicy) :
    ∃ exits, History q.items (acceptedItems [(item, (q.push cap item policy).2)]) exits
        (q.push cap item policy).1.items ∧
      taken exits = [] ∧ (q.push cap item policy).1.evicted = q.evicted + (lost exits).length ∧
      q.items.length ≤ (q.push cap item policy).1.items.length := by
  unfold Queue.push
  by_cases hroom : q.items.length < cap
  · rw [if_pos hroom]
    refine ⟨[], .enter q.items item, rfl, rfl, ?_⟩
    simp only [List.length_append]
    omega
  rw [if_neg hroom]
  by_cases hpolicy : policy = .dropNewest
  · rw [if_pos hpolicy]
    exact ⟨[], .refl q.items, rfl, rfl, le_rfl⟩
  · rw [if_neg hpolicy]
    cases hitems : q.items with
    | nil =>
        rw [hitems] at hroom
        exact absurd hcap hroom
    | cons oldest rest =>
        refine ⟨[.lost oldest], (History.leave (.lost oldest) rest).trans (.enter rest item), rfl,
          rfl, ?_⟩
        simp only [List.tail_cons, List.length_append, List.length_cons, List.length_nil]
        omega

end Ring

namespace Batcher

open TickBatch.Ring (Represents contents depth)

/-- Whether a push of the item is accepted. -/
def accepts (b : Batcher T) (item : T) : Bool :=
  match b.ring.push item b.cfg.backpressure with
  | some (_, accepted) => accepted
  | none => false

/-- The verdicts of several pushes. -/
def verdicts : Batcher T → List T → List (T × Bool)
  | _, [] => []
  | b, item :: items =>
      (item, b.accepts item) ::
        match b.push item with
        | .ok b' => verdicts b' items
        | .error _ => []

/-- What a stretch of pushes and dequeues does to a ring that represents `queue` at its beginning
and `queue'` at its end. -/
structure Ledger (k : Nat) (b : Batcher T) (queue : List T) (b' : Batcher T) (queue' : List T)
    (log : List (T × Bool)) (exits : List (Exit T)) : Prop where
  ring : ∃ H, Represents k H b'.ring queue'
  history : History queue (acceptedItems log) exits queue'
  evicted : b'.ring.evicted = b.ring.evicted + UInt64.ofNat (lost exits).length
  dropped : b'.dropped = b.dropped + UInt64.ofNat (refused log).length

section Calls

variable {k H : Nat} {b b₁ b' : Batcher T} {queue queue₁ queue' : List T}
  {log log' : List (T × Bool)} {exits exits' : List (Exit T)}

theorem Ledger.refl (h : Represents k H b.ring queue) : Ledger k b queue b queue [] [] :=
  ⟨⟨H, h⟩, .refl queue, (UInt64.add_zero _).symm, (UInt64.add_zero _).symm⟩

theorem Ledger.trans (h : Ledger k b queue b₁ queue₁ log exits)
    (h' : Ledger k b₁ queue₁ b' queue' log' exits') :
    Ledger k b queue b' queue' (log ++ log') (exits ++ exits') := by
  refine ⟨h'.ring, ?_, ?_, ?_⟩
  · rw [acceptedItems_append]
    exact h.history.trans h'.history
  · rw [h'.evicted, h.evicted, QueueHistory.lost_append, List.length_append, UInt64.ofNat_add,
      UInt64.add_assoc]
  · rw [h'.dropped, h.dropped, refused_append, List.length_append, UInt64.ofNat_add,
      UInt64.add_assoc]

/-- The ledger reads only the ring and the drop counter. -/
theorem Ledger.congr (h : Ledger k b queue b₁ queue' log exits) (hring : b'.ring = b₁.ring)
    (hdropped : b'.dropped = b₁.dropped) : Ledger k b queue b' queue' log exits := by
  refine ⟨?_, h.history, ?_, ?_⟩
  · rw [hring]
    exact h.ring
  · rw [hring]
    exact h.evicted
  · rw [hdropped]
    exact h.dropped

/-- The ledger of one push. -/
theorem push_ledger (hk : 1 ≤ k) (hk' : k ≤ 63) (h : Represents k H b.ring queue) (item : T) :
    ∃ b' queue' exits, b.push item = .ok b' ∧
      Ledger k b queue b' queue' [(item, b.accepts item)] exits ∧ taken exits = [] ∧
      queue.length ≤ queue'.length := by
  obtain ⟨r', H', hpush, hrep, hev⟩ := Ring.push_refines hk hk'
    (q := { items := queue, evicted := b.ring.evicted.toNat }) h (UInt64.ofNat_toNat).symm item
    b.cfg.backpressure
  obtain ⟨exits, hhistory, htaken, hcount, hlength⟩ := Ring.Queue.push_history (Nat.two_pow_pos k)
    { items := queue, evicted := b.ring.evicted.toNat } item b.cfg.backpressure
  rw [hcount, UInt64.ofNat_add, UInt64.ofNat_toNat] at hev
  generalize Ring.Queue.push (2 ^ k) _ item b.cfg.backpressure = out at hpush hrep hhistory hlength
  obtain ⟨q', accepted⟩ := out
  have haccepts : b.accepts item = accepted := by
    unfold accepts
    rw [hpush]
  rw [haccepts]
  unfold push
  rw [hpush]
  cases accepted with
  | true =>
      exact ⟨_, q'.items, exits, rfl, ⟨⟨H', hrep⟩, hhistory, hev, by simp [refused]⟩, htaken,
        hlength⟩
  | false =>
      exact ⟨_, q'.items, exits, rfl, ⟨⟨H', hrep⟩, hhistory, hev, by simp [refused]⟩, htaken,
        hlength⟩

/-- The ledger of several pushes. -/
theorem pushAll_ledger (hk : 1 ≤ k) (hk' : k ≤ 63) (items : List T)
    (h : Represents k H b.ring queue) :
    ∃ b' queue' exits, b.pushAll items = .ok b' ∧
      Ledger k b queue b' queue' (b.verdicts items) exits ∧ taken exits = [] ∧
      queue.length ≤ queue'.length := by
  induction items generalizing b H queue with
  | nil => exact ⟨b, queue, [], rfl, .refl h, rfl, le_rfl⟩
  | cons item items ih =>
      obtain ⟨b₁, queue₁, exits, hpush, hfirst, htaken, hlength⟩ := push_ledger hk hk' h item
      obtain ⟨H₁, hrep⟩ := hfirst.ring
      obtain ⟨b', queue', exits', hrest, hledger, htaken', hlength'⟩ := ih hrep
      refine ⟨b', queue', exits ++ exits', ?_, ?_, ?_, hlength.trans hlength'⟩
      · unfold pushAll
        rw [List.foldlM_cons, hpush]
        exact hrest
      · have hboth := hfirst.trans hledger
        unfold verdicts
        rw [hpush]
        exact hboth
      · rw [QueueHistory.taken_append, htaken, htaken']
        rfl

/-- The ledger of a dequeue. -/
theorem take_ledger {item : T} (hk : k ≤ 63) (h : Represents k H b.ring (item :: queue)) :
    ∃ ring, b.ring.take = some (ring, some item) ∧
      Ledger k b (item :: queue) { b with ring } queue [] [.taken item] := by
  obtain ⟨ring, htake, hrep, hev⟩ := h.take_cons hk
  refine ⟨ring, htake, ⟨H + 1, hrep⟩, .leave (.taken item) queue, ?_, (UInt64.add_zero _).symm⟩
  show ring.evicted = b.ring.evicted + 0
  rw [hev, UInt64.add_zero]

end Calls

/-! ## The marshaling loop -/

/-- What the marshaling loop of a drain that started with `b` has done so far. -/
structure Filling (k : Nat) (b : Batcher T) (queue : List T) (f : Fill T) (queue' : List T)
    (log : List (T × Bool)) (exits : List (Exit T)) : Prop where
  ledger : Ledger k b queue f.b queue' log exits
  taken : taken exits = f.items ++ truncations f.effects
  truncated : f.b.truncated = b.truncated + UInt64.ofNat (truncations f.effects).length
  pushes : pushes f.effects = log.map Prod.fst
  discards : discards f.effects = []

/-- A log of pushes that have all returned names the items pushed. -/
theorem map_fst_verdicts {b b' : Batcher T} {items : List T} (h : b.pushAll items = .ok b') :
    (b.verdicts items).map Prod.fst = items := by
  unfold pushAll at h
  induction items generalizing b with
  | nil => rfl
  | cons item items ih =>
      rw [List.foldlM_cons] at h
      obtain ⟨b₁, hfirst, hrest⟩ := bind_eq_ok h
      unfold verdicts
      rw [hfirst, List.map_cons, ih hrest]

section Steps

variable {k : Nat} {b b₁ : Batcher T} {queue queue₁ queue₂ : List T} {f : Fill T}
  {log : List (T × Bool)} {exits exits' : List (Exit T)} {item : T} {ring : Ringbuf T}

/-- Producers push some items. -/
theorem Filling.arrive {items : List T} (h : Filling k b queue f queue₁ log exits)
    (hpush : f.b.pushAll items = .ok b₁)
    (hledger : Ledger k f.b queue₁ b₁ queue₂ (f.b.verdicts items) exits')
    (htaken : QueueHistory.taken exits' = []) :
    Filling k b queue (f.arrive b₁ items) queue₂ (log ++ f.b.verdicts items) (exits ++ exits') := by
  have hquiet : truncations (f.arrive b₁ items).effects = truncations f.effects := by
    rw [Fill.arrive, truncations_append, truncations_map_pushed, List.append_nil]
  refine ⟨h.ledger.trans hledger, ?_, ?_, ?_, ?_⟩
  · rw [QueueHistory.taken_append, htaken, List.append_nil, hquiet]
    exact h.taken
  · rw [hquiet, ← h.truncated]
    show b₁.truncated = f.b.truncated
    rw [pushAll_eq hpush]
  · rw [Fill.arrive, pushes_append, pushes_map_pushed, h.pushes, List.map_append,
      map_fst_verdicts hpush]
  · rw [Fill.arrive, discards_append, discards_map_pushed, h.discards, List.append_nil]

/-- The loop takes an item. -/
theorem Filling.accept {written : Int} {buf : List UInt8}
    (h : Filling k b queue f (item :: queue₁) log exits)
    (hledger : Ledger k f.b (item :: queue₁) { f.b with ring } queue₁ [] [.taken item])
    (hquiet : truncations f.effects = []) :
    Filling k b queue (f.accept ring item written buf) queue₁ log (exits ++ [.taken item]) := by
  have hboth := h.ledger.trans hledger
  rw [List.append_nil] at hboth
  refine ⟨hboth.congr rfl rfl, ?_, h.truncated, h.pushes, h.discards⟩
  rw [QueueHistory.taken_append, h.taken]
  show _ = f.items ++ [item] ++ truncations f.effects
  rw [hquiet, List.append_nil, List.append_nil, QueueHistory.taken_singleton_taken]

/-- The loop takes an item and truncates it. -/
theorem Filling.cut {buf : List UInt8} (h : Filling k b queue f (item :: queue₁) log exits)
    (hledger : Ledger k f.b (item :: queue₁) { f.b with ring } queue₁ [] [.taken item]) :
    Filling k b queue (f.cut ring item buf) queue₁ log (exits ++ [.taken item]) := by
  have hboth := h.ledger.trans hledger
  rw [List.append_nil] at hboth
  refine ⟨hboth.congr rfl rfl, ?_, ?_, ?_, ?_⟩
  · rw [QueueHistory.taken_append, h.taken, Fill.cut, truncations_append, List.append_assoc]
    rfl
  · rw [Fill.cut, truncations_append, List.length_append, UInt64.ofNat_add, ← UInt64.add_assoc,
      ← h.truncated]
    rfl
  · rw [Fill.cut, pushes_append, h.pushes]
    exact List.append_nil _
  · rw [Fill.cut, discards_append, h.discards]
    rfl

end Steps

variable [Serializable T]

/-- The verdicts of the pushes that fall into the marshaling loop. -/
def fillVerdicts (arrivals : Nat → List T) : Nat → Fill T → List (T × Bool)
  | 0, _ => []
  | left + 1, f =>
      if (f.b.byteBuffer.drop f.offset).length < f.b.cfg.maxItemSize.toInt then []
      else
        f.b.verdicts (arrivals f.n) ++
          match fillLoop arrivals 1 f with
          -- the loop goes on as long as it counts the items it takes
          | .ok f' => if f'.n = f.n + 1 then fillVerdicts arrivals left f' else []
          | .error _ => []

/-- The ledger of the marshaling loop. It returns whatever producers push in between, and truncates
at most one item. -/
theorem fillLoop_ledger {k : Nat} {b : Batcher T} {arrivals : Nat → List T} {left : Nat}
    {queue queue₁ : List T} {f : Fill T} {log : List (T × Bool)} {exits : List (Exit T)}
    (hk : 1 ≤ k) (hk' : k ≤ 63) (h : Filling k b queue f queue₁ log exits)
    (hhi : f.offset ≤ f.b.byteBuffer.length) (hquiet : truncations f.effects = []) :
    ∃ f' queue' exits', fillLoop arrivals left f = .ok f' ∧
      Filling k b queue f' queue' (log ++ fillVerdicts arrivals left f) exits' ∧
      (truncations f'.effects).length ≤ 1 := by
  induction left generalizing f queue₁ log exits with
  | zero =>
      refine ⟨f, queue₁, exits, rfl, ?_, by simp [hquiet]⟩
      rw [fillVerdicts, List.append_nil]
      exact h
  | succ left ih =>
      obtain ⟨H, hrep⟩ := h.ledger.ring
      obtain ⟨b₁, queue₂, evictions, hpush, hledger, htaken, _⟩ :=
        pushAll_ledger hk hk' (arrivals f.n) hrep
      have harrive := h.arrive hpush hledger htaken
      obtain ⟨H₁, hrep₁⟩ := hledger.ring
      have hquiet₁ : truncations (f.arrive b₁ (arrivals f.n)).effects = [] := by
        rw [Fill.arrive, truncations_append, hquiet, truncations_map_pushed]
        rfl
      unfold fillVerdicts
      by_cases hroom : (f.b.byteBuffer.drop f.offset).length < f.b.cfg.maxItemSize.toInt
      · rw [if_pos hroom, List.append_nil]
        exact ⟨f, queue₁, exits, fillLoop_full hhi hroom _, h, by simp [hquiet]⟩
      rw [if_neg hroom]
      cases queue₂ with
      | nil =>
          have hloop := fillLoop_empty hhi hroom hpush (hrep₁.take_nil hk')
          refine ⟨_, [], exits ++ evictions, hloop left, ?_,
            (congrArg List.length hquiet₁).le.trans zero_le_one⟩
          simp only [hloop 0]
          rw [if_neg (by simp [Fill.arrive]), List.append_nil]
          exact harrive
      | cons item rest =>
          obtain ⟨ring, htake, hdequeue⟩ := take_ledger hk' hrep₁
          cases fillLoop_takes hhi hroom hpush htake with
          | cut written buf hm hbad hloop =>
              refine ⟨_, rest, exits ++ evictions ++ [.taken item], hloop left, ?_, ?_⟩
              · simp only [hloop 0]
                rw [if_neg (by simp [Fill.cut, Fill.arrive]), List.append_nil]
                exact harrive.cut hdequeue
              · rw [Fill.cut, truncations_append, hquiet₁]
                exact le_rfl
          | accept written buf hm hgood hhi₁ hloop =>
              obtain ⟨f', queue', exits', hrun, hfilling, hone⟩ :=
                ih (harrive.accept hdequeue hquiet₁) hhi₁ hquiet₁
              refine ⟨f', queue', exits', (hloop left).trans hrun, ?_, hone⟩
              have hnext : fillLoop arrivals 1 f =
                  .ok ((f.arrive b₁ (arrivals f.n)).accept ring item written buf) := hloop 0
              simp only [hnext]
              rw [if_pos (by simp [Fill.accept, Fill.arrive]), ← List.append_assoc]
              exact hfilling

/-- The verdicts of the pushes that fall into a drain. -/
def drainVerdicts (b : Batcher T) (arrivals : Nat → List T) : List (T × Bool) :=
  fillVerdicts arrivals 65535 { b, offset := headerSize, n := 0, items := [], effects := [] }

/-- The ledger of the marshaling loop of a drain. -/
theorem fill_ledger {k H : Nat} {b : Batcher T} {queue : List T} (arrivals : Nat → List T)
    (hk : 1 ≤ k) (hk' : k ≤ 63) (hrep : Represents k H b.ring queue) (hs : b.Sized) :
    ∃ f queue' exits, b.fill arrivals = .ok f ∧
      Filling k b queue f queue' (b.drainVerdicts arrivals) exits ∧
      (truncations f.effects).length ≤ 1 := by
  have hstart : Filling k b queue { b, offset := headerSize, n := 0, items := [], effects := [] }
      queue [] [] := ⟨.refl hrep, rfl, (UInt64.add_zero _).symm, rfl, rfl⟩
  exact fillLoop_ledger hk hk' hstart hs.header rfl

/-! ## The body of the frame -/

/-- What a successful `popMarshal` reports is what `Marshal` did. -/
theorem popMarshal_marshal {r r' : Ringbuf T} {buf : List UInt8} {m : Ringbuf.Marshaled T}
    (h : r.popMarshal buf = some (r', some m)) :
    Serializable.marshal m.item buf = (m.written, m.buf) := by
  simp only [Ringbuf.popMarshal, bind, Option.bind_eq_some_iff, pure, Option.some.injEq,
    Prod.mk.injEq, Option.map_eq_some_iff] at h
  obtain ⟨_, _, _, item, _, rfl⟩ := h
  rfl

/-- The loop has taken the items `new` and appended the byte ranges that their `Marshal` calls
reported. -/
structure Marshals (f f' : Fill T) (new : List T) : Prop where
  items : f'.items = f.items ++ new
  count : (encodings (f.b.byteBuffer.drop f.offset) new).length = new.length
  body : f'.body = f.body ++ (encodings (f.b.byteBuffer.drop f.offset) new).flatten

/-- The loop stops. -/
theorem Marshals.stop {f f' : Fill T} (hitems : f'.items = f.items) (hbody : f'.body = f.body) :
    Marshals f f' [] :=
  ⟨by rw [hitems, List.append_nil], rfl, by rw [hbody]; exact (List.append_nil _).symm⟩

/-- The loop takes an item and goes on. -/
theorem Marshals.accept {f g f' : Fill T} {item : T} {ring : Ringbuf T} {written : Int}
    {buf : List UInt8} {new : List T} (hlo : headerSize ≤ f.offset)
    (hhi : f.offset ≤ f.b.byteBuffer.length) (hbuffer : g.b.byteBuffer = f.b.byteBuffer)
    (hoffset : g.offset = f.offset) (hitems : g.items = f.items)
    (hm : Serializable.marshal item (f.b.byteBuffer.drop f.offset) = (written, buf))
    (hgood : ¬ (written ≤ 0 ∨ written > (f.b.byteBuffer.drop f.offset).length))
    (h : Marshals (g.accept ring item written buf) f' new) : Marshals f f' (item :: new) := by
  have hbody : g.body = f.body := by rw [Fill.body, hbuffer, hoffset]; rfl
  have hcount := h.count
  have happend := h.body
  rw [Fill.accept_free (by rw [hbuffer, hoffset]; exact hhi)] at hcount happend
  rw [Fill.accept_body (by rw [hoffset]; exact hlo) (by rw [hbuffer, hoffset]; exact hhi),
    hbody] at happend
  have hencodings : encodings (f.b.byteBuffer.drop f.offset) (item :: new) =
      buf.take written.toNat :: encodings (buf.drop written.toNat) new := by
    rw [encodings, hm]
    exact if_neg hgood
  refine ⟨?_, ?_, ?_⟩
  · rw [h.items]
    show g.items ++ [item] ++ new = _
    rw [hitems, List.append_assoc]
    rfl
  · rw [hencodings, List.length_cons, hcount, List.length_cons]
  · rw [happend, hencodings, List.flatten_cons, List.append_assoc]

/-- The marshaling loop appends the byte ranges that its `Marshal` calls report. -/
theorem fillLoop_marshals {arrivals : Nat → List T} {left : Nat} {f f' : Fill T}
    (hlo : headerSize ≤ f.offset) (hhi : f.offset ≤ f.b.byteBuffer.length)
    (h : fillLoop arrivals left f = .ok f') : ∃ new, Marshals f f' new := by
  induction left generalizing f with
  | zero =>
      cases h
      exact ⟨[], .stop rfl rfl⟩
  | succ left ih =>
      obtain rfl | ⟨b₁, buf, r, out, hpush, hbuf, hpop, hout⟩ := fillLoop_succ h
      · exact ⟨[], .stop rfl rfl⟩
      have hbuffer : b₁.byteBuffer = f.b.byteBuffer := by rw [pushAll_eq hpush]
      rw [hbuffer, sliceFrom_ok hhi] at hbuf
      cases out with
      | none =>
          simp only at hout
          subst hout
          exact ⟨[], .stop rfl (by simp only [Fill.body, hbuffer])⟩
      | some m =>
          have hm := popMarshal_marshal hpop
          have hlen := popMarshal_length hpop
          rw [← Except.ok.inj hbuf] at hm hlen
          simp only [hbuffer] at hout
          split at hout
          · subst hout
            refine ⟨[], .stop rfl ?_⟩
            simp only [Fill.body]
            rw [List.take_left' (length_take_offset hhi)]
          · rename_i hgood
            have hgood : ¬ (m.written ≤ 0 ∨
                m.written > (f.b.byteBuffer.drop f.offset).length) := by
              rw [List.length_drop]
              omega
            let g := f.arrive b₁ (arrivals f.n)
            have hhi' : g.offset ≤ g.b.byteBuffer.length := hhi.trans_eq (by rw [← hbuffer]; rfl)
            have hhi₁ : (g.accept r m.item m.written m.buf).offset ≤
                (g.accept r m.item m.written m.buf).b.byteBuffer.length :=
              Fill.accept_offset hhi' (by rw [hlen, ← hbuffer]; rfl) (by omega)
            rw [← hbuffer] at hout
            obtain ⟨new, hnew⟩ := ih (Nat.le_add_right_of_le hlo) hhi₁ hout
            exact ⟨m.item :: new, .accept (g := g) hlo hhi hbuffer rfl rfl hm hgood hnew⟩

end Batcher

end TickBatch
