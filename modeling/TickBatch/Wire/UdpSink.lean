import Mathlib.Data.List.Sort
import TickBatch.Wire.EndToEnd

/-!
# Frames as datagrams

`UDPSink.Flush` sends each payload as one datagram, and the network may lose datagrams, deliver them
in any order and more than once. Without delta encoding a frame can be read by itself, and its
sequence number says where it belongs: a receiver that drops what it has already seen and sorts what
is left by sequence number gets encodings of pushed items, each at most once and in push order, as
long as the sequence numbers have not wrapped around (`udp_end_to_end`).
-/

namespace TickBatch

/-- A datagram socket, as far as writing goes: the datagrams it has sent, and the write deadline. -/
structure UDPConn where
  datagrams : List (List UInt8)
  writeDeadline : Option Int64

/-- The sink. -/
structure UDPSink where
  conn : UDPConn

/-- A call of `Flush`: the payload, the deadline of its context, whether the socket sends the
datagram, and the error that the write reports. -/
structure UdpFlush where
  payload : List UInt8
  deadline : Option Int64
  sent : Bool
  err : Option Error
  sent_of_nil : err = none → sent = true

namespace UDPSink

/-- A sink on a socket that has just been dialled. -/
def new : UDPSink := { conn := { datagrams := [], writeDeadline := none } }

/-- Apply the deadline of the context, if it has one. -/
def setWriteDeadline (u : UDPSink) (deadline : Option Int64) : UDPSink :=
  match deadline with
  | some dl => { u with conn := { u.conn with writeDeadline := some dl } }
  | none => u

/-- Clear the deadline again, if the context has one. -/
def clearWriteDeadline (u : UDPSink) (deadline : Option Int64) : UDPSink :=
  match deadline with
  | some _ => { u with conn := { u.conn with writeDeadline := none } }
  | none => u

/-- Write a payload to the socket, which sends it as one datagram or not at all. -/
def write (u : UDPSink) (call : UdpFlush) : UDPSink :=
  if call.sent then
    { u with conn := { u.conn with datagrams := u.conn.datagrams ++ [call.payload] } }
  else u

/-- Transmit a payload as one datagram. The deadline of the context is applied to the write and
cleared afterwards. -/
def flush (u : UDPSink) (call : UdpFlush) : UDPSink × Option Error :=
  let u := (u.setWriteDeadline call.deadline).write call
  (u.clearWriteDeadline call.deadline, call.err)

/-- Successive calls of `Flush` on one sink, with the payload and the result of each. -/
def flushes : UDPSink → List UdpFlush → UDPSink × List (List UInt8 × Option Error)
  | u, [] => (u, [])
  | u, call :: calls =>
      let (u, err) := u.flush call
      let (u, results) := flushes u calls
      (u, (call.payload, err) :: results)

/-- What one call adds to the datagrams. -/
theorem flush_datagrams (u : UDPSink) (call : UdpFlush) :
    (u.flush call).1.conn.datagrams =
      u.conn.datagrams ++ if call.sent then [call.payload] else [] := by
  unfold flush write setWriteDeadline clearWriteDeadline
  cases call.deadline <;> cases call.sent <;> simp

/-- Only payloads that were flushed are sent. -/
theorem mem_results {u : UDPSink} {calls : List UdpFlush} {datagram : List UInt8}
    (h : datagram ∈ (u.flushes calls).1.conn.datagrams) :
    datagram ∈ u.conn.datagrams ∨ datagram ∈ (u.flushes calls).2.map Prod.fst := by
  induction calls generalizing u with
  | nil => exact Or.inl h
  | cons call calls ih =>
      have hrest : datagram ∈ (u.flush call).1.conn.datagrams ∨
          datagram ∈ ((u.flush call).1.flushes calls).2.map Prod.fst := ih h
      rw [flush_datagrams, List.mem_append] at hrest
      rcases hrest with (hold | hsent) | hlater
      · exact Or.inl hold
      · split at hsent
        · rw [List.mem_singleton.mp hsent]
          exact Or.inr (List.mem_cons_self ..)
        · cases hsent
      · exact Or.inr (List.mem_cons_of_mem _ hlater)

end UDPSink

namespace Engine

open Batcher (Encodes Inverts unpack)

variable {T : Type}

/-- The sink of the run is a `UDPSink`: its calls have returned what the calls `writes` of
`UDPSink.Flush` return for these bytes. -/
def OverUdp (writes : List UdpFlush) (events : List (Event T)) : Prop :=
  (UDPSink.new.flushes writes).2 = (returns events).map fun r => (r.1.2, r.2)

instance (writes : List UdpFlush) (events : List (Event T)) : Decidable (OverUdp writes events) :=
  inferInstanceAs (Decidable (_ = _))

/-- The sequence number of the first is below that of the second. -/
def Earlier (p q : Codec.Header × List UInt8) : Prop := p.1.seq < q.1.seq

instance : Std.Antisymm Earlier :=
  ⟨fun _ _ h h' => absurd h' (UInt32.not_lt.mpr (UInt32.le_of_lt h))⟩

instance : Std.Irrefl Earlier := ⟨fun p => UInt32.lt_irrefl p.1.seq⟩

/-- The sequence numbers that have been given out increase until they wrap around. -/
theorem pairwise_numbers {n : Nat} (h : n < 2 ^ 32) :
    ((List.range' 1 n).map UInt32.ofNat).Pairwise (· < ·) := by
  rw [List.pairwise_map]
  refine List.Pairwise.imp_of_mem (fun {a b} ha hb hlt => ?_) List.pairwise_lt_range'
  rw [List.mem_range'_1] at ha hb
  rw [UInt32.lt_iff_toNat_lt, UInt32.toNat_ofNat', UInt32.toNat_ofNat', Nat.mod_eq_of_lt (by omega),
    Nat.mod_eq_of_lt (by omega)]
  exact hlt

section Runs

variable [Serializable T] [Inhabited T] {encode : T → List UInt8} {host : ByteOrder}
  {sizeofT : Int64} {cfg : Config} {b : Batcher T} {e : Engine T}
  {actions : List (Action T)} {events : List (Event T)} {writes : List UdpFlush}
  {decompress : List UInt8 → List UInt8}

/-- A datagram that the sink has sent is a frame of the run. -/
theorem exists_frame_of_datagram (hnew : Batcher.new sizeofT cfg = .ok b)
    (htimeout : 0 ≤ b.cfg.flushTimeout) (hrun : run host (initial b) actions = some (e, events))
    (hsink : OverUdp writes events) {datagram : List UInt8}
    (h : datagram ∈ (UDPSink.new.flushes writes).1.conn.datagrams) :
    ∃ frame ∈ assembled events e, datagram = frame.sent := by
  obtain ⟨_, hpaired, honce, _⟩ := run_ordered hnew hrun
  rcases UDPSink.mem_results h with hnone | hsent
  · cases hnone
  rw [hsink, List.map_map] at hsent
  obtain ⟨r, hr, rfl⟩ := List.mem_map.mp hsent
  refine ⟨r.1.1, honce.calls_sublist.subset ?_, run_returns hnew htimeout hrun r hr⟩
  rw [hpaired, List.map_append, List.map_map]
  exact List.mem_append_left _ (List.mem_map.mpr ⟨r, hr, rfl⟩)

/-- For every configuration without delta encoding, with two slots or more and a `FlushTimeout` that
is not negative, every interleaving of fewer than `2 ^ 32` drains, and whatever the socket and the
network do to the datagrams: every datagram that arrives is decoded by itself to a frame of the run,
two of them with the same sequence number have the same content, and what is decoded, without
repetition and in the order of the sequence numbers, holds encodings of pushed items, each at most
once and in push order. -/
theorem udp_end_to_end (hnew : Batcher.new sizeofT cfg = .ok b) (hsize : 2 ≤ b.cfg.queueSize)
    (hdelta : b.cfg.deltaEncoding = false) (htimeout : 0 ≤ b.cfg.flushTimeout)
    (hencodes : Encodes b.cfg.maxItemSize.toInt encode)
    (hinv : ∀ a ∈ actions, ∀ tick, a.tick? = some tick → Inverts decompress tick)
    (hrun : run host (initial b) actions = some (e, events)) (hsink : OverUdp writes events)
    (hfew : (drainsOf actions).length < 2 ^ 32) {arrived : List (List UInt8)}
    (harrived : arrived ⊆ (UDPSink.new.flushes writes).1.conn.datagrams) :
    (∀ datagram ∈ arrived, ∃ frame ∈ assembled events e,
      Codec.decode (unpack b.cfg decompress datagram) = .ok (frame.decoded encode)) ∧
    (∀ datagram ∈ arrived, ∀ datagram' ∈ arrived, ∀ p p',
      Codec.decode (unpack b.cfg decompress datagram) = .ok p →
      Codec.decode (unpack b.cfg decompress datagram') = .ok p' → p.1.seq = p'.1.seq → p = p') ∧
    ∀ sorted : List (Codec.Header × List UInt8), sorted.Pairwise Earlier →
      (∀ p ∈ sorted, ∃ datagram ∈ arrived,
        Codec.decode (unpack b.cfg decompress datagram) = .ok p) →
      ∃ frames : List (Frame T), sorted = frames.map (Frame.decoded encode) ∧
        (frames.flatMap Frame.items).Sublist (pushes (effects events)) := by
  obtain ⟨_, _, _, n, hle, _, hnumbered⟩ := run_ordered hnew hrun
  obtain ⟨_, _, _, _, hserial⟩ := run_serial hnew hrun
  have hread := run_decoded hnew hdelta hencodes hinv hrun
  have hframe : ∀ datagram ∈ arrived, ∃ frame ∈ assembled events e,
      Codec.decode (unpack b.cfg decompress datagram) = .ok (frame.decoded encode) := by
    intro datagram hdatagram
    obtain ⟨frame, hmem, rfl⟩ :=
      exists_frame_of_datagram hnew htimeout hrun hsink (harrived hdatagram)
    exact ⟨frame, hmem, hread frame hmem⟩
  -- the frames of the run are in the order of their numbers
  have hsorted : ((assembled events e).map (Frame.decoded encode)).Pairwise Earlier := by
    have hnumbers := (pairwise_numbers (hle.trans_lt hfew)).sublist hnumbered
    rw [List.pairwise_map] at hnumbers ⊢
    exact hnumbers
  have hmem : ∀ datagram ∈ arrived, ∀ p, Codec.decode (unpack b.cfg decompress datagram) = .ok p →
      p ∈ (assembled events e).map (Frame.decoded encode) := by
    intro datagram hdatagram p hp
    obtain ⟨frame, hmem, hdecode⟩ := hframe datagram hdatagram
    cases hdecode.symm.trans hp
    exact List.mem_map_of_mem hmem
  refine ⟨hframe, fun datagram hd datagram' hd' p p' hp hp' hseq => ?_, fun sorted hs hall => ?_⟩
  · have hdistinct : (((assembled events e).map (Frame.decoded encode)).map
        fun p => p.1.seq).Nodup := List.pairwise_map.mpr (hsorted.imp UInt32.ne_of_lt)
    exact List.inj_on_of_nodup_map hdistinct (hmem datagram hd p hp) (hmem datagram' hd' p' hp')
      hseq
  · have hsub : sorted.Sublist ((assembled events e).map (Frame.decoded encode)) := by
      refine List.sublist_of_subperm_of_pairwise (r := Earlier) ?_ hs hsorted
      refine List.subperm_of_subset hs.nodup fun p hp => ?_
      obtain ⟨datagram, hdatagram, hdecode⟩ := hall p hp
      exact hmem datagram hdatagram p hdecode
    obtain ⟨frames, hframes, rfl⟩ := List.sublist_map_iff.mp hsub
    refine ⟨frames, rfl, (hframes.flatMap Frame.items).trans ?_⟩
    rw [assembled, List.flatMap_append, List.flatMap_map]
    exact (hserial.balanced hnew hsize).order

end Runs

/-- Two frames, each sent as a datagram. -/
def datagramStream : List (Action (List UInt8)) :=
  [.tick (plainTick [[1, 2]] none), .enter 0, .callReturn 0 none,
    .tick (plainTick [[3]] none), .enter 0, .callReturn 0 none]

/-- What the socket makes of a call: it sends the datagram. -/
def sendDatagram (payload : List UInt8) : UdpFlush :=
  { payload, deadline := none, sent := true, err := none, sent_of_nil := fun _ => rfl }

/-- The calls of `UDPSink.Flush` for the calls of a run that have all returned nil. -/
def udpWrites (events : List (Event T)) : List UdpFlush :=
  (returns events).map fun r => sendDatagram r.1.2

/-- The second datagram arrives before the first one, and again after it. -/
theorem udp_end_to_end_reordered : ∃ b e events writes first second,
    Batcher.new 24 Batcher.shortConfig = .ok b ∧
    run .little (initial b) datagramStream = some (e, events) ∧ OverUdp writes events ∧
    (UDPSink.new.flushes writes).1.conn.datagrams = [first, second] ∧
    ∀ datagram ∈ [second, first, second], ∃ frame ∈ assembled events e,
      Codec.decode (unpack b.cfg id datagram) = .ok (frame.decoded id) := by
  obtain ⟨b, ⟨e, events⟩, hnew, hrun, hcfg, htest⟩ := exists_of_testNew Batcher.shortConfig
    (fun b => run .little (initial b) datagramStream)
    (fun _ out => decide (OverUdp (udpWrites out.2) out.2) &&
      (UDPSink.new.flushes (udpWrites out.2)).1.conn.datagrams.length == 2) (by decide +kernel)
  simp only [Bool.and_eq_true, decide_eq_true_eq, beq_iff_eq] at htest
  obtain ⟨hsink, htwo⟩ := htest
  obtain ⟨first, second, hdatagrams⟩ := List.length_eq_two.mp htwo
  refine ⟨b, e, events, udpWrites events, first, second, hnew, hrun, hsink, hdatagrams, ?_⟩
  refine (udp_end_to_end hnew ?_ ?_ ?_ (bytes_encodes _) (inverts_of_plain 2 rfl) hrun hsink
    (by decide) ?_).1
  · rw [hcfg]
    decide
  · rw [hcfg]
    rfl
  · rw [hcfg]
    decide
  · rw [hdatagrams]
    simp

end Engine

end TickBatch
