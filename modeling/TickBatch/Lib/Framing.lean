import Mathlib.Data.Nat.ModEq
import TickBatch.Lib.Bytes

/-!
# Length-prefixed frames in a byte stream

A frame is a 4-byte little-endian length and that many bytes. `readFrames` is a receiver that reads
one frame after the other until the stream has no complete one left. It reads back frames written
whole (`readFrames_encode`) and nothing from a torn last one (`readFrames_torn`). A torn frame in
the middle puts the receiver out of step: there is always a payload that it does not find when it is
written next (`exists_lost`).
-/

namespace Framing

/-- The 4-byte little-endian length. -/
def lengthBytes (n : UInt32) : List UInt8 :=
  [n.toUInt8, (n >>> 8).toUInt8, (n >>> 16).toUInt8, (n >>> 24).toUInt8]

/-- A payload with its length in front. -/
def encode (payload : List UInt8) : List UInt8 :=
  lengthBytes (UInt32.ofNat payload.length) ++ payload

/-- Read one frame: its payload and the rest of the stream. -/
def readFrame : List UInt8 → Option (List UInt8 × List UInt8)
  | b0 :: b1 :: b2 :: b3 :: rest =>
      let n := (Bytes.leUint32 b0 b1 b2 b3).toNat
      if n ≤ rest.length then some (rest.take n, rest.drop n) else none
  | _ => none

/-- Read at most `fuel` frames. -/
def readUpTo : Nat → List UInt8 → List (List UInt8)
  | 0, _ => []
  | fuel + 1, stream =>
      match readFrame stream with
      | none => []
      | some (payload, rest) => payload :: readUpTo fuel rest

/-- Read all complete frames of a stream. A frame has at least one byte, so there are no more than
the stream has bytes. -/
def readFrames (stream : List UInt8) : List (List UInt8) := readUpTo stream.length stream

@[simp] theorem length_lengthBytes (n : UInt32) : (lengthBytes n).length = 4 := rfl

@[simp] theorem length_encode (payload : List UInt8) :
    (encode payload).length = 4 + payload.length := by
  rw [encode, List.length_append, length_lengthBytes]

/-! ## Reading one frame -/

/-- A length that fits into four bytes is read back. -/
theorem readFrame_lengthBytes {n : Nat} (hn : n < 2 ^ 32) (rest : List UInt8) :
    readFrame (lengthBytes (UInt32.ofNat n) ++ rest) =
      if n ≤ rest.length then some (rest.take n, rest.drop n) else none := by
  have hlength : (UInt32.ofNat n).toNat = n := by
    rw [UInt32.toNat_ofNat']
    exact Nat.mod_eq_of_lt hn
  show (if (Bytes.leUint32 _ _ _ _).toNat ≤ rest.length then some (rest.take _, rest.drop _)
    else none) = _
  rw [Bytes.leUint32_put, hlength]

/-- A whole frame is read. -/
theorem readFrame_encode {payload : List UInt8} (h : payload.length < 2 ^ 32)
    (rest : List UInt8) : readFrame (encode payload ++ rest) = some (payload, rest) := by
  rw [encode, List.append_assoc, readFrame_lengthBytes h, if_pos (by simp), List.take_left,
    List.drop_left]

/-- Fewer than four bytes are no frame. -/
theorem readFrame_short {stream : List UInt8} (h : stream.length < 4) :
    readFrame stream = none := by
  match stream, h with
  | [], _ => rfl
  | [_], _ => rfl
  | [_, _], _ => rfl
  | [_, _, _], _ => rfl

/-- A frame that is read is the next part of the stream. -/
theorem readFrame_eq_some {stream payload rest : List UInt8}
    (h : readFrame stream = some (payload, rest)) :
    4 ≤ stream.length ∧ stream.drop 4 = payload ++ rest := by
  match stream, h with
  | b0 :: b1 :: b2 :: b3 :: tail, h =>
      simp only [readFrame] at h
      split at h
      · cases h
        exact ⟨by simp, (List.take_append_drop _ _).symm⟩
      · cases h

/-- A torn frame is not read. -/
theorem readFrame_torn {payload : List UInt8} (h : payload.length < 2 ^ 32) {n : Nat}
    (hn : n < 4 + payload.length) : readFrame ((encode payload).take n) = none := by
  rcases Nat.lt_or_ge n 4 with hshort | hlong
  · exact readFrame_short (by rw [List.length_take]; omega)
  · rw [encode, List.take_append, length_lengthBytes,
      List.take_of_length_le (by rw [length_lengthBytes]; exact hlong), readFrame_lengthBytes h,
      if_neg (by rw [List.length_take]; omega)]

/-! ## Reading all frames -/

/-- Any amount of fuel that covers the stream reads the same frames. -/
theorem readUpTo_eq {stream : List UInt8} {fuel fuel' : Nat} (h : stream.length ≤ fuel)
    (h' : stream.length ≤ fuel') : readUpTo fuel stream = readUpTo fuel' stream := by
  induction fuel generalizing stream fuel' with
  | zero =>
      have hnil : readFrame stream = none := readFrame_short (by omega)
      cases fuel' with
      | zero => rfl
      | succ fuel' => simp only [readUpTo, hnil]
  | succ fuel ih =>
      cases hs : readFrame stream with
      | none => cases fuel' <;> simp only [readUpTo, hs]
      | some read =>
          obtain ⟨payload, rest⟩ := read
          obtain ⟨hfour, hdrop⟩ := readFrame_eq_some hs
          have hlen := congrArg List.length hdrop
          rw [List.length_drop, List.length_append] at hlen
          cases fuel' with
          | zero => omega
          | succ fuel' =>
              simp only [readUpTo, hs]
              exact congrArg _ (ih (by omega) (by omega))

/-- Reading the frames of a stream starts with reading its first one. -/
theorem readFrames_eq (stream : List UInt8) :
    readFrames stream = match readFrame stream with
      | none => []
      | some (payload, rest) => payload :: readFrames rest := by
  have hmore : readFrames stream = readUpTo (stream.length + 1) stream :=
    readUpTo_eq (Nat.le_refl _) (Nat.le_succ _)
  rw [hmore, readUpTo]
  cases hs : readFrame stream with
  | none => rfl
  | some read =>
      obtain ⟨payload, rest⟩ := read
      have hlen := congrArg List.length (readFrame_eq_some hs).2
      rw [List.length_drop, List.length_append] at hlen
      exact congrArg _ (readUpTo_eq (by omega) (Nat.le_refl _))

/-- A frame written whole is read back. -/
theorem readFrames_encode {payload : List UInt8} (h : payload.length < 2 ^ 32)
    (rest : List UInt8) : readFrames (encode payload ++ rest) = payload :: readFrames rest := by
  rw [readFrames_eq, readFrame_encode h]

/-- Nothing is read from a torn frame. -/
theorem readFrames_torn {payload : List UInt8} (h : payload.length < 2 ^ 32) {n : Nat}
    (hn : n < 4 + payload.length) : readFrames ((encode payload).take n) = [] := by
  rw [readFrames_eq, readFrame_torn h hn]

/-- A stream is long enough for each of its frames. -/
theorem length_le_of_mem_readFrames {payload stream : List UInt8}
    (h : payload ∈ readFrames stream) : 4 + payload.length ≤ stream.length := by
  induction hn : stream.length using Nat.strongRecOn generalizing stream with
  | ind n ih =>
      subst hn
      rw [readFrames_eq] at h
      cases hs : readFrame stream with
      | none =>
          rw [hs] at h
          cases h
      | some read =>
          obtain ⟨first, rest⟩ := read
          obtain ⟨hfour, hdrop⟩ := readFrame_eq_some hs
          have hlen := congrArg List.length hdrop
          rw [List.length_drop, List.length_append] at hlen
          rw [hs] at h
          rcases List.mem_cons.mp h with rfl | hrest
          · omega
          · have := ih rest.length (by omega) hrest rfl
            omega

/-! ## Out of step -/

section OutOfStep

variable {payload next : List UInt8} {n : Nat}

/-- After a torn frame only the first frame that is read can be the next payload: it reaches beyond
the torn one, and then too few bytes are left. -/
theorem readFrame_of_mem_torn (h : payload.length < 2 ^ 32) (hn : n < 4 + payload.length)
    (hmem : next ∈ readFrames ((encode payload).take n ++ encode next)) :
    ∃ rest, readFrame ((encode payload).take n ++ encode next) = some (next, rest) := by
  rw [readFrames_eq] at hmem
  cases hs : readFrame ((encode payload).take n ++ encode next) with
  | none =>
      rw [hs] at hmem
      cases hmem
  | some read =>
      obtain ⟨first, rest⟩ := read
      rw [hs] at hmem
      rcases List.mem_cons.mp hmem with rfl | hrest
      · exact ⟨rest, rfl⟩
      · have hlen := congrArg List.length (readFrame_eq_some hs).2
        rw [List.length_drop, List.length_append, List.length_append, List.length_take,
          length_encode, length_encode] at hlen
        have hfits := length_le_of_mem_readFrames hrest
        have hfirst : n < 4 + first.length := by
          rcases Nat.lt_or_ge n 4 with hshort | hlong
          · omega
          · rw [encode, List.take_append, length_lengthBytes,
              List.take_of_length_le (by rw [length_lengthBytes]; exact hlong),
              List.append_assoc, readFrame_lengthBytes h] at hs
            split at hs
            · rename_i hle
              cases hs
              rw [List.length_take]
              omega
            · cases hs
        omega

/-- A frame torn inside its payload: the receiver reads a payload of the torn one's length next. -/
theorem not_mem_of_torn_payload (h : payload.length < 2 ^ 32) (hlong : 4 ≤ n)
    (hn : n < 4 + payload.length) (hne : next.length ≠ payload.length) :
    next ∉ readFrames ((encode payload).take n ++ encode next) := by
  intro hmem
  obtain ⟨rest, hs⟩ := readFrame_of_mem_torn h hn hmem
  rw [encode, List.take_append, length_lengthBytes,
    List.take_of_length_le (by rw [length_lengthBytes]; exact hlong), List.append_assoc,
    readFrame_lengthBytes h] at hs
  split at hs
  · rename_i hle
    have hlen := congrArg (fun read => read.1.length) (Option.some.inj hs)
    simp only [List.length_take] at hlen
    omega
  · cases hs

/-- A frame torn inside its length: three zeros and a one are not read, since the one would have to
be a byte of the zeros. -/
theorem not_mem_of_torn_length (h : payload.length < 2 ^ 32) (hpos : 0 < n) (hshort : n < 4) :
    [0, 0, 0, 1] ∉ readFrames ((encode payload).take n ++ encode [0, 0, 0, 1]) := by
  intro hmem
  obtain ⟨rest, hs⟩ := readFrame_of_mem_torn h (by omega) hmem
  have htorn : ((encode payload).take n).length = n := by
    rw [List.length_take, length_encode]
    omega
  have hlast := congrArg (fun l => l[3]?) (readFrame_eq_some hs).2
  simp only [List.getElem?_drop] at hlast
  rw [List.getElem?_append_right (by omega), htorn] at hlast
  obtain rfl | rfl | rfl : n = 1 ∨ n = 2 ∨ n = 3 := by omega
  all_goals cases hlast

/-- After a torn frame there is a payload that the receiver does not find when it is written
next. -/
theorem exists_lost (h : payload.length < 2 ^ 32) (hpos : 0 < n) (hn : n < 4 + payload.length) :
    ∃ next, next.length ≤ 4 ∧ next ∉ readFrames ((encode payload).take n ++ encode next) := by
  rcases Nat.lt_or_ge n 4 with hshort | hlong
  · exact ⟨[0, 0, 0, 1], Nat.le_refl _, not_mem_of_torn_length h hpos hshort⟩
  · refine ⟨[], Nat.zero_le _, not_mem_of_torn_payload h hlong hn ?_⟩
    rw [List.length_nil]
    omega

end OutOfStep

end Framing
