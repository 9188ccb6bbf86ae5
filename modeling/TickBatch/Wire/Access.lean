import TickBatch.Lib.Logged
import TickBatch.Wire.Encode

/-!
# The memory accesses of the vectorised exclusive or

`xorBytes` again, with every load and store of a word or a byte logged, and with the hoisted loads
that precede its last loop. Forgetting the log gives `xorBytes` back (`value_traced`), and every
access stays within the first `len(a)` bytes of its slice (`traced_inside`). `vectorized_xor` puts
this together with what `xorBytes` computes.
-/

namespace TickBatch

/-- The slices that `xorBytes` is given. -/
inductive Slice where
  | dst
  | a
  | b
  deriving DecidableEq

/-- A load or store of `width` bytes. -/
structure Access where
  slice : Slice
  offset : Nat
  width : Nat
  deriving DecidableEq

/-- The access is within the first `n` bytes of its slice. -/
def Access.Inside (n : Nat) (access : Access) : Prop := access.offset + access.width ≤ n

namespace Traced

/-- Load word `i` of a slice that is viewed as `words` words. -/
def loadWord (order : ByteOrder) (words : Nat) (slice : Slice) (bytes : List UInt8) (i : Nat) :
    Logged Access UInt64 :=
  if i < words then .emit ⟨slice, 8 * i, 8⟩ (order.word ((bytes.drop (8 * i)).take 8)) else .fail

/-- Store word `i` of the destination. -/
def storeWord (order : ByteOrder) (words : Nat) (dst : List UInt8) (i : Nat) (word : UInt64) :
    Logged Access (List UInt8) :=
  if i < words then .emit ⟨.dst, 8 * i, 8⟩ (splice dst (8 * i) (order.wordBytes word)) else .fail

/-- Load byte `i` of a slice. -/
def loadByte (slice : Slice) (bytes : List UInt8) (i : Nat) : Logged Access UInt8 :=
  match bytes[i]? with
  | some x => .emit ⟨slice, i, 1⟩ x
  | none => .fail

/-- Store byte `i` of the destination. -/
def storeByte (dst : List UInt8) (i : Nat) (x : UInt8) : Logged Access (List UInt8) :=
  if i < dst.length then .emit ⟨.dst, i, 1⟩ (dst.set i x) else .fail

/-- `dw[i] = aw[i] ^ bw[i]`. -/
def xorWord (order : ByteOrder) (words : Nat) (a b : List UInt8) (i : Nat) (dst : List UInt8) :
    Logged Access (List UInt8) := do
  let x ← loadWord order words .a a i
  let y ← loadWord order words .b b i
  storeWord order words dst i (x ^^^ y)

/-- The unrolled loop. -/
def xorUnrolled (order : ByteOrder) (words : Nat) (a b : List UInt8) :
    Nat → Nat → List UInt8 → Logged Access (Nat × List UInt8)
  | 0, i, dst => pure (i, dst)
  | fuel + 1, i, dst =>
      if i + 4 ≤ words then do
        let dst ← xorWord order words a b i dst
        let dst ← xorWord order words a b (i + 1) dst
        let dst ← xorWord order words a b (i + 2) dst
        let dst ← xorWord order words a b (i + 3) dst
        xorUnrolled order words a b fuel (i + 4) dst
      else pure (i, dst)

/-- The cleanup loop over the remaining words. -/
def xorWords (order : ByteOrder) (words : Nat) (a b : List UInt8) :
    Nat → Nat → List UInt8 → Logged Access (List UInt8)
  | 0, _, dst => pure dst
  | fuel + 1, i, dst =>
      if i < words then do
        let dst ← xorWord order words a b i dst
        xorWords order words a b fuel (i + 1) dst
      else pure dst

/-- The bytewise loop. -/
def xorTail (a b : List UInt8) : Nat → Nat → List UInt8 → Logged Access (List UInt8)
  | 0, _, dst => pure dst
  | left + 1, i, dst => do
      let x ← loadByte .a a i
      let y ← loadByte .b b i
      let dst ← storeByte dst i (x ^^^ y)
      xorTail a b left (i + 1) dst

/-- The part of `xorBytes` that works on words, which is skipped if there is none. -/
def xorWordPart (order : ByteOrder) (words : Nat) (dst a b : List UInt8) :
    Logged Access (List UInt8) :=
  if 0 < words then do
    let (i, dst) ← xorUnrolled order words a b words 0 dst
    xorWords order words a b words i dst
  else pure dst

/-- The part of `xorBytes` that works on the last `tail` bytes, from `wordEnd` on. Three loads hoist
the bounds checks of its loop. -/
def xorBytePart (wordEnd tail : Nat) (dst a b : List UInt8) : Logged Access (List UInt8) :=
  if 0 < tail then do
    let _ ← loadByte .dst dst (wordEnd + (tail - 1))
    let _ ← loadByte .a a (wordEnd + (tail - 1))
    let _ ← loadByte .b b (wordEnd + (tail - 1))
    xorTail a b tail wordEnd dst
  else pure dst

/-- Write the exclusive or of `a` and `b` over the first `len(a)` bytes of `dst`. -/
def xorBytes (order : ByteOrder) (dst a b : List UInt8) : Logged Access (List UInt8) :=
  let n := a.length
  if n = 0 then pure dst
  else if dst.length < n ∨ b.length < n then .fail
  else do
    let words := n / 8
    let dst ← xorWordPart order words dst a b
    let wordEnd := words * 8
    xorBytePart wordEnd (n - wordEnd) dst a b

/-! ## Forgetting the accesses -/

section Value

variable (order : ByteOrder) (words : Nat) (a b : List UInt8)

theorem value_xorWord (i : Nat) (dst : List UInt8) :
    (xorWord order words a b i dst).value = TickBatch.xorWord order words a b i dst := by
  unfold xorWord loadWord storeWord TickBatch.xorWord
  split
  · rfl
  · rfl

theorem value_xorUnrolled (fuel i : Nat) (dst : List UInt8) :
    (xorUnrolled order words a b fuel i dst).value =
      TickBatch.xorUnrolled order words a b fuel i dst := by
  induction fuel generalizing i dst with
  | zero => rfl
  | succ fuel ih =>
      unfold xorUnrolled TickBatch.xorUnrolled
      simp only [Logged.value_ite, Logged.value_bind, value_xorWord, ih, Logged.value_pure]
      rfl

theorem value_xorWords (fuel i : Nat) (dst : List UInt8) :
    (xorWords order words a b fuel i dst).value =
      TickBatch.xorWords order words a b fuel i dst := by
  induction fuel generalizing i dst with
  | zero => rfl
  | succ fuel ih =>
      unfold xorWords TickBatch.xorWords
      simp only [Logged.value_ite, Logged.value_bind, value_xorWord, ih, Logged.value_pure]
      rfl

theorem value_loadByte (slice : Slice) (bytes : List UInt8) (i : Nat) :
    (loadByte slice bytes i).value = bytes[i]? := by
  unfold loadByte
  cases bytes[i]? <;> rfl

theorem value_xorTail (left i : Nat) (dst : List UInt8) :
    (xorTail a b left i dst).value = TickBatch.xorTail a b left i dst := by
  induction left generalizing i dst with
  | zero => rfl
  | succ left ih =>
      unfold xorTail TickBatch.xorTail storeByte
      simp only [Logged.value_bind, value_loadByte, Logged.value_ite, Logged.value_emit,
        Logged.value_fail, ih]
      refine congrArg _ (funext fun x => congrArg _ (funext fun y => ?_))
      split
      · rfl
      · rfl

end Value

theorem value_xorWordPart {order : ByteOrder} {words : Nat} {dst a b : List UInt8}
    (ha : 8 * words ≤ a.length) (hb : 8 * words ≤ b.length) :
    (xorWordPart order words dst a b).value = some (xored dst a b (8 * words)) := by
  obtain ⟨i, hunrolled, hwords⟩ := xorUnrolled_xorWords order dst ha hb
  unfold xorWordPart
  rw [Logged.value_ite]
  split
  · rw [Logged.value_bind, value_xorUnrolled, hunrolled, Option.bind_some, value_xorWords, hwords]
  · rename_i hzero
    have hwords : words = 0 := by omega
    subst hwords
    rfl

/-- The hoisted loads succeed, so they cannot be seen in the result. -/
theorem value_xorBytePart {dst a b : List UInt8} {wordEnd tail : Nat}
    (ha : wordEnd + tail ≤ a.length) (hb : wordEnd + tail ≤ b.length)
    (hdst : wordEnd + tail ≤ dst.length) :
    (xorBytePart wordEnd tail dst a b).value = TickBatch.xorTail a b tail wordEnd dst := by
  unfold xorBytePart
  rw [Logged.value_ite]
  split
  · have hlast : wordEnd + (tail - 1) < wordEnd + tail := by omega
    simp only [Logged.value_bind, value_loadByte, value_xorTail]
    rw [List.getElem?_eq_getElem (Nat.lt_of_lt_of_le hlast hdst), Option.bind_some,
      List.getElem?_eq_getElem (Nat.lt_of_lt_of_le hlast ha), Option.bind_some,
      List.getElem?_eq_getElem (Nat.lt_of_lt_of_le hlast hb), Option.bind_some]
  · rename_i hzero
    have htail : tail = 0 := by omega
    subst htail
    rfl

/-- Forgetting the accesses gives `xorBytes`. -/
theorem value_traced (order : ByteOrder) (dst a b : List UInt8) :
    (xorBytes order dst a b).value = TickBatch.xorBytes order dst a b := by
  unfold xorBytes TickBatch.xorBytes
  simp only [Logged.value_ite, Logged.value_pure, Logged.value_fail, Logged.value_bind]
  split
  · rfl
  split
  · rfl
  rename_i hempty hlen
  have ha : 8 * (a.length / 8) ≤ a.length := by omega
  have hb : 8 * (a.length / 8) ≤ b.length := by omega
  obtain ⟨i, hunrolled, hwords⟩ := xorUnrolled_xorWords order dst ha hb
  have hlength : (xored dst a b (8 * (a.length / 8))).length = dst.length := by
    simp [xored]
    omega
  rw [value_xorWordPart ha hb, Option.bind_some,
    value_xorBytePart (by omega) (by omega) (by omega)]
  simp only [hunrolled, hwords, Option.bind_eq_bind, Option.bind_some]

/-! ## Where the accesses are -/

section Inside

open Logged (All)

variable {order : ByteOrder} {words n : Nat} {a b : List UInt8}

theorem xorWord_inside (hwords : 8 * words ≤ n) (i : Nat) (dst : List UInt8) :
    All (Access.Inside n) (xorWord order words a b i dst) := by
  have hload (slice : Slice) (bytes : List UInt8) :
      All (Access.Inside n) (loadWord order words slice bytes i) := by
    unfold loadWord
    split
    · refine .emit ?_ _
      show 8 * i + 8 ≤ n
      omega
    · exact .fail
  refine (hload .a a).bind fun x _ => (hload .b b).bind fun y _ => ?_
  unfold storeWord
  split
  · refine .emit ?_ _
    show 8 * i + 8 ≤ n
    omega
  · exact .fail

theorem xorUnrolled_inside (hwords : 8 * words ≤ n) (fuel i : Nat) (dst : List UInt8) :
    All (Access.Inside n) (xorUnrolled order words a b fuel i dst) := by
  induction fuel generalizing i dst with
  | zero => exact .pure _
  | succ fuel ih =>
      unfold xorUnrolled
      split
      · refine (xorWord_inside hwords _ _).bind fun dst₁ _ => ?_
        refine (xorWord_inside hwords _ _).bind fun dst₂ _ => ?_
        refine (xorWord_inside hwords _ _).bind fun dst₃ _ => ?_
        refine (xorWord_inside hwords _ _).bind fun dst₄ _ => ?_
        exact ih _ _
      · exact .pure _

theorem xorWords_inside (hwords : 8 * words ≤ n) (fuel i : Nat) (dst : List UInt8) :
    All (Access.Inside n) (xorWords order words a b fuel i dst) := by
  induction fuel generalizing i dst with
  | zero => exact .pure _
  | succ fuel ih =>
      unfold xorWords
      split
      · exact (xorWord_inside hwords _ _).bind fun dst' _ => ih _ _
      · exact .pure _

theorem loadByte_inside {i : Nat} (hi : i < n) (slice : Slice) (bytes : List UInt8) :
    All (Access.Inside n) (loadByte slice bytes i) := by
  unfold loadByte
  split
  · refine .emit ?_ _
    show i + 1 ≤ n
    exact hi
  · exact .fail

theorem xorTail_inside {left i : Nat} (hleft : i + left ≤ n) (dst : List UInt8) :
    All (Access.Inside n) (xorTail a b left i dst) := by
  induction left generalizing i dst with
  | zero => exact .pure _
  | succ left ih =>
      have hi : i < n := by omega
      unfold xorTail storeByte
      refine (loadByte_inside hi .a a).bind fun x _ => ?_
      refine (loadByte_inside hi .b b).bind fun y _ => ?_
      refine All.bind ?_ fun dst' _ => ih (by omega) dst'
      split
      · refine .emit ?_ _
        show i + 1 ≤ n
        exact hi
      · exact .fail

/-- Every access is within the first `len(a)` bytes of its slice. -/
theorem traced_inside (order : ByteOrder) (dst a b : List UInt8) :
    All (Access.Inside a.length) (xorBytes order dst a b) := by
  have hwords : 8 * (a.length / 8) ≤ a.length := by omega
  unfold xorBytes
  simp only
  split
  · exact .pure _
  split
  · exact .fail
  rename_i hempty _
  have hword : All (Access.Inside a.length) (xorWordPart order (a.length / 8) dst a b) := by
    unfold xorWordPart
    split
    · exact (xorUnrolled_inside hwords _ _ _).bind fun out _ => xorWords_inside hwords _ _ _
    · exact .pure _
  refine hword.bind fun dst' _ => ?_
  unfold xorBytePart
  split
  · have hlast : a.length / 8 * 8 + (a.length - a.length / 8 * 8 - 1) < a.length := by omega
    refine (loadByte_inside hlast .dst dst').bind fun _ _ => ?_
    refine (loadByte_inside hlast .a a).bind fun _ _ => ?_
    refine (loadByte_inside hlast .b b).bind fun _ _ => ?_
    exact xorTail_inside (by omega) dst'
  · exact .pure _

-- nine bytes are one word and one byte, whose loads are hoisted before the loop makes them again
example : (xorBytes .little (List.replicate 9 0) (List.replicate 9 1) (List.replicate 9 2)).log =
    [⟨.a, 0, 8⟩, ⟨.b, 0, 8⟩, ⟨.dst, 0, 8⟩, ⟨.dst, 8, 1⟩, ⟨.a, 8, 1⟩, ⟨.b, 8, 1⟩, ⟨.a, 8, 1⟩,
      ⟨.b, 8, 1⟩, ⟨.dst, 8, 1⟩] := by decide

end Inside

end Traced

/-! ## The result -/

/-- The bytes that `xorBytes` leaves in the destination. -/
theorem xorBytes_eq_some {order : ByteOrder} {dst a b dst' : List UInt8}
    (h : xorBytes order dst a b = some dst') :
    a.length ≤ dst.length ∧ a.length ≤ b.length ∧
      dst' = Bytes.xor a b ++ dst.drop a.length := by
  rw [xorBytes_eq] at h
  split at h
  · cases h
  · cases h
    exact ⟨by omega, by omega, rfl⟩

/-- `xorBytes` panics exactly when `a` is not empty and another slice is shorter. Otherwise it
writes the bytewise exclusive or over the first `len(a)` bytes of the destination and leaves the
rest alone, in either byte order; a second call with the same `b` recovers `a`. All its accesses are
within the first `len(a)` bytes of a slice. -/
theorem vectorized_xor (order : ByteOrder) (dst a b : List UInt8) :
    (xorBytes order dst a b = none ↔
      0 < a.length ∧ (dst.length < a.length ∨ b.length < a.length)) ∧
    (∀ dst', xorBytes order dst a b = some dst' →
      dst'.length = dst.length ∧
      (∀ i < a.length, ∃ x y, a[i]? = some x ∧ b[i]? = some y ∧ dst'[i]? = some (x ^^^ y)) ∧
      (∀ i, a.length ≤ i → dst'[i]? = dst[i]?) ∧
      (∀ order' dst₁, a.length ≤ dst₁.length → ∃ dst₁',
        xorBytes order' dst₁ (dst'.take a.length) b = some dst₁' ∧ dst₁'.take a.length = a)) ∧
    (Traced.xorBytes order dst a b).value = xorBytes order dst a b ∧
    (∀ access ∈ (Traced.xorBytes order dst a b).log, access.Inside a.length) := by
  refine ⟨?_, fun dst' h => ?_, Traced.value_traced order dst a b,
    Traced.traced_inside order dst a b⟩
  · rw [xorBytes_eq]
    split
    · simp only [true_iff]
      omega
    · simp only [reduceCtorEq, false_iff]
      omega
  · obtain ⟨hdst, hb, rfl⟩ := xorBytes_eq_some h
    have hlength : (Bytes.xor a b).length = a.length := by
      simp
      omega
    refine ⟨?_, fun i hi => ?_, fun i hi => ?_, fun order' dst₁ hdst₁ => ?_⟩
    · rw [List.length_append, hlength, List.length_drop]
      omega
    · refine ⟨a[i], b[i], List.getElem?_eq_getElem hi, List.getElem?_eq_getElem (by omega), ?_⟩
      rw [List.getElem?_append_left (by omega)]
      unfold Bytes.xor
      rw [List.getElem?_zipWith, List.getElem?_eq_getElem hi, List.getElem?_eq_getElem (by omega)]
    · rw [List.getElem?_append_right (by omega), hlength, List.getElem?_drop]
      congr 1
      omega
    · rw [List.take_left' hlength, xorBytes_eq, if_neg (by omega)]
      refine ⟨_, rfl, ?_⟩
      rw [Bytes.xor_cancel hb, List.take_left]

end TickBatch
