import Mathlib.Data.List.Basic

/-!
# Byte strings, exclusive or and little-endian fields

`fit n xs` cuts a byte string to length `n` or extends it with zeros, and `delta xs base` is the
exclusive or of a byte string with a base fitted to its length. A delta is undone by the same base
(`delta_delta`), and without a base there is none (`delta_nil`). Little-endian
fields are read back as they were written and commute with exclusive or. Flipping a bit is
combining with the byte string that has only that bit (`flip_eq`).
-/

namespace Bytes

/-- Cut a byte string to `n` bytes, or extend it with zeros. -/
def fit (n : Nat) (xs : List UInt8) : List UInt8 :=
  xs.take n ++ List.replicate (n - xs.length) 0

@[simp] theorem length_fit (n : Nat) (xs : List UInt8) : (fit n xs).length = n := by
  simp only [fit, List.length_append, List.length_take, List.length_replicate]
  omega

/-- A byte string of the right length fits. -/
theorem fit_of_length {n : Nat} {xs : List UInt8} (h : xs.length = n) : fit n xs = xs := by
  unfold fit
  rw [h, Nat.sub_self, List.take_of_length_le (Nat.le_of_eq h)]
  exact List.append_nil xs

/-- A prefix of a byte string extended with zeros is the fitted byte string. -/
theorem take_append_zeros {n m : Nat} {xs : List UInt8} (h : n ≤ xs.length + m) :
    (xs ++ List.replicate m 0).take n = fit n xs := by
  simp only [fit, List.take_append, List.take_replicate]
  congr 2
  omega

/-- Fitting commutes with cutting a prefix off. -/
theorem drop_fit {k n : Nat} {xs : List UInt8} (hn : k ≤ n) (hxs : k ≤ xs.length) :
    (fit n xs).drop k = fit (n - k) (xs.drop k) := by
  unfold fit
  rw [List.drop_append_of_le_length (by simp; omega), List.drop_take, List.length_drop]
  congr 2
  omega

/-- Bytewise exclusive or. -/
def xor (xs ys : List UInt8) : List UInt8 := List.zipWith (· ^^^ ·) xs ys

@[simp] theorem length_xor (xs ys : List UInt8) :
    (xor xs ys).length = min xs.length ys.length := List.length_zipWith

theorem drop_xor (n : Nat) (xs ys : List UInt8) :
    (xor xs ys).drop n = xor (xs.drop n) (ys.drop n) := List.drop_zipWith

theorem xor_assoc (xs ys zs : List UInt8) : xor (xor xs ys) zs = xor xs (xor ys zs) := by
  unfold xor
  induction xs generalizing ys zs with
  | nil => simp
  | cons x xs ih =>
      cases ys with
      | nil => simp
      | cons y ys =>
          cases zs with
          | nil => simp
          | cons z zs => simp [ih, UInt8.xor_assoc]

theorem xor_comm (xs ys : List UInt8) : xor xs ys = xor ys xs :=
  List.zipWith_comm_of_comm UInt8.xor_comm

theorem xor_self (xs : List UInt8) : xor xs xs = List.replicate xs.length 0 := by
  simp [xor, List.zipWith_self, List.map_const']

/-- Zeros change nothing. -/
theorem xor_zeros {xs : List UInt8} {n : Nat} (h : xs.length ≤ n) :
    xor xs (List.replicate n 0) = xs := by
  unfold xor
  induction xs generalizing n with
  | nil => simp
  | cons x xs ih =>
      cases n with
      | zero => simp at h
      | succ n =>
          simp only [List.replicate_succ, List.zipWith_cons_cons, UInt8.xor_zero]
          rw [ih (by simpa using h)]

/-- The same operand twice cancels. -/
theorem xor_cancel {xs ys : List UInt8} (h : xs.length ≤ ys.length) : xor (xor xs ys) ys = xs := by
  rw [xor_assoc, xor_self, xor_zeros h]

/-- Combining with two byte strings of the same length changes nothing only if they are equal. -/
theorem xor_xor_eq_self {xs ys zs : List UInt8} (hy : ys.length = xs.length)
    (hz : zs.length = xs.length) : xor (xor xs ys) zs = xs ↔ ys = zs := by
  constructor
  · intro h
    have hxs : xor (xor xs (xor ys zs)) xs = xor xs xs := by rw [← xor_assoc, h]
    have hyz : xor (xor xs (xor ys zs)) xs = xor ys zs := by
      rw [xor_comm xs, xor_cancel (by simp [hy, hz])]
    have hback : xor (xor ys zs) zs = xor (xor xs xs) zs := by rw [← hyz, hxs]
    rw [xor_cancel (by omega), xor_self, xor_comm, xor_zeros (by omega)] at hback
    exact hback
  · rintro rfl
    exact xor_cancel (by omega)

/-- A byte string combined with a base fitted to its length. -/
def delta (xs base : List UInt8) : List UInt8 := xor xs (fit xs.length base)

@[simp] theorem length_delta (xs base : List UInt8) : (delta xs base).length = xs.length := by
  simp [delta]

/-- With a base of the same length a delta is the exclusive or. -/
theorem delta_of_length {xs base : List UInt8} (h : base.length = xs.length) :
    delta xs base = xor xs base := by
  rw [delta, fit_of_length h]

/-- Without a base there is nothing to combine with. -/
@[simp] theorem delta_nil (xs : List UInt8) : delta xs [] = xs := by
  simp only [delta, fit, List.take_nil, List.nil_append, List.length_nil, Nat.sub_zero]
  exact xor_zeros (Nat.le_refl _)

/-- A delta is undone by its base. -/
theorem delta_delta (xs base : List UInt8) : delta (delta xs base) base = xs := by
  unfold delta
  rw [length_xor, length_fit, Nat.min_self, xor_cancel (by simp)]

/-! ## Little-endian fields -/

/-- The 16-bit word in two bytes. -/
def leUint16 (b0 b1 : UInt8) : UInt16 := b0.toUInt16 ||| (b1.toUInt16 <<< 8)

/-- The 32-bit word in four bytes. -/
def leUint32 (b0 b1 b2 b3 : UInt8) : UInt32 :=
  b0.toUInt32 ||| (b1.toUInt32 <<< 8) ||| (b2.toUInt32 <<< 16) ||| (b3.toUInt32 <<< 24)

theorem getLsbD_leUint16 (a b : UInt8) {i : Nat} (hi : i < 16) :
    (leUint16 a b).toBitVec.getLsbD i =
      if i < 8 then a.toBitVec.getLsbD i else b.toBitVec.getLsbD (i - 8) := by
  simp only [leUint16, UInt16.toBitVec_or, UInt16.toBitVec_shiftLeft, UInt8.toBitVec_toUInt16,
    BitVec.getLsbD_or]
  split
  · simp_all
  · rw [BitVec.getLsbD_setWidth, BitVec.getLsbD_of_ge a.toBitVec i (by omega)]
    simp_all

/-- A word read from combined bytes is the combination of the words. -/
theorem leUint16_xor (a b c d : UInt8) :
    leUint16 (a ^^^ c) (b ^^^ d) = leUint16 a b ^^^ leUint16 c d := by
  apply UInt16.toBitVec_inj.mp
  apply BitVec.eq_of_getLsbD_eq
  intro i hi
  rw [UInt16.toBitVec_xor, BitVec.getLsbD_xor, getLsbD_leUint16 _ _ hi, getLsbD_leUint16 _ _ hi,
    getLsbD_leUint16 _ _ hi]
  split <;> simp

/-- A 16-bit word written low byte first is read back. -/
theorem leUint16_put (v : UInt16) : leUint16 v.toUInt8 (v >>> 8).toUInt8 = v := by
  apply UInt16.toBitVec_inj.mp
  apply BitVec.eq_of_getLsbD_eq
  intro i hi
  rw [getLsbD_leUint16 _ _ hi]
  split
  · rename_i h
    simp only [UInt16.toBitVec_toUInt8, BitVec.getLsbD_setWidth, h, decide_true, Bool.true_and]
  · rename_i h
    have hlow : i - 8 < 8 := by omega
    have hadd : 8 + (i - 8) = i := by omega
    simp only [UInt16.toBitVec_toUInt8, BitVec.getLsbD_setWidth, hlow, decide_true, Bool.true_and,
      UInt16.toBitVec_shiftRight]
    show (v.toBitVec >>> 8).getLsbD (i - 8) = _
    rw [BitVec.getLsbD_ushiftRight, hadd]

/-- A 32-bit word written low byte first is read back. -/
theorem leUint32_put (v : UInt32) :
    leUint32 v.toUInt8 (v >>> 8).toUInt8 (v >>> 16).toUInt8 (v >>> 24).toUInt8 = v := by
  apply UInt32.toBitVec_inj.mp
  apply BitVec.eq_of_getLsbD_eq
  intro i hi
  simp only [leUint32, UInt32.toBitVec_or, UInt32.toBitVec_shiftLeft, UInt8.toBitVec_toUInt32,
    BitVec.getLsbD_or, UInt32.toBitVec_toUInt8, UInt32.toBitVec_shiftRight]
  -- which of the four bytes holds the bit
  rcases Nat.lt_or_ge i 8 with h | h
  · have : i < 16 := by omega
    have : i < 24 := by omega
    simp_all
  · have hadd : 8 + (i - 8) = i := by omega
    rcases Nat.lt_or_ge i 16 with h' | h'
    · have : i - 8 < 8 := by omega
      have : i < 24 := by omega
      simp_all
    · have hadd' : 16 + (i - 16) = i := by omega
      have : ¬ i - 8 < 8 := by omega
      rcases Nat.lt_or_ge i 24 with h'' | h''
      · have : i - 16 < 8 := by omega
        simp_all
      · have : ¬ i - 16 < 8 := by omega
        have : i - 24 < 8 := by omega
        have hadd'' : 24 + (i - 24) = i := by omega
        simp_all

/-- The bytes of a 16-bit word that was read low byte first. -/
theorem put_leUint16 (a b : UInt8) :
    (leUint16 a b).toUInt8 = a ∧ (leUint16 a b >>> 8).toUInt8 = b := by
  have hbyte : ∀ x y : UInt8, (∀ i < 8, x.toBitVec.getLsbD i = y.toBitVec.getLsbD i) → x = y :=
    fun x y h => UInt8.toBitVec_inj.mp (BitVec.eq_of_getLsbD_eq h)
  refine ⟨hbyte _ _ fun i hi => ?_, hbyte _ _ fun i hi => ?_⟩
  · rw [UInt16.toBitVec_toUInt8, BitVec.getLsbD_setWidth, getLsbD_leUint16 a b (by omega)]
    simp [hi]
  · rw [UInt16.toBitVec_toUInt8, BitVec.getLsbD_setWidth, UInt16.toBitVec_shiftRight]
    show (decide (i < 8) && ((leUint16 a b).toBitVec >>> 8).getLsbD i) = _
    rw [BitVec.getLsbD_ushiftRight, getLsbD_leUint16 a b (by omega)]
    simp [hi]

/-- The bytes of a 32-bit word that was read low byte first. -/
theorem put_leUint32 (a b c d : UInt8) :
    (leUint32 a b c d).toUInt8 = a ∧ (leUint32 a b c d >>> 8).toUInt8 = b ∧
      (leUint32 a b c d >>> 16).toUInt8 = c ∧ (leUint32 a b c d >>> 24).toUInt8 = d := by
  have hbyte : ∀ x y : UInt8, (∀ i < 8, x.toBitVec.getLsbD i = y.toBitVec.getLsbD i) → x = y :=
    fun x y h => UInt8.toBitVec_inj.mp (BitVec.eq_of_getLsbD_eq h)
  refine ⟨hbyte _ _ fun i hi => ?_, hbyte _ _ fun i hi => ?_, hbyte _ _ fun i hi => ?_,
    hbyte _ _ fun i hi => ?_⟩
  all_goals
    simp only [leUint32, UInt32.toBitVec_or, UInt32.toBitVec_shiftLeft, UInt8.toBitVec_toUInt32,
      BitVec.getLsbD_or, UInt32.toBitVec_toUInt8, UInt32.toBitVec_shiftRight,
      BitVec.getLsbD_setWidth]
    simp [hi]
    -- the other three bytes have no bit in this place
    grind

/-! ## Single bits -/

/-- The byte string with the bit at `i` flipped, counted from the low bit of the first byte. -/
def flip (xs : List UInt8) (i : Nat) : List UInt8 :=
  xs.modify (i / 8) (· ^^^ ⟨1#8 <<< (i % 8)⟩)

/-- The byte string of length `n` that has only the bit at `i`. -/
def bit (n i : Nat) : List UInt8 := (List.replicate n 0).set (i / 8) ⟨1#8 <<< (i % 8)⟩

@[simp] theorem length_flip (xs : List UInt8) (i : Nat) : (flip xs i).length = xs.length :=
  List.length_modify ..

@[simp] theorem length_bit (n i : Nat) : (bit n i).length = n := by
  simp [bit]

/-- Flipping a bit is combining with it. -/
theorem flip_eq (xs : List UInt8) (i : Nat) : flip xs i = xor xs (bit xs.length i) := by
  apply List.ext_getElem
  · simp
  · intro j hj hj'
    simp only [flip, bit, xor, List.getElem_modify, List.getElem_zipWith, List.getElem_set,
      List.getElem_replicate]
    split
    · rfl
    · exact UInt8.xor_zero.symm

/-- Flipping two bits is combining with both. -/
theorem flip_flip (xs : List UInt8) (i j : Nat) :
    flip (flip xs i) j = xor xs (xor (bit xs.length i) (bit xs.length j)) := by
  rw [flip_eq (flip xs i) j, length_flip, flip_eq xs i, xor_assoc]

/-- A flipped bit goes through a delta. -/
theorem delta_flip (xs base : List UInt8) (i : Nat) :
    delta (flip xs i) base = flip (delta xs base) i := by
  unfold delta
  rw [length_flip, flip_eq, flip_eq, length_xor, length_fit, Nat.min_self, xor_assoc, xor_assoc,
    xor_comm (bit xs.length i)]

/-- The single bit in the byte string around it. -/
theorem bit_split {n i : Nat} (h : i < 8 * n) :
    bit n i = List.replicate (i / 8) 0 ++
      ⟨1#8 <<< (i % 8)⟩ :: List.replicate (n - i / 8 - 1) 0 := by
  have hpos : i / 8 < n := by omega
  unfold bit
  rw [List.set_eq_take_append_cons_drop, if_pos (by simpa using hpos), List.take_replicate,
    List.drop_replicate, Nat.min_eq_left (Nat.le_of_lt hpos), Nat.sub_sub]

/-- The bytes of the single bit. -/
theorem getD_bit (n i p : Nat) :
    (bit n i).getD p 0 = if i / 8 = p ∧ p < n then ⟨1#8 <<< (i % 8)⟩ else 0 := by
  simp only [bit, List.getD_eq_getElem?_getD, List.getElem?_set, List.getElem?_replicate,
    List.length_replicate]
  grind

/-- A single bit before a cut is cut off. -/
theorem drop_bit_of_lt {k n i : Nat} (h : i < 8 * k) :
    (bit n i).drop k = List.replicate (n - k) 0 := by
  unfold bit
  rw [List.drop_set_of_lt (by omega), List.drop_replicate]

/-- A single bit behind a cut moves to the front. -/
theorem drop_bit_of_ge {k n i : Nat} (h : 8 * k ≤ i) :
    (bit n i).drop k = bit (n - k) (i - 8 * k) := by
  have hbyte : (i - 8 * k) / 8 = i / 8 - k := by omega
  have hbit : (i - 8 * k) % 8 = i % 8 := by omega
  unfold bit
  rw [List.drop_set, if_neg (by omega), List.drop_replicate, hbyte, hbit]

end Bytes
