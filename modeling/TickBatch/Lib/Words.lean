import Mathlib.Data.Nat.ModEq
import Mathlib.Data.Nat.Bitwise

/-!
# 64-bit words as positions of a power-of-two ring

Masking with `2 ^ k - 1` is reduction modulo `2 ^ k` (`toNat_and_mask`), also of a position that
has wrapped past `2 ^ 64` (`toNat_ofNat_and_mask`), and the signed reading of a difference of two
positions tells which one is ahead as long as they are less than `2 ^ 63` apart
(`signed_sub_ofNat_neg`, `signed_sub_nonneg`). `exists_two_pow` characterises the words that pass
the usual power-of-two test.
-/

namespace Words

/-- Masking with `2 ^ k - 1` keeps the remainder modulo `2 ^ k`. -/
theorem toNat_and_mask {mask : UInt64} {k : Nat} (hmask : mask.toNat = 2 ^ k - 1) (pos : UInt64) :
    (pos &&& mask).toNat = pos.toNat % 2 ^ k := by
  rw [UInt64.toNat_and, hmask, Nat.and_two_pow_sub_one_eq_mod]

/-- Masking is insensitive to a wrap past `2 ^ 64`. -/
theorem toNat_ofNat_and_mask {mask : UInt64} {k : Nat} (hk : k ≤ 64)
    (hmask : mask.toNat = 2 ^ k - 1) (p : Nat) : (UInt64.ofNat p &&& mask).toNat = p % 2 ^ k := by
  rw [toNat_and_mask hmask, UInt64.toNat_ofNat']
  exact Nat.mod_mod_of_dvd p (Nat.pow_dvd_pow 2 hk)

/-- The value of a word read as a signed integer. -/
theorem toInt_toInt64 (x : UInt64) :
    x.toInt64.toInt = if x.toNat < 2 ^ 63 then (x.toNat : Int) else x.toNat - 2 ^ 64 := by
  show x.toBitVec.toInt = _
  rw [BitVec.toInt_eq_toNat_cond]
  simp only [UInt64.toNat_toBitVec]
  split <;> split <;> omega

/-- The signed reading vanishes only at zero. -/
theorem toInt64_eq_zero {x : UInt64} : x.toInt64 = 0 ↔ x = 0 := by
  have hlt := x.toNat_lt
  rw [← Int64.toInt_inj, toInt_toInt64, ← UInt64.toNat_inj]
  simp only [Int64.toInt_zero, UInt64.toNat_zero]
  split <;> omega

/-- The signed reading is negative exactly on the upper half of the words. -/
theorem toInt64_neg {x : UInt64} : x.toInt64 < 0 ↔ 2 ^ 63 ≤ x.toNat := by
  have hlt := x.toNat_lt
  rw [Int64.lt_iff_toInt_lt, toInt_toInt64]
  simp only [Int64.toInt_zero]
  split <;> omega

/-- The signed difference of two words vanishes exactly when they are equal. -/
theorem signed_sub_eq_zero {a b : UInt64} : (a - b).toInt64 = 0 ↔ a = b := by
  rw [toInt64_eq_zero]
  constructor
  · intro h
    have hadd : a - b + b = 0 + b := by rw [h]
    simpa using hadd
  · rintro rfl
    simp

/-- A difference of wrapped positions is the difference of the positions, wrapped. -/
theorem toNat_ofNat_sub {a b d : Nat} (h : a = b + d) :
    (UInt64.ofNat a - UInt64.ofNat b).toNat = d % 2 ^ 64 := by
  rw [h, UInt64.ofNat_add, UInt64.add_comm, UInt64.add_sub_cancel, UInt64.toNat_ofNat']

/-- A position that is behind by at most half the word range differs by a negative amount. -/
theorem signed_sub_ofNat_neg {a b : Nat} (hlt : a < b) (hle : b ≤ a + 2 ^ 63) :
    (UInt64.ofNat a - UInt64.ofNat b).toInt64 < 0 := by
  have hsub : (UInt64.ofNat a - UInt64.ofNat b).toNat = 2 ^ 64 - (b - a) := by
    rw [UInt64.toNat_sub, UInt64.toNat_ofNat', UInt64.toNat_ofNat']
    omega
  rw [toInt64_neg, hsub]
  omega

/-- A word that is ahead by less than half the word range does not differ by a negative amount. -/
theorem signed_sub_nonneg {a b : UInt64} (hle : b.toNat ≤ a.toNat)
    (hlt : a.toNat < b.toNat + 2 ^ 63) : ¬(a - b).toInt64 < 0 := by
  rw [toInt64_neg, UInt64.toNat_sub_of_le _ _ (UInt64.le_iff_toNat_le.mpr hle)]
  omega

/-- The words that pass the test `x ≠ 0 ∧ x & (x - 1) = 0` are the powers of two. -/
theorem exists_two_pow {x : UInt64} (hpos : x ≠ 0) (htest : x &&& (x - 1) = 0) :
    ∃ k ≤ 63, x.toNat = 2 ^ k := by
  have hne : x.toNat ≠ 0 := fun h => hpos (UInt64.toNat_inj.mp h)
  have hone : (1 : UInt64) ≤ x := UInt64.le_iff_toNat_le.mpr (Nat.one_le_iff_ne_zero.mpr hne)
  have htest' : x.toNat &&& (x.toNat - 1) = 0 := by
    have h := congrArg UInt64.toNat htest
    rwa [UInt64.toNat_and, UInt64.toNat_sub_of_le _ _ hone] at h
  obtain ⟨k, hk⟩ := (Nat.and_sub_one_eq_zero_iff_isPowerOfTwo hne).mp htest'
  refine ⟨k, ?_, hk⟩
  by_contra hlt
  have hpow : 2 ^ 64 ≤ 2 ^ k := Nat.pow_le_pow_right (by omega) (by omega)
  have := x.toNat_lt
  omega

end Words
