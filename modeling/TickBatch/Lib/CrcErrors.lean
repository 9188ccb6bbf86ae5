import Mathlib.Data.Nat.ModEq
import TickBatch.Lib.Bytes
import TickBatch.Lib.Crc

/-!
# What a single flipped bit does to a cyclic redundancy check

The register is linear, so the bits that damage a message go through it on their own, from an empty
register. A single bit leaves the register of a one shifted as often as there are bits from it to
the end of the message (`update_bit`). A check that keeps only the low bits of the register misses
the bit exactly when that register has them all clear.

`scan` looks for such a register. It runs over the numbers and a byte at a time: the low bits that
are clear at some bit are shifted down, and enough of them are still clear at the next byte
boundary (`shifts_clear`), so only the boundaries with clear bits are looked at closely.
-/

namespace Crc

/-! ## The register of a single bit -/

section Register

variable {w : Nat} (poly : BitVec w)

theorem bitSteps_add (m n : Nat) (c : BitVec w) :
    bitSteps poly (m + n) c = bitSteps poly n (bitSteps poly m c) := by
  induction m generalizing c with
  | zero => rw [Nat.zero_add]; rfl
  | succ m ih => rw [Nat.succ_add]; exact ih (bitStep poly c)

theorem bitSteps_zero (n : Nat) : bitSteps poly n 0 = 0 := by
  induction n with
  | zero => rfl
  | succ n ih =>
      have hstep : bitStep poly 0 = 0 := by simp [bitStep]
      rw [bitSteps, hstep, ih]

/-- Zeros shift the register. -/
theorem update_zeros (n : Nat) (c : BitVec w) :
    update poly c (List.replicate n 0) = bitSteps poly (8 * n) c := by
  induction n generalizing c with
  | zero => rfl
  | succ n ih =>
      have hbyte : byteStep poly c 0 = bitSteps poly 8 c := by simp [byteStep]
      rw [Nat.mul_succ, Nat.add_comm (8 * n), bitSteps_add, ← ih, ← hbyte]
      rfl

/-- A bit that is not the lowest moves down by one. -/
theorem bitStep_shift {k : Nat} (hk : k + 1 < w) :
    bitStep poly (1#w <<< (k + 1)) = 1#w <<< k := by
  have hlow : (1#w <<< (k + 1)).getLsbD 0 = false := by simp
  unfold bitStep
  rw [if_neg (by simp [hlow])]
  apply BitVec.eq_of_getLsbD_eq
  intro i hi
  simp only [BitVec.getLsbD_ushiftRight, BitVec.getLsbD_shiftLeft, BitVec.getLsbD_one]
  grind

theorem bitSteps_shift {k : Nat} (hk : k < w) : bitSteps poly k (1#w <<< k) = 1#w := by
  induction k with
  | zero => simp [bitSteps]
  | succ k ih => rw [bitSteps, bitStep_shift poly hk, ih (by omega)]

/-- A single bit of a byte in an empty register. -/
theorem byteStep_shift {k : Nat} (hw : 8 ≤ w) (hk : k < 8) :
    byteStep poly 0 ⟨1#8 <<< k⟩ = bitSteps poly (8 - k) 1#w := by
  have hwide : (1#8 <<< k).setWidth w = 1#w <<< k := by
    apply BitVec.eq_of_getLsbD_eq
    intro i hi
    simp only [BitVec.getLsbD_setWidth, BitVec.getLsbD_shiftLeft, BitVec.getLsbD_one]
    grind
  have hsteps : 8 = k + (8 - k) := by omega
  unfold byteStep
  rw [show (0 : BitVec w) ^^^ _ = _ from BitVec.zero_xor, hwide]
  nth_rewrite 1 [hsteps]
  rw [bitSteps_add, bitSteps_shift poly (by omega)]

/-- A single bit leaves a one shifted to the end of the message. -/
theorem update_bit (hw : 8 ≤ w) {n i : Nat} (hi : i < 8 * n) :
    update poly 0 (Bytes.bit n i) = bitSteps poly (8 * n - i) 1#w := by
  have hlen : 8 * n - i = 8 - i % 8 + 8 * (n - i / 8 - 1) := by omega
  have hhead : update poly 0 (List.replicate (i / 8) 0) = 0 := by
    rw [update_zeros, bitSteps_zero]
  have htail : update poly (bitSteps poly (8 - i % 8) 1#w) (List.replicate (n - i / 8 - 1) 0) =
      bitSteps poly (8 * n - i) 1#w := by
    rw [update_zeros, ← bitSteps_add, ← hlen]
  rw [Bytes.bit_split hi, ← htail, ← byteStep_shift poly hw (Nat.mod_lt i (by decide))]
  nth_rewrite 2 [← hhead]
  exact List.foldl_append

end Register

/-! ## The register as a number -/

/-- `bitStep` over the numbers, in functions that the kernel computes. -/
def shift (poly c : Nat) : Nat := (c.div 2).xor ((c.mod 2).mul poly)

/-- `bitSteps` over the numbers. -/
def shifts (poly : Nat) : Nat → Nat → Nat
  | 0, c => c
  | n + 1, c => shifts poly n (shift poly c)

section Number

variable {w : Nat} (poly : BitVec w)

theorem toNat_bitStep (c : BitVec w) : (bitStep poly c).toNat = shift poly.toNat c.toNat := by
  have hbit : c.getLsbD 0 = decide (c.toNat % 2 = 1) := by
    rw [← BitVec.testBit_toNat, Nat.testBit_zero]
  have hshift : (c >>> 1).toNat = c.toNat / 2 := by
    rw [BitVec.toNat_ushiftRight, Nat.shiftRight_eq_div_pow]
  show _ = c.toNat / 2 ^^^ c.toNat % 2 * poly.toNat
  rw [bitStep_eq, BitVec.toNat_xor, hshift, hbit]
  rcases Nat.mod_two_eq_zero_or_one c.toNat with h | h <;> simp [h]

theorem toNat_bitSteps (n : Nat) (c : BitVec w) :
    (bitSteps poly n c).toNat = shifts poly.toNat n c.toNat := by
  induction n generalizing c with
  | zero => rfl
  | succ n ih => rw [bitSteps, ih, toNat_bitStep]; rfl

end Number

/-! ## Looking for clear bits -/

section Scan

variable {poly : Nat}

theorem shifts_add (m n s : Nat) : shifts poly (m + n) s = shifts poly n (shifts poly m s) := by
  induction m generalizing s with
  | zero => rw [Nat.zero_add]; rfl
  | succ m ih => rw [Nat.succ_add]; exact ih (shift poly s)

/-- A register whose lowest bit is clear is only shifted. -/
theorem shift_even {k s : Nat} (h : s % 2 ^ (k + 1) = 0) : shift poly s % 2 ^ k = 0 := by
  obtain ⟨m, rfl⟩ := Nat.dvd_of_mod_eq_zero h
  have hdouble : 2 ^ (k + 1) * m = 2 * (2 ^ k * m) := by
    rw [Nat.pow_succ, Nat.mul_comm (2 ^ k) 2, Nat.mul_assoc]
  show (_ / 2 ^^^ _ % 2 * poly) % 2 ^ k = 0
  rw [hdouble, Nat.mul_mod_right, Nat.zero_mul, Nat.xor_zero, Nat.mul_div_cancel_left _ (by decide),
    Nat.mul_mod_right]

/-- Clear low bits are shifted down. -/
theorem shifts_clear {i k s : Nat} (h : s % 2 ^ (k + i) = 0) : shifts poly i s % 2 ^ k = 0 := by
  induction i generalizing s with
  | zero => exact h
  | succ i ih => exact ih (shift_even h)

/-- Whether the low `bits` bits are clear after one of the next eight shifts. -/
def clearWithin (poly bits s : Nat) : Bool :=
  (List.range 8).any fun i => shifts poly (i + 1) s % 2 ^ bits == 0

/-- The register after `n` bytes of zeros, unless its low `bits + 7` bits are clear on the way. The
matches make the kernel compute the register before it goes on. -/
def scan (poly bits : Nat) : Nat → Nat → Option Nat
  | 0, s => some s
  | n + 1, s =>
      match shift poly (shift poly (shift poly (shift poly
          (shift poly (shift poly (shift poly (shift poly s))))))) with
      | 0 => none
      | p + 1 =>
          match Nat.mod (p + 1) (Nat.pow 2 bits) with
          | 0 => if clearWithin poly (bits + 7) s then none else scan poly bits n (p + 1)
          | _ + 1 => scan poly bits n (p + 1)

/-- One byte of a successful scan. -/
theorem scan_succ {bits n s r : Nat} (h : scan poly bits (n + 1) s = some r) :
    scan poly bits n (shifts poly 8 s) = some r ∧
      ∀ i, 0 < i → i ≤ 8 → shifts poly i s % 2 ^ (bits + 7) ≠ 0 := by
  have height : shifts poly 8 s = shift poly (shift poly (shift poly (shift poly
      (shift poly (shift poly (shift poly (shift poly s))))))) := rfl
  rw [scan, ← height] at h
  have hlater : ∀ i, 0 < i → i ≤ 8 → shifts poly i s % 2 ^ (bits + 7) = 0 →
      shifts poly 8 s % 2 ^ bits = 0 := by
    intro i hi hi' hclear
    have hsplit : 8 = i + (8 - i) := by omega
    rw [hsplit, shifts_add]
    apply shifts_clear
    have hdvd : 2 ^ (bits + (8 - i)) ∣ 2 ^ (bits + 7) := Nat.pow_dvd_pow 2 (by omega)
    exact Nat.mod_eq_zero_of_dvd (Nat.dvd_trans hdvd (Nat.dvd_of_mod_eq_zero hclear))
  cases hs : shifts poly 8 s with
  | zero =>
      rw [hs] at h
      cases h
  | succ p =>
      rw [hs] at h hlater
      dsimp only at h
      split at h
      · split at h
        · cases h
        · rename_i hfree
          refine ⟨h, fun i hi hi' hclear => hfree ?_⟩
          refine List.any_eq_true.mpr ⟨i - 1, List.mem_range.mpr (by omega), ?_⟩
          rw [Nat.sub_add_cancel hi]
          exact beq_iff_eq.mpr hclear
      · rename_i hmod
        refine ⟨h, fun i hi hi' hclear => ?_⟩
        have hzero : Nat.mod (p + 1) (Nat.pow 2 bits) = 0 := hlater i hi hi' hclear
        omega

/-- A successful scan found the register and met no clear bits on the way. -/
theorem scan_spec {bits n s r : Nat} (h : scan poly bits n s = some r) :
    shifts poly (8 * n) s = r ∧
      ∀ i, 0 < i → i ≤ 8 * n → shifts poly i s % 2 ^ (bits + 7) ≠ 0 := by
  induction n generalizing s with
  | zero => exact ⟨Option.some.inj h, fun i hi hi' => by omega⟩
  | succ n ih =>
      obtain ⟨hrest, hfirst⟩ := scan_succ h
      obtain ⟨hfinal, hlater⟩ := ih hrest
      have hmul : 8 * (n + 1) = 8 + 8 * n := by omega
      refine ⟨by rw [hmul, shifts_add, hfinal], fun i hi hi' => ?_⟩
      by_cases hbyte : i ≤ 8
      · exact hfirst i hi hbyte
      · have hsplit : i = 8 + (i - 8) := by omega
        rw [hsplit, shifts_add]
        exact hlater (i - 8) (by omega) (by omega)

end Scan

end Crc
