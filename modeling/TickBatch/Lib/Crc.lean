import Mathlib.Data.List.Basic

/-!
# Cyclic redundancy checks are affine over exclusive or

The bit-by-bit, reflected CRC of any width and polynomial, with the usual all-ones initial value
and final complement. The register is linear in its start value and its input together
(`update_xor`). The two complements break linearity for an even number of inputs, but for three
inputs of one length they cancel, and the checksum of the combination is the combination of the
checksums (`checksum_xor₃`). With a zero input in third place this is the affine law for two.
-/

namespace Crc

variable {w : Nat}

/-- Shift one bit out of the register, folding the polynomial back in when the bit was set. -/
def bitStep (poly c : BitVec w) : BitVec w :=
  if c.getLsbD 0 then (c >>> 1) ^^^ poly else c >>> 1

/-- Shift `n` bits out of the register. -/
def bitSteps (poly : BitVec w) : Nat → BitVec w → BitVec w
  | 0, c => c
  | n + 1, c => bitSteps poly n (bitStep poly c)

/-- Take one byte into the register. -/
def byteStep (poly c : BitVec w) (x : UInt8) : BitVec w :=
  bitSteps poly 8 (c ^^^ x.toBitVec.setWidth w)

/-- Take a byte string into the register. -/
def update (poly c : BitVec w) (xs : List UInt8) : BitVec w :=
  xs.foldl (byteStep poly) c

/-- The checksum of a byte string. -/
def checksum (poly : BitVec w) (xs : List UInt8) : BitVec w :=
  ~~~ update poly (BitVec.allOnes w) xs

/-- What the polynomial contributes to the next register. -/
theorem bitStep_eq (poly c : BitVec w) :
    bitStep poly c = (c >>> 1) ^^^ (if c.getLsbD 0 then poly else 0) := by
  unfold bitStep
  split
  · rfl
  · exact BitVec.xor_zero.symm

theorem bitStep_xor (poly a b : BitVec w) :
    bitStep poly (a ^^^ b) = bitStep poly a ^^^ bitStep poly b := by
  have hfeedback : ∀ x y : Bool, (if x ^^ y then poly else 0) =
      (if x then poly else 0) ^^^ (if y then poly else (0 : BitVec w)) := by
    intro x y
    cases x <;> cases y <;> simp
  rw [bitStep_eq, bitStep_eq, bitStep_eq, BitVec.getLsbD_xor, BitVec.ushiftRight_xor_distrib,
    hfeedback]
  ac_rfl

theorem bitSteps_xor (poly : BitVec w) (n : Nat) (a b : BitVec w) :
    bitSteps poly n (a ^^^ b) = bitSteps poly n a ^^^ bitSteps poly n b := by
  induction n generalizing a b with
  | zero => rfl
  | succ n ih => simp only [bitSteps, bitStep_xor, ih]

theorem byteStep_xor (poly a b : BitVec w) (x y : UInt8) :
    byteStep poly (a ^^^ b) (x ^^^ y) = byteStep poly a x ^^^ byteStep poly b y := by
  unfold byteStep
  rw [← bitSteps_xor, UInt8.toBitVec_xor, BitVec.setWidth_xor]
  congr 1
  ac_rfl

/-- The register is linear in its start value and its input together. -/
theorem update_xor (poly a b : BitVec w) {xs ys : List UInt8} (h : xs.length = ys.length) :
    update poly (a ^^^ b) (List.zipWith (· ^^^ ·) xs ys) =
      update poly a xs ^^^ update poly b ys := by
  unfold update
  induction xs generalizing ys a b with
  | nil =>
      cases ys with
      | nil => rfl
      | cons y ys => simp at h
  | cons x xs ih =>
      cases ys with
      | nil => simp at h
      | cons y ys =>
          simp only [List.zipWith_cons_cons, List.foldl_cons, byteStep_xor]
          exact ih _ _ (by simpa using h)

/-- The checksum of the combination of three byte strings of one length. -/
theorem checksum_xor₃ (poly : BitVec w) {xs ys zs : List UInt8} (hy : xs.length = ys.length)
    (hz : xs.length = zs.length) :
    checksum poly (List.zipWith (· ^^^ ·) (List.zipWith (· ^^^ ·) xs ys) zs) =
      checksum poly xs ^^^ checksum poly ys ^^^ checksum poly zs := by
  have hones : BitVec.allOnes w = BitVec.allOnes w ^^^ BitVec.allOnes w ^^^ BitVec.allOnes w := by
    rw [BitVec.xor_self, BitVec.zero_xor]
  have hupdate : update poly (BitVec.allOnes w)
      (List.zipWith (· ^^^ ·) (List.zipWith (· ^^^ ·) xs ys) zs) =
      update poly (BitVec.allOnes w) xs ^^^ update poly (BitVec.allOnes w) ys ^^^
        update poly (BitVec.allOnes w) zs := by
    rw [← update_xor _ _ _ hy, ← update_xor _ _ _ (by simp [← hy, hz]), ← hones]
  unfold checksum
  rw [hupdate, ← BitVec.allOnes_xor, ← BitVec.allOnes_xor, ← BitVec.allOnes_xor,
    ← BitVec.allOnes_xor]
  nth_rewrite 1 [hones]
  ac_rfl

end Crc
