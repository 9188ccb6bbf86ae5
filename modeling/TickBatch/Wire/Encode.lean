import TickBatch.Lib.Bytes

/-!
# The vectorised exclusive or of the delta encoder

`xorBytes` views its slices as 64-bit words in the byte order of the host, combines them four at a
time, then one at a time, and finishes the last bytes one by one. An access outside the first
`len(a)` bytes of a slice, and the explicit length check, end in `none`. `xorBytes_eq` says that
none of this is visible: the result is the bytewise exclusive or, for either byte order.
-/

namespace TickBatch

/-- The byte order in which the host views eight bytes as a word. -/
inductive ByteOrder where
  | little
  | big
  deriving DecidableEq

/-- The 64-bit word in a byte string, first byte lowest. -/
def leWord : List UInt8 → UInt64
  | [] => 0
  | b :: bs => b.toUInt64 ||| (leWord bs <<< 8)

/-- The eight bytes of a word, lowest first. -/
def leWordBytes (w : UInt64) : List UInt8 :=
  (List.range 8).map fun j => (w >>> (8 * UInt64.ofNat j)).toUInt8

namespace ByteOrder

/-- Read eight bytes as a word. -/
def word : ByteOrder → List UInt8 → UInt64
  | .little, bs => leWord bs
  | .big, bs => leWord bs.reverse

/-- The eight bytes that a store of a word writes. -/
def wordBytes : ByteOrder → UInt64 → List UInt8
  | .little, w => leWordBytes w
  | .big, w => (leWordBytes w).reverse

end ByteOrder

/-- Overwrite the bytes of a buffer from an offset on. -/
def splice (buf : List UInt8) (offset : Nat) (bytes : List UInt8) : List UInt8 :=
  buf.take offset ++ bytes ++ buf.drop (offset + bytes.length)

/-- `dw[i] = aw[i] ^ bw[i]`, where the word slices cover `words` words. -/
def xorWord (order : ByteOrder) (words : Nat) (a b : List UInt8) (i : Nat) (dst : List UInt8) :
    Option (List UInt8) :=
  if i < words then
    let aw := order.word ((a.drop (8 * i)).take 8)
    let bw := order.word ((b.drop (8 * i)).take 8)
    some (splice dst (8 * i) (order.wordBytes (aw ^^^ bw)))
  else none

/-- The unrolled loop: four words in each iteration, at most `fuel` iterations. -/
def xorUnrolled (order : ByteOrder) (words : Nat) (a b : List UInt8) :
    Nat → Nat → List UInt8 → Option (Nat × List UInt8)
  | 0, i, dst => some (i, dst)
  | fuel + 1, i, dst =>
      if i + 4 ≤ words then do
        let dst ← xorWord order words a b i dst
        let dst ← xorWord order words a b (i + 1) dst
        let dst ← xorWord order words a b (i + 2) dst
        let dst ← xorWord order words a b (i + 3) dst
        xorUnrolled order words a b fuel (i + 4) dst
      else some (i, dst)

/-- The cleanup loop over the remaining words, at most `fuel` iterations. -/
def xorWords (order : ByteOrder) (words : Nat) (a b : List UInt8) :
    Nat → Nat → List UInt8 → Option (List UInt8)
  | 0, _, dst => some dst
  | fuel + 1, i, dst =>
      if i < words then do
        let dst ← xorWord order words a b i dst
        xorWords order words a b fuel (i + 1) dst
      else some dst

/-- The bytewise loop over the last bytes, from offset `i` on. -/
def xorTail (a b : List UInt8) : Nat → Nat → List UInt8 → Option (List UInt8)
  | 0, _, dst => some dst
  | left + 1, i, dst => do
      let x ← a[i]?
      let y ← b[i]?
      if i < dst.length then xorTail a b left (i + 1) (dst.set i (x ^^^ y)) else none

/-- Write the exclusive or of `a` and `b` over the first `len(a)` bytes of `dst`. -/
def xorBytes (order : ByteOrder) (dst a b : List UInt8) : Option (List UInt8) :=
  let n := a.length
  if n = 0 then some dst
  else if dst.length < n ∨ b.length < n then none
  else do
    let words := n / 8
    let (i, dst) ← xorUnrolled order words a b words 0 dst
    let dst ← xorWords order words a b words i dst
    let wordEnd := words * 8
    xorTail a b (n - wordEnd) wordEnd dst

/-! ## Words and their bytes -/

theorem getLsbD_leWord (bs : List UInt8) {i : Nat} (hi : i < 64) :
    (leWord bs).toBitVec.getLsbD i = (bs.getD (i / 8) 0).toBitVec.getLsbD (i % 8) := by
  induction bs generalizing i with
  | nil => simp [leWord]
  | cons b bs ih =>
      simp only [leWord, UInt64.toBitVec_or, UInt64.toBitVec_shiftLeft, UInt8.toBitVec_toUInt64,
        BitVec.getLsbD_or]
      by_cases h : i < 8
      · have hdiv : i / 8 = 0 := by omega
        have hmod : i % 8 = i := by omega
        simp [h, hi, hdiv, hmod]
      · have hdiv : i / 8 = (i - 8) / 8 + 1 := by omega
        have hmod : i % 8 = (i - 8) % 8 := by omega
        rw [BitVec.getLsbD_setWidth, BitVec.getLsbD_of_ge b.toBitVec i (by omega), hdiv, hmod]
        have hlt : i - 8 < 64 := by omega
        simpa [h, hi, hlt] using ih hlt

/-- Viewing eight bytes as a word and storing the word gives the bytes back. -/
theorem leWordBytes_leWord {bs : List UInt8} (h : bs.length = 8) :
    leWordBytes (leWord bs) = bs := by
  apply List.ext_getElem
  · simp [leWordBytes, h]
  · intro j hj hj'
    simp only [leWordBytes, List.length_map, List.length_range] at hj
    simp only [leWordBytes, List.getElem_map, List.getElem_range]
    apply UInt8.toBitVec_inj.mp
    apply BitVec.eq_of_getLsbD_eq
    intro i hi
    have hshift : (8 * UInt64.ofNat j).toBitVec % 64 = BitVec.ofNat 64 (8 * j) := by
      apply BitVec.eq_of_toNat_eq
      simp
      omega
    have hdiv : (8 * j + i) / 8 = j := by omega
    have hmod : (8 * j + i) % 8 = i := by omega
    have hnat : (BitVec.ofNat 64 (8 * j)).toNat = 8 * j := by
      rw [BitVec.toNat_ofNat]
      omega
    simp only [UInt64.toBitVec_toUInt8, BitVec.getLsbD_setWidth, hi, decide_true, Bool.true_and,
      UInt64.toBitVec_shiftRight, hshift]
    rw [BitVec.ushiftRight_eq', hnat, BitVec.getLsbD_ushiftRight, getLsbD_leWord bs (by omega),
      hdiv, hmod, List.getD_eq_getElem?_getD, List.getElem?_eq_getElem hj', Option.getD_some]

/-- A word read from combined bytes is the combination of the words. -/
theorem leWord_xor {xs ys : List UInt8} (h : xs.length = ys.length) :
    leWord (Bytes.xor xs ys) = leWord xs ^^^ leWord ys := by
  apply UInt64.toBitVec_inj.mp
  apply BitVec.eq_of_getLsbD_eq
  intro i hi
  rw [UInt64.toBitVec_xor, BitVec.getLsbD_xor, getLsbD_leWord _ hi, getLsbD_leWord _ hi,
    getLsbD_leWord _ hi, ← BitVec.getLsbD_xor, ← UInt8.toBitVec_xor]
  congr 2
  by_cases hlt : i / 8 < xs.length
  · have hlt' : i / 8 < ys.length := by omega
    rw [Bytes.xor, List.getD_eq_getElem?_getD, List.getElem?_zipWith]
    simp [hlt, hlt']
  · have hge : ¬ i / 8 < ys.length := by omega
    rw [Bytes.xor, List.getD_eq_getElem?_getD, List.getElem?_zipWith]
    simp [hlt, hge]

/-- Combining two words in any byte order combines their bytes. -/
theorem ByteOrder.wordBytes_xor (order : ByteOrder) {xs ys : List UInt8} (hx : xs.length = 8)
    (hy : ys.length = 8) : order.wordBytes (order.word xs ^^^ order.word ys) = Bytes.xor xs ys := by
  cases order with
  | little =>
      show leWordBytes (leWord xs ^^^ leWord ys) = _
      rw [← leWord_xor (by omega), leWordBytes_leWord (by simp [hx, hy])]
  | big =>
      show (leWordBytes (leWord xs.reverse ^^^ leWord ys.reverse)).reverse = _
      rw [← leWord_xor (by simp [hx, hy]), leWordBytes_leWord (by simp [hx, hy])]
      unfold Bytes.xor
      rw [← List.reverse_zipWith (by simp [hx, hy]), List.reverse_reverse]

/-! ## The loops -/

/-- The destination once its first `m` bytes have been written. -/
def xored (dst a b : List UInt8) (m : Nat) : List UInt8 :=
  Bytes.xor (a.take m) (b.take m) ++ dst.drop m

section Loops

variable {order : ByteOrder} {words : Nat} {dst a b : List UInt8}

/-- Writing the next bytes moves the frontier. -/
theorem splice_xored {m k : Nat} (ha : m + k ≤ a.length) (hb : m + k ≤ b.length)
    {bytes : List UInt8} (hbytes : bytes = Bytes.xor ((a.drop m).take k) ((b.drop m).take k)) :
    splice (xored dst a b m) m bytes = xored dst a b (m + k) := by
  have hlen : bytes.length = k := by
    simp [hbytes]
    omega
  have hdone : (Bytes.xor (a.take m) (b.take m)).length = m := by
    simp
    omega
  have hnext : Bytes.xor (a.take (m + k)) (b.take (m + k)) =
      Bytes.xor (a.take m) (b.take m) ++ bytes := by
    rw [List.take_add, List.take_add, hbytes]
    unfold Bytes.xor
    rw [List.zipWith_append (by simp; omega)]
  unfold splice xored
  rw [hnext, hlen, List.take_left' hdone, List.drop_append, List.drop_drop, hdone,
    List.drop_eq_nil_of_le (by omega), List.nil_append]
  congr 2
  omega

/-- One word. -/
theorem xorWord_xored {i : Nat} (hi : i < words) (ha : 8 * words ≤ a.length)
    (hb : 8 * words ≤ b.length) :
    xorWord order words a b i (xored dst a b (8 * i)) = some (xored dst a b (8 * (i + 1))) := by
  have hlen : ((a.drop (8 * i)).take 8).length = 8 ∧ ((b.drop (8 * i)).take 8).length = 8 := by
    simp
    omega
  have hword := order.wordBytes_xor hlen.1 hlen.2
  unfold xorWord
  simp only [hi, if_true, hword]
  rw [splice_xored (k := 8) (by omega) (by omega) rfl]
  rfl

/-- The unrolled loop stops with less than four words left. -/
theorem xorUnrolled_xored (ha : 8 * words ≤ a.length) (hb : 8 * words ≤ b.length) {fuel i : Nat}
    (hi : i ≤ words) (hfuel : words ≤ i + fuel) :
    ∃ j, i ≤ j ∧ j ≤ words ∧
      xorUnrolled order words a b fuel i (xored dst a b (8 * i)) =
        some (j, xored dst a b (8 * j)) := by
  induction fuel generalizing i with
  | zero => exact ⟨i, Nat.le_refl i, hi, rfl⟩
  | succ fuel ih =>
      unfold xorUnrolled
      by_cases hmore : i + 4 ≤ words
      · obtain ⟨j, hij, hj, hrest⟩ := ih hmore (by omega)
        refine ⟨j, by omega, hj, ?_⟩
        rw [if_pos hmore, xorWord_xored (by omega) ha hb]
        simp only [Option.bind_eq_bind, Option.bind_some]
        rw [xorWord_xored (i := i + 1) (by omega) ha hb, Option.bind_some,
          xorWord_xored (i := i + 2) (by omega) ha hb, Option.bind_some,
          xorWord_xored (i := i + 3) (by omega) ha hb, Option.bind_some]
        exact hrest
      · exact ⟨i, Nat.le_refl i, hi, by rw [if_neg hmore]⟩

/-- The cleanup loop finishes the words. -/
theorem xorWords_xored (ha : 8 * words ≤ a.length) (hb : 8 * words ≤ b.length) {fuel i : Nat}
    (hi : i ≤ words) (hfuel : words ≤ i + fuel) :
    xorWords order words a b fuel i (xored dst a b (8 * i)) = some (xored dst a b (8 * words)) := by
  induction fuel generalizing i with
  | zero =>
      have hdone : i = words := by omega
      rw [hdone]
      rfl
  | succ fuel ih =>
      unfold xorWords
      by_cases hmore : i < words
      · rw [if_pos hmore, xorWord_xored hmore ha hb]
        exact ih hmore (by omega)
      · have hdone : i = words := by omega
        rw [if_neg hmore, hdone]

/-- The two loops over the words, one after the other. -/
theorem xorUnrolled_xorWords (order : ByteOrder) (dst : List UInt8) (ha : 8 * words ≤ a.length)
    (hb : 8 * words ≤ b.length) :
    ∃ i, xorUnrolled order words a b words 0 dst = some (i, xored dst a b (8 * i)) ∧
      xorWords order words a b words i (xored dst a b (8 * i)) =
        some (xored dst a b (8 * words)) := by
  obtain ⟨i, _, hi, hunrolled⟩ : ∃ i, 0 ≤ i ∧ i ≤ words ∧
      xorUnrolled order words a b words 0 dst = some (i, xored dst a b (8 * i)) :=
    xorUnrolled_xored ha hb (Nat.zero_le words) (Nat.le_add_left words 0)
  exact ⟨i, hunrolled, xorWords_xored ha hb hi (by omega)⟩

/-- The bytewise loop finishes the bytes. -/
theorem xorTail_xored (hb : a.length ≤ b.length) (hdst : a.length ≤ dst.length) {left i : Nat}
    (hleft : i + left = a.length) :
    xorTail a b left i (xored dst a b i) = some (xored dst a b a.length) := by
  induction left generalizing i with
  | zero =>
      have hdone : i = a.length := by omega
      rw [hdone]
      rfl
  | succ left ih =>
      have hlt : i < a.length := by omega
      have hlt' : i < b.length := by omega
      have hset : (xored dst a b i).set i (a[i] ^^^ b[i]) = xored dst a b (i + 1) := by
        have hdone : (Bytes.xor (a.take i) (b.take i)).length = i := by
          simp
          omega
        unfold xored
        rw [List.set_append_right _ _ (by omega), hdone, Nat.sub_self,
          List.drop_eq_getElem_cons (by omega), List.set_cons_zero,
          List.take_succ_eq_append_getElem hlt, List.take_succ_eq_append_getElem hlt']
        unfold Bytes.xor
        rw [List.zipWith_append (by simp; omega), List.append_assoc]
        rfl
      unfold xorTail
      rw [List.getElem?_eq_getElem hlt, List.getElem?_eq_getElem hlt']
      simp only [Option.bind_eq_bind, Option.bind_some, hset]
      rw [if_pos (by simp [xored]; omega)]
      exact ih (by omega)

end Loops

/-- `xorBytes` panics exactly when one of the other slices is too short; otherwise it writes the
bytewise exclusive or and leaves the rest of the destination alone. -/
theorem xorBytes_eq (order : ByteOrder) (dst a b : List UInt8) :
    xorBytes order dst a b =
      if dst.length < a.length ∨ b.length < a.length then none
      else some (Bytes.xor a b ++ dst.drop a.length) := by
  unfold xorBytes
  by_cases hempty : a.length = 0
  · have hnil : a = [] := List.length_eq_zero_iff.mp hempty
    simp [hnil, Bytes.xor]
  · simp only [hempty, if_false]
    split
    · rfl
    · rename_i hlen
      have ha : 8 * (a.length / 8) ≤ a.length := by omega
      have hb : 8 * (a.length / 8) ≤ b.length := by omega
      obtain ⟨j, hunrolled, hwords⟩ := xorUnrolled_xorWords order dst ha hb
      have htail : xorTail a b (a.length - 8 * (a.length / 8)) (8 * (a.length / 8))
          (xored dst a b (8 * (a.length / 8))) = some (xored dst a b a.length) :=
        xorTail_xored (by omega) (by omega) (by omega)
      simp only [hunrolled, hwords, Option.bind_eq_bind, Option.bind_some, Nat.mul_comm _ 8, htail]
      have hcut : Bytes.xor (a.take a.length) (b.take a.length) = Bytes.xor a b := by
        unfold Bytes.xor
        have hle : (List.zipWith (· ^^^ ·) a b).length ≤ a.length := by
          rw [List.length_zipWith]
          exact Nat.min_le_left _ _
        rw [← List.take_zipWith, List.take_of_length_le hle]
      simp only [xored, hcut]

end TickBatch
