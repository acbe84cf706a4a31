import Mathlib.Data.Nat.Bitwise

/-! 64-bit words read bit by bit, and pairs of words read as arrays of
two-bit entries: entry `b` of a pair is bit `b` of the low word plus twice
bit `b` of the high one. Entries are written one bit per word with a cleared
and shifted mask, and cleared all at once by masking both words with the bits
whose entry differs from a value. -/
namespace WordBits

/-- Bit `b` of a word, the lowest first. -/
def bitOf (w : UInt64) (b : Nat) : Bool := w.toBitVec.getLsbD b

@[simp] theorem bitOf_and (x y : UInt64) (b : Nat) : bitOf (x &&& y) b = (bitOf x b && bitOf y b) := by
  simp [bitOf]

@[simp] theorem bitOf_or (x y : UInt64) (b : Nat) : bitOf (x ||| y) b = (bitOf x b || bitOf y b) := by
  simp [bitOf]

@[simp] theorem bitOf_xor (x y : UInt64) (b : Nat) : bitOf (x ^^^ y) b = (bitOf x b ^^ bitOf y b) := by
  simp [bitOf]

theorem bitOf_not (x : UInt64) {b : Nat} (small : b < 64) : bitOf (~~~x) b = !bitOf x b := by
  simp [bitOf,small]

@[simp] theorem bitOf_one (b : Nat) : bitOf 1 b = decide (b = 0) := by
  simp [bitOf]

theorem bitOf_shiftLeft (w : UInt64) {shift : Nat} (small : shift < 64) (b : Nat) :
    bitOf (w <<< UInt64.ofNat shift) b = (decide (b < 64) && decide (shift ≤ b) && bitOf w (b - shift)) := by
  have amount : ((UInt64.ofNat shift).toBitVec % 64).toNat = shift := by
    simp [BitVec.toNat_umod]
    omega
  rw [bitOf,UInt64.toBitVec_shiftLeft,BitVec.shiftLeft_eq',BitVec.getLsbD_shiftLeft,amount]
  simp [bitOf,← decide_not]

theorem bitOf_shiftRight (w : UInt64) {shift : Nat} (small : shift < 64) (b : Nat) :
    bitOf (w >>> UInt64.ofNat shift) b = bitOf w (shift + b) := by
  have amount : ((UInt64.ofNat shift).toBitVec % 64).toNat = shift := by
    simp [BitVec.toNat_umod]
    omega
  rw [bitOf,UInt64.toBitVec_shiftRight,BitVec.ushiftRight_eq',BitVec.getLsbD_ushiftRight,amount]
  rfl

/-- `-(uint64_t)v` for a flag `v`: no bit, or every bit. -/
theorem bitOf_neg_flag : ∀ v < 2, ∀ b < 64, bitOf (-UInt64.ofNat v) b = decide (v = 1) := by decide

/-- The test `(w >> b) & 1` of a bit. -/
theorem shifted_and_one_ne_zero (w : UInt64) {b : Nat} (small : b < 64) :
    ((w >>> UInt64.ofNat b) &&& 1 != 0) = bitOf w b := by
  have low : ∀ x : UInt64, (x &&& 1 != 0) = bitOf x 0 := by
    intro x
    cases bit : bitOf x 0
    · have zero : x &&& 1 = 0 := by
        apply UInt64.eq_of_toBitVec_eq
        apply BitVec.eq_of_getLsbD_eq
        intro i _
        have := bitOf_and x 1 i
        simp only [bitOf_one] at this
        rw [bitOf] at this
        rw [this]
        by_cases first : i = 0
        · rw [first] at this ⊢
          simp [bit]
        · simp [first]
      rw [zero]
      rfl
    · have nonzero : x &&& 1 ≠ 0 := by
        intro zero
        have := bitOf_and x 1 0
        rw [zero,bit,bitOf_one] at this
        simp [bitOf] at this
      simpa using nonzero
  rw [low,bitOf_shiftRight w small,Nat.add_zero]

/-- A bit written with a cleared mask and a shifted value `x ≤ 1`. -/
def writeBit (w : UInt64) (shift x : Nat) : UInt64 :=
  (w &&& ~~~((1 : UInt64) <<< UInt64.ofNat shift)) ||| (UInt64.ofNat x <<< UInt64.ofNat shift)

theorem bitOf_ofNat_flag : ∀ x < 2, ∀ b < 64, bitOf (UInt64.ofNat x) b = (decide (x = 1) && decide (b = 0)) := by
  decide

theorem bitOf_writeBit (w : UInt64) {shift x : Nat} (small : shift < 64) (flag : x < 2) {b : Nat} (inside : b < 64) :
    bitOf (writeBit w shift x) b = if b = shift then decide (x = 1) else bitOf w b := by
  rw [writeBit,bitOf_or,bitOf_and,bitOf_not _ inside,bitOf_shiftLeft _ small,bitOf_shiftLeft _ small,bitOf_one,
    bitOf_ofNat_flag x flag (b - shift) (by omega)]
  rcases Nat.lt_trichotomy b shift with below | here | above
  · have notLe : ¬shift ≤ b := by omega
    rw [if_neg (by omega)]
    simp [notLe]
  · subst here
    simp [inside]
  · have notZero : b - shift ≠ 0 := by omega
    rw [if_neg (by omega)]
    simp [notZero]

/-- Entry `b` of a pair of words. -/
def entry (low high : UInt64) (b : Nat) : Nat := (bitOf low b).toNat + 2 * (bitOf high b).toNat

theorem entry_lt (low high : UInt64) (b : Nat) : entry low high b < 4 := by
  unfold entry
  cases bitOf low b <;> cases bitOf high b <;> decide

/-- Writing the low and the high bit of `v` writes entry `shift`. -/
theorem entry_writeBit (low high : UInt64) {shift v : Nat} (small : shift < 64) (value : v < 4) {b : Nat}
    (inside : b < 64) :
    entry (writeBit low shift (v &&& 1)) (writeBit high shift (v >>> 1)) b = if b = shift then v else entry low high b := by
  have lowFlag : v &&& 1 < 2 := Nat.lt_of_le_of_lt Nat.and_le_right (by decide)
  have highFlag : v >>> 1 < 2 := by
    rw [Nat.shiftRight_eq_div_pow]
    omega
  rw [entry,bitOf_writeBit _ small lowFlag inside,bitOf_writeBit _ small highFlag inside]
  split_ifs with here
  · -- the two bits of `v` make `v` again
    revert v
    decide
  · rfl

/-- The mask of a pair that keeps the bits whose entry differs from `v`. -/
def keepOther (low high : UInt64) (v : Nat) : UInt64 :=
  (low ^^^ -UInt64.ofNat (v &&& 1)) ||| (high ^^^ -UInt64.ofNat (v >>> 1))

theorem masked_bits : ∀ lowBit highBit : Bool, ∀ v < 4,
    (lowBit && ((lowBit ^^ decide (v &&& 1 = 1)) || (highBit ^^ decide (v >>> 1 = 1)))).toNat +
        2 * (highBit && ((lowBit ^^ decide (v &&& 1 = 1)) || (highBit ^^ decide (v >>> 1 = 1)))).toNat =
      if lowBit.toNat + 2 * highBit.toNat = v then 0 else lowBit.toNat + 2 * highBit.toNat := by
  decide

/-- Masking both words clears the entries equal to `v` and keeps the others. -/
theorem entry_keepOther (low high : UInt64) {v : Nat} (value : v < 4) {b : Nat} (inside : b < 64) :
    entry (low &&& keepOther low high v) (high &&& keepOther low high v) b =
      if entry low high b = v then 0 else entry low high b := by
  have lowFlag : v &&& 1 < 2 := Nat.lt_of_le_of_lt Nat.and_le_right (by decide)
  have highFlag : v >>> 1 < 2 := by
    rw [Nat.shiftRight_eq_div_pow]
    omega
  simp only [entry,keepOther,bitOf_and,bitOf_or,bitOf_xor,bitOf_neg_flag _ lowFlag b inside,
    bitOf_neg_flag _ highFlag b inside]
  exact masked_bits (bitOf low b) (bitOf high b) v value

@[simp] theorem entry_zero (b : Nat) : entry 0 0 b = 0 := by
  simp [entry,bitOf]

/-- An entry is set when either of its bits is. -/
theorem entry_ne_zero_iff (low high : UInt64) (b : Nat) : entry low high b ≠ 0 ↔ bitOf (low ||| high) b = true := by
  rw [entry,bitOf_or]
  cases bitOf low b <;> cases bitOf high b <;> decide

/-! ### Indices of pairs -/

/-- `pos & ~1`: the even index of the pair `pos` lies in. -/
theorem toNat_and_not_one (pos : UInt32) : (pos &&& ~~~1).toNat = 2 * (pos.toNat / 2) := by
  have small := pos.toNat_lt
  rw [UInt32.toNat_and,show (~~~(1 : UInt32)).toNat = 2 ^ 32 - 2 from rfl]
  apply Nat.eq_of_testBit_eq
  intro i
  rw [Nat.testBit_and]
  cases i with
  | zero => simp [Nat.testBit_zero]
  | succ i =>
    rw [Nat.testBit_succ,Nat.testBit_succ,Nat.testBit_succ,show (2 ^ 32 - 2) / 2 = 2 ^ 31 - 1 by rfl,
      Nat.testBit_two_pow_sub_one,Nat.mul_div_cancel_left _ (by decide)]
    by_cases low : i < 31
    · simp [low]
    · -- an index below `2 ^ 32` has no bit above the 31st
      have zero : (pos.toNat / 2).testBit i = false := Nat.testBit_lt_two_pow (by
        have : 2 ^ 31 ≤ 2 ^ i := Nat.pow_le_pow_right (by decide) (by omega)
        omega)
      simp [low,zero]

/-- `pos | 1`: the odd index of the pair `pos` lies in. -/
theorem toNat_or_one (pos : UInt32) : (pos ||| 1).toNat = 2 * (pos.toNat / 2) + 1 := by
  rw [UInt32.toNat_or,show (1 : UInt32).toNat = 1 from rfl]
  apply Nat.eq_of_testBit_eq
  intro i
  rw [Nat.testBit_or]
  cases i with
  | zero => simp [Nat.testBit_zero]
  | succ i =>
    rw [Nat.testBit_succ,Nat.testBit_succ,Nat.testBit_succ,show 1 / 2 = 0 from rfl,Nat.zero_testBit,Bool.or_false,
      show (2 * (pos.toNat / 2) + 1) / 2 = pos.toNat / 2 by omega]

end WordBits
