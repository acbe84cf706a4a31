import Qtum.Arith.Carry

/-! What the bitwise loops of `base_uint` compute: the two shifts, whose
passes or two pieces of each old limb into the result, the comparison from
the top limb and the bit count. The shift loops are proved bit by bit: after
`n` passes, bit `p` of the result is the bit of the old value that the shift
brings to `p`, if it comes from the first `n` limbs. -/
namespace Qtum.base_uint

open Limbs

variable {BITS : Nat}

/-! ## Bits of a limb -/

theorem testBit_limb_shiftLeft (x : UInt32) {s : Nat} (small : s < 32) (j : Nat) :
    (x <<< UInt32.ofNat s).toNat.testBit j = (decide (s ≤ j) && decide (j < 32) && x.toNat.testBit (j - s)) := by
  have amount : (UInt32.ofNat s).toNat % 32 = s := by
    rw [UInt32.toNat_ofNat']
    omega
  rw [UInt32.toNat_shiftLeft,amount,Nat.testBit_mod_two_pow,Nat.testBit_shiftLeft]
  cases decide (s ≤ j) <;> cases decide (j < 32) <;> simp [Bool.and_comm]

theorem testBit_limb_shiftRight (x : UInt32) {s : Nat} (small : s < 32) (j : Nat) :
    (x >>> UInt32.ofNat s).toNat.testBit j = x.toNat.testBit (s + j) := by
  have amount : (UInt32.ofNat s).toNat % 32 = s := by
    rw [UInt32.toNat_ofNat']
    omega
  rw [UInt32.toNat_shiftRight,amount,Nat.testBit_shiftRight]

/-- Bit `j` of limb `i` is bit `32 * i + j` of the value, and no limb has a bit from `32` up. -/
theorem testBit_limb (limbs : List UInt32) (i j : Nat) :
    (limbs.getD i 0).toNat.testBit j = (decide (j < 32) && (value limbs).testBit (32 * i + j)) := by
  by_cases low : j < 32
  · rw [testBit_value,show (32 * i + j) / 32 = i by omega,show (32 * i + j) % 32 = j by omega]
    simp [low]
  · simp [low,testBit_limb_of_ge _ (Nat.le_of_not_lt low)]


/-! ## Shifts -/

private theorem testBit_ite_zero (c : Prop) [Decidable c] (x p : Nat) :
    (if c then x else 0).testBit p = (decide c && x.testBit p) := by
  split <;> simp [*]

theorem value_shiftLeftPass (a : List UInt32) (k s : Nat) (pn : List UInt32) (width : pn.length = a.length) (i : Nat) :
    value (shiftLeftPass a k s pn i) =
      value pn ||| (if i + k + 1 < a.length ∧ s ≠ 0 then (a.getD i 0 >>> UInt32.ofNat (32 - s)).toNat <<< (32 * (i + k + 1)) else 0)
        ||| (if i + k < a.length then (a.getD i 0 <<< UInt32.ofNat s).toNat <<< (32 * (i + k)) else 0) := by
  unfold shiftLeftPass
  split_ifs with high low low
  · rw [value_modify_or _ (by rw [List.length_modify]; omega),value_modify_or _ (by omega)]
  · omega
  · rw [value_modify_or _ (by omega),Nat.or_zero]
  · rw [Nat.or_zero,Nat.or_zero]

/-- The loop of `operator<<=` after `n` passes: bit `p` of the result is bit
`p - (32 * k + s)` of the old value when that bit came from the limbs below
`n` and `p` is below the width. -/
theorem testBit_shiftLeftLoop (a : List UInt32) (k : Nat) {s : Nat} (small : s < 32) (n p : Nat) :
    (value ((List.range n).foldl (shiftLeftPass a k s) (List.replicate a.length 0))).testBit p =
      (decide (p < 32 * a.length) && decide (32 * k + s ≤ p) && decide (p < 32 * k + s + 32 * n) &&
        (value a).testBit (p - (32 * k + s))) := by
  induction n generalizing p with
  | zero => simp
  | succ n ih =>
    have width : ((List.range n).foldl (shiftLeftPass a k s) (List.replicate a.length 0)).length = a.length := by
      rw [length_foldl_modify (length_shiftLeftPass a k s),List.length_replicate]
    rw [List.range_succ,List.foldl_append,List.foldl_cons,List.foldl_nil,value_shiftLeftPass a k s _ width,
      Nat.testBit_or,Nat.testBit_or,ih,testBit_ite_zero,testBit_ite_zero,Nat.testBit_shiftLeft,Nat.testBit_shiftLeft,
      testBit_limb_shiftLeft _ small,testBit_limb]
    -- each piece of limb `n` lands on the bits `p` that take bit `p - (32 * k + s)` of `a`
    have high : (decide (n + k + 1 < a.length ∧ s ≠ 0) && (decide (p ≥ 32 * (n + k + 1)) &&
        (a.getD n 0 >>> UInt32.ofNat (32 - s)).toNat.testBit (p - 32 * (n + k + 1)))) =
        (decide (n + k + 1 < a.length ∧ s ≠ 0) && decide (32 * (n + k + 1) ≤ p) &&
          decide (p < 32 * k + s + 32 * (n + 1)) && (value a).testBit (p - (32 * k + s))) := by
      by_cases zero : s = 0
      · simp [zero]
      rw [testBit_limb_shiftRight _ (by omega),testBit_limb]
      by_cases above : 32 * (n + k + 1) ≤ p
      · have position : 32 * n + (32 - s + (p - 32 * (n + k + 1))) = p - (32 * k + s) := by omega
        have within : 32 - s + (p - 32 * (n + k + 1)) < 32 ↔ p < 32 * k + s + 32 * (n + 1) := by omega
        simp [above,position,within,Bool.and_assoc]
      · simp [above]
    have low : (decide (n + k < a.length) && (decide (p ≥ 32 * (n + k)) &&
        (decide (s ≤ p - 32 * (n + k)) && decide (p - 32 * (n + k) < 32) &&
          (decide (p - 32 * (n + k) - s < 32) && (value a).testBit (32 * n + (p - 32 * (n + k) - s)))))) =
        (decide (n + k < a.length) && decide (32 * k + s + 32 * n ≤ p) && decide (p < 32 * (n + k + 1)) &&
          (value a).testBit (p - (32 * k + s))) := by
      by_cases above : 32 * k + s + 32 * n ≤ p
      · have position : 32 * n + (p - 32 * (n + k) - s) = p - (32 * k + s) := by omega
        rw [position]
        cases (value a).testBit (p - (32 * k + s))
        · simp only [Bool.and_false]
        · simp only [Bool.and_true,← Bool.decide_and,decide_eq_decide]
          omega
      · by_cases start : p ≥ 32 * (n + k)
        · simp [above,start,show ¬s ≤ p - 32 * (n + k) by omega]
        · simp [above,start]
    rw [high,low]
    cases (value a).testBit (p - (32 * k + s))
    · simp only [Bool.and_false,Bool.or_false]
    · simp only [Bool.and_true,← Bool.decide_and,← Bool.decide_or,decide_eq_decide]
      omega

theorem value_shiftRightPass (a : List UInt32) (k s : Nat) (pn : List UInt32) (width : pn.length = a.length) {i : Nat}
    (inside : i < a.length) :
    value (shiftRightPass a k s pn i) =
      value pn ||| (if k + 1 ≤ i ∧ s ≠ 0 then (a.getD i 0 <<< UInt32.ofNat (32 - s)).toNat <<< (32 * (i - k - 1)) else 0)
        ||| (if k ≤ i then (a.getD i 0 >>> UInt32.ofNat s).toNat <<< (32 * (i - k)) else 0) := by
  unfold shiftRightPass
  split_ifs with high low low
  · rw [value_modify_or _ (by rw [List.length_modify]; omega),value_modify_or _ (by omega)]
  · omega
  · rw [value_modify_or _ (by omega),Nat.or_zero]
  · rw [Nat.or_zero,Nat.or_zero]

/-- The loop of `operator>>=` after `n` passes: bit `p` of the result is bit
`p + (32 * k + s)` of the old value when that bit lies in the limbs below `n`. -/
theorem testBit_shiftRightLoop (a : List UInt32) (k : Nat) {s : Nat} (small : s < 32) {n : Nat} (passes : n ≤ a.length)
    (p : Nat) :
    (value ((List.range n).foldl (shiftRightPass a k s) (List.replicate a.length 0))).testBit p =
      (decide (32 * k + s + p < 32 * n) && (value a).testBit (32 * k + s + p)) := by
  induction n generalizing p with
  | zero => simp
  | succ n ih =>
    have width : ((List.range n).foldl (shiftRightPass a k s) (List.replicate a.length 0)).length = a.length := by
      rw [length_foldl_modify (length_shiftRightPass a k s),List.length_replicate]
    rw [List.range_succ,List.foldl_append,List.foldl_cons,List.foldl_nil,value_shiftRightPass a k s _ width (by omega),
      Nat.testBit_or,Nat.testBit_or,ih (by omega),testBit_ite_zero,testBit_ite_zero,Nat.testBit_shiftLeft,
      Nat.testBit_shiftLeft,testBit_limb_shiftRight _ small,testBit_limb]
    -- the low bits of limb `n` go to the top of limb `n - k - 1`, the rest to limb `n - k`
    have high : (decide (k + 1 ≤ n ∧ s ≠ 0) && (decide (p ≥ 32 * (n - k - 1)) &&
        (a.getD n 0 <<< UInt32.ofNat (32 - s)).toNat.testBit (p - 32 * (n - k - 1)))) =
        (decide (k + 1 ≤ n ∧ s ≠ 0) && decide (32 * n ≤ 32 * k + s + p) && decide (32 * k + s + p < 32 * n + s) &&
          (value a).testBit (32 * k + s + p)) := by
      by_cases zero : s = 0
      · simp [zero]
      rw [testBit_limb_shiftLeft _ (by omega),testBit_limb]
      by_cases above : k + 1 ≤ n ∧ 32 * (n - k - 1) + (32 - s) ≤ p
      · have position : 32 * n + (p - 32 * (n - k - 1) - (32 - s)) = 32 * k + s + p := by omega
        rw [position]
        cases (value a).testBit (32 * k + s + p)
        · simp only [Bool.and_false]
        · simp only [Bool.and_true,← Bool.decide_and,decide_eq_decide]
          omega
      · have later : ¬32 * n ≤ 32 * k + s + p ∨ ¬k + 1 ≤ n := by omega
        rcases later with later | later
        · by_cases start : p ≥ 32 * (n - k - 1)
          · simp [later,start,show ¬32 - s ≤ p - 32 * (n - k - 1) by omega]
          · simp [later,start]
        · simp [later]
    have low : (decide (k ≤ n) && (decide (p ≥ 32 * (n - k)) &&
        (decide (s + (p - 32 * (n - k)) < 32) && (value a).testBit (32 * n + (s + (p - 32 * (n - k))))))) =
        (decide (k ≤ n) && decide (32 * n + s ≤ 32 * k + s + p) && decide (32 * k + s + p < 32 * (n + 1)) &&
          (value a).testBit (32 * k + s + p)) := by
      by_cases above : k ≤ n ∧ 32 * (n - k) ≤ p
      · have position : 32 * n + (s + (p - 32 * (n - k))) = 32 * k + s + p := by omega
        rw [position]
        cases (value a).testBit (32 * k + s + p)
        · simp only [Bool.and_false]
        · simp only [Bool.and_true,← Bool.decide_and,decide_eq_decide]
          omega
      · have later : ¬32 * n + s ≤ 32 * k + s + p ∨ ¬k ≤ n := by omega
        rcases later with later | later
        · simp [later,show ¬p ≥ 32 * (n - k) by omega]
        · simp [later]
    rw [high,low]
    cases (value a).testBit (32 * k + s + p)
    · simp only [Bool.and_false,Bool.or_false]
    · simp only [Bool.and_true,← Bool.decide_and,← Bool.decide_or,decide_eq_decide]
      omega

theorem val_shiftLeft (a : base_uint BITS) (shift : Nat) :
    (a.shiftLeft shift).val = a.val * 2 ^ shift % 2 ^ (32 * (BITS / 32)) := by
  apply Nat.eq_of_testBit_eq
  intro p
  have loop := testBit_shiftLeftLoop a.pn (shift / 32) (Nat.mod_lt shift (by decide)) (BITS / 32) p
  rw [a.length_pn,show 32 * (shift / 32) + shift % 32 = shift by omega] at loop
  unfold val
  rw [shiftLeft,loop,Nat.testBit_mod_two_pow,Nat.testBit_mul_two_pow]
  cases (value a.pn).testBit (p - shift)
  · simp
  · simp only [Bool.and_true,← Bool.decide_and,decide_eq_decide]
    omega

example : ((ofUInt64 0x80000001 : arith_uint256).shiftLeft 33).pn = [0,2,1,0,0,0,0,0] := by decide

theorem val_shiftRight (a : base_uint BITS) (shift : Nat) : (a.shiftRight shift).val = a.val / 2 ^ shift := by
  apply Nat.eq_of_testBit_eq
  intro p
  have loop := testBit_shiftRightLoop a.pn (shift / 32) (Nat.mod_lt shift (by decide)) (n := BITS / 32)
    (by rw [a.length_pn]) p
  rw [a.length_pn,show 32 * (shift / 32) + shift % 32 = shift by omega] at loop
  unfold val
  rw [shiftRight,loop,Nat.testBit_div_two_pow,Nat.add_comm p]
  by_cases inside : shift + p < 32 * (BITS / 32)
  · simp [inside]
  · -- the old value has no bit from the width up
    have beyond : value a.pn < 2 ^ (shift + p) := by
      have bound := value_lt a.pn
      rw [a.length_pn] at bound
      exact Nat.lt_of_lt_of_le bound (Nat.pow_le_pow_right (by decide) (by omega))
    simp [inside,Nat.testBit_lt_two_pow beyond]

/-! ## Comparison and bit count -/

/-- The loop of `CompareTo` over two lists of one length, most significant
limb first, answers as their values compare. -/
theorem compareFromTop_eq (xs ys : List UInt32) (same : xs.length = ys.length) :
    compareFromTop xs ys =
      if value xs.reverse < value ys.reverse then -1 else if value xs.reverse = value ys.reverse then 0 else 1 := by
  induction xs generalizing ys with
  | nil =>
    obtain rfl := List.eq_nil_of_length_eq_zero same.symm
    rfl
  | cons x xs ih =>
    obtain ⟨y,ys,rfl⟩ := List.exists_cons_of_length_pos (by simp at same; omega : 0 < ys.length)
    simp only [List.length_cons,Nat.add_right_cancel_iff] at same
    have lengths : xs.reverse.length = ys.reverse.length := by simp [same]
    rw [compareFromTop,List.reverse_cons,List.reverse_cons]
    by_cases below : x < y
    · have smaller := value_lt_of_top_lt lengths (UInt32.lt_iff_toNat_lt.mp below)
      simp [below,smaller]
    by_cases above : x > y
    · have larger := value_lt_of_top_lt lengths.symm (UInt32.lt_iff_toNat_lt.mp above)
      simp [below,above,Nat.not_lt_of_lt larger,Nat.ne_of_gt larger]
    · -- equal top limbs: the limbs below decide
      have equal : x = y := by
        apply UInt32.toNat_inj.mp
        rw [UInt32.lt_iff_toNat_lt] at below
        rw [gt_iff_lt,UInt32.lt_iff_toNat_lt] at above
        omega
      subst equal
      rw [if_neg below,if_neg above,ih ys same,value_append,value_append,lengths]
      simp

theorem CompareTo_eq (a b : base_uint BITS) :
    a.CompareTo b = if a.val < b.val then -1 else if a.val = b.val then 0 else 1 := by
  rw [CompareTo,compareFromTop_eq _ _ (by simp [a.length_pn,b.length_pn]),List.reverse_reverse,List.reverse_reverse]
  rfl

/-- The inner loop of `bits()` finds the bit length of a nonzero limb below `2 ^ (b + 1)`. -/
theorem topBit_eq_size (limb : UInt32) {b : Nat} (small : b < 32) (nonzero : limb.toNat ≠ 0)
    (fits : limb.toNat < 2 ^ (b + 1)) : topBit limb b = Nat.size limb.toNat := by
  induction b with
  | zero =>
    obtain one : limb.toNat = 1 := by omega
    rw [topBit,one,Nat.size_one]
  | succ b ih =>
    have mask : (limb &&& 1 <<< UInt32.ofNat (b + 1)).toNat = limb.toNat &&& 2 ^ (b + 1) := by
      rw [UInt32.toNat_and,UInt32.toNat_shiftLeft,UInt32.toNat_one,UInt32.toNat_ofNat',Nat.one_shiftLeft,
        Nat.mod_eq_of_lt (by omega : b + 1 < 2 ^ 32),Nat.mod_eq_of_lt (by omega : b + 1 < 32),
        Nat.mod_eq_of_lt (Nat.pow_lt_pow_right (by decide) (by omega))]
    rw [topBit]
    by_cases set : limb.toNat.testBit (b + 1) = true
    · have nonzeroMask : limb &&& 1 <<< UInt32.ofNat (b + 1) ≠ 0 := by
        intro zero
        have := congrArg UInt32.toNat zero
        rw [mask,UInt32.toNat_zero] at this
        exact (and_two_pow_ne_zero _ _).mpr set this
      rw [if_pos nonzeroMask]
      have lower := Nat.ge_two_pow_of_testBit set
      apply le_antisymm
      · exact Nat.lt_size.mpr lower
      · exact Nat.size_le.mpr fits
    · have zeroMask : ¬limb &&& 1 <<< UInt32.ofNat (b + 1) ≠ 0 := by
        intro nonzeroMask
        apply set
        apply (and_two_pow_ne_zero _ _).mp
        intro zero
        apply nonzeroMask
        apply UInt32.toNat_inj.mp
        rw [mask,zero,UInt32.toNat_zero]
      rw [if_neg zeroMask]
      apply ih (by omega)
      by_contra high
      exact set (Nat.testBit_of_two_pow_le_and_two_pow_add_one_gt (Nat.le_of_not_lt high) fits)

/-- The loop of `bits()` over the limbs, most significant first. -/
theorem bitsFromTop_eq (limbs : List UInt32) : bitsFromTop limbs = Nat.size (value limbs.reverse) := by
  induction limbs with
  | nil => simp [bitsFromTop]
  | cons limb lower ih =>
    rw [bitsFromTop,List.reverse_cons,value_append,value_cons,value_nil,Nat.mul_zero,Nat.add_zero,List.length_reverse]
    split
    · case isTrue nonzero =>
      have positive : limb.toNat ≠ 0 := fun zero => nonzero (UInt32.toNat_inj.mp (by rw [zero,UInt32.toNat_zero]))
      rw [size_add_two_pow_mul (by have := value_lt lower.reverse; simpa using this) positive,
        topBit_eq_size limb (by decide) positive limb.toNat_lt]
    · case isFalse zero =>
      rw [not_not.mp zero,UInt32.toNat_zero,Nat.mul_zero,Nat.add_zero,ih]

theorem bits_eq_size (a : base_uint BITS) : a.bits = Nat.size a.val := by
  rw [bits,bitsFromTop_eq,List.reverse_reverse]
  rfl

end Qtum.base_uint
