import Qtum.Arith.Bits

/-! `operator/=` of `base_uint`, the restoring division: the divisor is
shifted up to the dividend's top bit, and each pass subtracts it where it
fits, sets that bit of the quotient and shifts it back down. Its invariant:
the shifted divisor is the divisor times `2 ^ shift`, what is left of the
dividend is below twice it, the quotient has no bit up to `shift`, and the
quotient plus what is left divided by the divisor is the answer. The last
theorem gathers the operators: `base_uint<256>` is arithmetic modulo `2 ^ 256`. -/
namespace Qtum

namespace base_uint

open Limbs

variable {BITS : Nat}

@[simp] theorem val_zero : (ofUInt64 0 : base_uint BITS).val = 0 := by
  simp [val,ofUInt64,List.map_const']

/-- `pn[shift / 32] |= (1 << (shift & 31))` adds `2 ^ shift` to a number
whose bits up to `shift` are clear. -/
theorem val_setBit (q : base_uint BITS) {shift : Nat} (inside : shift < 32 * (BITS / 32))
    (multiple : 2 ^ (shift + 1) ∣ q.val) : (q.setBit shift).val = q.val + 2 ^ shift := by
  have index : shift / 32 < q.pn.length := by rw [q.length_pn]; omega
  have low : shift &&& 31 = shift % 32 := Nat.and_two_pow_sub_one_eq_mod shift 5
  have bit : (1 <<< UInt32.ofNat (shift &&& 31) : UInt32).toNat <<< (32 * (shift / 32)) = 2 ^ shift := by
    have small : (UInt32.ofNat (shift &&& 31)).toNat % 32 = shift % 32 := by
      rw [UInt32.toNat_ofNat',low]
      omega
    rw [UInt32.toNat_shiftLeft,UInt32.toNat_one,small,Nat.one_shiftLeft,
      Nat.mod_eq_of_lt (Nat.pow_lt_pow_right (by decide) (Nat.mod_lt _ (by decide))),Nat.shiftLeft_eq,← Nat.pow_add]
    congr 1
    omega
  unfold setBit val
  rw [value_modify_or _ index,bit]
  exact or_two_pow_of_dvd multiple

/-- `operator-=` of a number that is not larger is the exact difference. -/
theorem val_sub_of_le (a b : base_uint BITS) (le : b.val ≤ a.val) : (a.sub b).val = a.val - b.val := by
  have difference := val_sub a b
  have bound := a.val_lt
  rw [← Nat.cast_sub le,← Int.natCast_mod,Nat.mod_eq_of_lt (by omega)] at difference
  exact Int.ofNat.inj difference

/-- One pass of the division loop keeps its invariant, with bit `shift` of the
quotient decided: the rest of the dividend drops below the shifted divisor, and
the quotient so far plus what the rest still holds of the divisor stays the same. -/
theorem divStep_spec (num div quotient : base_uint BITS) {shift divisor : Nat} (positive : 0 < divisor)
    (aligned : div.val = divisor * 2 ^ shift) (below : num.val < 2 * div.val)
    (multiple : 2 ^ (shift + 1) ∣ quotient.val) :
    (divStep num div quotient shift).1.val < div.val ∧ 2 ^ shift ∣ (divStep num div quotient shift).2.val ∧
      (divStep num div quotient shift).2.val + (divStep num div quotient shift).1.val / divisor =
        quotient.val + num.val / divisor := by
  have lower : 2 ^ shift ∣ 2 ^ (shift + 1) := Nat.pow_dvd_pow 2 (Nat.le_succ shift)
  unfold divStep
  rw [CompareTo_eq]
  by_cases fits : div.val ≤ num.val
  · -- the shifted divisor is subtracted and bit `shift` set
    have inside : shift < 32 * (BITS / 32) := by
      have bound := div.val_lt
      have least : 2 ^ shift ≤ div.val := by rw [aligned]; exact Nat.le_mul_of_pos_left _ positive
      exact (Nat.pow_lt_pow_iff_right (show 1 < 2 by decide)).mp (by omega)
    rw [if_pos (by split_ifs <;> omega)]
    dsimp only
    rw [val_sub_of_le _ _ fits,val_setBit _ inside multiple]
    refine ⟨by omega,Nat.dvd_add (lower.trans multiple) (Nat.dvd_refl _),?_⟩
    have quotientBit : 2 ^ shift ≤ num.val / divisor :=
      (Nat.le_div_iff_mul_le positive).mpr (by rw [Nat.mul_comm,← aligned]; exact fits)
    rw [aligned,Nat.sub_mul_div]
    omega
  · rw [if_neg (by split_ifs <;> omega)]
    dsimp only
    exact ⟨by omega,lower.trans multiple,rfl⟩

/-- The division loop from bit `shift` down adds to the quotient what the rest
of the dividend holds of the divisor. -/
theorem divLoop_val {divisor : Nat} (positive : 0 < divisor) (shift : Nat) (num div quotient : base_uint BITS)
    (aligned : div.val = divisor * 2 ^ shift) (below : num.val < 2 * div.val)
    (multiple : 2 ^ (shift + 1) ∣ quotient.val) :
    (divLoop num div quotient shift).val = quotient.val + num.val / divisor := by
  induction shift generalizing num div quotient with
  | zero =>
    obtain ⟨smaller,-,conserved⟩ := divStep_spec num div quotient positive aligned below multiple
    rw [aligned,Nat.pow_zero,Nat.mul_one] at smaller
    rw [divLoop,← conserved,Nat.div_eq_of_lt smaller,Nat.add_zero]
  | succ shift ih =>
    obtain ⟨smaller,multiple',conserved⟩ := divStep_spec num div quotient positive aligned below multiple
    have halved : (div.shiftRight 1).val = divisor * 2 ^ shift := by
      rw [val_shiftRight,aligned,Nat.pow_succ,← Nat.mul_assoc,Nat.pow_one,Nat.mul_div_cancel _ (by decide)]
    have smaller' : (divStep num div quotient (shift + 1)).1.val < 2 * (div.shiftRight 1).val := by
      rw [halved]
      rw [aligned,Nat.pow_succ,← Nat.mul_assoc] at smaller
      omega
    rw [divLoop,ih _ _ _ halved smaller' multiple',conserved]

/-- `operator/=` throws on a zero divisor and otherwise yields the quotient. -/
theorem val_divide (a b : base_uint BITS) :
    (a.divide b).map val = if b.val = 0 then .error ⟨"Division by zero"⟩ else .ok (a.val / b.val) := by
  unfold divide
  simp only [bits_eq_size]
  by_cases zero : b.val = 0
  · simp [zero,Except.map]
    rfl
  have positive : 0 < b.val := Nat.pos_of_ne_zero zero
  have top : 2 ^ (Nat.size b.val - 1) ≤ b.val := Nat.lt_size.mp (by have := Nat.size_pos.mpr positive; omega)
  rw [if_neg (fun size => zero (Nat.size_eq_zero.mp size)),if_neg zero]
  by_cases larger : Nat.size b.val > Nat.size a.val
  · -- the divisor has more bits: the quotient is zero
    have smaller : a.val < b.val := calc
      a.val < 2 ^ Nat.size a.val := Nat.lt_size_self _
      _ ≤ 2 ^ (Nat.size b.val - 1) := Nat.pow_le_pow_right (by decide) (by omega)
      _ ≤ b.val := top
    rw [if_pos larger,Nat.div_eq_of_lt smaller]
    simp only [pure,Except.pure,Except.map,val_zero]
  · rw [if_neg larger]
    have fits : Nat.size a.val ≤ 32 * (BITS / 32) := Nat.size_le.mpr a.val_lt
    have exact : b.val * 2 ^ (Nat.size a.val - Nat.size b.val) < 2 ^ Nat.size a.val := calc
      b.val * 2 ^ (Nat.size a.val - Nat.size b.val) < 2 ^ Nat.size b.val * 2 ^ (Nat.size a.val - Nat.size b.val) :=
        Nat.mul_lt_mul_of_pos_right (Nat.lt_size_self _) (Nat.two_pow_pos _)
      _ = 2 ^ Nat.size a.val := by rw [← Nat.pow_add]; congr 1; omega
    have aligned : (b.shiftLeft (Nat.size a.val - Nat.size b.val)).val =
        b.val * 2 ^ (Nat.size a.val - Nat.size b.val) := by
      rw [val_shiftLeft,Nat.mod_eq_of_lt (Nat.lt_of_lt_of_le exact (Nat.pow_le_pow_right (by decide) fits))]
    have below : a.val < 2 * (b.shiftLeft (Nat.size a.val - Nat.size b.val)).val := calc
      a.val < 2 ^ Nat.size a.val := Nat.lt_size_self _
      _ = 2 * (2 ^ (Nat.size b.val - 1) * 2 ^ (Nat.size a.val - Nat.size b.val)) := by
        rw [← Nat.pow_add,← Nat.pow_succ']
        congr 1
        have := Nat.size_pos.mpr positive
        omega
      _ ≤ 2 * (b.shiftLeft (Nat.size a.val - Nat.size b.val)).val := by
        rw [aligned]
        exact Nat.mul_le_mul_left _ (Nat.mul_le_mul_right _ top)
    have quotient := divLoop_val positive _ a _ (ofUInt64 0) aligned below (by rw [val_zero]; exact Nat.dvd_zero _)
    rw [val_zero,Nat.zero_add] at quotient
    simp only [pure,Except.pure,Except.map,quotient]
example : ((ofUInt64 7 : arith_uint256).divide (ofUInt64 2)).map (·.pn) = .ok [3,0,0,0,0,0,0,0] := by decide

end base_uint

/-- Every operator of `base_uint<256>` computes its result on numbers modulo
`2 ^ 256`, the shift right and the division exactly, and the comparison and
the bit count agree with the numbers they read. -/
theorem base_uint_arithmetic_mod_two_pow_256 (a b : arith_uint256) (shift : Nat) (c : UInt32) :
    (a.add b).val = (a.val + b.val) % 2 ^ 256 ∧
      ((a.sub b).val : Int) = ((a.val : Int) - b.val) % 2 ^ 256 ∧
      a.inc.val = (a.val + 1) % 2 ^ 256 ∧
      a.dec.val = (a.val + 2 ^ 256 - 1) % 2 ^ 256 ∧
      (a.mul b).val = a.val * b.val % 2 ^ 256 ∧
      (a.mulWord c).val = a.val * c.toNat % 2 ^ 256 ∧
      (a.shiftLeft shift).val = a.val * 2 ^ shift % 2 ^ 256 ∧
      (a.shiftRight shift).val = a.val / 2 ^ shift ∧
      a.CompareTo b = (if a.val < b.val then -1 else if a.val = b.val then 0 else 1) ∧
      a.bits = Nat.size a.val ∧
      (a.divide b).map base_uint.val = if b.val = 0 then .error ⟨"Division by zero"⟩ else .ok (a.val / b.val) := by
  have width : 32 * (256 / 32) = 256 := rfl
  have difference := base_uint.val_sub a b
  rw [width,Nat.cast_pow,Nat.cast_ofNat] at difference
  refine ⟨?_,difference,?_,?_,?_,?_,?_,base_uint.val_shiftRight a shift,base_uint.CompareTo_eq a b,
    base_uint.bits_eq_size a,base_uint.val_divide a b⟩
  · rw [base_uint.val_add,width]
  · rw [base_uint.val_inc,width]
  · rw [base_uint.val_dec,width]
  · rw [base_uint.val_mul,width]
  · rw [base_uint.val_mulWord,width]
  · rw [base_uint.val_shiftLeft,width]

end Qtum
