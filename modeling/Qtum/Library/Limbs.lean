import Mathlib.Data.Nat.Digits.Defs
import Mathlib.Data.Nat.Size

/-! Natural numbers held as little-endian lists of 32-bit limbs, the layout of
fixed-width big integers. The value is `Nat.ofDigits (2 ^ 32)`, so the digit
lemmas of Mathlib apply. Beside the arithmetic facts (how a list splits at a
limb, the bound of a list of `n` limbs) there are the bitwise ones that shift
and bit-setting loops need: which bit of the value a limb holds, what or-ing a
word into one limb does to the value, and how the top limbs decide the order. -/
namespace Limbs

/-- The value of a little-endian list of 32-bit limbs. -/
def value (limbs : List UInt32) : Nat := Nat.ofDigits (2 ^ 32) (limbs.map UInt32.toNat)

@[simp] theorem value_nil : value [] = 0 := rfl

@[simp] theorem value_cons (limb : UInt32) (rest : List UInt32) :
    value (limb :: rest) = limb.toNat + 2 ^ 32 * value rest := by
  simp [value,Nat.ofDigits_cons]

theorem value_append (low high : List UInt32) :
    value (low ++ high) = value low + 2 ^ (32 * low.length) * value high := by
  simp [value,Nat.ofDigits_append,Nat.pow_mul]

theorem value_lt (limbs : List UInt32) : value limbs < 2 ^ (32 * limbs.length) := by
  have digits : ∀ digit ∈ limbs.map UInt32.toNat, digit < 2 ^ 32 := by
    intro digit member
    obtain ⟨limb,-,rfl⟩ := List.mem_map.mp member
    exact limb.toNat_lt
  simpa [value,Nat.pow_mul] using Nat.ofDigits_lt_base_pow_length (by norm_num) digits

@[simp] theorem value_replicate_zero (n : Nat) : value (List.replicate n 0) = 0 := by
  induction n with
  | zero => rfl
  | succ n ih => simp [List.replicate_succ,ih]

/-- The limbs below `n` hold the value modulo `2 ^ (32 * n)`. -/
theorem value_take (limbs : List UInt32) (n : Nat) : value (limbs.take n) = value limbs % 2 ^ (32 * n) := by
  have split := value_append (limbs.take n) (limbs.drop n)
  rw [List.take_append_drop] at split
  by_cases short : n ≤ limbs.length
  · have bound := value_lt (limbs.take n)
    rw [List.length_take_of_le short] at split bound
    rw [split,Nat.add_mul_mod_self_left,Nat.mod_eq_of_lt bound]
  · have bound := value_lt limbs
    have wider : 2 ^ (32 * limbs.length) ≤ 2 ^ (32 * n) := Nat.pow_le_pow_right (by decide) (by omega)
    rw [List.take_of_length_le (by omega),Nat.mod_eq_of_lt (by omega)]

/-- The limbs from `n` up hold the value divided by `2 ^ (32 * n)`. -/
theorem value_drop (limbs : List UInt32) (n : Nat) : value (limbs.drop n) = value limbs / 2 ^ (32 * n) := by
  have split := value_append (limbs.take n) (limbs.drop n)
  rw [List.take_append_drop] at split
  by_cases short : n ≤ limbs.length
  · have bound := value_lt (limbs.take n)
    rw [List.length_take_of_le short] at split bound
    rw [split,Nat.add_mul_div_left _ _ (Nat.two_pow_pos _),Nat.div_eq_of_lt bound,Nat.zero_add]
  · have bound := value_lt limbs
    have wider : 2 ^ (32 * limbs.length) ≤ 2 ^ (32 * n) := Nat.pow_le_pow_right (by decide) (by omega)
    rw [List.drop_of_length_le (by omega),value_nil,Nat.div_eq_of_lt (by omega)]

/-! ## Bits -/

theorem testBit_limb_of_ge (limb : UInt32) {j : Nat} (high : 32 ≤ j) : limb.toNat.testBit j = false :=
  Nat.testBit_lt_two_pow (Nat.lt_of_lt_of_le limb.toNat_lt (Nat.pow_le_pow_right (by decide) high))

/-- Bit `p` of the value is bit `p % 32` of limb `p / 32`, zero past the end. -/
theorem testBit_value (limbs : List UInt32) (p : Nat) :
    (value limbs).testBit p = (limbs.getD (p / 32) 0).toNat.testBit (p % 32) := by
  induction limbs generalizing p with
  | nil => simp
  | cons limb rest ih =>
    rw [value_cons,Nat.add_comm,Nat.testBit_two_pow_mul_add _ limb.toNat_lt]
    split
    · case isTrue low =>
      rw [Nat.div_eq_of_lt low,Nat.mod_eq_of_lt low]
      rfl
    · case isFalse high =>
      obtain ⟨q,rfl⟩ : ∃ q, p = q + 32 := ⟨p - 32,by omega⟩
      rw [Nat.add_sub_cancel,ih,Nat.add_div_right _ (by decide),Nat.add_mod_right]
      rfl

/-- Or-ing a word into limb `i` ors it, shifted by `32 * i` bits, into the value. -/
theorem value_modify_or (limbs : List UInt32) {i : Nat} (inside : i < limbs.length) (word : UInt32) :
    value (limbs.modify i (· ||| word)) = value limbs ||| word.toNat <<< (32 * i) := by
  apply Nat.eq_of_testBit_eq
  intro p
  rw [testBit_value,Nat.testBit_or,testBit_value,Nat.testBit_shiftLeft]
  simp only [List.getD_eq_getElem?_getD,List.getElem?_modify]
  by_cases here : i = p / 32
  · subst here
    have offset : p - 32 * (p / 32) = p % 32 := by omega
    rw [offset]
    simp [List.getElem?_eq_getElem inside,UInt32.toNat_or,Nat.testBit_or,Nat.mul_div_le]
  · have away : (decide (p ≥ 32 * i) && word.toNat.testBit (p - 32 * i)) = false := by
      by_cases above : p ≥ 32 * i
      · rw [testBit_limb_of_ge word (by omega),Bool.and_false]
      · simp [above]
    rw [away,Bool.or_false]
    cases (limbs[p / 32]?) <;> simp [here]

/-- Masking with `2 ^ i` leaves something exactly when bit `i` is set. -/
theorem and_two_pow_ne_zero (x i : Nat) : x &&& 2 ^ i ≠ 0 ↔ x.testBit i = true := by
  constructor
  · intro nonzero
    by_contra clear
    apply nonzero
    apply Nat.eq_of_testBit_eq
    intro j
    rw [Nat.testBit_and,Nat.testBit_two_pow,Nat.zero_testBit]
    by_cases same : i = j
    · subst same
      simpa using clear
    · simp [same]
  · intro set zero
    have bit := congrArg (Nat.testBit · i) zero
    simp only [Nat.testBit_and,Nat.testBit_two_pow,set,decide_true,Bool.and_self,Nat.zero_testBit] at bit
    exact Bool.noConfusion bit

/-- Or-ing `2 ^ i` into a multiple of `2 ^ (i + 1)` adds it. -/
theorem or_two_pow_of_dvd {x i : Nat} (multiple : 2 ^ (i + 1) ∣ x) : x ||| 2 ^ i = x + 2 ^ i := by
  obtain ⟨high,rfl⟩ := multiple
  rw [Nat.two_pow_add_eq_or_of_lt (Nat.pow_lt_pow_right (by decide) (Nat.lt_succ_self i)) high]

/-! ## Order -/

/-- Of two lists of one length with a limb on top, the smaller top limb gives
the smaller value, whatever the limbs below. -/
theorem value_lt_of_top_lt {low low' : List UInt32} (length : low.length = low'.length) {top top' : UInt32}
    (smaller : top.toNat < top'.toNat) : value (low ++ [top]) < value (low' ++ [top']) := by
  have bound := value_lt low
  have weight : 2 ^ (32 * low.length) * (top.toNat + 1) ≤ 2 ^ (32 * low.length) * top'.toNat :=
    Nat.mul_le_mul_left _ smaller
  rw [value_append,value_append,← length]
  simp only [value_cons,value_nil,Nat.mul_zero,Nat.add_zero]
  rw [Nat.mul_add,Nat.mul_one] at weight
  omega

/-! ## Bit length -/

/-- Putting a nonzero number above `n` low bits adds `n` to its bit length. -/
theorem size_add_two_pow_mul {low n high : Nat} (below : low < 2 ^ n) (nonzero : high ≠ 0) :
    Nat.size (low + 2 ^ n * high) = n + Nat.size high := by
  have upper : high < 2 ^ Nat.size high := Nat.lt_size_self high
  have lower : 2 ^ (Nat.size high - 1) ≤ high := Nat.lt_size.mp (by have := Nat.size_pos.mpr (Nat.pos_of_ne_zero nonzero); omega)
  apply le_antisymm
  · apply Nat.size_le.mpr
    calc low + 2 ^ n * high < 2 ^ n * (high + 1) := by rw [Nat.mul_add,Nat.mul_one]; omega
      _ ≤ 2 ^ n * 2 ^ Nat.size high := Nat.mul_le_mul_left _ upper
      _ = 2 ^ (n + Nat.size high) := (Nat.pow_add 2 n _).symm
  · have positive := Nat.size_pos.mpr (Nat.pos_of_ne_zero nonzero)
    have step : n + (Nat.size high - 1) < Nat.size (low + 2 ^ n * high) := by
      apply Nat.lt_size.mpr
      calc 2 ^ (n + (Nat.size high - 1)) = 2 ^ n * 2 ^ (Nat.size high - 1) := Nat.pow_add 2 n _
        _ ≤ 2 ^ n * high := Nat.mul_le_mul_left _ lower
        _ ≤ low + 2 ^ n * high := Nat.le_add_left _ _
    omega

end Limbs
