import Mathlib.Data.List.Basic
import Mathlib.Algebra.Order.Group.Nat
import Mathlib.Tactic.Ring

/-! Fixed-width fields as bit strings, the most significant bit first: how a
field splits into a high and a low part, how the bitwise operators that
codecs use to cut and join fields act on those parts, and that a list of
fields of one width is determined by its bits. -/
namespace BitString

/-- The `width` low bits of `n`, the most significant first. -/
def toBits : Nat → Nat → List Bool
  | 0, _ => []
  | width + 1, n => n.testBit width :: toBits width n

def ofBits (bits : List Bool) : Nat := bits.foldl (fun acc bit => 2 * acc + bit.toNat) 0

@[simp] theorem toBits_width_zero (n : Nat) : toBits 0 n = [] := rfl

@[simp] theorem length_toBits (width n : Nat) : (toBits width n).length = width := by
  induction width with
  | zero => rfl
  | succ width ih => simp [toBits,ih]

theorem toBits_congr {width m n : Nat} (same : ∀ i < width, m.testBit i = n.testBit i) :
    toBits width m = toBits width n := by
  induction width with
  | zero => rfl
  | succ width ih =>
    rw [toBits,toBits,same width (Nat.lt_succ_self width),ih fun i below => same i (by omega)]

theorem toBits_mod (width n : Nat) : toBits width (n % 2 ^ width) = toBits width n := by
  apply toBits_congr
  intro i below
  simp [Nat.testBit_mod_two_pow,below]

@[simp] theorem toBits_zero (width : Nat) : toBits width 0 = List.replicate width false := by
  induction width with
  | zero => rfl
  | succ width ih => simp [toBits,ih,List.replicate_succ]

/-- A field of `high + low` bits is its high part and then its low part. -/
theorem toBits_add (high low n : Nat) : toBits (high + low) n = toBits high (n / 2 ^ low) ++ toBits low n := by
  induction high with
  | zero => simp [toBits]
  | succ high ih =>
    rw [show high + 1 + low = high + low + 1 by omega,toBits,ih,toBits,Nat.testBit_div_two_pow,
      List.cons_append]

/-- The split as the code writes it: `n >> low` and `n & (2^low - 1)`. -/
theorem toBits_split (high low n : Nat) :
    toBits (high + low) n = toBits high (n >>> low) ++ toBits low (n &&& (2 ^ low - 1)) := by
  rw [toBits_add,Nat.shiftRight_eq_div_pow,Nat.and_two_pow_sub_one_eq_mod,toBits_mod]

theorem and_two_pow_sub_one_lt (n k : Nat) : n &&& (2 ^ k - 1) < 2 ^ k := by
  rw [Nat.and_two_pow_sub_one_eq_mod]
  exact Nat.mod_lt n (Nat.two_pow_pos k)

theorem shiftLeft_or_eq_add (x : Nat) {low y : Nat} (small : y < 2 ^ low) :
    (x <<< low) ||| y = x * 2 ^ low + y := by
  rw [← Nat.shiftLeft_add_eq_or_of_lt small,Nat.shiftLeft_eq]

theorem shiftLeft_or_lt {high low x y : Nat} (hx : x < 2 ^ high) (hy : y < 2 ^ low) :
    (x <<< low) ||| y < 2 ^ (high + low) := by
  rw [shiftLeft_or_eq_add x hy,pow_add]
  calc x * 2 ^ low + y < (x + 1) * 2 ^ low := by rw [Nat.succ_mul]; omega
    _ ≤ 2 ^ high * 2 ^ low := Nat.mul_le_mul_right _ hx

/-- The join as the code writes it: `(x << low) | y` for `y` below `2^low`. -/
theorem toBits_shiftLeft_or (high low x y : Nat) (small : y < 2 ^ low) :
    toBits (high + low) ((x <<< low) ||| y) = toBits high x ++ toBits low y := by
  have positive : 0 < 2 ^ low := Nat.two_pow_pos low
  rw [shiftLeft_or_eq_add x small,toBits_add,← toBits_mod low (x * 2 ^ low + y),Nat.mul_add_mod_self_right,Nat.mod_eq_of_lt small,
    Nat.add_comm,Nat.add_mul_div_right _ _ positive,Nat.div_eq_of_lt small,Nat.zero_add]

/-- A field shifted left is the field and then zeros. -/
theorem toBits_shiftLeft (high low x : Nat) :
    toBits (high + low) (x <<< low) = toBits high x ++ List.replicate low false := by
  have joined := toBits_shiftLeft_or high low x 0 (Nat.two_pow_pos low)
  rwa [Nat.or_zero,toBits_zero] at joined

theorem ofBits_append (xs ys : List Bool) : ofBits (xs ++ ys) = ofBits xs * 2 ^ ys.length + ofBits ys := by
  have fold : ∀ (acc : Nat) (bits : List Bool),
      bits.foldl (fun acc bit => 2 * acc + bit.toNat) acc = acc * 2 ^ bits.length + ofBits bits := by
    intro acc bits
    induction bits generalizing acc with
    | nil => simp [ofBits]
    | cons bit bits ih =>
      simp only [List.foldl_cons,ofBits,Nat.mul_zero,Nat.zero_add,List.length_cons]
      rw [ih,ih bit.toNat,pow_succ]
      ring
  unfold ofBits
  rw [List.foldl_append,fold]
  rfl

theorem ofBits_toBits {width n : Nat} (small : n < 2 ^ width) : ofBits (toBits width n) = n := by
  induction width generalizing n with
  | zero => simp_all [toBits,ofBits]
  | succ width ih =>
    have low := ih (Nat.mod_lt n (Nat.two_pow_pos width))
    rw [toBits_mod] at low
    have top : (n.testBit width).toNat = n / 2 ^ width := by
      rw [Nat.toNat_testBit,Nat.mod_eq_of_lt]
      rw [Nat.div_lt_iff_lt_mul (Nat.two_pow_pos width),Nat.mul_comm,← pow_succ]
      exact small
    rw [toBits,← List.singleton_append,ofBits_append,low,length_toBits]
    simp only [ofBits,List.foldl_cons,List.foldl_nil,Nat.mul_zero,Nat.zero_add,top]
    rw [Nat.mul_comm]
    exact Nat.div_add_mod n (2 ^ width)

theorem toBits_injective {width x y : Nat} (hx : x < 2 ^ width) (hy : y < 2 ^ width)
    (same : toBits width x = toBits width y) : x = y := by
  rw [← ofBits_toBits hx,← ofBits_toBits hy,same]

/-- A list of fields of one non-zero width is determined by its bits. -/
theorem flatMap_toBits_injective {width : Nat} (positive : 0 < width) :
    ∀ {xs ys : List Nat}, (∀ x ∈ xs, x < 2 ^ width) → (∀ y ∈ ys, y < 2 ^ width) →
      xs.flatMap (toBits width) = ys.flatMap (toBits width) → xs = ys
  | [], [], _, _, _ => rfl
  | [], y :: ys, _, _, same => by
    have lengths := congrArg List.length same
    simp at lengths
    omega
  | x :: xs, [], _, _, same => by
    have lengths := congrArg List.length same
    simp at lengths
    omega
  | x :: xs, y :: ys, hx, hy, same => by
    simp only [List.flatMap_cons] at same
    obtain ⟨first,rest⟩ := List.append_inj same (by simp)
    rw [toBits_injective (hx x List.mem_cons_self) (hy y List.mem_cons_self) first,
      flatMap_toBits_injective positive (fun x member => hx x (List.mem_cons_of_mem _ member))
        (fun y member => hy y (List.mem_cons_of_mem _ member)) rest]

end BitString
