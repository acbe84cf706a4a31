import Mathlib.Data.Nat.Digits.Lemmas

/-! Numbers held in fixed buffers of digits, little-endian and read by
`Nat.ofDigits`: the pass that multiplies such a number by a factor and adds a
carry, one digit at a time from the least significant, the same pass stopped
once the carry is spent past the digits in use, the canonical digits a buffer
holds under its zeros, and the size of buffer that holds every number of a
given length in another base. -/
namespace Radix

variable (radix factor : Nat)

/-- `digits * factor + carry`, through every digit; the carry left over. -/
def mulAdd : Nat → List Nat → List Nat × Nat
  | carry, [] => ([],carry)
  | carry, digit :: digits =>
    let carry := carry + factor * digit
    let next := mulAdd (carry / radix) digits
    (carry % radix :: next.1,next.2)

/-- `mulAdd` that stops at a digit past the first `length` when the carry is
spent; also the index it stopped at. -/
def mulAddWhile (length : Nat) : Nat → Nat → List Nat → List Nat × Nat × Nat
  | carry, i, [] => ([],carry,i)
  | carry, i, digit :: digits =>
    if carry ≠ 0 ∨ i < length then
      let carry := carry + factor * digit
      let next := mulAddWhile length (carry / radix) (i + 1) digits
      (carry % radix :: next.1,next.2)
    else (digit :: digits,carry,i)

variable {radix factor}

@[simp] theorem length_mulAdd (carry : Nat) (digits : List Nat) :
    (mulAdd radix factor carry digits).1.length = digits.length := by
  induction digits generalizing carry with
  | nil => rfl
  | cons digit digits ih => simp [mulAdd,ih]

theorem mulAdd_lt (positive : 0 < radix) (carry : Nat) (digits : List Nat) :
    ∀ d ∈ (mulAdd radix factor carry digits).1, d < radix := by
  induction digits generalizing carry with
  | nil => simp [mulAdd]
  | cons digit digits ih =>
    intro d member
    rcases List.mem_cons.mp member with rfl | rest
    · exact Nat.mod_lt _ positive
    · exact ih _ d rest

/-- The pass keeps the value: the digits and the carry above them hold the
product plus the incoming carry. -/
theorem ofDigits_mulAdd (carry : Nat) (digits : List Nat) :
    Nat.ofDigits radix (mulAdd radix factor carry digits).1 +
        radix ^ digits.length * (mulAdd radix factor carry digits).2 =
      Nat.ofDigits radix digits * factor + carry := by
  induction digits generalizing carry with
  | nil => simp [mulAdd]
  | cons digit digits ih =>
    set total := carry + factor * digit
    have split := Nat.mod_add_div total radix
    have rest := ih (total / radix)
    simp only [mulAdd,Nat.ofDigits_cons,List.length_cons,pow_succ]
    calc total % radix + radix * Nat.ofDigits radix (mulAdd radix factor (total / radix) digits).1 +
          radix ^ digits.length * radix * (mulAdd radix factor (total / radix) digits).2
        = total % radix + radix * (Nat.ofDigits radix (mulAdd radix factor (total / radix) digits).1 +
            radix ^ digits.length * (mulAdd radix factor (total / radix) digits).2) := by ring
      _ = total % radix + radix * (total / radix) + radix * (Nat.ofDigits radix digits * factor) := by
        rw [rest]; ring
      _ = (digit + radix * Nat.ofDigits radix digits) * factor + carry := by
        rw [split]; ring

/-- No carry is left when the result fits the buffer. -/
theorem mulAdd_carry_eq_zero {carry : Nat} {digits : List Nat}
    (fits : Nat.ofDigits radix digits * factor + carry < radix ^ digits.length) :
    (mulAdd radix factor carry digits).2 = 0 := by
  have value := @ofDigits_mulAdd radix factor carry digits
  by_contra left
  have : radix ^ digits.length ≤ radix ^ digits.length * (mulAdd radix factor carry digits).2 :=
    Nat.le_mul_of_pos_right _ (Nat.pos_of_ne_zero left)
  omega

/-- One pass with an incoming carry below the factor, on a buffer with room
for `n + 1` more such passes: no carry is left, and the buffer after it has
room for `n` more. -/
theorem mulAdd_room {carry n : Nat} {digits : List Nat} (small : carry < factor)
    (room : (Nat.ofDigits radix digits + 1) * factor ^ (n + 1) ≤ radix ^ digits.length) :
    (mulAdd radix factor carry digits).2 = 0 ∧
      Nat.ofDigits radix (mulAdd radix factor carry digits).1 = Nat.ofDigits radix digits * factor + carry ∧
      (Nat.ofDigits radix (mulAdd radix factor carry digits).1 + 1) * factor ^ n ≤ radix ^ digits.length := by
  set value := Nat.ofDigits radix digits
  have below : value * factor + carry + 1 ≤ (value + 1) * factor := by
    rw [Nat.add_mul,Nat.one_mul]
    omega
  have grown : (value + 1) * factor ≤ (value + 1) * factor ^ (n + 1) := by
    apply Nat.mul_le_mul_left
    calc factor = factor ^ 1 := (Nat.pow_one factor).symm
      _ ≤ factor ^ (n + 1) := Nat.pow_le_pow_right (by omega) (by omega)
  have spent : (mulAdd radix factor carry digits).2 = 0 :=
    mulAdd_carry_eq_zero (show value * factor + carry < radix ^ digits.length by omega)
  have kept := @ofDigits_mulAdd radix factor carry digits
  rw [spent,Nat.mul_zero,Nat.add_zero] at kept
  refine ⟨spent,kept,?_⟩
  calc (Nat.ofDigits radix (mulAdd radix factor carry digits).1 + 1) * factor ^ n
      = (value * factor + carry + 1) * factor ^ n := by rw [kept]
    _ ≤ (value + 1) * factor * factor ^ n := Nat.mul_le_mul_right _ below
    _ = (value + 1) * factor ^ (n + 1) := by rw [Nat.pow_succ]; ring
    _ ≤ radix ^ digits.length := room

theorem mulAdd_zeros (digits : List Nat) (zeros : ∀ d ∈ digits, d = 0) :
    mulAdd radix factor 0 digits = (digits,0) := by
  induction digits with
  | nil => rfl
  | cons digit digits ih =>
    have first : digit = 0 := zeros digit List.mem_cons_self
    have rest := ih fun d member => zeros d (List.mem_cons_of_mem _ member)
    simp [mulAdd,first,rest]

/-- Where the digits past the first `length` are zero, stopping early changes
nothing, and the digits past the index it stops at are zero again. -/
theorem mulAddWhile_eq {length : Nat} (digits : List Nat) :
    ∀ {carry i : Nat}, (∀ d ∈ digits.drop (length - i), d = 0) →
      (mulAddWhile radix factor length carry i digits).1 = (mulAdd radix factor carry digits).1 ∧
        (mulAddWhile radix factor length carry i digits).2.1 = (mulAdd radix factor carry digits).2 ∧
        i ≤ (mulAddWhile radix factor length carry i digits).2.2 ∧
        (mulAddWhile radix factor length carry i digits).2.2 ≤ i + digits.length ∧
        ∀ d ∈ (mulAddWhile radix factor length carry i digits).1.drop
          ((mulAddWhile radix factor length carry i digits).2.2 - i), d = 0 := by
  induction digits with
  | nil => intro carry i _; simp [mulAddWhile,mulAdd]
  | cons digit digits ih =>
    intro carry i zeros
    by_cases go : carry ≠ 0 ∨ i < length
    · -- one digit is processed; the rest of the buffer meets the hypothesis one index on
      have later : ∀ d ∈ digits.drop (length - (i + 1)), d = 0 := by
        intro d member
        apply zeros d
        by_cases inside : i < length
        · rw [show length - i = length - (i + 1) + 1 by omega,List.drop_succ_cons]
          exact member
        · rw [show length - (i + 1) = 0 by omega,List.drop_zero] at member
          rw [show length - i = 0 by omega,List.drop_zero]
          exact List.mem_cons_of_mem _ member
      obtain ⟨same,carried,above,below,past⟩ := ih later
      simp only [mulAddWhile,if_pos go,mulAdd]
      refine ⟨by rw [same],carried,by omega,by simp; omega,?_⟩
      rw [show (mulAddWhile radix factor length ((carry + factor * digit) / radix) (i + 1) digits).2.2 - i =
        (mulAddWhile radix factor length ((carry + factor * digit) / radix) (i + 1) digits).2.2 - (i + 1) + 1 by omega,
        List.drop_succ_cons]
      exact past
    · -- the carry is spent past the digits in use: the rest of the buffer is zero
      obtain ⟨spent,used⟩ : carry = 0 ∧ length ≤ i := by omega
      subst spent
      rw [show length - i = 0 by omega,List.drop_zero] at zeros
      have stop : mulAddWhile radix factor length 0 i (digit :: digits) = (digit :: digits,0,i) := by
        simp only [mulAddWhile,if_neg go]
      rw [stop,mulAdd_zeros _ zeros,Nat.sub_self,List.drop_zero]
      exact ⟨rfl,rfl,le_refl i,by simp,zeros⟩

/-- A buffer of digits is the canonical digits of its value, then zeros. -/
theorem eq_digits_append_zeros (one_lt : 1 < radix) {digits : List Nat} (small : ∀ d ∈ digits, d < radix) :
    digits = Nat.digits radix (Nat.ofDigits radix digits) ++
      List.replicate (digits.length - (Nat.digits radix (Nat.ofDigits radix digits)).length) 0 := by
  have short : (Nat.digits radix (Nat.ofDigits radix digits)).length ≤ digits.length :=
    (Nat.digits_length_le_iff one_lt _).mpr (Nat.ofDigits_lt_base_pow_length one_lt small)
  apply Nat.ofDigits_inj_of_len_eq one_lt
  · simp only [List.length_append,List.length_replicate]
    omega
  · exact small
  · intro d member
    rcases List.mem_append.mp member with canonical | zero
    · exact Nat.digits_lt_base one_lt canonical
    · rw [List.eq_of_mem_replicate zero]
      omega
  · rw [Nat.ofDigits_append_replicate_zero,Nat.ofDigits_digits]

theorem dropWhile_replicate_append {α : Type} (p : α → Bool) {a : α} (skipped : p a = true) (k : Nat)
    (rest : List α) : (List.replicate k a ++ rest).dropWhile p = rest.dropWhile p := by
  induction k with
  | zero => rfl
  | succ k ih => simp [List.replicate_succ,skipped,ih]

/-- Read most significant first, a buffer with its leading zeros dropped is
the canonical digits of its value. -/
theorem dropWhile_reverse (one_lt : 1 < radix) {digits : List Nat} (small : ∀ d ∈ digits, d < radix) :
    digits.reverse.dropWhile (· == 0) = (Nat.digits radix (Nat.ofDigits radix digits)).reverse := by
  have layout := eq_digits_append_zeros one_lt small
  generalize Nat.ofDigits radix digits = n at layout
  rw [layout,List.reverse_append,List.reverse_replicate,dropWhile_replicate_append _ (by rfl)]
  cases canonical : (Nat.digits radix n).reverse with
  | nil => rfl
  | cons top rest =>
    -- the most significant canonical digit is not zero
    have nonzero : n ≠ 0 := by
      intro zero
      simp [zero] at canonical
    have last := Nat.getLast_digit_ne_zero radix nonzero
    rw [List.getLast_eq_head_reverse] at last
    simp only [canonical,List.head_cons] at last
    simp [last]

/-- Canonical digits, most significant first, do not start with zero. -/
theorem head?_reverse_digits (b n : Nat) : (Nat.digits b n).reverse.head? ≠ some 0 := by
  intro first
  by_cases zero : n = 0
  · simp [zero] at first
  · have last := Nat.getLast_digit_ne_zero b zero
    rw [List.getLast_eq_head_reverse] at last
    rw [List.head?_eq_some_head (by simpa using Nat.digits_ne_nil_iff_ne_zero.mpr zero)] at first
    exact last (Option.some.inj first)

/-- Digits, most significant first and not starting with zero, are the
canonical digits of their value. -/
theorem reverse_digits_ofDigits_reverse (one_lt : 1 < radix) {digits : List Nat} (small : ∀ d ∈ digits, d < radix)
    (top : digits.head? ≠ some 0) : (Nat.digits radix (Nat.ofDigits radix digits.reverse)).reverse = digits := by
  rw [Nat.digits_ofDigits radix one_lt _ (fun d member => small d (List.mem_reverse.mp member)),List.reverse_reverse]
  intro nonempty
  rw [List.getLast_reverse]
  intro zero
  apply top
  rw [List.head?_eq_some_head (by simpa using nonempty),zero]

/-- A buffer of `k * q / p + 1` digits in base `b` holds every number below
`a ^ k` once `a ^ p ≤ b ^ q`. -/
theorem pow_le_pow_div_succ {a b p q : Nat} (ratio : a ^ p ≤ b ^ q) (positive : 0 < p) (base : 0 < b) (k : Nat) :
    a ^ k ≤ b ^ (k * q / p + 1) := by
  rw [← Nat.pow_le_pow_iff_left (Nat.pos_iff_ne_zero.mp positive)]
  calc (a ^ k) ^ p = (a ^ p) ^ k := by rw [← Nat.pow_mul,← Nat.pow_mul,Nat.mul_comm]
    _ ≤ (b ^ q) ^ k := Nat.pow_le_pow_left ratio k
    _ = b ^ (k * q) := by rw [← Nat.pow_mul,Nat.mul_comm]
    _ ≤ b ^ ((k * q / p + 1) * p) := by
      apply Nat.pow_le_pow_right base
      rw [Nat.mul_comm _ p]
      exact (Nat.lt_mul_div_succ (k * q) positive).le
    _ = (b ^ (k * q / p + 1)) ^ p := by rw [Nat.pow_mul]

end Radix
