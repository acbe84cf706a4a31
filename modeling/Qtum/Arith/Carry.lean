import Qtum.Arith.Uint256
import Mathlib.Data.Nat.ModEq

/-! What the operators of `base_uint` built on the carry loop compute: the
sum, the products by a word and by a number, the complement, the increment
and decrement, the negation and the difference, each as the exact result
modulo `2 ^ (32 * WIDTH)`. The carry loop is proved once, as a conservation
law that includes its last carry; addition and both multiplications read
their results off it. -/
namespace Qtum.base_uint

open Limbs

variable {BITS : Nat}

/-- How the carry loop splits `n`: the low limb and the carry. -/
private theorem split_word (n : UInt64) :
    (n &&& 0xffffffff).toUInt32.toNat = n.toNat % 2 ^ 32 ∧ (n >>> 32).toNat = n.toNat / 2 ^ 32 := by
  have mask : (0xffffffff : UInt64).toNat = 2 ^ 32 - 1 := rfl
  refine ⟨?_,?_⟩
  · rw [UInt64.toNat_toUInt32,UInt64.toNat_and,mask,Nat.and_two_pow_sub_one_eq_mod,Nat.mod_mod]
  · rw [UInt64.toNat_shiftRight,Nat.shiftRight_eq_div_pow]
    rfl

/-- `n` of one pass of the carry loop does not overflow its 64 bits. -/
private theorem carry_term (factor : UInt64) (bounded : factor.toNat < 2 ^ 32) (limb x : UInt32) (carry : UInt64)
    (small : carry.toNat < 2 ^ 32) :
    (carry + limb.toUInt64 + factor * x.toUInt64).toNat = carry.toNat + limb.toNat + factor.toNat * x.toNat := by
  have product : factor.toNat * x.toNat ≤ (2 ^ 32 - 1) * (2 ^ 32 - 1) :=
    Nat.mul_le_mul (by omega) (by have := x.toNat_lt; omega)
  have := limb.toNat_lt
  rw [UInt64.toNat_add,UInt64.toNat_add,UInt64.toNat_mul,UInt32.toNat_toUInt64,UInt32.toNat_toUInt64,
    Nat.mod_eq_of_lt (a := carry.toNat + limb.toNat) (by omega),Nat.mod_eq_of_lt (a := factor.toNat * x.toNat) (by omega),
    Nat.mod_eq_of_lt (by omega)]

/-- The carry loop's conservation law: the limbs it writes and its last carry
make up the sum it adds, and the carry stays below one limb. -/
theorem carryRow_value (factor : UInt64) (bounded : factor.toNat < 2 ^ 32) (acc b : List UInt32) (carry : UInt64)
    (small : carry.toNat < 2 ^ 32) (room : acc.length ≤ b.length) :
    value (carryRow factor acc b carry).1 + 2 ^ (32 * acc.length) * (carryRow factor acc b carry).2.toNat =
        value acc + factor.toNat * value (b.take acc.length) + carry.toNat ∧
      (carryRow factor acc b carry).2.toNat < 2 ^ 32 := by
  induction acc generalizing b carry with
  | nil => simpa [carryRow] using small
  | cons limb acc ih =>
    obtain ⟨x,b,rfl⟩ : ∃ x rest, b = x :: rest := List.exists_cons_of_length_pos (by simp at room; omega)
    have sum := carry_term factor bounded limb x carry small
    have product : factor.toNat * x.toNat ≤ (2 ^ 32 - 1) * (2 ^ 32 - 1) :=
      Nat.mul_le_mul (by omega) (by have := x.toNat_lt; omega)
    have := limb.toNat_lt
    simp only [carryRow]
    generalize carry + limb.toUInt64 + factor * x.toUInt64 = n at sum ⊢
    obtain ⟨low,high⟩ := split_word n
    have next : (n >>> 32).toNat < 2 ^ 32 := by rw [high,sum]; omega
    obtain ⟨rest,bound⟩ := ih b (n >>> 32) next (by simp at room; omega)
    refine ⟨?_,bound⟩
    rw [high,sum] at rest
    have whole := Nat.mod_add_div (carry.toNat + limb.toNat + factor.toNat * x.toNat) (2 ^ 32)
    have weight : 2 ^ (32 * (acc.length + 1)) = 2 ^ 32 * 2 ^ (32 * acc.length) := by
      rw [Nat.mul_succ,Nat.pow_add,Nat.mul_comm]
    simp only [value_cons,List.length_cons,List.take_succ_cons,low,sum,weight]
    calc _ = (carry.toNat + limb.toNat + factor.toNat * x.toNat) % 2 ^ 32 +
          2 ^ 32 * (value (carryRow factor acc b (n >>> 32)).1 +
            2 ^ (32 * acc.length) * (carryRow factor acc b (n >>> 32)).2.toNat) := by
          rw [Nat.mul_add,Nat.mul_assoc,Nat.add_assoc]
      _ = _ := by
          rw [rest,Nat.mul_add,Nat.mul_add,Nat.mul_add factor.toNat,Nat.mul_left_comm factor.toNat]
          omega
/-- What the carry loop leaves in the limbs: the sum modulo their width. -/
theorem value_carryRow (factor : UInt64) (bounded : factor.toNat < 2 ^ 32) (acc b : List UInt32)
    (room : acc.length ≤ b.length) :
    value (carryRow factor acc b 0).1 = (value acc + factor.toNat * value (b.take acc.length)) % 2 ^ (32 * acc.length) := by
  have conserved := (carryRow_value factor bounded acc b 0 (by decide) room).1
  have bound := value_lt (carryRow factor acc b 0).1
  rw [length_carryRow,Nat.min_eq_left room] at bound
  rw [UInt64.toNat_zero,Nat.add_zero] at conserved
  rw [← conserved,Nat.add_mul_mod_self_left,Nat.mod_eq_of_lt bound]

theorem val_lt (a : base_uint BITS) : a.val < 2 ^ (32 * (BITS / 32)) := by
  have bound := value_lt a.pn
  rwa [a.length_pn] at bound

theorem take_pn (a : base_uint BITS) : a.pn.take (BITS / 32) = a.pn := by
  rw [List.take_of_length_le (by rw [a.length_pn])]

theorem val_add (a b : base_uint BITS) : (a.add b).val = (a.val + b.val) % 2 ^ (32 * (BITS / 32)) := by
  have row := value_carryRow 1 (by decide) a.pn b.pn (by rw [a.length_pn,b.length_pn])
  rw [a.length_pn,b.take_pn,UInt64.toNat_one,Nat.one_mul] at row
  exact row

example : ((ofUInt64 0xffffffff : arith_uint256).add (ofUInt64 1)).pn = [0,1,0,0,0,0,0,0] := by decide

theorem val_mulWord (a : base_uint BITS) (b32 : UInt32) :
    (a.mulWord b32).val = a.val * b32.toNat % 2 ^ (32 * (BITS / 32)) := by
  have row := value_carryRow b32.toUInt64 (by rw [UInt32.toNat_toUInt64]; exact b32.toNat_lt)
    (List.replicate (BITS / 32) 0) a.pn (by rw [List.length_replicate,a.length_pn])
  rw [List.length_replicate,a.take_pn,value_replicate_zero,Nat.zero_add,UInt32.toNat_toUInt64,Nat.mul_comm] at row
  exact row

theorem value_map_complement (limbs : List UInt32) :
    value (limbs.map (~~~ ·)) = 2 ^ (32 * limbs.length) - 1 - value limbs := by
  induction limbs with
  | nil => rfl
  | cons limb rest ih =>
    have bound := value_lt rest
    have := limb.toNat_lt
    have weight : 2 ^ (32 * (rest.length + 1)) = 2 ^ 32 * 2 ^ (32 * rest.length) := by
      rw [Nat.mul_succ,Nat.pow_add,Nat.mul_comm]
    simp only [List.map_cons,value_cons,ih,UInt32.toNat_not,List.length_cons,weight]
    have size : UInt32.size = 2 ^ 32 := rfl
    rw [size,Nat.mul_sub,Nat.mul_sub,Nat.mul_one]
    have : 2 ^ 32 * value rest + 2 ^ 32 ≤ 2 ^ 32 * 2 ^ (32 * rest.length) := by
      rw [← Nat.mul_succ]; exact Nat.mul_le_mul_left _ bound
    omega

theorem value_increment (limbs : List UInt32) :
    value (increment limbs) = (value limbs + 1) % 2 ^ (32 * limbs.length) := by
  induction limbs with
  | nil => rfl
  | cons limb rest ih =>
    have bound := value_lt rest
    have weight : 2 ^ (32 * (rest.length + 1)) = 2 ^ 32 * 2 ^ (32 * rest.length) := by
      rw [Nat.mul_succ,Nat.pow_add,Nat.mul_comm]
    have sum : (limb + 1).toNat = (limb.toNat + 1) % 2 ^ 32 := by rw [UInt32.toNat_add,UInt32.toNat_one]
    rw [increment,List.length_cons,weight]
    by_cases wraps : limb + 1 = 0
    · -- the limb wraps to zero and the carry moves up, unless it is the top limb
      have top : limb.toNat + 1 = 2 ^ 32 := by
        rw [wraps,UInt32.toNat_zero] at sum
        have := limb.toNat_lt
        omega
      have carried : limb.toNat + 2 ^ 32 * value rest + 1 = 2 ^ 32 * (value rest + 1) := by omega
      rw [wraps,value_cons,carried,Nat.mul_mod_mul_left]
      cases rest with
      | nil => rfl
      | cons next rest =>
        simp only [beq_self_eq_true,List.isEmpty_cons,Bool.not_false,Bool.and_self,if_true,value_cons,
          UInt32.toNat_zero,Nat.zero_add,ih]
    · have below : limb.toNat + 1 < 2 ^ 32 := by
        by_contra top
        apply wraps
        apply UInt32.toNat_inj.mp
        have := limb.toNat_lt
        rw [sum,UInt32.toNat_zero]
        omega
      have fits : limb.toNat + 1 + 2 ^ 32 * value rest < 2 ^ 32 * 2 ^ (32 * rest.length) := by
        have : 2 ^ 32 * value rest + 2 ^ 32 ≤ 2 ^ 32 * 2 ^ (32 * rest.length) := by
          rw [← Nat.mul_succ]; exact Nat.mul_le_mul_left _ bound
        omega
      rw [if_neg (by simp [wraps]),value_cons,value_cons,sum,Nat.mod_eq_of_lt below,
        Nat.mod_eq_of_lt (by omega)]
      omega

theorem value_decrement (limbs : List UInt32) :
    value (decrement limbs) = (value limbs + 2 ^ (32 * limbs.length) - 1) % 2 ^ (32 * limbs.length) := by
  induction limbs with
  | nil => rfl
  | cons limb rest ih =>
    have bound := value_lt rest
    have weight : 2 ^ (32 * (rest.length + 1)) = 2 ^ 32 * 2 ^ (32 * rest.length) := by
      rw [Nat.mul_succ,Nat.pow_add,Nat.mul_comm]
    have difference : (limb - 1).toNat = (2 ^ 32 - 1 + limb.toNat) % 2 ^ 32 := by
      rw [UInt32.toNat_sub,UInt32.toNat_one]
    have room : 2 ^ 32 * value rest + 2 ^ 32 ≤ 2 ^ 32 * 2 ^ (32 * rest.length) := by
      rw [← Nat.mul_succ]; exact Nat.mul_le_mul_left _ bound
    rw [decrement,List.length_cons,weight]
    by_cases wraps : limb = 0
    · -- the limb wraps to `0xffffffff` and the borrow moves up, unless it is the top limb
      subst wraps
      have top : ((0 : UInt32) - 1).toNat = 2 ^ 32 - 1 := rfl
      cases rest with
      | nil =>
        simp only [List.isEmpty_nil,Bool.not_true,Bool.and_false,Bool.false_eq_true,if_false,value_cons,value_nil,top]
        rfl
      | cons next rest =>
        simp only [show ((0 : UInt32) - 1 == 0xffffffff) = true from rfl,List.isEmpty_cons,Bool.not_false,
          Bool.and_self,if_true]
        rw [value_cons (0 - 1),value_cons 0,top,UInt32.toNat_zero,Nat.zero_add,ih]
        generalize value (next :: rest) = v at bound room ⊢
        generalize 2 ^ (32 * (next :: rest).length) = P at bound room ⊢
        by_cases zero : v = 0
        · subst zero
          rw [Nat.zero_add,Nat.mod_eq_of_lt (by omega),Nat.mul_zero,Nat.zero_add,Nat.mod_eq_of_lt (by omega)]
          omega
        · rw [show v + P - 1 = v - 1 + P by omega,Nat.add_mod_right,Nat.mod_eq_of_lt (by omega),
            show 2 ^ 32 * v + 2 ^ 32 * P - 1 = 2 ^ 32 * v - 1 + 2 ^ 32 * P by omega,Nat.add_mod_right,
            Nat.mod_eq_of_lt (by omega)]
          omega
    · have positive : 0 < limb.toNat := Nat.pos_of_ne_zero fun zero => wraps (UInt32.toNat_inj.mp zero)
      have lower : (limb - 1).toNat = limb.toNat - 1 := by
        have := limb.toNat_lt
        rw [difference,show 2 ^ 32 - 1 + limb.toNat = limb.toNat - 1 + 2 ^ 32 by omega,Nat.add_mod_right,
          Nat.mod_eq_of_lt (by omega)]
      have stays : ¬(limb - 1 == 0xffffffff) = true := by
        intro same
        have := congrArg UInt32.toNat (beq_iff_eq.mp same)
        rw [lower,show (0xffffffff : UInt32).toNat = 2 ^ 32 - 1 from rfl] at this
        have := limb.toNat_lt
        omega
      rw [if_neg (by simp only [Bool.and_eq_true,not_and]; exact fun same => absurd same stays),value_cons,value_cons,
        lower,show limb.toNat + 2 ^ 32 * value rest + 2 ^ 32 * 2 ^ (32 * rest.length) - 1 =
          limb.toNat - 1 + 2 ^ 32 * value rest + 2 ^ 32 * 2 ^ (32 * rest.length) by omega,Nat.add_mod_right,
        Nat.mod_eq_of_lt (by have := limb.toNat_lt; omega)]

theorem val_inc (a : base_uint BITS) : a.inc.val = (a.val + 1) % 2 ^ (32 * (BITS / 32)) := by
  rw [inc,val,value_increment,a.length_pn]
  rfl

theorem val_dec (a : base_uint BITS) :
    a.dec.val = (a.val + 2 ^ (32 * (BITS / 32)) - 1) % 2 ^ (32 * (BITS / 32)) := by
  rw [dec,val,value_decrement,a.length_pn]
  rfl

theorem val_neg (a : base_uint BITS) :
    a.neg.val = (2 ^ (32 * (BITS / 32)) - a.val) % 2 ^ (32 * (BITS / 32)) := by
  have bound := a.val_lt
  rw [neg,inc,complement,val,value_increment,value_map_complement,List.length_map,a.length_pn]
  congr 1
  simp only [val] at bound ⊢
  omega

theorem val_sub (a b : base_uint BITS) :
    ((a.sub b).val : Int) = ((a.val : Int) - b.val) % (2 ^ (32 * (BITS / 32)) : Nat) := by
  have bound := b.val_lt
  rw [sub,val_add,val_neg,Nat.add_mod_mod,Int.natCast_mod,Nat.cast_add,Nat.cast_sub bound.le,
    show (a.val : Int) + ((2 ^ (32 * (BITS / 32)) : Nat) - b.val) = a.val - b.val + (2 ^ (32 * (BITS / 32)) : Nat) by omega,
    ← Int.emod_eq_add_self_emod]

/-- The row of `a.pn[j]` adds `2 ^ (32 * j) * a.pn[j] * b` to the product so far,
modulo the width: what the row drops lies above the top limb. -/
theorem value_mulRow (b pn : List UInt32) (width : b.length = pn.length) {j : Nat} (inside : j ≤ pn.length) (aj : UInt32) :
    value (pn.take j ++ (carryRow aj.toUInt64 (pn.drop j) b 0).1) ≡
      value pn + 2 ^ (32 * j) * (aj.toNat * value b) [MOD 2 ^ (32 * pn.length)] := by
  have row := value_carryRow aj.toUInt64 (by rw [UInt32.toNat_toUInt64]; exact aj.toNat_lt) (pn.drop j) b
    (by rw [List.length_drop]; omega)
  have whole := value_append (pn.take j) (pn.drop j)
  rw [List.take_append_drop,List.length_take_of_le inside] at whole
  rw [List.length_drop,UInt32.toNat_toUInt64,value_take] at row
  have modulus : 2 ^ (32 * pn.length) = 2 ^ (32 * j) * 2 ^ (32 * (pn.length - j)) := by
    rw [← Nat.pow_add]; congr 1; omega
  rw [value_append,List.length_take_of_le inside,row,← Nat.mul_mod_mul_left,← modulus,whole,modulus,Nat.add_assoc]
  -- the row reads `b` only below `2 ^ (32 * (width - j))`
  have truncated : aj.toNat * (value b % 2 ^ (32 * (pn.length - j))) ≡ aj.toNat * value b [MOD 2 ^ (32 * (pn.length - j))] :=
    (Nat.mod_modEq _ _).mul_left _
  refine Nat.ModEq.add_left _ ?_
  refine (Nat.mod_modEq _ _).trans ?_
  rw [Nat.mul_add]
  exact Nat.ModEq.add_left _ (truncated.mul_left' _)

theorem value_mulRows (b : List UInt32) (j : Nat) (a pn : List UInt32) (width : b.length = pn.length)
    (fits : j + a.length ≤ pn.length) :
    value (mulRows b j a pn) = (value pn + 2 ^ (32 * j) * (value a * value b)) % 2 ^ (32 * pn.length) := by
  induction a generalizing j pn with
  | nil => simp [mulRows,Nat.mod_eq_of_lt (value_lt pn)]
  | cons aj a ih =>
    simp only [List.length_cons] at fits
    have row := value_mulRow b pn width (j := j) (by omega) aj
    have length : (pn.take j ++ (carryRow aj.toUInt64 (pn.drop j) b 0).1).length = pn.length := by
      simp only [List.length_append,List.length_take,length_carryRow,List.length_drop]
      omega
    rw [mulRows,ih (j + 1) _ (by rw [length,width]) (by rw [length]; omega),length]
    have weight : 2 ^ (32 * (j + 1)) = 2 ^ (32 * j) * 2 ^ 32 := by rw [Nat.mul_succ,Nat.pow_add]
    have split : 2 ^ (32 * j) * ((aj.toNat + 2 ^ 32 * value a) * value b) =
        2 ^ (32 * j) * (aj.toNat * value b) + 2 ^ (32 * (j + 1)) * (value a * value b) := by
      rw [weight,Nat.add_mul,Nat.mul_add,Nat.mul_assoc,Nat.mul_assoc]
    rw [value_cons,split,← Nat.add_assoc]
    exact row.add_right _

theorem val_mul (a b : base_uint BITS) : (a.mul b).val = a.val * b.val % 2 ^ (32 * (BITS / 32)) := by
  have rows := value_mulRows b.pn 0 a.pn (List.replicate (BITS / 32) 0) (by simp [b.length_pn])
    (by simp [a.length_pn])
  rw [value_replicate_zero,Nat.zero_add,Nat.mul_zero,Nat.pow_zero,Nat.one_mul,List.length_replicate] at rows
  exact rows

/-- `base_uint(uint64_t)` holds the number when there are two limbs for it. -/
theorem val_ofUInt64 (b : UInt64) (wide : 2 ≤ BITS / 32) : (ofUInt64 b : base_uint BITS).val = b.toNat := by
  obtain ⟨rest,width⟩ : ∃ rest, BITS / 32 = rest + 2 := ⟨BITS / 32 - 2,by omega⟩
  have high : ∀ i, (if i + 2 = 0 then b.toUInt32 else if i + 2 = 1 then (b >>> 32).toUInt32 else 0) = 0 := by
    intro i
    simp
  simp only [val,ofUInt64,width,List.range_succ_eq_map,List.map_cons,List.map_map,Function.comp_def,
    Nat.succ_eq_add_one,Nat.zero_add,high]
  simp only [List.map_const',value_replicate_zero,value_cons,if_true,show (1 = 0) = False by decide,if_false,
    Nat.mul_zero,Nat.add_zero,UInt64.toNat_toUInt32,UInt64.toNat_shiftRight,Nat.shiftRight_eq_div_pow,
    show (32 : UInt64).toNat % 64 = 32 from rfl]
  have := b.toNat_lt
  omega

/-- `GetLow64` reads the number modulo `2 ^ 64`. -/
theorem GetLow64_toNat (a : base_uint BITS) (wide : 2 ≤ BITS / 32) : a.GetLow64.toNat = a.val % 2 ^ 64 := by
  obtain ⟨low,high,rest,split⟩ : ∃ low high rest, a.pn = low :: high :: rest := by
    match h : a.pn, a.length_pn with
    | low :: high :: rest, _ => exact ⟨low,high,rest,rfl⟩
    | [], length => simp at length; omega
    | [_], length => simp at length; omega
  have words : (low.toUInt64 ||| high.toUInt64 <<< 32).toNat = low.toNat + 2 ^ 32 * high.toNat := by
    rw [UInt64.toNat_or,UInt64.toNat_shiftLeft,UInt32.toNat_toUInt64,UInt32.toNat_toUInt64,Nat.shiftLeft_eq,
      show (32 : UInt64).toNat % 64 = 32 from rfl,Nat.mod_eq_of_lt (by have := high.toNat_lt; omega),Nat.mul_comm,
      Nat.add_comm,Nat.two_pow_add_eq_or_of_lt low.toNat_lt,Nat.or_comm]
  have two := value_take a.pn 2
  rw [split] at two
  rw [GetLow64,val,split]
  simp only [List.getD_cons_zero,List.getD_cons_succ,words]
  simpa using two

end Qtum.base_uint
