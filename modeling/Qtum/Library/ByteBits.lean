import Mathlib.Data.Nat.Bitwise

/-! Byte strings read as strings of bits: bit `n` is bit `n % 8` of byte
`n / 8`, the lowest bit of a byte first. A bit is set by ORing a shifted one
into its byte and read by masking the byte with it, the byte and the bit
found by `n >>> 3` and `7 &&& n`. -/
namespace ByteBits

theorem testBit_shifted : ∀ bit : Bool, ∀ shift < 8, ∀ j < 8,
    ((bit.toUInt8 <<< shift.toUInt8).toNat).testBit j = (bit && decide (j = shift)) := by
  decide

theorem toNat_one_shiftLeft : ∀ shift < 8, ((1 : UInt8) <<< shift.toUInt8).toNat = 2 ^ shift := by decide

/-- Masking a byte with a shifted one tests the bit. -/
theorem masked_ne_zero (byte : UInt8) {shift : Nat} (small : shift < 8) :
    ((byte &&& (1 <<< shift.toUInt8)) != 0) = byte.toNat.testBit shift := by
  have value : (byte &&& (1 <<< shift.toUInt8)).toNat = (byte.toNat.testBit shift).toNat * 2 ^ shift := by
    rw [UInt8.toNat_and,toNat_one_shiftLeft shift small,Nat.and_two_pow]
  cases bit : byte.toNat.testBit shift
  · rw [bit,Bool.toNat_false,Nat.zero_mul] at value
    rw [UInt8.toNat_inj.mp (show (byte &&& (1 <<< shift.toUInt8)).toNat = (0 : UInt8).toNat from value)]
    rfl
  · rw [bit,Bool.toNat_true,Nat.one_mul] at value
    have nonzero : byte &&& (1 <<< shift.toUInt8) ≠ 0 := by
      intro zero
      rw [zero] at value
      have := Nat.two_pow_pos shift
      simp at value
      omega
    simpa using nonzero

def getBit (bytes : List UInt8) (n : Nat) : Bool := (bytes.getD (n >>> 3) 0 &&& (1 <<< (7 &&& n).toUInt8)) != 0

def setBit (bytes : List UInt8) (n : Nat) : List UInt8 := bytes.modify (n >>> 3) (· ||| (1 <<< (7 &&& n).toUInt8))

theorem seven_and (n : Nat) : 7 &&& n = n % 8 := by
  rw [Nat.land_comm,show 7 = 2 ^ 3 - 1 by rfl,Nat.and_two_pow_sub_one_eq_mod]

theorem getBit_eq (bytes : List UInt8) (n : Nat) : getBit bytes n = (bytes.getD (n / 8) 0).toNat.testBit (n % 8) := by
  rw [getBit,seven_and,Nat.shiftRight_eq_div_pow,masked_ne_zero _ (Nat.mod_lt n (by decide))]

@[simp] theorem length_setBit (bytes : List UInt8) (n : Nat) : (setBit bytes n).length = bytes.length :=
  List.length_modify ..

/-- Setting bit `n` inside the string sets that bit and keeps the others. -/
theorem getBit_setBit {bytes : List UInt8} {n : Nat} (inside : n < bytes.length * 8) (m : Nat) :
    getBit (setBit bytes n) m = (getBit bytes m || decide (m = n)) := by
  have present : bytes[n / 8]? = some (bytes.getD (n / 8) 0) := by
    rw [List.getD_eq_getElem?_getD,List.getElem?_eq_getElem (by omega)]
    rfl
  rw [getBit_eq,getBit_eq,setBit,seven_and,Nat.shiftRight_eq_div_pow,show (2 : Nat) ^ 3 = 8 from rfl,
    List.getD_eq_getElem?_getD,List.getElem?_modify]
  by_cases sameByte : n / 8 = m / 8
  · -- the written byte: its bit `m % 8` is the old one or the one ORed in
    rw [← sameByte,present]
    simp only [Option.map_eq_map,Option.map_some,if_true,Option.getD_some,UInt8.toNat_or,Nat.testBit_or]
    rw [show (1 : UInt8) = true.toUInt8 from rfl,testBit_shifted true (n % 8) (Nat.mod_lt n (by decide)) (m % 8)
        (Nat.mod_lt m (by decide)),Bool.true_and]
    rw [decide_eq_decide.mpr (show m % 8 = n % 8 ↔ m = n by omega)]
  · have other : m ≠ n := by
      intro equal
      rw [equal] at sameByte
      exact sameByte rfl
    simp only [sameByte,if_false,Option.map_eq_map,Option.map_id_fun',id_eq,decide_eq_false other,Bool.or_false,
      List.getD_eq_getElem?_getD]

/-- Setting a bit clears none; outside the string it changes nothing. -/
theorem getBit_setBit_of_getBit {bytes : List UInt8} {m : Nat} (set : getBit bytes m = true) (n : Nat) :
    getBit (setBit bytes n) m = true := by
  by_cases inside : n < bytes.length * 8
  · rw [getBit_setBit inside,set,Bool.true_or]
  · have unchanged : setBit bytes n = bytes := by
      rw [setBit]
      apply List.modify_eq_self
      rw [Nat.shiftRight_eq_div_pow]
      omega
    rw [unchanged]
    exact set

theorem getBit_foldl_setBit_of_getBit (positions : List Nat) :
    ∀ {bytes : List UInt8} {m : Nat}, getBit bytes m = true → getBit (positions.foldl setBit bytes) m = true := by
  induction positions with
  | nil =>
    intro bytes m set
    exact set
  | cons n positions ih =>
    intro bytes m set
    exact ih (getBit_setBit_of_getBit set n)

/-- Setting the bits at `positions`, all inside the string, one after the
other. -/
theorem getBit_foldl_setBit (positions : List Nat) :
    ∀ (bytes : List UInt8), (∀ n ∈ positions, n < bytes.length * 8) → ∀ m,
      getBit (positions.foldl setBit bytes) m = (getBit bytes m || decide (m ∈ positions)) := by
  induction positions with
  | nil =>
    intro bytes _ m
    rw [List.foldl_nil,decide_eq_false List.not_mem_nil,Bool.or_false]
  | cons n positions ih =>
    intro bytes inside m
    have later : ∀ k ∈ positions, k < (setBit bytes n).length * 8 := by
      intro k member
      rw [length_setBit]
      exact inside k (List.mem_cons_of_mem n member)
    rw [List.foldl_cons,ih (setBit bytes n) later m,getBit_setBit (inside n List.mem_cons_self),Bool.or_assoc]
    simp only [List.mem_cons,Bool.decide_or]

@[simp] theorem length_foldl_setBit (positions : List Nat) (bytes : List UInt8) :
    (positions.foldl setBit bytes).length = bytes.length := by
  induction positions generalizing bytes with
  | nil => rfl
  | cons n positions ih => rw [List.foldl_cons,ih,length_setBit]

end ByteBits
