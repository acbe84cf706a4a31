import Qtum.Library.Decoder
import Mathlib.Data.Nat.ModEq

/-! Base-128 integers, most significant digit first, with the one-less rule:
every byte but the last carries the flag 0x80, and a flagged digit stands
for one more than its value, so every number has exactly one encoding
(bijective numeration). The writer is the loop of a writer that emits the
low digit first into a buffer read out backwards; the reader accumulates in
the arithmetic of the integer type it reads into, which either wraps
(unsigned types) or is undefined past the largest value (signed types). -/
namespace VarInt

/-- The byte of one digit, flagged where another digit follows. -/
def digitByte (n : Nat) (flagged : Bool) : UInt8 := UInt8.ofNat (n % 128 + if flagged then 0x80 else 0)

/-- The writer's loop. The bytes already produced are in output order, and
the digit of `n` goes before them, flagged unless it is the last digit. -/
def writeFrom : Nat → Nat → Bool → List UInt8 → List UInt8
  | 0, _, _, written => written
  | fuel + 1, n, flagged, written =>
    let written := digitByte n flagged :: written
    if n ≤ 0x7f then written else writeFrom fuel (n / 128 - 1) true written

/-- The encoding of a natural number; each step divides by 128, so `n + 1`
steps are enough. -/
def write (n : Nat) : List UInt8 := writeFrom (n + 1) n false []

/-- A negative value of a signed type ends the loop at once (`n <= 0x7F`) with
its low seven bits. -/
def writeInt (n : Int) : List UInt8 := if n < 0 then [UInt8.ofNat (n % 128).toNat] else write n.toNat

/-- The reader's loop, in the arithmetic `fit` of the type read into: `fit`
takes an exact result to the value the type holds, or fails where the
operation is undefined. The shift and the digit are one step, since they
touch disjoint bits. -/
def readFrom (fit : Nat → Except Abort Nat) (n : Nat) : Decoder Nat
  | [] => .ok none
  | ch :: rest =>
    match fit (n * 128 + ch.toNat % 128) with
    | .error failure => .error failure
    | .ok n =>
      if ch.toNat < 128 then .ok (some (n,rest))
      else match fit (n + 1) with
        | .error failure => .error failure
        | .ok n => readFrom fit n rest

def read (fit : Nat → Except Abort Nat) : Decoder Nat := readFrom fit 0

/-- An unsigned type of `width` bits wraps. -/
def unsigned (width : Nat) (x : Nat) : Except Abort Nat := .ok (x % 2 ^ width)

/-- A signed type with largest value `max`: overflow is undefined. -/
def signed (max : Nat) (x : Nat) : Except Abort Nat := if max < x then .error .overflow else .ok x

/-- `fit` computes `reduce` up to `bound`, and `reduce` shrinks values and
commutes with the reader's two steps. -/
structure Exact (fit : Nat → Except Abort Nat) (reduce : Nat → Nat) (bound : Nat) : Prop where
  fits : ∀ x, x ≤ bound → fit x = .ok (reduce x)
  shrinks : ∀ x, reduce x ≤ x
  digit : ∀ a r, reduce (reduce a * 128 + r) = reduce (a * 128 + r)
  succ : ∀ a, reduce (reduce a + 1) = reduce (a + 1)

theorem unsigned_exact (width bound : Nat) : Exact (unsigned width) (· % 2 ^ width) bound where
  fits _ _ := rfl
  shrinks x := Nat.mod_le x _
  digit a r := ((Nat.mod_modEq a _).mul_right 128).add_right r
  succ a := Nat.mod_add_mod a _ 1

theorem signed_exact (max : Nat) : Exact (signed max) id max where
  fits x bound := by simp [signed,Nat.not_lt.mpr bound]
  shrinks x := le_refl x
  digit _ _ := rfl
  succ _ := rfl

theorem writeFrom_append (fuel n : Nat) (flagged : Bool) (written : List UInt8) :
    writeFrom fuel n flagged written = writeFrom fuel n flagged [] ++ written := by
  induction fuel generalizing n flagged written with
  | zero => rfl
  | succ fuel induct =>
    simp only [writeFrom]
    split
    · rfl
    · rw [induct _ _ (_ :: written),induct _ _ [_]]
      simp

/-- The loop of `GetSizeOfVarInt`: a byte for each digit the writer emits. -/
def sizeFrom : Nat → Nat → Nat
  | 0, _ => 0
  | fuel + 1, n => if n ≤ 0x7f then 1 else sizeFrom fuel (n / 128 - 1) + 1

/-- `GetSizeOfVarInt` of an unsigned value. -/
def GetSizeOfVarInt (n : Nat) : Nat := sizeFrom (n + 1) n

/-- `GetSizeOfVarInt` of a signed value: a negative one stops at the first byte. -/
def GetSizeOfVarIntInt (n : Int) : Nat := if n < 0 then 1 else GetSizeOfVarInt n.toNat

theorem digitByte_true_toNat (n : Nat) : (digitByte n true).toNat = n % 128 + 128 := by
  have bound : n % 128 < 128 := Nat.mod_lt n (by decide)
  simp only [digitByte,if_pos,UInt8.toNat_ofNat']
  omega

theorem digitByte_false_toNat (n : Nat) : (digitByte n false).toNat = n % 128 := by
  have bound : n % 128 < 128 := Nat.mod_lt n (by decide)
  simp only [digitByte,Bool.false_eq_true,if_false,Nat.add_zero,UInt8.toNat_ofNat']
  omega

private theorem writeFrom_succ_small {fuel n : Nat} (small : n ≤ 0x7f) (flagged : Bool) :
    writeFrom (fuel + 1) n flagged [] = [digitByte n flagged] := by
  simp [writeFrom,small]

private theorem writeFrom_succ_large {fuel n : Nat} (large : ¬n ≤ 0x7f) (flagged : Bool) :
    writeFrom (fuel + 1) n flagged [] = writeFrom fuel (n / 128 - 1) true [] ++ [digitByte n flagged] := by
  simp only [writeFrom,large,if_false]
  exact writeFrom_append _ _ _ _

section Exact

variable {fit : Nat → Except Abort Nat} {reduce : Nat → Nat} {bound : Nat}

/-- Reading a digit whose accumulated value is at most the bound. -/
private theorem readFrom_digit (exact : Exact fit reduce bound) {acc : Nat} {ch : UInt8} {rest : List UInt8}
    (fits : acc * 128 + ch.toNat % 128 ≤ bound) :
    readFrom fit (reduce acc) (ch :: rest) =
      if ch.toNat < 128 then .ok (some (reduce (acc * 128 + ch.toNat % 128),rest))
      else match fit (reduce (acc * 128 + ch.toNat % 128) + 1) with
        | .error failure => .error failure
        | .ok n => readFrom fit n rest := by
  have small : reduce acc * 128 + ch.toNat % 128 ≤ bound := by
    have := exact.shrinks acc
    have : reduce acc * 128 ≤ acc * 128 := Nat.mul_le_mul_right 128 this
    omega
  rw [readFrom,exact.fits _ small,exact.digit]

/-- A flagged encoding of `n` leaves the accumulator at `n + 1`. -/
theorem readFrom_writeFrom (exact : Exact fit reduce bound) :
    ∀ fuel n, n < fuel → n + 1 ≤ bound → ∀ rest,
      readFrom fit 0 (writeFrom fuel n true [] ++ rest) = readFrom fit (reduce (n + 1)) rest := by
  intro fuel
  induction fuel with
  | zero => intro n below; omega
  | succ fuel induct =>
    intro n below fits rest
    have next : reduce n + 1 ≤ bound := by have := exact.shrinks n; omega
    have flagged : ¬(digitByte n true).toNat < 128 := by rw [digitByte_true_toNat]; omega
    by_cases small : n ≤ 0x7f
    · have digit : (digitByte n true).toNat % 128 = n := by rw [digitByte_true_toNat]; omega
      rw [writeFrom_succ_small small,List.singleton_append,readFrom]
      simp only [Nat.zero_mul,Nat.zero_add,digit,exact.fits n (by omega),flagged,if_false]
      rw [exact.fits _ next,exact.succ]
    · have quotient : n / 128 - 1 + 1 = n / 128 := by omega
      have digit : n / 128 * 128 + (digitByte n true).toNat % 128 = n := by
        rw [digitByte_true_toNat]; omega
      rw [writeFrom_succ_large small,List.append_assoc,
        induct (n / 128 - 1) (by omega) (by omega),List.singleton_append,quotient,
        readFrom_digit exact (by rw [digit]; omega)]
      simp only [flagged,if_false,digit]
      rw [exact.fits _ next,exact.succ]

/-- The reader takes back every value up to the bound, reduced into its type. -/
theorem read_write (exact : Exact fit reduce bound) {n : Nat} (fits : n ≤ bound) (rest : List UInt8) :
    read fit (write n ++ rest) = .ok (some (reduce n,rest)) := by
  unfold write read
  have last : (digitByte n false).toNat < 128 := by rw [digitByte_false_toNat]; omega
  by_cases small : n ≤ 0x7f
  · have digit : (digitByte n false).toNat % 128 = n := by rw [digitByte_false_toNat]; omega
    rw [writeFrom_succ_small small,List.singleton_append,readFrom]
    simp only [Nat.zero_mul,Nat.zero_add,digit,exact.fits n fits,last,if_true]
  · have quotient : n / 128 - 1 + 1 = n / 128 := by omega
    have digit : n / 128 * 128 + (digitByte n false).toNat % 128 = n := by
      rw [digitByte_false_toNat]; omega
    rw [writeFrom_succ_large small,List.append_assoc,
      readFrom_writeFrom exact n (n / 128 - 1) (by omega) (by omega),List.singleton_append,quotient,
      readFrom_digit exact (by rw [digit]; exact fits)]
    simp only [last,if_true,digit]

end Exact

theorem sizeFrom_eq_length (fuel n : Nat) (flagged : Bool) : sizeFrom fuel n = (writeFrom fuel n flagged []).length := by
  induction fuel generalizing n flagged with
  | zero => rfl
  | succ fuel induct =>
    by_cases small : n ≤ 0x7f
    · rw [writeFrom_succ_small small,sizeFrom,if_pos small]
      rfl
    · rw [writeFrom_succ_large small,sizeFrom,if_neg small,induct _ true,List.length_append]
      rfl

theorem sizeFrom_le (fuel n : Nat) : sizeFrom fuel n ≤ fuel := by
  induction fuel generalizing n with
  | zero => exact Nat.le_refl 0
  | succ fuel induct =>
    rw [sizeFrom]
    split
    · omega
    · exact Nat.succ_le_succ (induct _)

/-- The size the serializer reserves for a value is the length of its encoding. -/
theorem GetSizeOfVarInt_eq_length (n : Nat) : GetSizeOfVarInt n = (write n).length :=
  sizeFrom_eq_length _ _ _

theorem GetSizeOfVarIntInt_eq_length (n : Int) : GetSizeOfVarIntInt n = (writeInt n).length := by
  unfold GetSizeOfVarIntInt writeInt
  split
  · rfl
  · exact GetSizeOfVarInt_eq_length _

/-- A value below 128 is its own single byte. -/
theorem write_small {n : Nat} (small : n ≤ 0x7f) : write n = [UInt8.ofNat n] := by
  rw [write,writeFrom_succ_small small,digitByte]
  simp only [Bool.false_eq_true,if_false,Nat.add_zero,Nat.mod_eq_of_lt (Nat.lt_succ_of_le small)]

/-- An unsigned reader of `width` bits takes back every value it can hold. -/
theorem read_unsigned_write (width : Nat) :
    Decoder.RoundTrip (read (unsigned width)) write (· < 2 ^ width) := by
  intro n below rest
  rw [read_write (unsigned_exact width n) (le_refl n),Nat.mod_eq_of_lt below]

/-- A signed reader takes back every value up to its largest one. -/
theorem read_signed_write (max : Nat) : Decoder.RoundTrip (read (signed max)) write (· ≤ max) := by
  intro n fits rest
  exact read_write (signed_exact max) fits rest

/-- Different values have different encodings: a reader wide enough for both
takes each back from its own. -/
theorem write_injective : Function.Injective write := by
  intro a b same
  have readA := read_signed_write (max a b) a (le_max_left a b) []
  rw [same,read_signed_write (max a b) b (le_max_right a b) []] at readA
  injection readA with readA
  injection readA with readA
  exact (Prod.mk.inj readA).1.symm

end VarInt
