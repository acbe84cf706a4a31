import Mathlib.Data.List.Basic
import Mathlib.Algebra.Group.Int.Defs
import Mathlib.Algebra.Group.Nat.Defs

/-! The fixed-size blobs of `uint256.h` and the amounts of `amount.h`.
A blob carries its length in its type, so the size assertion of
`base_blob(const std::vector<unsigned char>&)` is a question only where bytes
of unknown length are turned into a blob. -/
namespace Qtum

/-- `std::vector<unsigned char>`, the byte strings of scripts and stacks. -/
abbrev valtype := List UInt8

/-- `base_blob<BITS>`: exactly `size` bytes, in storage order. -/
structure Blob (size : Nat) where
  bytes : List UInt8
  length : bytes.length = size
  deriving DecidableEq

/-- `uint256`: transaction and block hashes. -/
abbrev uint256 := Blob 32

/-- `uint160`: key and script hashes, and EVM addresses. -/
abbrev uint160 := Blob 20

namespace Blob

/-- `base_blob(const std::vector<unsigned char>&)`; `none` where its
`assert(vch.size() == sizeof(data))` fails. -/
def ofBytes? (size : Nat) (bytes : List UInt8) : Option (Blob size) :=
  if h : bytes.length = size then some ⟨bytes,h⟩ else none

/-- `SetNull()`: every byte zero. -/
def null (size : Nat) : Blob size := ⟨List.replicate size 0,by simp⟩

/-- `IsNull()`. -/
def IsNull {size : Nat} (blob : Blob size) : Bool := blob.bytes.all (· == 0)

/-- The blob whose bytes all equal `byte`. -/
def replicate (size : Nat) (byte : UInt8) : Blob size := ⟨List.replicate size byte,by simp⟩

theorem ofBytes?_bytes {size : Nat} (blob : Blob size) : ofBytes? size blob.bytes = some blob := by
  simp [ofBytes?,blob.length]

theorem ofBytes?_eq_none {size : Nat} {bytes : List UInt8} :
    ofBytes? size bytes = none ↔ bytes.length ≠ size := by
  unfold ofBytes?
  split <;> simp_all

theorem bytes_injective {size : Nat} {first second : Blob size} (same : first.bytes = second.bytes) :
    first = second := by
  cases first
  cases second
  simp_all

end Blob

/-- `CAmount`: a signed 64-bit count of base units, here an integer; where
overflow matters the bounds below are stated explicitly. -/
abbrev CAmount := Int

/-- `std::numeric_limits<int64_t>::max()`. -/
def INT64_MAX : Int := 2 ^ 63 - 1

/-- `std::numeric_limits<int64_t>::min()`. -/
def INT64_MIN : Int := -2 ^ 63

/-- A value that an `int64_t` holds: sums leaving this range overflow. -/
def FitsInt64 (value : Int) : Prop := INT64_MIN ≤ value ∧ value ≤ INT64_MAX

instance (value : Int) : Decidable (FitsInt64 value) := inferInstanceAs (Decidable (_ ∧ _))

def COIN : CAmount := 100000000

/-- `MAX_MONEY`: Qtum sets it to the largest `int64_t`. -/
def MAX_MONEY : CAmount := INT64_MAX

def MoneyRange (nValue : CAmount) : Bool := 0 ≤ nValue && nValue ≤ MAX_MONEY

/-- The conversion of a signed value to an unsigned type of `width` bits,
which is taken modulo `2 ^ width`. -/
def toUnsigned (width : Nat) (value : Int) : Nat := (value % 2 ^ width).toNat

/-- The conversion of an unsigned value to a signed type of `width` bits, in
two's complement as the compilers the code is built with define it. -/
def toSigned (width : Nat) (value : Nat) : Int := if value < 2 ^ (width - 1) then value else value - 2 ^ width

/-- An unsigned value read back as signed converts back to itself. -/
theorem toUnsigned_toSigned {width : Nat} {value : Nat} (fits : value < 2 ^ width) :
    toUnsigned width (toSigned width value) = value := by
  have cast : (value : Int) < 2 ^ width := by exact_mod_cast fits
  unfold toUnsigned toSigned
  split
  · rw [Int.emod_eq_of_lt (by omega) cast]
    rfl
  · rw [Int.sub_emod_right,Int.emod_eq_of_lt (by omega) cast]
    rfl

/-- A value of the signed type of `width` bits survives the round through the unsigned one. -/
theorem toSigned_toUnsigned {width : Nat} {value : Int} (positive : 0 < width) (low : -2 ^ (width - 1) ≤ value)
    (high : value < 2 ^ (width - 1)) : toSigned width (toUnsigned width value) = value := by
  have double : (2 : Int) ^ width = 2 ^ (width - 1) + 2 ^ (width - 1) := by
    obtain ⟨less,rfl⟩ : ∃ less, width = less + 1 := ⟨width - 1,by omega⟩
    rw [Nat.add_sub_cancel,Int.pow_succ]
    omega
  have half : ((2 ^ (width - 1) : Nat) : Int) = 2 ^ (width - 1) := Int.natCast_pow 2 (width - 1)
  unfold toUnsigned toSigned
  by_cases negative : value < 0
  · -- a negative value wraps to the upper half
    have wrapped : value % 2 ^ width = value + 2 ^ width := by
      rw [Int.emod_eq_add_self_emod,Int.emod_eq_of_lt (by omega) (by omega)]
    rw [wrapped,if_neg (by omega)]
    omega
  · rw [Int.emod_eq_of_lt (by omega) (by omega),if_pos (by omega)]
    omega

end Qtum
