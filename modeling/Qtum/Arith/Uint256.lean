import Qtum.Library.Limbs

/-! `base_uint<BITS>` of `arith_uint256.h` and `arith_uint256.cpp`: an
unsigned integer of `WIDTH = BITS / 32` limbs of 32 bits, least significant
first, whose operators are loops over the limbs. Each loop is written here as
the source runs it: the carry loop that addition and both multiplications
share, the increment that negation ends with, the shift loops that or two
pieces of every limb into the result, the comparison from the top limb down,
the bit count and the restoring division. Only `base_uint<256>` is
instantiated. -/
namespace Qtum

/-- `uint_error`, the exception of `operator/=`. -/
structure uint_error where
  what : String
  deriving DecidableEq, Repr

structure base_uint (BITS : Nat) where
  pn : List UInt32
  length_pn : pn.length = BITS / 32

abbrev arith_uint256 := base_uint 256

namespace base_uint

variable {BITS : Nat}

/-- The number the limbs stand for. -/
def val (a : base_uint BITS) : Nat := Limbs.value a.pn

/-- `base_uint(uint64_t b)` and `operator=(uint64_t b)`: the low and the high
half of `b` in the first two limbs. -/
def ofUInt64 (b : UInt64) : base_uint BITS :=
  ⟨(List.range (BITS / 32)).map fun i => if i = 0 then b.toUInt32 else if i = 1 then (b >>> 32).toUInt32 else 0,
    by simp⟩

/-- `GetLow64`. -/
def GetLow64 (a : base_uint BITS) : UInt64 := (a.pn.getD 0 0).toUInt64 ||| (a.pn.getD 1 0).toUInt64 <<< 32

/-! ## The carry loop -/

/-- The loop of `operator+=`, of `operator*=(uint32_t)` and of each row of
`operator*=(const base_uint&)`: limb `i` becomes the low half of
`n = carry + acc[i] + factor * b[i]` and the high half is carried on, for as
many limbs as `acc` has. The last carry is returned beside the limbs. -/
def carryRow (factor : UInt64) : List UInt32 → List UInt32 → UInt64 → List UInt32 × UInt64
  | limb :: acc, x :: b, carry =>
    let n := carry + limb.toUInt64 + factor * x.toUInt64
    let rest := carryRow factor acc b (n >>> 32)
    ((n &&& 0xffffffff).toUInt32 :: rest.1,rest.2)
  | _, _, carry => ([],carry)

theorem length_carryRow (factor : UInt64) (acc b : List UInt32) (carry : UInt64) :
    (carryRow factor acc b carry).1.length = min acc.length b.length := by
  induction acc generalizing b carry with
  | nil => simp [carryRow]
  | cons limb acc ih =>
    cases b with
    | nil => simp [carryRow]
    | cons x b => simp [carryRow,ih,Nat.succ_min_succ]

/-- `operator+=`: `n = carry + pn[i] + b.pn[i]`, the carry loop with factor one. -/
def add (a b : base_uint BITS) : base_uint BITS :=
  ⟨(carryRow 1 a.pn b.pn 0).1,by simp [length_carryRow,a.length_pn,b.length_pn]⟩

/-- `operator*=(uint32_t b32)`: `n = carry + (uint64_t)b32 * pn[i]`, the carry
loop over zero limbs. -/
def mulWord (a : base_uint BITS) (b32 : UInt32) : base_uint BITS :=
  ⟨(carryRow b32.toUInt64 (List.replicate (BITS / 32) 0) a.pn 0).1,by simp [length_carryRow,a.length_pn]⟩

/-- The outer loop of `operator*=(const base_uint&)`: row `j` runs the carry
loop `n = carry + pn[i + j] + a.pn[j] * b.pn[i]` over the limbs from `j` up,
whose partial products above the top limb are dropped. -/
def mulRows (b : List UInt32) : Nat → List UInt32 → List UInt32 → List UInt32
  | _, [], pn => pn
  | j, aj :: a, pn => mulRows b (j + 1) a (pn.take j ++ (carryRow aj.toUInt64 (pn.drop j) b 0).1)

theorem length_mulRows (b : List UInt32) (j : Nat) (a pn : List UInt32) (fits : j + a.length ≤ pn.length)
    (wide : pn.length ≤ b.length) : (mulRows b j a pn).length = pn.length := by
  induction a generalizing j pn with
  | nil => rfl
  | cons aj a ih =>
    have row : (pn.take j ++ (carryRow aj.toUInt64 (pn.drop j) b 0).1).length = pn.length := by
      simp only [List.length_append,List.length_take,length_carryRow,List.length_drop]
      omega
    simp only [mulRows]
    rw [ih (j + 1) _ (by simp only [List.length_cons] at fits; omega) (by omega),row]

def mul (a b : base_uint BITS) : base_uint BITS :=
  ⟨mulRows b.pn 0 a.pn (List.replicate (BITS / 32) 0),
    by rw [length_mulRows _ _ _ _ (by simp [a.length_pn]) (by simp [b.length_pn])]; simp⟩

/-! ## Complement, increment and negation -/

/-- `operator~`. -/
def complement (a : base_uint BITS) : base_uint BITS := ⟨a.pn.map (~~~ ·),by simp [a.length_pn]⟩

/-- The loop of prefix `operator++`: `while (++pn[i] == 0 && i < WIDTH-1) i++`. -/
def increment : List UInt32 → List UInt32
  | [] => []
  | limb :: rest => if limb + 1 == 0 && !rest.isEmpty then (limb + 1) :: increment rest else (limb + 1) :: rest

/-- The loop of prefix `operator--`: `while (--pn[i] == (uint32_t)-1 && i < WIDTH-1) i++`. -/
def decrement : List UInt32 → List UInt32
  | [] => []
  | limb :: rest =>
    if limb - 1 == 0xffffffff && !rest.isEmpty then (limb - 1) :: decrement rest else (limb - 1) :: rest

@[simp] theorem length_increment (limbs : List UInt32) : (increment limbs).length = limbs.length := by
  induction limbs with
  | nil => rfl
  | cons limb rest ih => simp only [increment]; split <;> simp [ih]

@[simp] theorem length_decrement (limbs : List UInt32) : (decrement limbs).length = limbs.length := by
  induction limbs with
  | nil => rfl
  | cons limb rest ih => simp only [decrement]; split <;> simp [ih]

def inc (a : base_uint BITS) : base_uint BITS := ⟨increment a.pn,by simp [a.length_pn]⟩

def dec (a : base_uint BITS) : base_uint BITS := ⟨decrement a.pn,by simp [a.length_pn]⟩

/-- `operator-()`: the complement, then `ret++`. -/
def neg (a : base_uint BITS) : base_uint BITS := inc a.complement

/-- `operator-=`: `*this += -b`. -/
def sub (a b : base_uint BITS) : base_uint BITS := a.add b.neg

/-! ## Shifts -/

/-- One pass of the loop of `operator<<=(shift)` with `k = shift / 32` and
`shift % 32` in `shift`: limb `a[i]` is or-ed, shifted, into limbs `i + k + 1`
(its top bits, when the shift is not a whole number of limbs) and `i + k`. -/
def shiftLeftPass (a : List UInt32) (k shift : Nat) (pn : List UInt32) (i : Nat) : List UInt32 :=
  let pn := if i + k + 1 < a.length ∧ shift ≠ 0 then
    pn.modify (i + k + 1) (· ||| a.getD i 0 >>> UInt32.ofNat (32 - shift)) else pn
  if i + k < a.length then pn.modify (i + k) (· ||| a.getD i 0 <<< UInt32.ofNat shift) else pn

/-- One pass of the loop of `operator>>=(shift)`: limb `a[i]` is or-ed,
shifted, into limbs `i - k - 1` (its low bits) and `i - k`, those of them
that exist. -/
def shiftRightPass (a : List UInt32) (k shift : Nat) (pn : List UInt32) (i : Nat) : List UInt32 :=
  let pn := if k + 1 ≤ i ∧ shift ≠ 0 then
    pn.modify (i - k - 1) (· ||| a.getD i 0 <<< UInt32.ofNat (32 - shift)) else pn
  if k ≤ i then pn.modify (i - k) (· ||| a.getD i 0 >>> UInt32.ofNat shift) else pn

theorem length_foldl_modify {f : List UInt32 → Nat → List UInt32} (keeps : ∀ pn i, (f pn i).length = pn.length)
    (indices : List Nat) (pn : List UInt32) : (indices.foldl f pn).length = pn.length := by
  induction indices generalizing pn with
  | nil => rfl
  | cons i indices ih => rw [List.foldl_cons,ih,keeps]

theorem length_shiftLeftPass (a : List UInt32) (k shift : Nat) (pn : List UInt32) (i : Nat) :
    (shiftLeftPass a k shift pn i).length = pn.length := by
  unfold shiftLeftPass
  split_ifs <;> simp

theorem length_shiftRightPass (a : List UInt32) (k shift : Nat) (pn : List UInt32) (i : Nat) :
    (shiftRightPass a k shift pn i).length = pn.length := by
  unfold shiftRightPass
  split_ifs <;> simp

/-- `operator<<=(unsigned int shift)`: the result starts at zero. -/
def shiftLeft (a : base_uint BITS) (shift : Nat) : base_uint BITS :=
  ⟨(List.range (BITS / 32)).foldl (shiftLeftPass a.pn (shift / 32) (shift % 32)) (List.replicate (BITS / 32) 0),
    by rw [length_foldl_modify (length_shiftLeftPass _ _ _)]; simp⟩

/-- `operator>>=(unsigned int shift)`. -/
def shiftRight (a : base_uint BITS) (shift : Nat) : base_uint BITS :=
  ⟨(List.range (BITS / 32)).foldl (shiftRightPass a.pn (shift / 32) (shift % 32)) (List.replicate (BITS / 32) 0),
    by rw [length_foldl_modify (length_shiftRightPass _ _ _)]; simp⟩

/-! ## Comparison and bit length -/

/-- The loop of `CompareTo`, over the limbs from the most significant down. -/
def compareFromTop : List UInt32 → List UInt32 → Int
  | x :: xs, y :: ys => if x < y then -1 else if x > y then 1 else compareFromTop xs ys
  | _, _ => 0

def CompareTo (a b : base_uint BITS) : Int := compareFromTop a.pn.reverse b.pn.reverse

/-- The inner loop of `bits()` over a nonzero limb: the first of bits `31`
down to `1` that is set gives its position plus one, and none gives one. -/
def topBit (limb : UInt32) : Nat → Nat
  | 0 => 1
  | bits + 1 => if limb &&& 1 <<< UInt32.ofNat (bits + 1) ≠ 0 then bits + 2 else topBit limb bits

/-- The outer loop of `bits()`, over the limbs from the most significant down:
the first nonzero limb, at position `lower.length`, decides. -/
def bitsFromTop : List UInt32 → Nat
  | [] => 0
  | limb :: lower => if limb ≠ 0 then 32 * lower.length + topBit limb 31 else bitsFromTop lower

def bits (a : base_uint BITS) : Nat := bitsFromTop a.pn.reverse

/-! ## Division -/

/-- `pn[shift / 32] |= (1 << (shift & 31))`. -/
def setBit (a : base_uint BITS) (shift : Nat) : base_uint BITS :=
  ⟨a.pn.modify (shift / 32) (· ||| 1 <<< UInt32.ofNat (shift &&& 31)),by simp [a.length_pn]⟩

/-- The body of the loop of `operator/=`: `if (num >= div) { num -= div;` and
the bit `shift` of the quotient is set. -/
def divStep (num div quotient : base_uint BITS) (shift : Nat) : base_uint BITS × base_uint BITS :=
  if num.CompareTo div ≥ 0 then (num.sub div,quotient.setBit shift) else (num,quotient)

/-- `while (shift >= 0)`, with `div >>= 1` after each pass. -/
def divLoop (num div quotient : base_uint BITS) : Nat → base_uint BITS
  | 0 => (divStep num div quotient 0).2
  | shift + 1 =>
    let next := divStep num div quotient (shift + 1)
    divLoop next.1 (div.shiftRight 1) next.2 shift

/-- `operator/=`: the divisor is shifted up to the dividend's top bit and
subtracted where it fits, one bit of the quotient a pass. -/
def divide (a b : base_uint BITS) : Except uint_error (base_uint BITS) :=
  let num_bits := a.bits
  let div_bits := b.bits
  if div_bits = 0 then throw ⟨"Division by zero"⟩
  else if div_bits > num_bits then pure (ofUInt64 0)
  else
    let shift := num_bits - div_bits
    pure (divLoop a (b.shiftLeft shift) (ofUInt64 0) shift)

end base_uint

end Qtum
