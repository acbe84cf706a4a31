import Qtum.Arith.Division
import Qtum.Library.Abort

/-! The compact form of a 256-bit number, `SetCompact` and `GetCompact` of
`arith_uint256.cpp`, the form in which block headers carry their targets: a
byte count in the top byte and the top three bytes of the number below it,
where bit 23, the sign, must stay clear. `GetCompact` is read off as the
compact form of the number in the Nat functions `compactExponent` and
`compactMantissa`; `SetCompact` of that form gives the number with the bytes
below the mantissa cleared, and clearing them does not change the form. -/
namespace Qtum

open base_uint

namespace arith_uint256

/-- `SetCompact`: the target, and what it stores in `*pfNegative` and `*pfOverflow`. -/
def SetCompact (nCompact : UInt32) : arith_uint256 × Bool × Bool :=
  let nSize := (nCompact >>> 24).toNat
  let nWord := nCompact &&& 0x007fffff
  let nWord := if nSize ≤ 3 then nWord >>> UInt32.ofNat (8 * (3 - nSize)) else nWord
  let value : arith_uint256 :=
    if nSize ≤ 3 then base_uint.ofUInt64 nWord.toUInt64
    else (base_uint.ofUInt64 nWord.toUInt64).shiftLeft (8 * (nSize - 3))
  (value,nWord != 0 && nCompact &&& 0x00800000 != 0,
    nWord != 0 && (nSize > 34 || (nWord > 0xff && nSize > 33) || (nWord > 0xffff && nSize > 32)))

/-- The word `GetCompact` starts from: `GetLow64() << 8 * (3 - nSize)` for a
number of at most three bytes, else `GetLow64` of the number shifted right by
all but its top three bytes. -/
def topWord (a : arith_uint256) (nSize : Nat) : UInt32 :=
  if nSize ≤ 3 then (a.GetLow64 <<< UInt64.ofNat (8 * (3 - nSize))).toUInt32
  else (a.shiftRight (8 * (nSize - 3))).GetLow64.toUInt32

/-- `GetCompact`: the byte length and the top three bytes; a mantissa whose
top bit, the sign, is set moves down a byte and the exponent up. -/
def GetCompact (a : arith_uint256) (fNegative : Bool) : Except Abort UInt32 := do
  let nSize := (a.bits + 7) / 8
  let nCompact := a.topWord nSize
  let normal := if nCompact &&& 0x00800000 != 0 then (nCompact >>> 8,nSize + 1) else (nCompact,nSize)
  if normal.1 &&& ~~~0x007fffff != 0 then throw .assertion
  if !(normal.2 < 256) then throw .assertion
  let nCompact := normal.1 ||| UInt32.ofNat normal.2 <<< 24
  pure (nCompact ||| if fNegative && nCompact &&& 0x007fffff != 0 then 0x00800000 else 0)

end arith_uint256

/-! ## The compact form of a number -/

/-- The number of bytes of `x`. -/
def byteLength (x : Nat) : Nat := (Nat.size x + 7) / 8

/-- The three bytes of `x` from its top byte down. -/
def topBytes (x : Nat) : Nat :=
  if byteLength x ≤ 3 then x * 256 ^ (3 - byteLength x) else x / 256 ^ (byteLength x - 3)

/-- The exponent of the compact form of `x`: its byte length, one more when the
top bit of its three top bytes, the sign bit, is set. -/
def compactExponent (x : Nat) : Nat := if 2 ^ 23 ≤ topBytes x then byteLength x + 1 else byteLength x

/-- The mantissa of the compact form of `x`. -/
def compactMantissa (x : Nat) : Nat := if 2 ^ 23 ≤ topBytes x then topBytes x / 256 else topBytes x

theorem lt_byteLength (x : Nat) : x < 256 ^ byteLength x := by
  have bits : Nat.size x ≤ 8 * byteLength x := by unfold byteLength; omega
  calc x < 2 ^ Nat.size x := Nat.lt_size_self x
    _ ≤ 2 ^ (8 * byteLength x) := Nat.pow_le_pow_right (by decide) bits
    _ = 256 ^ byteLength x := by rw [Nat.pow_mul]

theorem byteLength_le {x : Nat} (nonzero : x ≠ 0) : 256 ^ (byteLength x - 1) ≤ x := by
  have positive := Nat.size_pos.mpr (Nat.pos_of_ne_zero nonzero)
  have bits : 8 * (byteLength x - 1) < Nat.size x := by unfold byteLength; omega
  rw [show (256 : Nat) = 2 ^ 8 from rfl,← Nat.pow_mul]
  exact Nat.lt_size.mp bits

/-- A number between `256 ^ (k - 1)` and `256 ^ k` has `k` bytes. -/
theorem byteLength_eq {x k : Nat} (positive : 1 ≤ k) (lower : 256 ^ (k - 1) ≤ x) (upper : x < 256 ^ k) :
    byteLength x = k := by
  have above : 8 * (k - 1) < Nat.size x := by
    apply Nat.lt_size.mpr
    rwa [Nat.pow_mul]
  have below : Nat.size x ≤ 8 * k := by
    apply Nat.size_le.mpr
    rwa [Nat.pow_mul]
  unfold byteLength
  omega

theorem byteLength_zero : byteLength 0 = 0 := rfl

theorem topBytes_lt (x : Nat) : topBytes x < 2 ^ 24 := by
  have bound := lt_byteLength x
  unfold topBytes
  split
  · calc x * 256 ^ (3 - byteLength x) < 256 ^ byteLength x * 256 ^ (3 - byteLength x) :=
          Nat.mul_lt_mul_of_pos_right bound (Nat.pow_pos (by decide))
      _ = 2 ^ 24 := by rw [← Nat.pow_add,show byteLength x + (3 - byteLength x) = 3 by omega]; rfl
  · apply (Nat.div_lt_iff_lt_mul (Nat.pow_pos (by decide))).mpr
    rw [show (2 : Nat) ^ 24 = 256 ^ 3 from rfl,← Nat.pow_add,show 3 + (byteLength x - 3) = byteLength x by omega]
    exact bound

theorem topBytes_ge {x : Nat} (nonzero : x ≠ 0) : 2 ^ 16 ≤ topBytes x := by
  have bound := byteLength_le nonzero
  have positive : 1 ≤ byteLength x := by
    by_contra zero
    have := lt_byteLength x
    rw [show byteLength x = 0 by omega] at this
    omega
  unfold topBytes
  split
  · calc 2 ^ 16 = 256 ^ (byteLength x - 1) * 256 ^ (3 - byteLength x) := by
          rw [← Nat.pow_add,show byteLength x - 1 + (3 - byteLength x) = 2 by omega]; rfl
      _ ≤ x * 256 ^ (3 - byteLength x) := Nat.mul_le_mul_right _ bound
  · apply (Nat.le_div_iff_mul_le (Nat.pow_pos (by decide))).mpr
    rw [show (2 : Nat) ^ 16 = 256 ^ 2 from rfl,← Nat.pow_add,show 2 + (byteLength x - 3) = byteLength x - 1 by omega]
    exact bound

theorem compactMantissa_lt (x : Nat) : compactMantissa x < 2 ^ 23 := by
  have := topBytes_lt x
  unfold compactMantissa
  split <;> omega

/-- The compact form of `x` as one number: the mantissa, with the exponent in
the byte above it. -/
def compactForm (x : Nat) : Nat := compactMantissa x + 2 ^ 24 * compactExponent x

theorem compactForm_div (x : Nat) : compactForm x / 2 ^ 24 = compactExponent x := by
  have small := compactMantissa_lt x
  unfold compactForm
  omega

/-- What `SetCompact` makes of the compact form of `x`: `x` with the bytes
below its top three, or below its top two after the sign step, cleared. -/
theorem compact_value (x : Nat) :
    (if compactExponent x ≤ 3 then compactMantissa x / 256 ^ (3 - compactExponent x)
      else compactMantissa x * 256 ^ (compactExponent x - 3)) =
      x / 256 ^ (compactExponent x - 3) * 256 ^ (compactExponent x - 3) := by
  unfold compactExponent compactMantissa topBytes
  by_cases short : byteLength x ≤ 3
  · simp only [if_pos short]
    split
    · case isTrue set =>
      rcases Nat.lt_or_ge (byteLength x) 3 with below | three
      · -- the sign step leaves at most three bytes: nothing is cleared
        have unit : (256 : Nat) ^ (3 - byteLength x) = 256 * 256 ^ (3 - (byteLength x + 1)) := by
          rw [← Nat.pow_succ']; congr 1; omega
        rw [if_pos (by omega),show byteLength x + 1 - 3 = 0 by omega,Nat.pow_zero,Nat.div_one,Nat.mul_one,
          Nat.div_div_eq_div_mul,← unit,Nat.mul_div_cancel _ (Nat.pow_pos (by decide))]
      · have three : byteLength x = 3 := by omega
        rw [if_neg (by omega),three,show 3 + 1 - 3 = 1 by rfl,Nat.sub_self,Nat.pow_zero,Nat.mul_one,Nat.pow_one]
    · case isFalse clear =>
      rw [show byteLength x - 3 = 0 by omega,Nat.pow_zero,Nat.div_one,Nat.mul_one,
        Nat.mul_div_cancel _ (Nat.pow_pos (by decide))]
  · simp only [if_neg short]
    split
    · case isTrue set =>
      rw [if_neg (by omega),Nat.div_div_eq_div_mul,show byteLength x + 1 - 3 = byteLength x - 3 + 1 by omega,Nat.pow_succ]
    · case isFalse clear => rfl

/-- The exponent and the mantissa of a number with `k` bytes whose top three bytes are `t`. -/
private theorem compact_of {y k t : Nat} (length : byteLength y = k) (top : topBytes y = t) :
    compactExponent y = (if 2 ^ 23 ≤ t then k + 1 else k) ∧ compactMantissa y = (if 2 ^ 23 ≤ t then t / 256 else t) := by
  unfold compactExponent compactMantissa
  rw [top,length]
  exact ⟨rfl,rfl⟩

/-- Rounding `x` down as `SetCompact` does keeps its compact form: the
rounded number has the same byte length and the same top three bytes. -/
theorem compact_rounded (x : Nat) :
    compactExponent (x / 256 ^ (compactExponent x - 3) * 256 ^ (compactExponent x - 3)) = compactExponent x ∧
      compactMantissa (x / 256 ^ (compactExponent x - 3) * 256 ^ (compactExponent x - 3)) = compactMantissa x := by
  by_cases exact : compactExponent x ≤ 3
  · rw [show compactExponent x - 3 = 0 by omega,Nat.pow_zero,Nat.div_one,Nat.mul_one]
    exact ⟨rfl,rfl⟩
  have nonzero : x ≠ 0 := by
    intro zero
    subst zero
    simp [compactExponent,topBytes,byteLength_zero] at exact
  have bound := lt_byteLength x
  have lower := byteLength_le nonzero
  have top := topBytes_lt x
  have least := topBytes_ge nonzero
  by_cases short : byteLength x ≤ 3
  · -- three bytes with the sign bit set: the low byte is cleared
    have three : byteLength x = 3 := by
      have : compactExponent x ≤ byteLength x + 1 := by unfold compactExponent; split <;> omega
      omega
    have whole : topBytes x = x := by simp [topBytes,three]
    obtain ⟨exponent,mantissa⟩ := compact_of three whole
    have set : 2 ^ 23 ≤ x := by
      by_contra clear
      rw [exponent,if_neg clear] at exact
      exact exact (by decide)
    rw [if_pos set] at exponent mantissa
    rw [exponent,mantissa,show 3 + 1 - 3 = 1 by rfl,Nat.pow_one]
    rw [three] at bound
    rw [whole] at top
    have length : byteLength (x / 256 * 256) = 3 := byteLength_eq (by decide)
      (by rw [show (256 : Nat) ^ (3 - 1) = 2 ^ 16 from rfl]; omega) (by omega)
    obtain ⟨exponent',mantissa'⟩ :=
      compact_of length (show topBytes (x / 256 * 256) = x / 256 * 256 by simp [topBytes,length])
    rw [exponent',mantissa',if_pos (by omega),if_pos (by omega),Nat.mul_div_cancel _ (by decide : 0 < 256)]
    exact ⟨rfl,rfl⟩
  · have cut : topBytes x = x / 256 ^ (byteLength x - 3) := by simp [topBytes,short]
    have scale : 256 ^ byteLength x = 256 ^ 3 * 256 ^ (byteLength x - 3) := by
      rw [← Nat.pow_add]; congr 1; omega
    have scaleBelow : 256 ^ (byteLength x - 1) = 256 ^ 2 * 256 ^ (byteLength x - 3) := by
      rw [← Nat.pow_add]; congr 1; omega
    have positive : 0 < 256 ^ (byteLength x - 3) := Nat.pow_pos (by decide)
    obtain ⟨exponent,mantissa⟩ := compact_of rfl cut
    rw [cut] at top least
    -- the rounded number again has `byteLength x` bytes, and its top three bytes are found by the same cut
    have topOf : ∀ y, byteLength y = byteLength x → topBytes y = y / 256 ^ (byteLength x - 3) := by
      intro y same
      simp [topBytes,same,short]
    by_cases set : 2 ^ 23 ≤ x / 256 ^ (byteLength x - 3)
    · rw [if_pos set] at exponent mantissa
      rw [exponent,mantissa,show byteLength x + 1 - 3 = byteLength x - 3 + 1 by omega,Nat.pow_succ,
        ← Nat.div_div_eq_div_mul]
      generalize 256 ^ (byteLength x - 3) = P at scale scaleBelow positive bound lower top least set topOf ⊢
      rw [Nat.mul_comm P 256,← Nat.mul_assoc]
      have length : byteLength (x / P / 256 * 256 * P) = byteLength x := by
        apply byteLength_eq (by omega)
        · rw [scaleBelow]
          exact Nat.mul_le_mul_right _ (by omega)
        · rw [scale]
          exact Nat.mul_lt_mul_of_pos_right (by omega) positive
      obtain ⟨exponent',mantissa'⟩ := compact_of length (topOf _ length)
      rw [exponent',mantissa',Nat.mul_div_cancel _ positive,if_pos (by omega),if_pos (by omega),
        Nat.mul_div_cancel _ (by decide : 0 < 256)]
      exact ⟨rfl,rfl⟩
    · rw [if_neg set] at exponent mantissa
      rw [exponent,mantissa]
      generalize 256 ^ (byteLength x - 3) = P at scale scaleBelow positive bound lower top least set topOf ⊢
      have length : byteLength (x / P * P) = byteLength x := by
        apply byteLength_eq (by omega)
        · rw [scaleBelow]
          exact Nat.mul_le_mul_right _ least
        · rw [scale]
          exact Nat.mul_lt_mul_of_pos_right top positive
      obtain ⟨exponent',mantissa'⟩ := compact_of length (topOf _ length)
      rw [exponent',mantissa',Nat.mul_div_cancel _ positive,if_neg set,if_neg set]
      exact ⟨rfl,rfl⟩

/-! ## GetCompact -/

theorem byteLength_le_32 (a : arith_uint256) : byteLength a.val ≤ 32 := by
  have fits : Nat.size a.val ≤ 256 := Nat.size_le.mpr a.val_lt
  unfold byteLength
  omega

/-- The word `GetCompact` cuts from the number is its top three bytes. -/
theorem toNat_topWord (a : arith_uint256) : (a.topWord (byteLength a.val)).toNat = topBytes a.val := by
  have top := topBytes_lt a.val
  unfold arith_uint256.topWord topBytes at top ⊢
  split
  · case isTrue short =>
    rw [if_pos short] at top
    have small : a.val < 2 ^ 64 := by
      have := Nat.le_mul_of_pos_right a.val (Nat.pow_pos (n := 3 - byteLength a.val) (by decide : 0 < 256))
      omega
    have amount : (UInt64.ofNat (8 * (3 - byteLength a.val))).toNat % 64 = 8 * (3 - byteLength a.val) := by
      rw [UInt64.toNat_ofNat']
      omega
    rw [UInt64.toNat_toUInt32,UInt64.toNat_shiftLeft,GetLow64_toNat _ (by decide),amount,Nat.mod_eq_of_lt small,
      Nat.shiftLeft_eq,Nat.pow_mul,show (2 : Nat) ^ 8 = 256 from rfl,Nat.mod_eq_of_lt (by omega),Nat.mod_eq_of_lt (by omega)]
  · case isFalse long =>
    rw [if_neg long] at top
    rw [UInt64.toNat_toUInt32,GetLow64_toNat _ (by decide),val_shiftRight,Nat.mod_mod_of_dvd _ (by decide),
      Nat.pow_mul,show (2 : Nat) ^ 8 = 256 from rfl,Nat.mod_eq_of_lt (by omega)]
/-- Bit 23 of a word below `2 ^ 24` is set exactly from `2 ^ 23` up. -/
private theorem sign_bit (w : UInt32) (small : w.toNat < 2 ^ 24) :
    (w &&& 0x00800000 != 0) = decide (2 ^ 23 ≤ w.toNat) := by
  have mask : (w &&& 0x00800000).toNat = w.toNat &&& 2 ^ 23 := by rw [UInt32.toNat_and]; rfl
  have nonzero : w &&& 0x00800000 ≠ 0 ↔ w.toNat &&& 2 ^ 23 ≠ 0 := by
    rw [← mask]
    exact ⟨fun ne zero => ne (UInt32.toNat_inj.mp (by rw [zero]; rfl)),fun ne zero => ne (by rw [zero]; rfl)⟩
  rw [Limbs.and_two_pow_ne_zero] at nonzero
  have bit : w.toNat.testBit 23 = true ↔ 2 ^ 23 ≤ w.toNat :=
    ⟨Nat.ge_two_pow_of_testBit,fun high => Nat.testBit_of_two_pow_le_and_two_pow_add_one_gt high small⟩
  rw [bit] at nonzero
  rw [Bool.eq_iff_iff,bne_iff_ne,decide_eq_true_iff]
  exact nonzero

theorem compactExponent_le (a : arith_uint256) : compactExponent a.val ≤ 33 := by
  have := byteLength_le_32 a
  unfold compactExponent
  split <;> omega

/-- A mantissa below the sign bit passes the first assertion of `GetCompact`. -/
private theorem mantissa_clear (m : UInt32) (small : m.toNat < 2 ^ 23) : m &&& ~~~0x007fffff = 0 := by
  apply UInt32.toNat_inj.mp
  rw [UInt32.toNat_and,show (~~~0x007fffff : UInt32).toNat = 4286578688 from rfl,UInt32.toNat_zero,
    ← Nat.and_two_pow_sub_one_of_lt_two_pow small,Nat.and_assoc,show (2 ^ 23 - 1 &&& 4286578688 : Nat) = 0 by decide,
    Nat.and_zero]

/-- The exponent above the mantissa. -/
private theorem compact_word (m : UInt32) {e : Nat} (small : m.toNat < 2 ^ 24) (exponent : e < 256) :
    (m ||| UInt32.ofNat e <<< 24).toNat = m.toNat + 2 ^ 24 * e := by
  rw [UInt32.toNat_or,UInt32.toNat_shiftLeft,UInt32.toNat_ofNat',show (24 : UInt32).toNat % 32 = 24 from rfl,
    Nat.mod_eq_of_lt (by omega : e < 2 ^ 32),Nat.shiftLeft_eq,Nat.mod_eq_of_lt (by omega),Nat.mul_comm,Nat.add_comm,
    Nat.two_pow_add_eq_or_of_lt small,Nat.or_comm]

/-- The low 23 bits of a packed word are its mantissa. -/
private theorem sign_condition (c : UInt32) {m e : Nat} (small : m < 2 ^ 23) (packed : c.toNat = m + 2 ^ 24 * e) :
    (c &&& 0x007fffff != 0) = (m != 0) := by
  have low : (c &&& 0x007fffff).toNat = m := by
    rw [UInt32.toNat_and,show (0x007fffff : UInt32).toNat = 2 ^ 23 - 1 from rfl,Nat.and_two_pow_sub_one_eq_mod,packed]
    omega
  have zero : c &&& 0x007fffff = 0 ↔ m = 0 := by
    rw [← low]
    constructor
    · intro zero
      rw [zero]
      rfl
    · intro zero
      exact UInt32.toNat_inj.mp (by rw [zero]; rfl)
  rw [Bool.eq_iff_iff,bne_iff_ne,bne_iff_ne,ne_eq,ne_eq,zero]

/-- Setting the sign bit of a packed word adds it. -/
private theorem or_sign (c : UInt32) {m e : Nat} (small : m < 2 ^ 23) (packed : c.toNat = m + 2 ^ 24 * e) :
    (c ||| 0x00800000).toNat = c.toNat + 2 ^ 23 := by
  rw [UInt32.toNat_or,show (0x00800000 : UInt32).toNat = 2 ^ 23 from rfl,packed]
  calc (m + 2 ^ 24 * e) ||| 2 ^ 23 = (2 ^ 24 * e ||| m) ||| 2 ^ 23 := by
        rw [Nat.add_comm,Nat.two_pow_add_eq_or_of_lt (by omega : m < 2 ^ 24)]
    _ = 2 ^ 24 * e ||| (m + 2 ^ 23) := by rw [Nat.or_assoc,Nat.or_two_pow_eq_add_of_lt small]
    _ = 2 ^ 24 * e + (m + 2 ^ 23) := (Nat.two_pow_add_eq_or_of_lt (by omega) e).symm
    _ = m + 2 ^ 24 * e + 2 ^ 23 := by omega

theorem GetCompact_eq (a : arith_uint256) (fNegative : Bool) :
    ∃ nCompact, a.GetCompact fNegative = .ok nCompact ∧
      nCompact.toNat = compactMantissa a.val + 2 ^ 24 * compactExponent a.val +
        if fNegative && compactMantissa a.val != 0 then 2 ^ 23 else 0 := by
  have length : (a.bits + 7) / 8 = byteLength a.val := by rw [bits_eq_size]; rfl
  have word := toNat_topWord a
  have top := topBytes_lt a.val
  unfold arith_uint256.GetCompact
  dsimp only
  rw [length]
  generalize a.topWord (byteLength a.val) = w at word ⊢
  -- a word with the sign bit set moves down a byte
  obtain ⟨m,mantissa,normal⟩ : ∃ m : UInt32, m.toNat = compactMantissa a.val ∧
      (if (w &&& 0x00800000 != 0) = true then (w >>> 8,byteLength a.val + 1) else (w,byteLength a.val)) =
        (m,compactExponent a.val) := by
    rw [sign_bit w (by omega),word]
    simp only [decide_eq_true_eq]
    unfold compactMantissa compactExponent
    by_cases set : 2 ^ 23 ≤ topBytes a.val
    · refine ⟨w >>> 8,?_,by rw [if_pos set,if_pos set]⟩
      rw [if_pos set,UInt32.toNat_shiftRight,word,show (8 : UInt32).toNat % 32 = 8 from rfl,Nat.shiftRight_eq_div_pow]
    · exact ⟨w,by rw [if_neg set,word],by rw [if_neg set,if_neg set]⟩
  rw [normal]
  dsimp only
  have small := compactMantissa_lt a.val
  have exponent := compactExponent_le a
  rw [if_neg (by rw [Bool.not_eq_true,bne_eq_false_iff_eq]; exact mantissa_clear m (by omega)),
    if_neg (by simpa using (by omega : compactExponent a.val < 256))]
  have packed := compact_word m (by omega) (by omega : compactExponent a.val < 256)
  refine ⟨_,rfl,?_⟩
  rw [← mantissa] at small ⊢
  rw [sign_condition _ small packed]
  cases fNegative && m.toNat != 0
  · rw [if_neg Bool.false_ne_true,if_neg Bool.false_ne_true,UInt32.or_zero,packed,Nat.add_zero]
  · rw [if_pos rfl,if_pos rfl,or_sign _ small packed,packed]

/-- Without the sign, `GetCompact` returns the compact form of the number. -/
theorem GetCompact_false (a : arith_uint256) :
    ∃ nCompact, a.GetCompact false = .ok nCompact ∧ nCompact.toNat = compactForm a.val := by
  obtain ⟨nCompact,result,value⟩ := GetCompact_eq a false
  refine ⟨nCompact,result,?_⟩
  rw [value,compactForm,Bool.false_and,if_neg Bool.false_ne_true,Nat.add_zero]

/-- The exponent of a 256-bit number stops at 33, and only a mantissa of two
bytes reaches it. -/
theorem compact_fits (a : arith_uint256) :
    compactExponent a.val ≤ 32 ∨ compactExponent a.val = 33 ∧ compactMantissa a.val < 2 ^ 16 := by
  have length := byteLength_le_32 a
  have top := topBytes_lt a.val
  unfold compactExponent compactMantissa
  split
  · by_cases full : byteLength a.val = 32
    · exact Or.inr ⟨by omega,by omega⟩
    · exact Or.inl (by omega)
  · exact Or.inl length

/-! ## SetCompact -/

/-- `SetCompact` of a word that holds a mantissa below the sign bit and an
exponent that does not overflow: the mantissa shifted by the exponent, neither
negative nor overflowing. -/
theorem SetCompact_spec (nCompact : UInt32) {m e : Nat} (small : m < 2 ^ 23) (fits : e ≤ 32 ∨ e = 33 ∧ m < 2 ^ 16)
    (packed : nCompact.toNat = m + 2 ^ 24 * e) :
    (arith_uint256.SetCompact nCompact).1.val = (if e ≤ 3 then m / 256 ^ (3 - e) else m * 256 ^ (e - 3) % 2 ^ 256) ∧
      (arith_uint256.SetCompact nCompact).2 = (false,false) := by
  have size : (nCompact >>> 24).toNat = e := by
    rw [UInt32.toNat_shiftRight,show (24 : UInt32).toNat % 32 = 24 from rfl,Nat.shiftRight_eq_div_pow,packed]
    omega
  have word : (nCompact &&& 0x007fffff).toNat = m := by
    rw [UInt32.toNat_and,show (0x007fffff : UInt32).toNat = 2 ^ 23 - 1 from rfl,Nat.and_two_pow_sub_one_eq_mod,packed]
    omega
  have unsigned : nCompact &&& 0x00800000 = 0 := by
    apply UInt32.toNat_inj.mp
    rw [UInt32.toNat_and,show (0x00800000 : UInt32).toNat = 2 ^ 23 from rfl,UInt32.toNat_zero]
    apply Nat.eq_of_testBit_eq
    intro j
    rw [Nat.testBit_and,Nat.testBit_two_pow,Nat.zero_testBit,packed,Nat.add_comm,
      Nat.testBit_two_pow_mul_add _ (by omega : m < 2 ^ 24)]
    by_cases bit : 23 = j
    · subst bit
      simp [Nat.testBit_lt_two_pow small]
    · simp [bit]
  unfold arith_uint256.SetCompact
  dsimp only
  rw [size,unsigned]
  generalize nCompact &&& 0x007fffff = nWord at word
  by_cases short : e ≤ 3
  · have shifted : (nWord >>> UInt32.ofNat (8 * (3 - e))).toNat = m / 256 ^ (3 - e) := by
      rw [UInt32.toNat_shiftRight,UInt32.toNat_ofNat',Nat.mod_eq_of_lt (by omega : 8 * (3 - e) < 2 ^ 32),
        Nat.mod_eq_of_lt (by omega : 8 * (3 - e) < 32),Nat.shiftRight_eq_div_pow,Nat.pow_mul,word]
    simp only [if_pos short]
    generalize nWord >>> UInt32.ofNat (8 * (3 - e)) = low at shifted
    refine ⟨by rw [base_uint.val_ofUInt64 _ (by decide),UInt32.toNat_toUInt64,shifted],?_⟩
    simp [show ¬(34 < e) by omega,show ¬(33 < e) by omega,show ¬(32 < e) by omega]
  · simp only [if_neg short]
    refine ⟨?_,?_⟩
    · rw [base_uint.val_shiftLeft,base_uint.val_ofUInt64 _ (by decide),UInt32.toNat_toUInt64,word,Nat.pow_mul]
    · have wide : ¬(0xffff < nWord ∧ 32 < e) := by
        rw [UInt32.lt_iff_toNat_lt,word]
        rcases fits with low | ⟨top,narrow⟩
        · omega
        · exact fun wide => absurd wide.1 (by rw [show (0xffff : UInt32).toNat = 2 ^ 16 - 1 from rfl]; omega)
      simp only [gt_iff_lt,show ¬(34 < e) by omega,show ¬(33 < e) by omega,decide_false,Bool.false_or,
        Bool.and_false,Bool.or_false]
      rw [← Bool.decide_and,decide_eq_false wide]
      simp

/-- The compact form of every 256-bit number reads back as the number with
all but its top bytes cleared, neither negative nor overflowing, and that
number has the same compact form. -/
theorem GetCompact_SetCompact_round_trip (x : arith_uint256) :
    (∀ fNegative, ∃ nCompact, x.GetCompact fNegative = .ok nCompact) ∧
      ∃ nCompact, x.GetCompact false = .ok nCompact ∧
        (arith_uint256.SetCompact nCompact).2 = (false,false) ∧
        (arith_uint256.SetCompact nCompact).1.val =
          x.val / 256 ^ (compactExponent x.val - 3) * 256 ^ (compactExponent x.val - 3) ∧
        (arith_uint256.SetCompact nCompact).1.GetCompact false = .ok nCompact := by
  refine ⟨fun fNegative => (GetCompact_eq x fNegative).imp fun _ => And.left,?_⟩
  obtain ⟨nCompact,get,packed⟩ := GetCompact_eq x false
  simp only [Bool.false_and,Bool.false_eq_true,if_false,Nat.add_zero] at packed
  obtain ⟨value,flags⟩ := SetCompact_spec nCompact (compactMantissa_lt x.val) (compact_fits x) packed
  -- the cleared number is below `x`, so the shift in `SetCompact` does not wrap
  have rounded := compact_value x.val
  have below : x.val / 256 ^ (compactExponent x.val - 3) * 256 ^ (compactExponent x.val - 3) < 2 ^ 256 :=
    Nat.lt_of_le_of_lt (Nat.div_mul_le_self _ _) x.val_lt
  have exact : (arith_uint256.SetCompact nCompact).1.val =
      x.val / 256 ^ (compactExponent x.val - 3) * 256 ^ (compactExponent x.val - 3) := by
    rw [value]
    split
    · case isTrue short => rw [← rounded,if_pos short]
    · case isFalse long =>
      rw [if_neg long] at rounded
      rw [rounded,Nat.mod_eq_of_lt below]
  refine ⟨nCompact,get,flags,exact,?_⟩
  obtain ⟨again,get',packed'⟩ := GetCompact_eq (arith_uint256.SetCompact nCompact).1 false
  obtain ⟨exponent,mantissa⟩ := compact_rounded x.val
  simp only [Bool.false_and,Bool.false_eq_true,if_false,Nat.add_zero,exact,exponent,mantissa] at packed'
  rw [get',UInt32.toNat_inj.mp (packed'.trans packed.symm)]

end Qtum
