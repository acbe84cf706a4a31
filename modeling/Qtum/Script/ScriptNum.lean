import Qtum.Script.Script

/-! The byte form of `CScriptNum`: `serialize` writes the magnitude in the
fewest little-endian bytes and the sign in the top bit of the last one, adding
a byte where the magnitude already uses that bit; the constructor with
`fRequireMinimal` rejects a last byte that carries only the sign, unless the
byte before it needs its own top bit. Every `int64_t` but the least is read
back from its serialization, and every form of at most eight bytes the
constructor accepts is the serialization of the value it reads. -/
namespace Qtum.Script

open LittleEndian

/-- The low seven bits of a byte are its value modulo 128. -/
private theorem toNat_and_0x7f (b : UInt8) : (b &&& 0x7f).toNat = b.toNat % 128 := by
  rw [UInt8.toNat_and]
  show b.toNat &&& 2 ^ 7 - 1 = b.toNat % 2 ^ 7
  exact Nat.and_two_pow_sub_one_eq_mod _ _

/-- The top bit of a byte is clear exactly when the byte is below 128. -/
private theorem and_0x80_eq_zero (b : UInt8) : b &&& 0x80 = 0 ↔ b.toNat < 128 := by
  have bound := b.toNat_lt
  rw [← UInt8.toNat_inj,UInt8.toNat_and]
  show b.toNat &&& 2 ^ 7 = 0 ↔ _
  constructor
  · intro clear
    by_contra high
    have set : b.toNat.testBit 7 = true :=
      Nat.testBit_of_two_pow_le_and_two_pow_add_one_gt (by omega) (by omega)
    have bit := congrArg (Nat.testBit · 7) clear
    rw [Nat.testBit_and,set,Nat.testBit_two_pow,Nat.zero_testBit] at bit
    simp at bit
  · intro low
    apply Nat.eq_of_testBit_eq
    intro i
    rw [Nat.testBit_and,Nat.testBit_two_pow,Nat.zero_testBit]
    by_cases top : i = 7
    · subst top
      rw [Nat.testBit_lt_two_pow (show b.toNat < 2 ^ 7 by omega),Bool.false_and]
    · simp [Ne.symm top]

/-- Setting the top bit of a byte below 128 adds 128. -/
private theorem toNat_or_0x80 {b : UInt8} (low : b.toNat < 128) : (b ||| 0x80).toNat = b.toNat + 128 := by
  rw [UInt8.toNat_or]
  exact Nat.or_two_pow_eq_add_of_lt (n := 7) low

/-! ## The sign bit -/

private theorem sign_bits_zero : ∀ b : UInt8, b &&& 0x7f = 0 → b &&& 0x80 = 0 → b = 0 := by
  intro b low top
  rw [← UInt8.toNat_inj,toNat_and_0x7f] at low
  rw [and_0x80_eq_zero] at top
  rw [← UInt8.toNat_inj]
  simp only [UInt8.toNat_zero] at low ⊢
  omega

private theorem sign_bits_only : ∀ b : UInt8, b &&& 0x7f = 0 → b &&& 0x80 ≠ 0 → b = 0x80 := by
  intro b low top
  rw [← UInt8.toNat_inj,toNat_and_0x7f] at low
  rw [Ne,and_0x80_eq_zero] at top
  have bound := b.toNat_lt
  rw [← UInt8.toNat_inj]
  simp only [UInt8.toNat_zero] at low
  show b.toNat = 128
  omega

private theorem set_sign : ∀ b : UInt8, b &&& 0x80 = 0 → (b ||| 0x80) &&& 0x7f = b ∧ (b ||| 0x80) &&& 0x80 ≠ 0 := by
  intro b top
  rw [and_0x80_eq_zero] at top
  rw [← UInt8.toNat_inj,toNat_and_0x7f,Ne,and_0x80_eq_zero,toNat_or_0x80 top]
  omega

private theorem clear_sign : ∀ b : UInt8, b &&& 0x80 ≠ 0 → (b &&& 0x7f) ||| 0x80 = b ∧ (b &&& 0x7f) &&& 0x80 = 0 := by
  intro b top
  rw [Ne,and_0x80_eq_zero] at top
  have bound := b.toNat_lt
  have low : (b &&& 0x7f).toNat < 128 := by rw [toNat_and_0x7f]; omega
  rw [← UInt8.toNat_inj,toNat_or_0x80 low,toNat_and_0x7f,and_0x80_eq_zero,toNat_and_0x7f]
  omega

private theorem low_bits_of_clear : ∀ b : UInt8, b &&& 0x80 = 0 → b &&& 0x7f = b := by
  intro b top
  rw [and_0x80_eq_zero] at top
  rw [← UInt8.toNat_inj,toNat_and_0x7f]
  omega

private theorem toNat_of_sign : ∀ b : UInt8, b &&& 0x80 ≠ 0 → 128 ≤ b.toNat := by
  intro b top
  rw [Ne,and_0x80_eq_zero] at top
  omega

/-! ## The magnitude -/

/-- Little-endian bytes whose last byte is not zero: the fewest bytes for
their value. -/
def Minimal (bytes : List UInt8) : Prop := bytes.getLast? ≠ some 0

theorem Minimal.append_singleton (init : List UInt8) {last : UInt8} (nonzero : last ≠ 0) :
    Minimal (init ++ [last]) := by
  simpa [Minimal] using nonzero

theorem Minimal.of_cons {byte : UInt8} {bytes : List UInt8} (minimal : Minimal (byte :: bytes)) : Minimal bytes := by
  intro last
  apply minimal
  rw [List.getLast?_cons,last]
  rfl

theorem Minimal.cons {byte : UInt8} {bytes : List UInt8} (minimal : Minimal bytes) (nonzero : bytes = [] → byte ≠ 0) :
    Minimal (byte :: bytes) := by
  cases bytes with
  | nil => simpa [Minimal] using nonzero rfl
  | cons next bytes =>
    intro last
    apply minimal
    rwa [List.getLast?_cons_cons] at last

theorem decode_pos {bytes : List UInt8} (minimal : Minimal bytes) (nonempty : bytes ≠ []) : 0 < decode bytes := by
  obtain ⟨init,last,rfl⟩ := List.eq_nil_or_concat' bytes |>.resolve_left nonempty
  have nonzero : last ≠ 0 := fun zero => minimal (by simp [zero])
  have positive : 0 < last.toNat :=
    Nat.pos_of_ne_zero fun zero => nonzero (UInt8.toNat_inj.mp (by rw [zero,UInt8.toNat_zero]))
  have weight : 0 < 256 ^ init.length := Nat.pow_pos (by decide)
  rw [decode_append,decode_cons,decode_nil]
  exact Nat.add_pos_right _ (Nat.mul_pos weight (by omega))

/-- `magnitudeBytes` writes the fewest bytes of a value that fits its rounds. -/
theorem magnitudeBytes_spec (fuel n : Nat) (fits : n < 256 ^ fuel) :
    decode (magnitudeBytes fuel n) = n ∧ Minimal (magnitudeBytes fuel n) ∧ (magnitudeBytes fuel n).length ≤ fuel := by
  induction fuel generalizing n with
  | zero =>
    obtain rfl : n = 0 := by simpa using fits
    exact ⟨rfl,by simp [Minimal,magnitudeBytes],le_refl 0⟩
  | succ fuel induct =>
    rw [magnitudeBytes]
    split
    · case isTrue zero =>
      subst zero
      exact ⟨rfl,by simp [Minimal],Nat.zero_le _⟩
    · case isFalse nonzero =>
      have next : n / 256 < 256 ^ fuel := by
        rw [Nat.pow_succ] at fits
        exact Nat.div_lt_of_lt_mul (by rwa [Nat.mul_comm] at fits)
      obtain ⟨value,minimal,length⟩ := induct _ next
      have low : (UInt8.ofNat (n % 256)).toNat = n % 256 := by simp [UInt8.toNat_ofNat']
      refine ⟨by rw [decode_cons,low,value]; omega,minimal.cons fun empty => ?_,by simp; omega⟩
      -- a single byte: the value is below 256 and not zero
      rw [empty,decode_nil] at value
      intro zero
      have := congrArg UInt8.toNat zero
      rw [low,UInt8.toNat_zero] at this
      omega

/-- The bytes of a value, fewest first: `magnitudeBytes` gives them back. -/
theorem magnitudeBytes_decode {bytes : List UInt8} {fuel : Nat} (length : bytes.length ≤ fuel) (minimal : Minimal bytes) :
    magnitudeBytes fuel (decode bytes) = bytes := by
  induction bytes generalizing fuel with
  | nil => cases fuel <;> simp [magnitudeBytes]
  | cons byte bytes induct =>
    obtain ⟨fuel,rfl⟩ : ∃ rounds, fuel = rounds + 1 := ⟨fuel - 1,by simp at length; omega⟩
    have positive := decode_pos minimal (List.cons_ne_nil byte bytes)
    have bound := byte.toNat_lt
    rw [decode_cons] at positive ⊢
    have low : (byte.toNat + 256 * decode bytes) % 256 = byte.toNat := by omega
    have high : (byte.toNat + 256 * decode bytes) / 256 = decode bytes := by omega
    rw [magnitudeBytes,if_neg (by omega),low,high,UInt8.ofNat_toNat,
      induct (by simp at length; omega) minimal.of_cons]

/-! ## `serialize` and the constructor -/

/-- `set_vch` of bytes ending in `last`: the sign bit of `last` decides. -/
theorem setVch_append (init : List UInt8) (last : UInt8) :
    setVch (init ++ [last]) =
      if last &&& 0x80 = 0 then (decode (init ++ [last]) : Int) else -(decode (init ++ [last &&& 0x7f]) : Int) := by
  simp [setVch]

/-- The constructor with `fRequireMinimal` accepts bytes within the size
whose last byte carries more than the sign, or follows a byte whose top bit
is set. -/
theorem ofBytes_append {init : List UInt8} {last : UInt8} {nMaxNumSize : Nat}
    (room : init.length + 1 ≤ nMaxNumSize)
    (minimal : last &&& 0x7f ≠ 0 ∨ ∃ front prev, init = front ++ [prev] ∧ prev &&& 0x80 ≠ 0) :
    CScriptNum.ofBytes (init ++ [last]) true nMaxNumSize = some (setVch (init ++ [last])) := by
  rw [CScriptNum.ofBytes,if_neg (by simp; omega),if_neg]
  rcases minimal with carries | ⟨front,prev,rfl,topBit⟩
  · simp [carries]
  · simp [topBit]

/-- What the constructor with `fRequireMinimal` accepts: no bytes, or bytes
within the size whose last byte carries more than the sign, or follows a byte
whose top bit is set. -/
theorem ofBytes_true_some {vch : valtype} {nMaxNumSize : Nat} {value : Int}
    (accepted : CScriptNum.ofBytes vch true nMaxNumSize = some value) :
    value = setVch vch ∧ vch.length ≤ nMaxNumSize ∧
      (vch = [] ∨ ∃ init last, vch = init ++ [last] ∧
        (last &&& 0x7f ≠ 0 ∨ ∃ front prev, init = front ++ [prev] ∧ prev &&& 0x80 ≠ 0)) := by
  unfold CScriptNum.ofBytes at accepted
  split at accepted
  · cases accepted
  · case isFalse room =>
    split at accepted
    · cases accepted
    · case isFalse check =>
      cases accepted
      refine ⟨rfl,by omega,?_⟩
      rcases List.eq_nil_or_concat' vch with empty | ⟨init,last,rfl⟩
      · exact Or.inl empty
      · refine Or.inr ⟨init,last,rfl,?_⟩
        by_cases carries : last &&& 0x7f = 0
        · right
          rcases List.eq_nil_or_concat' init with empty | ⟨front,prev,rfl⟩
          · subst empty
            simp [carries] at check
          · exact ⟨front,prev,rfl,by simpa [carries] using check⟩
        · exact Or.inl carries

/-- `serialize` of a value other than zero whose magnitude is `init ++ [top]`
in its fewest bytes: a sign byte follows where `top` uses the top bit, and
otherwise the sign is set in `top`. -/
theorem serialize_of_magnitude {value : Int} {init : List UInt8} {top : UInt8} (nonzero : value ≠ 0)
    (magnitude : magnitudeBytes 8 value.natAbs = init ++ [top]) :
    CScriptNum.serialize value =
      if top &&& 0x80 ≠ 0 then init ++ [top] ++ [if value < 0 then 0x80 else 0]
      else if value < 0 then init ++ [top ||| 0x80] else init ++ [top] := by
  have last : (init ++ [top]).getLast! = top := by simp
  rw [CScriptNum.serialize,if_neg nonzero]
  dsimp only
  rw [magnitude,last,List.dropLast_concat]

/-- `serialize` of a value whose magnitude has the bytes `init ++ [top]`,
the fewest for it. -/
theorem serialize_of_decode {value : Int} (init : List UInt8) {top : UInt8} (length : init.length < 8)
    (nonzero : top ≠ 0) (magnitude : value.natAbs = decode (init ++ [top])) :
    CScriptNum.serialize value =
      if top &&& 0x80 ≠ 0 then init ++ [top] ++ [if value < 0 then 0x80 else 0]
      else if value < 0 then init ++ [top ||| 0x80] else init ++ [top] := by
  have positive := decode_pos (Minimal.append_singleton init nonzero) (by simp)
  refine serialize_of_magnitude (by omega) ?_
  rw [magnitude]
  exact magnitudeBytes_decode (by simp; omega) (Minimal.append_singleton init nonzero)

private theorem decode_append_zero (bytes : List UInt8) : decode (bytes ++ [0]) = decode bytes := by
  simp

/-- A magnitude below `2^63` whose last byte uses the top bit has at most
seven bytes, which leaves room for the sign byte. -/
private theorem length_lt_of_top_bit (init : List UInt8) {top : UInt8} (topBit : top &&& 0x80 ≠ 0)
    (fits : decode (init ++ [top]) < 2 ^ 63) : init.length < 7 := by
  have weighs : 256 ^ init.length * 128 < 256 ^ 7 * 128 :=
    calc 256 ^ init.length * 128 ≤ 256 ^ init.length * top.toNat := Nat.mul_le_mul_left _ (toNat_of_sign top topBit)
      _ ≤ decode (init ++ [top]) := decode_append_singleton_ge init top
      _ < 256 ^ 7 * 128 := by omega
  exact (Nat.pow_lt_pow_iff_right (by decide)).mp (Nat.lt_of_mul_lt_mul_right weighs)

/-- Every value of an `int64_t` but the least: its serialization has at most
eight bytes, and the constructor with `fRequireMinimal` reads the value back
from it at every size limit the serialization fits. -/
theorem ofBytes_serialize {value : Int} (above : -2 ^ 63 < value) (below : value < 2 ^ 63) :
    (CScriptNum.serialize value).length ≤ 8 ∧ ∀ nMaxNumSize, (CScriptNum.serialize value).length ≤ nMaxNumSize →
      CScriptNum.ofBytes (CScriptNum.serialize value) true nMaxNumSize = some value := by
  by_cases zero : value = 0
  · subst zero
    refine ⟨by decide,fun nMaxNumSize _ => ?_⟩
    simp [CScriptNum.ofBytes,CScriptNum.serialize,setVch]
  obtain ⟨magnitude,minimal,length⟩ := magnitudeBytes_spec 8 value.natAbs (by omega)
  obtain ⟨init,top,split⟩ := List.eq_nil_or_concat' (magnitudeBytes 8 value.natAbs) |>.resolve_left
    fun empty => by rw [empty,decode_nil] at magnitude; omega
  rw [split] at magnitude minimal length
  have nonzero : top ≠ 0 := fun isZero => minimal (by simp [isZero])
  rw [serialize_of_magnitude zero split]
  -- a sign byte after a magnitude that uses the top bit, or the sign set in its last byte
  split_ifs with topBit negative negative
  · have shorter := length_lt_of_top_bit init topBit (by omega)
    refine ⟨by simp; omega,fun nMaxNumSize room => ?_⟩
    rw [ofBytes_append (by simp only [List.length_append,List.length_singleton] at room ⊢; omega)
      (Or.inr ⟨init,top,rfl,topBit⟩),setVch_append,if_neg (by decide),
      show (0x80 : UInt8) &&& 0x7f = 0 by decide,decode_append_zero,magnitude]
    congr 1
    omega
  · have shorter := length_lt_of_top_bit init topBit (by omega)
    refine ⟨by simp; omega,fun nMaxNumSize room => ?_⟩
    rw [ofBytes_append (by simp only [List.length_append,List.length_singleton] at room ⊢; omega)
      (Or.inr ⟨init,top,rfl,topBit⟩),setVch_append,if_pos (by decide),
      decode_append_zero,magnitude]
    congr 1
    omega
  · have clear : top &&& 0x80 = 0 := not_not.mp topBit
    obtain ⟨low,signed⟩ := set_sign top clear
    refine ⟨by simpa using length,fun nMaxNumSize room => ?_⟩
    rw [ofBytes_append (by simp only [List.length_append,List.length_singleton] at room ⊢; omega)
      (Or.inl (by rw [low]; exact nonzero)),setVch_append,if_neg signed,low,
      magnitude]
    congr 1
    omega
  · have clear : top &&& 0x80 = 0 := not_not.mp topBit
    refine ⟨by simpa using length,fun nMaxNumSize room => ?_⟩
    rw [ofBytes_append (by simp only [List.length_append,List.length_singleton] at room ⊢; omega)
      (Or.inl (by rw [low_bits_of_clear top clear]; exact nonzero)),
      setVch_append,if_pos clear,magnitude]
    congr 1
    omega

/-- Every form of at most eight bytes that the constructor with
`fRequireMinimal` accepts is the serialization of the value it reads. -/
theorem serialize_ofBytes {vch : valtype} {nMaxNumSize : Nat} {value : Int} (small : nMaxNumSize ≤ 8)
    (accepted : CScriptNum.ofBytes vch true nMaxNumSize = some value) : CScriptNum.serialize value = vch := by
  obtain ⟨rfl,room,form⟩ := ofBytes_true_some accepted
  rcases form with rfl | ⟨init,last,rfl,minimal⟩
  · rfl
  rw [List.length_append,List.length_singleton] at room
  rw [setVch_append]
  by_cases carries : last &&& 0x7f = 0
  · -- the last byte holds only the sign, after a byte that uses the top bit
    obtain ⟨front,prev,rfl,topBit⟩ := minimal.resolve_left (not_not.mpr carries)
    have nonzero : prev ≠ 0 := fun zero => topBit (by rw [zero]; decide)
    have positive := decode_pos (Minimal.append_singleton front nonzero) (by simp)
    rw [List.length_append,List.length_singleton] at room
    by_cases sign : last &&& 0x80 = 0
    · obtain rfl := sign_bits_zero last carries sign
      rw [if_pos sign,decode_append_zero,serialize_of_decode front (by omega) nonzero (Int.natAbs_natCast _),
        if_pos topBit,if_neg (by omega)]
    · obtain rfl := sign_bits_only last carries sign
      rw [if_neg sign,carries,decode_append_zero,serialize_of_decode front (by omega) nonzero
        (by rw [Int.natAbs_neg,Int.natAbs_natCast]),if_pos topBit,if_pos (by omega)]
  · have nonzero : last ≠ 0 := fun zero => carries (by rw [zero]; decide)
    by_cases sign : last &&& 0x80 = 0
    · rw [if_pos sign,serialize_of_decode init (by omega) nonzero (Int.natAbs_natCast _),
      if_neg (not_not.mpr sign),if_neg (Int.not_lt.mpr (Int.natCast_nonneg _))]
    · -- a negative value: its magnitude ends in the last byte without the sign
      obtain ⟨restore,clear⟩ := clear_sign last sign
      have positive := decode_pos (Minimal.append_singleton init carries) (by simp)
      rw [if_neg sign,serialize_of_decode init (by omega) carries
        (by rw [Int.natAbs_neg,Int.natAbs_natCast]),if_neg (not_not.mpr clear),if_pos (by omega),restore]

/-- The minimal encoding is a bijection between the values of an `int64_t`
but the least and the forms of at most eight bytes the constructor accepts
with `fRequireMinimal`: each value is read back from its serialization, and
each accepted form is the serialization of its value. -/
theorem CScriptNum_minimal_encoding_bijective :
    (∀ value : Int, -2 ^ 63 < value → value < 2 ^ 63 → ∀ nMaxNumSize, (CScriptNum.serialize value).length ≤ nMaxNumSize →
      CScriptNum.ofBytes (CScriptNum.serialize value) true nMaxNumSize = some value) ∧
    ∀ (vch : valtype) (nMaxNumSize : Nat) (value : Int), nMaxNumSize ≤ 8 →
      CScriptNum.ofBytes vch true nMaxNumSize = some value → CScriptNum.serialize value = vch :=
  ⟨fun _ above below => (ofBytes_serialize above below).2,fun _ _ _ small accepted => serialize_ofBytes small accepted⟩

/-- -255, whose magnitude uses the top bit of its byte, takes a second byte
for the sign, and is read back within the default four bytes. -/
theorem CScriptNum_minimal_encoding_bijective_255 :
    CScriptNum.serialize (-255) = [0xff,0x80] ∧ CScriptNum.ofBytes (CScriptNum.serialize (-255)) true 4 = some (-255) :=
  ⟨by decide,CScriptNum_minimal_encoding_bijective.1 (-255) (by decide) (by decide) 4 (by decide)⟩

/-- Nine bytes are past an `int64_t`: eight zero bytes and a one pass the
size and minimality checks at a limit of nine, and no `int64_t` value
serializes to them. Whatever `set_vch` makes of them, its shift by 64 bits
being undefined, the round trip fails. -/
theorem CScriptNum_nine_bytes_not_serialized :
    CScriptNum.ofBytes (List.replicate 8 0 ++ [1]) true 9 ≠ none ∧
      ∀ value : Int, -2 ^ 63 ≤ value → value < 2 ^ 63 → CScriptNum.serialize value ≠ List.replicate 8 0 ++ [1] := by
  refine ⟨by decide,fun value least below same => ?_⟩
  rcases Int.lt_or_eq_of_le least with above | lowest
  · -- every other value serializes to at most eight bytes
    have short := (ofBytes_serialize above below).1
    rw [same] at short
    exact absurd short (by decide)
  · rw [← lowest] at same
    exact absurd same (by decide)

end Qtum.Script
