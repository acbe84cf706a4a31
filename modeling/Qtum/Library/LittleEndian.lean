import Mathlib.Data.Nat.Digits.Defs

/-! Fixed-width little-endian byte strings read as natural numbers: the layout
of serialized integer fields and of the length prefixes of data pushes.
Reading is `Nat.ofDigits 256`, so the digit lemmas of Mathlib apply as they are. -/
namespace LittleEndian

/-- The value of a little-endian byte string. -/
def decode (bytes : List UInt8) : Nat := Nat.ofDigits 256 (bytes.map UInt8.toNat)

/-- The `width` low bytes of `n`, least significant first. -/
def encode : Nat → Nat → List UInt8
  | 0, _ => []
  | width + 1, n => UInt8.ofNat (n % 256) :: encode width (n / 256)

@[simp] theorem decode_nil : decode [] = 0 := rfl

@[simp] theorem decode_cons (byte : UInt8) (bytes : List UInt8) :
    decode (byte :: bytes) = byte.toNat + 256 * decode bytes := by
  simp [decode,Nat.ofDigits_cons]

@[simp] theorem length_encode (width n : Nat) : (encode width n).length = width := by
  induction width generalizing n with
  | zero => rfl
  | succ width ih => simp [encode,ih]

theorem decode_encode (width n : Nat) : decode (encode width n) = n % 256 ^ width := by
  induction width generalizing n with
  | zero => simp [encode,Nat.mod_one]
  | succ width ih =>
    have low : (UInt8.ofNat (n % 256)).toNat = n % 256 := by
      simp [UInt8.toNat_ofNat']
    rw [encode,decode_cons,ih,low,Nat.pow_succ',Nat.mod_mul]

theorem encode_decode (bytes : List UInt8) : encode bytes.length (decode bytes) = bytes := by
  induction bytes with
  | nil => rfl
  | cons byte bytes ih =>
    have bound := byte.toNat_lt
    have low : (byte.toNat + 256 * decode bytes) % 256 = byte.toNat := by omega
    have high : (byte.toNat + 256 * decode bytes) / 256 = decode bytes := by omega
    simp only [List.length_cons,encode,decode_cons,low,high,ih,UInt8.ofNat_toNat]

theorem decode_lt (bytes : List UInt8) : decode bytes < 256 ^ bytes.length := by
  have digits : ∀ digit ∈ bytes.map UInt8.toNat, digit < 256 := by
    intro digit member
    obtain ⟨byte,-,rfl⟩ := List.mem_map.mp member
    exact byte.toNat_lt
  simpa [decode] using Nat.ofDigits_lt_base_pow_length (by norm_num) digits

/-- Two strings of one width with one value are equal: the encoding is injective. -/
theorem eq_of_decode_eq {first second : List UInt8} (length : first.length = second.length)
    (same : decode first = decode second) : first = second := by
  rw [← encode_decode first,← encode_decode second,length,same]

theorem encode_injective {width m n : Nat} (small : m < 256 ^ width) (bound : n < 256 ^ width)
    (same : encode width m = encode width n) : m = n := by
  have values := congrArg decode same
  rwa [decode_encode,decode_encode,Nat.mod_eq_of_lt small,Nat.mod_eq_of_lt bound] at values

@[simp] theorem decode_append (first second : List UInt8) :
    decode (first ++ second) = decode first + 256 ^ first.length * decode second := by
  induction first with
  | nil => simp
  | cons byte first ih =>
    simp only [List.cons_append,decode_cons,ih,List.length_cons,Nat.pow_succ']
    ring

/-- The last byte weighs `256 ^ (length - 1)`. -/
theorem decode_append_singleton_ge (init : List UInt8) (last : UInt8) :
    256 ^ init.length * last.toNat ≤ decode (init ++ [last]) := by
  simp

end LittleEndian
