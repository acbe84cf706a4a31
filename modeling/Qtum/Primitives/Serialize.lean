import Qtum.Library.LittleEndian
import Qtum.Library.VarInt

/-! The encodings of `serialize.h` that the undo files use: `CompactSize`,
with the reader's rejection of non-canonical and oversized values, `VARINT`
at the integer types it is applied to, and vectors as a `CompactSize` count
followed by the elements. A writer is a function to bytes and a reader a
`Decoder`; `std::ios_base::failure` is the decoder's rejection. Both
directions are proved: sizes up to `MAX_SIZE` are read back, and what the
readers accept is what the writers write. -/
namespace Qtum

def MAX_SIZE : Nat := 0x02000000

def WriteCompactSize (nSize : Nat) : List UInt8 :=
  if nSize < 253 then [UInt8.ofNat nSize]
  else if nSize ≤ 0xffff then 253 :: LittleEndian.encode 2 nSize
  else if nSize ≤ 0xffffffff then 254 :: LittleEndian.encode 4 nSize
  else 255 :: LittleEndian.encode 8 nSize

/-- `ser_readdata16`, `ser_readdata32` and `ser_readdata64`. -/
def readLittleEndian (width : Nat) : Decoder Nat := LittleEndian.decode <$> Decoder.bytes width

/-- A `CompactSize` of `width` bytes after its marker, which a shorter form
could not have held. -/
def readCompactForm (width least : Nat) : Decoder Nat := do
  let nSize ← readLittleEndian width
  if nSize < least then Decoder.fail else pure nSize

/-- The value that follows the marker byte `chSize`. -/
def readCompactValue (chSize : UInt8) : Decoder Nat :=
  if chSize.toNat < 253 then pure chSize.toNat
  else if chSize.toNat = 253 then readCompactForm 2 253
  else if chSize.toNat = 254 then readCompactForm 4 0x10000
  else readCompactForm 8 0x100000000

def ReadCompactSize : Decoder Nat := do
  let chSize ← Decoder.byte
  let nSizeRet ← readCompactValue chSize
  if MAX_SIZE < nSizeRet then Decoder.fail else pure nSizeRet

/-- `VARINT` of an `unsigned int`. -/
def ReadVarIntUInt32 : Decoder Nat := VarInt.read (VarInt.unsigned 32)

/-- `VARINT` of a `uint64_t`. -/
def ReadVarIntUInt64 : Decoder Nat := VarInt.read (VarInt.unsigned 64)

/-- `VARINT` of an `int`: shifting past `INT_MAX` is undefined. -/
def ReadVarIntInt32 : Decoder Int := (fun n : Nat => (n : Int)) <$> VarInt.read (VarInt.signed (2 ^ 31 - 1))

/-- A vector: its size as a `CompactSize`, then its elements. -/
def WriteVector {α : Type} (write : α → List UInt8) (values : List α) : List UInt8 :=
  WriteCompactSize values.length ++ (values.map write).flatten

def ReadVector {α : Type} (read : Decoder α) : Decoder (List α) := do
  let nSize ← ReadCompactSize
  Decoder.replicate read nSize

theorem readLittleEndian_encode {width n : Nat} (fits : n < 256 ^ width) (rest : List UInt8) :
    readLittleEndian width (LittleEndian.encode width n ++ rest) = .ok (some (n,rest)) := by
  have read := Decoder.bytes_append (LittleEndian.length_encode width n) rest
  rw [readLittleEndian,Decoder.map_apply,Decoder.bind_apply_of_some read,Decoder.pure_apply,
    LittleEndian.decode_encode,Nat.mod_eq_of_lt fits]

theorem readCompactForm_encode {width least n : Nat} (large : least ≤ n) (fits : n < 256 ^ width)
    (rest : List UInt8) :
    readCompactForm width least (LittleEndian.encode width n ++ rest) = .ok (some (n,rest)) := by
  rw [readCompactForm,Decoder.bind_apply_of_some (readLittleEndian_encode fits rest)]
  simp [Nat.not_lt.mpr large]

private theorem ReadCompactSize_of_value {chSize : UInt8} {input rest : List UInt8} {nSize : Nat}
    (read : readCompactValue chSize input = .ok (some (nSize,rest))) (bounded : nSize ≤ MAX_SIZE) :
    ReadCompactSize (chSize :: input) = .ok (some (nSize,rest)) := by
  rw [ReadCompactSize,Decoder.bind_apply_of_some (Decoder.byte_cons _ _),Decoder.bind_apply_of_some read]
  simp [Nat.not_lt.mpr bounded]

/-- Every size up to `MAX_SIZE` is read back from its `CompactSize`. -/
theorem ReadCompactSize_WriteCompactSize :
    Decoder.RoundTrip ReadCompactSize WriteCompactSize (· ≤ MAX_SIZE) := by
  intro nSize bounded rest
  have large : nSize < 0x100000000 := by unfold MAX_SIZE at bounded; omega
  unfold WriteCompactSize
  split_ifs with small short middle
  · have byte : (UInt8.ofNat nSize).toNat = nSize := by simp [UInt8.toNat_ofNat']; omega
    apply ReadCompactSize_of_value _ bounded
    simp [readCompactValue,byte,small]
  · apply ReadCompactSize_of_value _ bounded
    rw [readCompactValue,if_neg (by decide),if_pos (by decide)]
    exact readCompactForm_encode (by omega) (by simp; omega) rest
  · apply ReadCompactSize_of_value _ bounded
    rw [readCompactValue,if_neg (by decide),if_neg (by decide),if_pos (by decide)]
    exact readCompactForm_encode (by omega) (by simp; omega) rest
  · omega

/-- A vector no longer than `MAX_SIZE` whose elements are read back is read back. -/
theorem ReadVector_WriteVector {α : Type} {read : Decoder α} {write : α → List UInt8} {P : α → Prop}
    (trip : Decoder.RoundTrip read write P) :
    Decoder.RoundTrip (ReadVector read) (WriteVector write)
      (fun values => values.length ≤ MAX_SIZE ∧ ∀ value ∈ values, P value) := by
  rintro values ⟨bounded,holds⟩ rest
  rw [ReadVector,WriteVector]
  exact Decoder.RoundTrip.bind ReadCompactSize_WriteCompactSize
    (fun length _ => (Decoder.RoundTrip.replicate trip : Decoder.RoundTrip (Decoder.replicate read length) _ _))
    bounded ⟨rfl,holds⟩ rest

/-- An `int` read back from its `VARINT`: the writer stops a negative value
at its first byte, its low seven bits, which read back as a positive value. -/
theorem ReadVarIntInt32_writeInt {n : Int} (fits : n < 2 ^ 31) (rest : List UInt8) :
    ReadVarIntInt32 (VarInt.writeInt n ++ rest) = .ok (some (if n < 0 then n % 128 else n,rest)) := by
  have low : 0 ≤ n % 128 ∧ n % 128 < 128 := ⟨Int.emod_nonneg n (by decide),Int.emod_lt_of_pos n (by decide)⟩
  rw [VarInt.writeInt,ReadVarIntInt32,Decoder.map_apply]
  split
  · case isTrue negative =>
    rw [← VarInt.write_small (n := (n % 128).toNat) (by omega),
      Decoder.bind_apply_of_some (VarInt.read_signed_write _ _ (by omega) rest)]
    simp [Int.toNat_of_nonneg low.1]
  · case isFalse positive =>
    rw [Decoder.bind_apply_of_some (VarInt.read_signed_write _ _ (by omega) rest)]
    simp [Int.toNat_of_nonneg (by omega : 0 ≤ n)]

/-- `ReadVarInt` of an unsigned type has no range check: the encoding of a
value past the type is read whole, as the value modulo the width, and that
value's own encoding is another. -/
theorem ReadVarInt_unsigned_wraps (width n : Nat) (large : 2 ^ width ≤ n) (rest : List UInt8) :
    VarInt.read (VarInt.unsigned width) (VarInt.write n ++ rest) = .ok (some (n % 2 ^ width,rest)) ∧
      VarInt.write (n % 2 ^ width) ≠ VarInt.write n := by
  refine ⟨VarInt.read_write (VarInt.unsigned_exact width n) (le_refl n) rest,fun same => ?_⟩
  have below : n % 2 ^ width < n := lt_of_lt_of_le (Nat.mod_lt n (Nat.two_pow_pos width)) large
  exact Nat.ne_of_lt below (VarInt.write_injective same)

/-- The five bytes that encode `2^32` are read into an `unsigned int` as zero. -/
theorem ReadVarIntUInt32_two_pow_32 :
    ReadVarIntUInt32 (VarInt.write (2 ^ 32) ++ []) = .ok (some (0,[])) ∧ VarInt.write 0 ≠ VarInt.write (2 ^ 32) :=
  ReadVarInt_unsigned_wraps 32 (2 ^ 32) (le_refl _) []

/-! ## What the readers accept -/

theorem readLittleEndian_some {width value : Nat} {input rest : List UInt8}
    (read : readLittleEndian width input = .ok (some (value,rest))) :
    value < 256 ^ width ∧ input = LittleEndian.encode width value ++ rest := by
  rw [readLittleEndian,Decoder.map_apply] at read
  obtain ⟨bytes,middle,bytesRead,built⟩ := Decoder.bind_some read
  obtain ⟨decoded,left⟩ := Decoder.pure_some built
  subst decoded left
  obtain ⟨length,split⟩ := Decoder.bytes_some bytesRead
  refine ⟨length ▸ LittleEndian.decode_lt bytes,?_⟩
  rw [split,← length,LittleEndian.encode_decode]

private theorem readCompactForm_some {width least value : Nat} {input rest : List UInt8}
    (read : readCompactForm width least input = .ok (some (value,rest))) :
    least ≤ value ∧ value < 256 ^ width ∧ input = LittleEndian.encode width value ++ rest := by
  rw [readCompactForm] at read
  obtain ⟨nSize,middle,sizeRead,checked⟩ := Decoder.bind_some read
  split at checked
  · cases checked
  · rename_i large
    obtain ⟨same,left⟩ := Decoder.pure_some checked
    subst same left
    exact ⟨by omega,readLittleEndian_some sizeRead⟩

/-- `ReadCompactSize` accepts a size only in the shortest form that holds it. -/
theorem ReadCompactSize_canonical : Decoder.Canonical ReadCompactSize WriteCompactSize := by
  intro input nSize rest read
  rw [ReadCompactSize] at read
  obtain ⟨chSize,middle,byteRead,valueRead⟩ := Decoder.bind_some read
  obtain ⟨value,after,compactRead,bounded⟩ := Decoder.bind_some valueRead
  split at bounded
  · cases bounded
  · rename_i small
    obtain ⟨same,left⟩ := Decoder.pure_some bounded
    subst same left
    rw [Decoder.byte_some byteRead]
    have marker : ∀ code : UInt8, chSize.toNat = code.toNat → chSize = code := fun _ => UInt8.toNat_inj.mp
    unfold readCompactValue at compactRead
    split_ifs at compactRead with one two four
    · obtain ⟨same,left⟩ := Decoder.pure_some compactRead
      subst same left
      simp [WriteCompactSize,one]
    · obtain ⟨large,fits,split⟩ := readCompactForm_some compactRead
      rw [marker 253 two,split,WriteCompactSize,if_neg (by omega),if_pos (by simp at fits; omega)]
      rfl
    · obtain ⟨large,fits,split⟩ := readCompactForm_some compactRead
      rw [marker 254 four,split,WriteCompactSize,if_neg (by omega),if_neg (by omega),if_pos (by simp at fits; omega)]
      rfl
    · -- an eight-byte size is above `MAX_SIZE`
      obtain ⟨large,-,-⟩ := readCompactForm_some compactRead
      unfold MAX_SIZE at small
      omega

theorem ReadVector_canonical {α : Type} {read : Decoder α} {write : α → List UInt8}
    (canonical : Decoder.Canonical read write) : Decoder.Canonical (ReadVector read) (WriteVector write) := by
  intro input values rest vectorRead
  obtain ⟨nSize,middle,sizeRead,elementsRead⟩ := Decoder.bind_some vectorRead
  obtain ⟨length,elements⟩ := canonical.replicate nSize middle values rest elementsRead
  rw [ReadCompactSize_canonical input nSize middle sizeRead,elements,WriteVector,length,List.append_assoc]

end Qtum
