import Qtum.Primitives.Serialize
import Qtum.Primitives.Transaction

/-! The compact encoding of transaction outputs in `compressor.h` and
`compressor.cpp`, with which the undo records store the outputs they
restore. An amount is written as `CompressAmount` of its `uint64_t` value;
a script is either one of six special forms (a key hash, a script hash, a
public key) or its length plus six followed by its bytes. The secp256k1
operations that the public key forms need are parameters. -/
namespace Qtum

open Script

/-- `CPubKey::IsFullyValid` of a 65-byte key and `CPubKey::Decompress` of a
33-byte one, which yields the 65-byte uncompressed key. -/
structure PubKeyOps where
  IsFullyValid : List UInt8 → Bool
  Decompress : List UInt8 → Option (Blob 65)

/-- The secp256k1 fact the compressed form of a key rests on: a fully valid
uncompressed key comes back from its x coordinate and the parity of its y
coordinate, the prefix 2 for an even y and 3 for an odd one. -/
structure PubKeyOps.Lawful (pubkeys : PubKeyOps) : Prop where
  decompress : ∀ pubkey : List UInt8, pubkey.length = 65 → pubkey[0]! = 0x04 → pubkeys.IsFullyValid pubkey = true →
    (pubkeys.Decompress (UInt8.ofNat (2 + pubkey[64]!.toNat % 2) :: (pubkey.drop 1).take 32)).map Blob.bytes =
      some pubkey

/-- Key operations under which no key is valid. -/
def plainKeys : PubKeyOps := ⟨fun _ => false,fun _ => none⟩

theorem plainKeys_lawful : plainKeys.Lawful where
  decompress _ _ _ valid := absurd valid Bool.false_ne_true

namespace CTxOutCompressor

/-- The loop of `CompressAmount` that strips at most nine trailing zeros. -/
def stripZeros : Nat → Nat → Nat → Nat × Nat
  | 0, n, e => (n,e)
  | fuel + 1, n, e => if n % 10 = 0 ∧ e < 9 then stripZeros fuel (n / 10) (e + 1) else (n,e)

/-- `CompressAmount` on a `uint64_t`; the results wrap as the source's do. -/
def CompressAmount (n : Nat) : Nat :=
  if n = 0 then 0
  else
    let (n,e) := stripZeros 9 n 0
    if e < 9 then
      let d := n % 10
      let n := n / 10
      (1 + (n * 9 + d - 1) * 10 + e) % 2 ^ 64
    else (1 + (n - 1) * 10 + 9) % 2 ^ 64

/-- `DecompressAmount`; the final loop multiplies by ten `e` times. -/
def DecompressAmount (x : Nat) : Nat :=
  if x = 0 then 0
  else
    let x := x - 1
    let e := x % 10
    let x := x / 10
    let n := if e < 9 then (x / 9 * 10 + (x % 9 + 1)) % 2 ^ 64 else (x + 1) % 2 ^ 64
    n * 10 ^ e % 2 ^ 64

/-- The loop keeps the value times ten to the count, stops at nine, and
below nine stops only at a digit other than zero. -/
theorem stripZeros_spec {fuel n e : Nat} (enough : 9 ≤ e + fuel) (bounded : e ≤ 9) :
    n * 10 ^ e = (stripZeros fuel n e).1 * 10 ^ (stripZeros fuel n e).2 ∧ (stripZeros fuel n e).2 ≤ 9 ∧
      ((stripZeros fuel n e).2 < 9 → (stripZeros fuel n e).1 % 10 ≠ 0) := by
  induction fuel generalizing n e with
  | zero => exact ⟨rfl,bounded,fun (below : e < 9) => absurd below (by omega)⟩
  | succ fuel induct =>
    rw [stripZeros]
    split
    · case isTrue strip =>
      obtain ⟨kept,below,stops⟩ := induct (n := n / 10) (e := e + 1) (by omega) (by omega)
      refine ⟨?_,below,stops⟩
      rw [← kept,Nat.pow_succ]
      nth_rewrite 1 [← Nat.div_mul_cancel (Nat.dvd_of_mod_eq_zero strip.1)]
      ring
    · case isFalse stop => exact ⟨rfl,bounded,fun below zero => stop ⟨zero,below⟩⟩

theorem CompressAmount_lt (n : Nat) : CompressAmount n < 2 ^ 64 := by
  unfold CompressAmount
  split
  · exact Nat.two_pow_pos 64
  · generalize stripZeros 9 n 0 = stripped
    obtain ⟨m,e⟩ := stripped
    dsimp only
    split <;> exact Nat.mod_lt _ (Nat.two_pow_pos 64)

/-- An amount below `2^60`, far above any supply, survives compression: up
to there the compressed form, about nine times the amount, does not wrap. -/
theorem DecompressAmount_CompressAmount {n : Nat} (small : n < 2 ^ 60) : DecompressAmount (CompressAmount n) = n := by
  rcases Nat.eq_zero_or_pos n with zero | positive
  · subst zero
    rfl
  obtain ⟨kept,bounded,stops⟩ := @stripZeros_spec 9 n 0 (by omega) (by omega)
  rw [CompressAmount,if_neg (by omega)]
  generalize stripZeros 9 n 0 = stripped at kept bounded stops
  obtain ⟨m,e⟩ := stripped
  dsimp only at kept bounded stops ⊢
  rw [Nat.pow_zero,Nat.mul_one] at kept
  have scale : 1 ≤ 10 ^ e := Nat.one_le_pow _ _ (by decide)
  have within : m ≤ n := kept ▸ Nat.le_mul_of_pos_right m scale
  have nonzero : 0 < m := Nat.pos_of_ne_zero fun zero => by rw [zero,Nat.zero_mul] at kept; omega
  have restore : m * 10 ^ e % 2 ^ 64 = n := by rw [← kept]; exact Nat.mod_eq_of_lt (by omega)
  -- the two forms of the encoding: a last digit and the exponent, or nine zeros stripped
  split
  · case isTrue below =>
    have digit : 1 ≤ m % 10 := Nat.pos_of_ne_zero (stops below)
    have fits : 1 + (m / 10 * 9 + m % 10 - 1) * 10 + e < 2 ^ 64 := by omega
    have exponent : (1 + (m / 10 * 9 + m % 10 - 1) * 10 + e - 1) % 10 = e := by omega
    have mantissa : ((1 + (m / 10 * 9 + m % 10 - 1) * 10 + e - 1) / 10 / 9 * 10 +
        ((1 + (m / 10 * 9 + m % 10 - 1) * 10 + e - 1) / 10 % 9 + 1)) % 2 ^ 64 = m := by omega
    rw [Nat.mod_eq_of_lt fits,DecompressAmount,if_neg (by omega)]
    simp only [exponent,if_pos below,mantissa,restore]
  · case isFalse nine =>
    obtain rfl : e = 9 := by omega
    have fits : 1 + (m - 1) * 10 + 9 < 2 ^ 64 := by omega
    have exponent : (1 + (m - 1) * 10 + 9 - 1) % 10 = 9 := by omega
    have mantissa : ((1 + (m - 1) * 10 + 9 - 1) / 10 + 1) % 2 ^ 64 = m := by omega
    rw [Nat.mod_eq_of_lt fits,DecompressAmount,if_neg (by omega)]
    simp only [exponent,lt_irrefl,if_false,mantissa,restore]

private theorem mul_pow_ten_even (m : Nat) {e : Nat} (positive : 0 < e) : m * 10 ^ e % 2 ^ 64 % 2 = 0 := by
  obtain ⟨k,rfl⟩ : ∃ k, e = k + 1 := ⟨e - 1,by omega⟩
  rw [Nat.pow_succ,← Nat.mul_assoc]
  generalize m * 10 ^ k = t
  omega

/-- A code whose exponent digit is not zero decompresses to an even amount,
also where the multiplications wrap. -/
theorem DecompressAmount_even {x : Nat} (exponent : (x - 1) % 10 ≠ 0) : DecompressAmount x % 2 = 0 := by
  unfold DecompressAmount
  split
  · rfl
  · exact mul_pow_ten_even _ (Nat.pos_of_ne_zero exponent)

/-- A code that wrapped from one to four times past `2^64`, from an exact
code ending in the digit one: `2^64` ends in six, so the exponent digit is
`-6k` modulo ten for the `k` wraps, never zero. -/
private theorem wrapped_exponent {E : Nat} (one : E % 10 = 1) (low : 2 ^ 64 ≤ E) (high : E < 5 * 2 ^ 64) :
    (E % 2 ^ 64 - 1) % 10 ≠ 0 := by
  obtain ⟨k,quotient,positive,atMost⟩ : ∃ k, E / 2 ^ 64 = k ∧ 1 ≤ k ∧ k ≤ 4 := ⟨E / 2 ^ 64,rfl,by omega,by omega⟩
  rcases (by omega : k = 1 ∨ k = 2 ∨ k = 3 ∨ k = 4) with rfl | rfl | rfl | rfl <;> omega

/-- Up to `INT64_MAX` the round trip fails once the compressed form wraps: an
odd amount keeps its last digit, so its code has an exponent digit other than
zero and decompresses to an even amount. -/
theorem CompressAmount_wraps_odd {n : Nat} (money : n ≤ 2 ^ 63 - 1) (odd : n % 2 = 1)
    (wraps : 2 ^ 64 ≤ 1 + (n / 10 * 9 + n % 10 - 1) * 10) : DecompressAmount (CompressAmount n) ≠ n := by
  have strip : stripZeros 9 n 0 = (n,0) := by rw [stripZeros,if_neg (by omega)]
  have code : CompressAmount n = (1 + (n / 10 * 9 + n % 10 - 1) * 10 + 0) % 2 ^ 64 := by
    rw [CompressAmount,if_neg (by omega),strip]
    rfl
  have one : (1 + (n / 10 * 9 + n % 10 - 1) * 10 + 0) % 10 = 1 := by omega
  have high : 1 + (n / 10 * 9 + n % 10 - 1) * 10 + 0 < 5 * 2 ^ 64 := by omega
  have even := DecompressAmount_even (wrapped_exponent one (by omega) high)
  rw [code]
  omega

/-- `MAX_MONEY`, the largest amount of the money range, does not come back. -/
theorem CompressAmount_wraps_odd_max :
    DecompressAmount (CompressAmount MAX_MONEY.toNat) ≠ MAX_MONEY.toNat :=
  CompressAmount_wraps_odd (by decide) (by decide) (by decide)

end CTxOutCompressor

namespace CScriptCompressor

/-- `nSpecialScripts`. -/
def nSpecialScripts : Nat := 6

def IsToKeyID (script : CScript) : Option (List UInt8) :=
  if IsPayToPubkeyHash script then some ((script.drop 3).take 20) else none

def IsToScriptID (script : CScript) : Option (List UInt8) :=
  if IsPayToScriptHash script then some ((script.drop 2).take 20) else none

/-- The key of a pay-to-pubkey script, where the compressed form can hold it. -/
def IsToPubKey (pubkeys : PubKeyOps) (script : CScript) : Option (List UInt8) :=
  if script.length = 35 ∧ script[0]! = 33 ∧ script[34]!.toNat = OP_CHECKSIG ∧
      (script[1]! = 0x02 ∨ script[1]! = 0x03) then some ((script.drop 1).take 33)
  else if script.length = 67 ∧ script[0]! = 65 ∧ script[66]!.toNat = OP_CHECKSIG ∧ script[1]! = 0x04 then
    let pubkey := (script.drop 1).take 65
    if pubkeys.IsFullyValid pubkey then some pubkey else none
  else none

def Compress (pubkeys : PubKeyOps) (script : CScript) : Option (List UInt8) :=
  match IsToKeyID script, IsToScriptID script, IsToPubKey pubkeys script with
  | some hash, _, _ => some (0x00 :: hash)
  | none, some hash, _ => some (0x01 :: hash)
  | none, none, some pubkey =>
    let body := (pubkey.drop 1).take 32
    if pubkey[0]! = 0x02 ∨ pubkey[0]! = 0x03 then some (pubkey[0]! :: body)
    else if pubkey[0]! = 0x04 then some (((0x04 : UInt8) ||| (pubkey[64]! &&& 0x01)) :: body)
    else none
  | none, none, none => none

def GetSpecialSize (nSize : Nat) : Nat :=
  if nSize = 0 ∨ nSize = 1 then 20 else if 2 ≤ nSize ∧ nSize ≤ 5 then 32 else 0

/-- `Decompress(nSize, in)`: the script it builds, or none where it returns
false and leaves the script as it was. -/
def Decompress (pubkeys : PubKeyOps) (nSize : Nat) (bytes : List UInt8) : Option CScript :=
  if nSize = 0x00 then
    some ([UInt8.ofNat OP_DUP,UInt8.ofNat OP_HASH160,20] ++ bytes ++ [UInt8.ofNat OP_EQUALVERIFY,UInt8.ofNat OP_CHECKSIG])
  else if nSize = 0x01 then some ([UInt8.ofNat OP_HASH160,20] ++ bytes ++ [UInt8.ofNat OP_EQUAL])
  else if nSize = 0x02 ∨ nSize = 0x03 then some ([33,UInt8.ofNat nSize] ++ bytes ++ [UInt8.ofNat OP_CHECKSIG])
  else if nSize = 0x04 ∨ nSize = 0x05 then
    match pubkeys.Decompress (UInt8.ofNat (nSize - 2) :: bytes) with
    | none => none
    | some pubkey => some (65 :: pubkey.bytes ++ [UInt8.ofNat OP_CHECKSIG])
  else none

def Serialize (pubkeys : PubKeyOps) (script : CScript) : List UInt8 :=
  match Compress pubkeys script with
  | some compr => compr
  | none => VarInt.write ((script.length + nSpecialScripts) % 2 ^ 32) ++ script

/-- `GetSerializeSize`, an `unsigned int`. -/
def GetSerializeSize (pubkeys : PubKeyOps) (script : CScript) : Nat :=
  match Compress pubkeys script with
  | some compr => compr.length
  | none => (script.length + VarInt.GetSizeOfVarInt ((script.length + nSpecialScripts) % 2 ^ 32)) % 2 ^ 32

/-- `Unserialize` into the empty script of a fresh output: a special form
whose key does not decompress leaves it empty, and an overlong script is
skipped and replaced by `OP_RETURN`. -/
def Unserialize (pubkeys : PubKeyOps) : Decoder CScript := do
  let nSize ← ReadVarIntUInt32
  if nSize < nSpecialScripts then
    let vch ← Decoder.bytes (GetSpecialSize nSize)
    pure ((Decompress pubkeys nSize vch).getD [])
  else
    let nSize := nSize - nSpecialScripts
    if MAX_SCRIPT_SIZE < nSize then do
      let _ ← Decoder.bytes nSize
      pure [UInt8.ofNat OP_RETURN]
    else Decoder.bytes nSize

/-- A script with no special form, of at most `MAX_SCRIPT_SIZE` bytes, is
written raw and read back. -/
theorem Unserialize_Serialize (pubkeys : PubKeyOps) :
    Decoder.RoundTrip (Unserialize pubkeys) (Serialize pubkeys)
      (fun script => Compress pubkeys script = none ∧ script.length ≤ MAX_SCRIPT_SIZE) := by
  rintro script ⟨raw,bounded⟩ rest
  have small : script.length + nSpecialScripts < 2 ^ 32 := by
    unfold MAX_SCRIPT_SIZE at bounded; unfold nSpecialScripts; omega
  have size : ReadVarIntUInt32 (VarInt.write (script.length + nSpecialScripts) ++ (script ++ rest)) =
      .ok (some (script.length + nSpecialScripts,script ++ rest)) :=
    VarInt.read_unsigned_write 32 _ small _
  rw [Serialize,raw,Nat.mod_eq_of_lt small,List.append_assoc,Unserialize,Decoder.bind_apply_of_some size]
  simp only [Nat.add_sub_cancel,Nat.not_lt.mpr (Nat.le_add_left nSpecialScripts script.length),
    Nat.not_lt.mpr bounded,if_false]
  exact Decoder.bytes_append rfl rest

/-! ### The special forms -/

section Special

variable {pubkeys : PubKeyOps}

private theorem drop_last_one {l : List UInt8} {n : Nat} (length : l.length = n + 1) : l.drop n = [l[n]!] := by
  rw [List.drop_eq_getElem_cons (by omega),List.drop_eq_nil_of_le (by omega),getElem!_pos l n (by omega)]

private theorem drop_last_two {l : List UInt8} {n : Nat} (length : l.length = n + 2) :
    l.drop n = [l[n]!,l[n + 1]!] := by
  rw [List.drop_eq_getElem_cons (by omega),drop_last_one (by omega),getElem!_pos l n (by omega)]

private theorem byte_of_toNat {b : UInt8} {n : Nat} (value : b.toNat = n) : b = UInt8.ofNat n := by
  rw [← value,UInt8.ofNat_toNat]

/-- A key's first byte, and the 32 bytes after it. -/
private theorem eq_head_drop {key : List UInt8} {size : Nat} (length : key.length = size + 1) :
    key = key[0]! :: (key.drop 1).take size := by
  match key, length with
  | first :: tail, length =>
    simp only [List.length_cons] at length
    simp [List.take_of_length_le (by omega : tail.length ≤ size)]

theorem IsPayToPubkeyHash_shape {script : CScript} (is : IsPayToPubkeyHash script = true) :
    script = [UInt8.ofNat OP_DUP,UInt8.ofNat OP_HASH160,20] ++ (script.drop 3).take 20 ++
      [UInt8.ofNat OP_EQUALVERIFY,UInt8.ofNat OP_CHECKSIG] := by
  match script, is with
  | dup :: hash160 :: push :: tail, is =>
    simp only [IsPayToPubkeyHash,Bool.and_eq_true,beq_iff_eq,List.length_cons,List.getElem!_cons_succ,
      List.getElem!_cons_zero] at is
    obtain ⟨⟨⟨⟨⟨length,dup⟩,hash160⟩,push⟩,equalverify⟩,checksig⟩ := is
    conv_lhs => rw [← List.take_append_drop 20 tail,drop_last_two (by omega),byte_of_toNat dup,
      byte_of_toNat hash160,push,byte_of_toNat equalverify,byte_of_toNat checksig]
    rfl
  | [], is | [_], is | [_,_], is => simp [IsPayToPubkeyHash] at is

theorem IsPayToScriptHash_shape {script : CScript} (is : IsPayToScriptHash script = true) :
    script = [UInt8.ofNat OP_HASH160,20] ++ (script.drop 2).take 20 ++ [UInt8.ofNat OP_EQUAL] := by
  match script, is with
  | hash160 :: push :: tail, is =>
    simp only [IsPayToScriptHash,Bool.and_eq_true,beq_iff_eq,List.length_cons,List.getElem!_cons_succ,
      List.getElem!_cons_zero] at is
    obtain ⟨⟨⟨length,hash160⟩,push⟩,equal⟩ := is
    conv_lhs => rw [← List.take_append_drop 20 tail,drop_last_one (by omega),byte_of_toNat hash160,push,
      byte_of_toNat equal]
    rfl
  | [], is | [_], is => simp [IsPayToScriptHash] at is

/-- A pay-to-pubkey script: the size byte, the key, then `OP_CHECKSIG`. -/
theorem payToPubKey_shape {script : CScript} {size : Nat} (length : script.length = size + 2)
    (checksig : script[size + 1]!.toNat = OP_CHECKSIG) :
    script = script[0]! :: (script.drop 1).take size ++ [UInt8.ofNat OP_CHECKSIG] := by
  match script, length with
  | first :: tail, length =>
    simp only [List.length_cons,List.getElem!_cons_succ,List.getElem!_cons_zero] at length checksig ⊢
    conv_lhs => rw [← List.take_append_drop size tail,drop_last_one (by omega),byte_of_toNat checksig]
    rfl

/-- The prefix byte of an uncompressed key's compressed form, 4 or 5. -/
private theorem oddPrefix_toNat (b : UInt8) : ((0x04 : UInt8) ||| (b &&& 0x01)).toNat = 4 + b.toNat % 2 := by
  rw [UInt8.toNat_or,UInt8.toNat_and]
  show 2 ^ 2 * 1 ||| b.toNat &&& 1 = 4 + b.toNat % 2
  rw [Nat.and_one_is_mod,← Nat.two_pow_add_eq_or_of_lt (by omega)]

/-- The sizes of the two key forms, each followed by 32 bytes. -/
private theorem GetSpecialSize_key {nSize : Nat} (key : 2 ≤ nSize ∧ nSize ≤ 5) : GetSpecialSize nSize = 32 := by
  rw [GetSpecialSize,if_neg (by omega),if_pos key]

/-- A compressed form is a special size below six, then the bytes
`GetSpecialSize` gives it, from which `Decompress` builds the script again. -/
theorem Compress_some (lawful : pubkeys.Lawful) {script compr : List UInt8}
    (compressed : Compress pubkeys script = some compr) :
    ∃ nSize body, compr = UInt8.ofNat nSize :: body ∧ nSize < nSpecialScripts ∧ body.length = GetSpecialSize nSize ∧
      Decompress pubkeys nSize body = some script := by
  unfold Compress at compressed
  cases keyID : IsToKeyID script with
  | some hash =>
    rw [keyID] at compressed
    cases compressed
    unfold IsToKeyID at keyID
    split at keyID
    · case isTrue is =>
      cases keyID
      have length : script.length = 25 := by simp [IsPayToPubkeyHash] at is; exact is.1.1.1.1.1
      refine ⟨0,_,rfl,by decide,by simp [GetSpecialSize]; omega,?_⟩
      rw [Decompress,if_pos rfl,← IsPayToPubkeyHash_shape is]
    · cases keyID
  | none =>
    cases scriptID : IsToScriptID script with
    | some hash =>
      rw [keyID,scriptID] at compressed
      cases compressed
      unfold IsToScriptID at scriptID
      split at scriptID
      · case isTrue is =>
        cases scriptID
        have length : script.length = 23 := by simp [IsPayToScriptHash] at is; exact is.1.1.1
        refine ⟨1,_,rfl,by decide,by simp [GetSpecialSize]; omega,?_⟩
        rw [Decompress,if_neg (by decide),if_pos rfl,← IsPayToScriptHash_shape is]
      · cases scriptID
    | none =>
      cases pubkeyIs : IsToPubKey pubkeys script with
      | none =>
        rw [keyID,scriptID,pubkeyIs] at compressed
        cases compressed
      | some pubkey =>
        rw [keyID,scriptID,pubkeyIs] at compressed
        dsimp only at compressed
        unfold IsToPubKey at pubkeyIs
        split at pubkeyIs
        · case isTrue form =>
          -- a compressed key, kept as it is
          obtain ⟨length,size,checksig,parity⟩ := form
          cases pubkeyIs
          have shape := @payToPubKey_shape script 33 length checksig
          have key := @eq_head_drop ((script.drop 1).take 33) 32 (by simp; omega)
          have first : ((script.drop 1).take 33)[0]! = script[1]! := by
            rw [shape]
            simp
          rw [first] at compressed key
          rw [if_pos parity] at compressed
          cases compressed
          have special : script[1]!.toNat = 2 ∨ script[1]!.toNat = 3 := by
            rcases parity with prefixByte | prefixByte <;> simp [prefixByte]
          refine ⟨script[1]!.toNat,_,by rw [UInt8.ofNat_toNat],by unfold nSpecialScripts; omega,
            by rw [GetSpecialSize_key (by omega)]; simp; omega,?_⟩
          rw [Decompress,if_neg (by omega),if_neg (by omega),if_pos special,UInt8.ofNat_toNat]
          conv_rhs => rw [shape,size,key]
          rfl
        · case isFalse _ =>
          dsimp only at pubkeyIs
          split at pubkeyIs
          · case isTrue form =>
            -- an uncompressed key, kept as its x coordinate and the parity of its y
            obtain ⟨length,size,checksig,uncompressed⟩ := form
            split at pubkeyIs
            · case isTrue valid =>
              cases pubkeyIs
              have shape := @payToPubKey_shape script 65 length checksig
              have first : ((script.drop 1).take 65)[0]! = 0x04 := by
                rw [← uncompressed,shape]
                simp
              rw [first,if_neg (by decide),if_pos rfl] at compressed
              cases compressed
              obtain ⟨key,decompressed,bytes⟩ := Option.map_eq_some_iff.mp
                (lawful.decompress _ (by simp; omega) first valid)
              have parity : ((script.drop 1).take 65)[64]!.toNat % 2 < 2 := Nat.mod_lt _ (by decide)
              refine ⟨4 + ((script.drop 1).take 65)[64]!.toNat % 2,_,by rw [← oddPrefix_toNat,UInt8.ofNat_toNat],
                by unfold nSpecialScripts; omega,by rw [GetSpecialSize_key (by omega)]; simp; omega,?_⟩
              rw [Decompress,if_neg (by omega),if_neg (by omega),if_neg (by omega),if_pos (by omega),
                show 4 + ((script.drop 1).take 65)[64]!.toNat % 2 - 2 = 2 + ((script.drop 1).take 65)[64]!.toNat % 2
                  by omega,decompressed]
              dsimp only
              rw [bytes]
              conv_rhs => rw [shape,size]
            · cases pubkeyIs
          · cases pubkeyIs

/-- A compressed form is read back as the script it stands for. -/
theorem Unserialize_compressed (lawful : pubkeys.Lawful) {script compr : List UInt8}
    (compressed : Compress pubkeys script = some compr) (rest : List UInt8) :
    Unserialize pubkeys (compr ++ rest) = .ok (some (script,rest)) := by
  obtain ⟨nSize,body,rfl,special,length,built⟩ := Compress_some lawful compressed
  have small : nSize ≤ 0x7f := by unfold nSpecialScripts at special; omega
  have size : ReadVarIntUInt32 ((UInt8.ofNat nSize :: body) ++ rest) = .ok (some (nSize,body ++ rest)) := by
    rw [List.cons_append,← List.singleton_append,← VarInt.write_small small]
    exact VarInt.read_unsigned_write 32 nSize (by omega) _
  rw [Unserialize,Decoder.bind_apply_of_some size,if_pos special,
    Decoder.bind_apply_of_some (Decoder.bytes_append length rest),built]
  rfl

/-- Every script up to `MAX_SCRIPT_SIZE` is read back, from its special form
or raw. -/
theorem Unserialize_Serialize_bounded (lawful : pubkeys.Lawful) :
    Decoder.RoundTrip (Unserialize pubkeys) (Serialize pubkeys) (·.length ≤ MAX_SCRIPT_SIZE) := by
  intro script bounded rest
  cases compressed : Compress pubkeys script with
  | some compr =>
    simp only [Serialize,compressed]
    exact Unserialize_compressed lawful compressed rest
  | none => exact Unserialize_Serialize pubkeys script ⟨compressed,bounded⟩ rest

/-- The scripts that have a special form, each in the exact byte pattern of
its standard script: a key hash, a script hash, a compressed key, or a fully
valid uncompressed key. -/
def SpecialScript (pubkeys : PubKeyOps) (script : CScript) : Prop :=
  (∃ hash : List UInt8, hash.length = 20 ∧ script = [UInt8.ofNat OP_DUP,UInt8.ofNat OP_HASH160,20] ++ hash ++
    [UInt8.ofNat OP_EQUALVERIFY,UInt8.ofNat OP_CHECKSIG]) ∨
  (∃ hash : List UInt8, hash.length = 20 ∧ script = [UInt8.ofNat OP_HASH160,20] ++ hash ++ [UInt8.ofNat OP_EQUAL]) ∨
  (∃ key : List UInt8, key.length = 33 ∧ (key[0]! = 0x02 ∨ key[0]! = 0x03) ∧
    script = 33 :: key ++ [UInt8.ofNat OP_CHECKSIG]) ∨
  (∃ key : List UInt8, key.length = 65 ∧ key[0]! = 0x04 ∧ pubkeys.IsFullyValid key = true ∧
    script = 65 :: key ++ [UInt8.ofNat OP_CHECKSIG])

theorem IsToKeyID_some {script hash : List UInt8} (is : IsToKeyID script = some hash) :
    hash.length = 20 ∧ script = [UInt8.ofNat OP_DUP,UInt8.ofNat OP_HASH160,20] ++ hash ++
      [UInt8.ofNat OP_EQUALVERIFY,UInt8.ofNat OP_CHECKSIG] := by
  unfold IsToKeyID at is
  split at is
  · case isTrue pattern =>
    cases is
    have length : script.length = 25 := by simp [IsPayToPubkeyHash] at pattern; exact pattern.1.1.1.1.1
    exact ⟨by simp; omega,IsPayToPubkeyHash_shape pattern⟩
  · cases is

theorem IsToScriptID_some {script hash : List UInt8} (is : IsToScriptID script = some hash) :
    hash.length = 20 ∧ script = [UInt8.ofNat OP_HASH160,20] ++ hash ++ [UInt8.ofNat OP_EQUAL] := by
  unfold IsToScriptID at is
  split at is
  · case isTrue pattern =>
    cases is
    have length : script.length = 23 := by simp [IsPayToScriptHash] at pattern; exact pattern.1.1.1
    exact ⟨by simp; omega,IsPayToScriptHash_shape pattern⟩
  · cases is

/-- The key `IsToPubKey` finds is the one the script pushes, with the prefix
byte it checks, and an uncompressed one is fully valid. -/
theorem IsToPubKey_some {script key : List UInt8} (is : IsToPubKey pubkeys script = some key) :
    (key.length = 33 ∧ (key[0]! = 0x02 ∨ key[0]! = 0x03) ∧ script = 33 :: key ++ [UInt8.ofNat OP_CHECKSIG]) ∨
      (key.length = 65 ∧ key[0]! = 0x04 ∧ pubkeys.IsFullyValid key = true ∧
        script = 65 :: key ++ [UInt8.ofNat OP_CHECKSIG]) := by
  unfold IsToPubKey at is
  split at is
  · case isTrue form =>
    obtain ⟨length,size,checksig,parity⟩ := form
    cases is
    have shape := @payToPubKey_shape script 33 length checksig
    have first : ((script.drop 1).take 33)[0]! = script[1]! := by
      rw [shape]
      simp
    refine Or.inl ⟨by simp; omega,first ▸ parity,?_⟩
    conv_lhs => rw [shape,size]
  · case isFalse _ =>
    dsimp only at is
    split at is
    · case isTrue form =>
      obtain ⟨length,size,checksig,uncompressed⟩ := form
      split at is
      · case isTrue valid =>
        cases is
        have shape := @payToPubKey_shape script 65 length checksig
        have first : ((script.drop 1).take 65)[0]! = 0x04 := by
          rw [← uncompressed,shape]
          simp
        refine Or.inr ⟨by simp; omega,first,valid,?_⟩
        conv_lhs => rw [shape,size]
      · cases is
    · cases is

/-- Only the scripts with a special form are compressed. -/
theorem Compress_special {script compr : List UInt8} (compressed : Compress pubkeys script = some compr) :
    SpecialScript pubkeys script := by
  unfold Compress at compressed
  cases keyID : IsToKeyID script with
  | some hash => exact Or.inl ⟨hash,IsToKeyID_some keyID⟩
  | none =>
    cases scriptID : IsToScriptID script with
    | some hash => exact Or.inr (Or.inl ⟨hash,IsToScriptID_some scriptID⟩)
    | none =>
      cases pubkeyIs : IsToPubKey pubkeys script with
      | none =>
        rw [keyID,scriptID,pubkeyIs] at compressed
        cases compressed
      | some key =>
        rcases IsToPubKey_some pubkeyIs with compressedKey | uncompressedKey
        · exact Or.inr (Or.inr (Or.inl ⟨key,compressedKey⟩))
        · exact Or.inr (Or.inr (Or.inr ⟨key,uncompressedKey⟩))

end Special

theorem GetSerializeSize_eq_length (pubkeys : PubKeyOps) {script : CScript} (bounded : script.length ≤ MAX_SCRIPT_SIZE) :
    GetSerializeSize pubkeys script = (Serialize pubkeys script).length := by
  unfold GetSerializeSize Serialize
  split
  · rfl
  · unfold MAX_SCRIPT_SIZE at bounded
    unfold nSpecialScripts
    have small : script.length + 6 < 2 ^ 32 := by omega
    have digits := VarInt.sizeFrom_le (script.length + 6 + 1) (script.length + 6)
    rw [Nat.mod_eq_of_lt small,List.length_append,← VarInt.GetSizeOfVarInt_eq_length,Nat.add_comm]
    exact Nat.mod_eq_of_lt (by unfold VarInt.GetSizeOfVarInt; omega)

/-- A script up to `MAX_SCRIPT_SIZE` is read back from its serialization,
which is `GetSerializeSize` bytes long; and the size read first is below
`nSpecialScripts` only for a script with a special form. -/
theorem Serialize_round_trip_special_only {pubkeys : PubKeyOps} (lawful : pubkeys.Lawful) {script : CScript}
    (bounded : script.length ≤ MAX_SCRIPT_SIZE) (rest : List UInt8) :
    Unserialize pubkeys (Serialize pubkeys script ++ rest) = .ok (some (script,rest)) ∧
      GetSerializeSize pubkeys script = (Serialize pubkeys script).length ∧
      ∀ nSize input, ReadVarIntUInt32 (Serialize pubkeys script ++ rest) = .ok (some (nSize,input)) →
        nSize < nSpecialScripts → SpecialScript pubkeys script := by
  refine ⟨Unserialize_Serialize_bounded lawful script bounded rest,GetSerializeSize_eq_length pubkeys bounded,?_⟩
  intro nSize input size special
  cases compressed : Compress pubkeys script with
  | some compr => exact Compress_special compressed
  | none =>
    -- a raw script's size is its length plus six
    have small : script.length + nSpecialScripts < 2 ^ 32 := by
      unfold MAX_SCRIPT_SIZE at bounded; unfold nSpecialScripts; omega
    have raw : ReadVarIntUInt32 (VarInt.write (script.length + nSpecialScripts) ++ (script ++ rest)) =
        .ok (some (script.length + nSpecialScripts,script ++ rest)) :=
      VarInt.read_unsigned_write 32 _ small _
    rw [Serialize,compressed,Nat.mod_eq_of_lt small,List.append_assoc,raw] at size
    injection size with size
    injection size with size
    have same := (Prod.mk.inj size).1
    omega

/-- A pay-to-script-hash script, under key operations that are lawful since
they accept no key. -/
theorem Serialize_round_trip_special_only_p2sh :
    Unserialize plainKeys (Serialize plainKeys ([UInt8.ofNat OP_HASH160,20] ++ List.replicate 20 7 ++
      [UInt8.ofNat OP_EQUAL]) ++ []) =
        .ok (some ([UInt8.ofNat OP_HASH160,20] ++ List.replicate 20 7 ++ [UInt8.ofNat OP_EQUAL],[])) :=
  (Serialize_round_trip_special_only plainKeys_lawful (by decide) []).1

end CScriptCompressor

/-- `CTxOutCompressor::Serialize`: the compressed amount of the value as a
`uint64_t`, then the script. -/
def CTxOutCompressor.Serialize (pubkeys : PubKeyOps) (txout : CTxOut) : List UInt8 :=
  VarInt.write (CTxOutCompressor.CompressAmount (toUnsigned 64 txout.nValue)) ++
    CScriptCompressor.Serialize pubkeys txout.scriptPubKey

def CTxOutCompressor.Unserialize (pubkeys : PubKeyOps) : Decoder CTxOut := do
  let nVal ← ReadVarIntUInt64
  let scriptPubKey ← CScriptCompressor.Unserialize pubkeys
  pure ⟨toSigned 64 (CTxOutCompressor.DecompressAmount nVal),scriptPubKey⟩

/-- `GetSerializeSize`, which `CSizeComputer` counts over the fields the
serializer writes. -/
def CTxOutCompressor.GetSerializeSize (pubkeys : PubKeyOps) (txout : CTxOut) : Nat :=
  VarInt.GetSizeOfVarInt (CTxOutCompressor.CompressAmount (toUnsigned 64 txout.nValue)) +
    CScriptCompressor.GetSerializeSize pubkeys txout.scriptPubKey

/-- An output the compressed form gives back: a value from zero up to `2^60`
and a script of at most `MAX_SCRIPT_SIZE` bytes. -/
def CTxOutCompressor.Fits (txout : CTxOut) : Prop :=
  0 ≤ txout.nValue ∧ txout.nValue < 2 ^ 60 ∧ txout.scriptPubKey.length ≤ MAX_SCRIPT_SIZE

theorem CTxOutCompressor.Unserialize_Serialize {pubkeys : PubKeyOps} (lawful : pubkeys.Lawful) :
    Decoder.RoundTrip (CTxOutCompressor.Unserialize pubkeys) (CTxOutCompressor.Serialize pubkeys)
      CTxOutCompressor.Fits := by
  rintro txout ⟨nonnegative,small,bounded⟩ rest
  -- an amount is a `CAmount`, on which `omega` does not see its `Int` bounds
  have unsigned : toUnsigned 64 txout.nValue = txout.nValue.toNat := by
    unfold toUnsigned
    rw [Int.emod_eq_of_lt nonnegative (lt_trans small (by norm_num))]
  have value : toSigned 64 txout.nValue.toNat = txout.nValue := by
    rw [← unsigned]
    exact toSigned_toUnsigned (by decide) (le_trans (by norm_num) nonnegative) (lt_trans small (by norm_num))
  have amount : ReadVarIntUInt64 (VarInt.write (CTxOutCompressor.CompressAmount (toUnsigned 64 txout.nValue)) ++
      (CScriptCompressor.Serialize pubkeys txout.scriptPubKey ++ rest)) =
      .ok (some (CTxOutCompressor.CompressAmount (toUnsigned 64 txout.nValue),
        CScriptCompressor.Serialize pubkeys txout.scriptPubKey ++ rest)) :=
    VarInt.read_unsigned_write 64 _ (CTxOutCompressor.CompressAmount_lt _) _
  rw [CTxOutCompressor.Serialize,List.append_assoc,CTxOutCompressor.Unserialize,Decoder.bind_apply_of_some amount,
    Decoder.bind_apply_of_some (CScriptCompressor.Unserialize_Serialize_bounded lawful _ bounded rest),
    Decoder.pure_apply,unsigned,
    CTxOutCompressor.DecompressAmount_CompressAmount ((Int.toNat_lt nonnegative).mpr (by exact_mod_cast small)),value]

theorem CTxOutCompressor.GetSerializeSize_eq_length (pubkeys : PubKeyOps) {txout : CTxOut}
    (bounded : txout.scriptPubKey.length ≤ MAX_SCRIPT_SIZE) :
    CTxOutCompressor.GetSerializeSize pubkeys txout = (CTxOutCompressor.Serialize pubkeys txout).length := by
  rw [CTxOutCompressor.GetSerializeSize,CTxOutCompressor.Serialize,List.length_append,
    VarInt.GetSizeOfVarInt_eq_length,CScriptCompressor.GetSerializeSize_eq_length pubkeys bounded]

end Qtum
