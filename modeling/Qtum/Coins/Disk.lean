import Qtum.Coins.Coins
import Qtum.Coins.Compressor

/-! The disk form of `CCoins` in `coins.h`, as Qtum changed it: a `VARINT`
of `nVersion`, a `VARINT` header code, a bitmask over the outputs from
`vout[3]` on, the unspent outputs in compressed form, and a `VARINT` of
`nHeight`. The header code holds the coinbase flag in bit 0, whether
`vout[0]`, `vout[1]` and `vout[2]` are unspent in bits 1 to 3, the coinstake
flag in bit 4, and above them the number of non-zero bitmask bytes, less one
where none of the first three outputs is unspent, since there is then at
least one. `CalcMaskSize` gives the bitmask up to its last non-zero byte and
that count; the reader counts down on non-zero bytes only, so it reads the
zero bytes between them too.

The writer takes both integers as `int`, and `WriteVarInt` stops a negative
one at its first byte, its low seven bits, which the reader takes back as a
positive value. Nothing in consensus bounds a transaction's `nVersion`. -/
namespace Qtum

open Script

namespace CCoins

/-! ## The writer -/

/-- The availability byte `b` of the bitmask: bit `i` stands for
`vout[3 + b * 8 + i]`. -/
def maskByte (coins : CCoins) (b : Nat) : UInt8 :=
  (List.range 8).foldl (fun chAvail i =>
    if coins.IsAvailable (3 + b * 8 + i) then chAvail ||| (1 : UInt8) <<< i.toUInt8 else chAvail) 0

/-- The loop of `CalcMaskSize` over the bytes `b` with `3 + b * 8 < vout.size()`,
with the last byte that has an unspent output and the count of such bytes. -/
def calcMaskFrom (coins : CCoins) : Nat → Nat → Nat → Nat → Nat × Nat
  | 0, _, nLastUsedByte, nNonzeroBytes => (nLastUsedByte,nNonzeroBytes)
  | fuel + 1, b, nLastUsedByte, nNonzeroBytes =>
    if 3 + b * 8 < coins.vout.length then
      let fZero := !(List.range 8).any fun i => coins.IsAvailable (3 + b * 8 + i)
      if fZero then calcMaskFrom coins fuel (b + 1) nLastUsedByte nNonzeroBytes
      else calcMaskFrom coins fuel (b + 1) (b + 1) (nNonzeroBytes + 1)
    else (nLastUsedByte,nNonzeroBytes)

/-- `CalcMaskSize(nBytes, nNonzeroBytes)` with both counters at zero, as the
callers pass them; the loop advances a byte a step, so `vout.size()` steps
are enough. -/
def CalcMaskSize (coins : CCoins) : Nat × Nat := calcMaskFrom coins coins.vout.length 0 0 0

/-- The header code `nCode`, an `unsigned int`. -/
def headerCode (coins : CCoins) (nMaskCode : Nat) : Nat :=
  (32 * (nMaskCode - if coins.IsAvailable 0 || coins.IsAvailable 1 || coins.IsAvailable 2 then 0 else 1) +
    (if coins.fCoinBase then 1 else 0) + (if coins.IsAvailable 0 then 2 else 0) +
    (if coins.IsAvailable 1 then 4 else 0) + (if coins.IsAvailable 2 then 8 else 0) +
    (if coins.fCoinStake then 16 else 0)) % 2 ^ 32

/-- The `assert` of `Serialize` and `GetSerializeSize`: some output is unspent. -/
def HasUnspent (coins : CCoins) (nMaskCode : Nat) : Bool :=
  coins.IsAvailable 0 || coins.IsAvailable 1 || coins.IsAvailable 2 || nMaskCode ≠ 0

def Serialize (pubkeys : PubKeyOps) (coins : CCoins) : Except Abort (List UInt8) :=
  let (nMaskSize,nMaskCode) := coins.CalcMaskSize
  if !coins.HasUnspent nMaskCode then .error .assertion
  else .ok (VarInt.writeInt coins.nVersion ++ VarInt.write (coins.headerCode nMaskCode) ++
    (List.range nMaskSize).map coins.maskByte ++
    (coins.vout.filter (!·.IsNull)).flatMap (CTxOutCompressor.Serialize pubkeys) ++ VarInt.writeInt coins.nHeight)

/-- `GetSerializeSize`, summed in an `unsigned int`. -/
def GetSerializeSize (pubkeys : PubKeyOps) (coins : CCoins) : Except Abort Nat :=
  let (nMaskSize,nMaskCode) := coins.CalcMaskSize
  if !coins.HasUnspent nMaskCode then .error .assertion
  else .ok ((VarInt.GetSizeOfVarIntInt coins.nVersion + VarInt.GetSizeOfVarInt (coins.headerCode nMaskCode) +
    nMaskSize + ((coins.vout.filter (!·.IsNull)).map (CTxOutCompressor.GetSerializeSize pubkeys)).sum +
    VarInt.GetSizeOfVarIntInt coins.nHeight) % 2 ^ 32)

/-! ## The reader -/

/-- The eight availability bits of a bitmask byte, as `(chAvail & (1 << p)) != 0`
reads them. -/
def maskBits (chAvail : UInt8) : List Bool :=
  (List.range 8).map fun p => chAvail &&& (1 : UInt8) <<< p.toUInt8 != 0

/-- The bitmask loop: a byte is read while `nMaskCode` is positive, and only
a non-zero byte counts it down. -/
def readMask : Nat → Decoder (List UInt8)
  | 0, input => .ok (some ([],input))
  | _ + 1, [] => .ok none
  | nMaskCode + 1, chAvail :: rest =>
    match readMask (if chAvail ≠ 0 then nMaskCode else nMaskCode + 1) rest with
    | .ok (some (mask,after)) => .ok (some (chAvail :: mask,after))
    | other => other

/-- The loop over `vAvail`: a compressed output where the bit is set, and
`CTxOut()` where it is not. -/
def readOutputs (pubkeys : PubKeyOps) : List Bool → Decoder (List CTxOut)
  | [] => pure []
  | avail :: vAvail => do
    let txout ← if avail then CTxOutCompressor.Unserialize pubkeys else pure CTxOut.null
    let vout ← readOutputs pubkeys vAvail
    pure (txout :: vout)

/-- `Unserialize`, which sets every field and ends with `Cleanup`. -/
def Unserialize (pubkeys : PubKeyOps) : Decoder CCoins := do
  let nVersion ← ReadVarIntInt32
  let nCode ← ReadVarIntUInt32
  let nMaskCode := nCode / 32 + if nCode &&& 14 != 0 then 0 else 1
  let mask ← readMask nMaskCode
  let vAvail := [nCode &&& 2 != 0,nCode &&& 4 != 0,nCode &&& 8 != 0] ++ mask.flatMap maskBits
  let vout ← readOutputs pubkeys vAvail
  let nHeight ← ReadVarIntInt32
  pure (Cleanup ⟨nCode &&& 1 != 0,nCode &&& 16 != 0,vout,nHeight,nVersion⟩)

/-! ## The bitmask -/

section Mask

variable (coins : CCoins)

theorem IsAvailable_of_length_le {nPos : Nat} (beyond : coins.vout.length ≤ nPos) :
    coins.IsAvailable nPos = false := by
  simp [IsAvailable,List.getElem?_eq_none beyond]

/-- The eight bits of a packed byte read back; the eight values stand for
every availability pattern. -/
private theorem packed_bits (avail : Nat → Bool) :
    maskBits ((List.range 8).foldl (fun chAvail i =>
      if avail i then chAvail ||| (1 : UInt8) <<< i.toUInt8 else chAvail) 0) = (List.range 8).map avail := by
  simp only [maskBits,show List.range 8 = [0,1,2,3,4,5,6,7] from rfl,List.foldl_cons,List.foldl_nil,
    List.map_cons,List.map_nil]
  generalize avail 0 = a0; generalize avail 1 = a1; generalize avail 2 = a2; generalize avail 3 = a3
  generalize avail 4 = a4; generalize avail 5 = a5; generalize avail 6 = a6; generalize avail 7 = a7
  revert a0 a1 a2 a3 a4 a5 a6 a7
  decide

private theorem packed_zero (avail : Nat → Bool) :
    (List.range 8).foldl (fun chAvail i =>
      if avail i then chAvail ||| (1 : UInt8) <<< i.toUInt8 else chAvail) 0 = 0 ↔
      (List.range 8).any avail = false := by
  simp only [show List.range 8 = [0,1,2,3,4,5,6,7] from rfl,List.foldl_cons,List.foldl_nil,List.any_cons,
    List.any_nil]
  generalize avail 0 = a0; generalize avail 1 = a1; generalize avail 2 = a2; generalize avail 3 = a3
  generalize avail 4 = a4; generalize avail 5 = a5; generalize avail 6 = a6; generalize avail 7 = a7
  revert a0 a1 a2 a3 a4 a5 a6 a7
  decide

theorem maskBits_maskByte (b : Nat) :
    maskBits (coins.maskByte b) = (List.range 8).map fun i => coins.IsAvailable (3 + b * 8 + i) :=
  packed_bits _

theorem maskByte_eq_zero (b : Nat) :
    coins.maskByte b = 0 ↔ (List.range 8).any (fun i => coins.IsAvailable (3 + b * 8 + i)) = false :=
  packed_zero _

theorem maskByte_of_length_le {b : Nat} (beyond : coins.vout.length ≤ 3 + b * 8) : coins.maskByte b = 0 := by
  rw [maskByte_eq_zero,List.any_eq_false]
  intro i _
  rw [IsAvailable_of_length_le coins (by omega)]
  decide

theorem maskByte_ne_zero {b i : Nat} (available : coins.IsAvailable (3 + b * 8 + i) = true) (bit : i < 8) :
    coins.maskByte b ≠ 0 := by
  rw [ne_eq,maskByte_eq_zero,List.any_eq_false]
  exact fun zero => zero i (List.mem_range.mpr bit) available

/-- A non-zero byte has an unspent output behind it. -/
theorem available_of_maskByte {b : Nat} (nonzero : coins.maskByte b ≠ 0) :
    ∃ i < 8, coins.IsAvailable (3 + b * 8 + i) = true := by
  rw [ne_eq,maskByte_eq_zero,Bool.not_eq_false,List.any_eq_true] at nonzero
  obtain ⟨i,bit,available⟩ := nonzero
  exact ⟨i,List.mem_range.mp bit,available⟩

/-- What `CalcMaskSize` computes: a length past which every byte is zero,
whose last byte is not, and the count of the non-zero bytes up to it. -/
structure MaskSize (nMaskSize nMaskCode : Nat) : Prop where
  beyond : ∀ b, nMaskSize ≤ b → coins.maskByte b = 0
  last : ∀ b, nMaskSize = b + 1 → coins.maskByte b ≠ 0
  count : nMaskCode = ((List.range nMaskSize).map coins.maskByte).countP (· ≠ 0)

/-- Zero bytes add nothing to the count. -/
theorem countP_range_of_zero {f : Nat → UInt8} {low high : Nat} (le : low ≤ high)
    (zeros : ∀ b, low ≤ b → b < high → f b = 0) :
    ((List.range high).map f).countP (· ≠ 0) = ((List.range low).map f).countP (· ≠ 0) := by
  induction high, le using Nat.le_induction with
  | base => rfl
  | succ high le induct =>
    rw [List.range_succ,List.map_append,List.countP_append,induct fun b low' below => zeros b low' (by omega)]
    simp [zeros high le (Nat.lt_succ_self high)]

/-- The loop stops with the bytes it has seen. -/
private theorem maskSize_of_stop {b last count : Nat} (stop : coins.vout.length ≤ 3 + b * 8) (below : last ≤ b)
    (zeros : ∀ b', last ≤ b' → b' < b → coins.maskByte b' = 0) (used : ∀ b', last = b' + 1 → coins.maskByte b' ≠ 0)
    (counted : count = ((List.range b).map coins.maskByte).countP (· ≠ 0)) : MaskSize coins last count where
  beyond b' above := if inside : b' < b then zeros b' above inside else coins.maskByte_of_length_le (by omega)
  last := used
  count := counted.trans (countP_range_of_zero below zeros)

/-- The invariant of the loop: the last used byte is below the next byte
`b`, every byte between them is zero, and the count is that of the bytes
before `b`. -/
theorem calcMaskFrom_spec {fuel b last count : Nat} (enough : coins.vout.length ≤ 3 + (b + fuel) * 8)
    (below : last ≤ b) (zeros : ∀ b', last ≤ b' → b' < b → coins.maskByte b' = 0)
    (used : ∀ b', last = b' + 1 → coins.maskByte b' ≠ 0)
    (counted : count = ((List.range b).map coins.maskByte).countP (· ≠ 0)) :
    MaskSize coins (calcMaskFrom coins fuel b last count).1 (calcMaskFrom coins fuel b last count).2 := by
  induction fuel generalizing b last count with
  | zero => exact maskSize_of_stop coins (by simpa using enough) below zeros used counted
  | succ fuel induct =>
    rw [calcMaskFrom]
    split
    · case isTrue inside =>
      have next : ((List.range (b + 1)).map coins.maskByte).countP (· ≠ 0) =
          count + if coins.maskByte b ≠ 0 then 1 else 0 := by
        rw [List.range_succ,List.map_append,List.countP_append,← counted]
        simp
      dsimp only
      split
      · case isTrue empty =>
        have zero : coins.maskByte b = 0 := (maskByte_eq_zero coins b).mpr (by simpa using empty)
        refine induct (by rw [Nat.add_right_comm]; exact enough) (by omega) (fun b' low high => ?_) used
          (by rw [next,zero]; rfl)
        rcases Nat.lt_succ_iff_lt_or_eq.mp high with high | rfl
        · exact zeros b' low high
        · exact zero
      · case isFalse nonempty =>
        have nonzero : coins.maskByte b ≠ 0 := fun zero => nonempty (by simpa using (maskByte_eq_zero coins b).mp zero)
        refine induct (by rw [Nat.add_right_comm]; exact enough) (Nat.le_refl _) (fun _ low high => absurd high (by omega))
          (fun b' last => ?_) (by rw [next,if_pos nonzero])
        rw [Nat.add_right_cancel last] at nonzero
        exact nonzero
    · case isFalse stop => exact maskSize_of_stop coins (by omega) below zeros used counted

theorem CalcMaskSize_spec : MaskSize coins coins.CalcMaskSize.1 coins.CalcMaskSize.2 :=
  calcMaskFrom_spec coins (by omega) (Nat.le_refl 0) (fun _ low high => absurd high (by omega))
    (fun _ zero => absurd zero (by omega)) rfl

end Mask

/-! ## Reading back -/

section Header

/-- The five flags of a header code fill its low five bits. -/
private theorem flags_lt (b0 b1 b2 b3 b4 : Bool) :
    (if b0 then 1 else 0) + (if b1 then 2 else 0) + (if b2 then 4 else 0) + (if b3 then 8 else 0) +
      (if b4 then 16 else 0) < 32 := by
  cases b0 <;> cases b1 <;> cases b2 <;> cases b3 <;> cases b4 <;> decide

/-- The fields of a header code as the reader takes them apart. -/
private theorem header_fields {nCode k : Nat} {b0 b1 b2 b3 b4 : Bool}
    (code : nCode = 32 * k + ((if b0 then 1 else 0) + (if b1 then 2 else 0) + (if b2 then 4 else 0) +
      (if b3 then 8 else 0) + (if b4 then 16 else 0))) :
    (nCode &&& 1 != 0) = b0 ∧ (nCode &&& 2 != 0) = b1 ∧ (nCode &&& 4 != 0) = b2 ∧ (nCode &&& 8 != 0) = b3 ∧
      (nCode &&& 16 != 0) = b4 ∧ (nCode &&& 14 != 0) = (b1 || b2 || b3) ∧ nCode / 32 = k := by
  -- a mask below 32 sees only the low five bits
  have low : ∀ m, m < 32 → nCode &&& m = nCode % 32 &&& m := fun m small => by
    rw [← Nat.mod_eq_of_lt (Nat.lt_of_le_of_lt Nat.and_le_right small),
      show 32 = 2 ^ 5 from rfl,Nat.and_mod_two_pow,Nat.mod_eq_of_lt (show m < 2 ^ 5 from small)]
  have flags := flags_lt b0 b1 b2 b3 b4
  have residue : nCode % 32 = (if b0 then 1 else 0) + (if b1 then 2 else 0) + (if b2 then 4 else 0) +
      (if b3 then 8 else 0) + (if b4 then 16 else 0) := by omega
  rw [low 1 (by decide),low 2 (by decide),low 4 (by decide),low 8 (by decide),low 16 (by decide),
    low 14 (by decide),residue]
  refine ⟨?_,?_,?_,?_,?_,?_,by omega⟩ <;> cases b0 <;> cases b1 <;> cases b2 <;> cases b3 <;> cases b4 <;> decide

variable (coins : CCoins)

/-- What the reader takes out of the header code the writer puts together.
The count of mask bytes comes back: where none of the first three outputs is
unspent, a mask byte is non-zero and the writer took one off. -/
theorem headerCode_fields {nMaskCode : Nat} (unspent : coins.HasUnspent nMaskCode = true)
    (small : nMaskCode < 2 ^ 27) :
    (coins.headerCode nMaskCode &&& 1 != 0) = coins.fCoinBase ∧
      (coins.headerCode nMaskCode &&& 2 != 0) = coins.IsAvailable 0 ∧
      (coins.headerCode nMaskCode &&& 4 != 0) = coins.IsAvailable 1 ∧
      (coins.headerCode nMaskCode &&& 8 != 0) = coins.IsAvailable 2 ∧
      (coins.headerCode nMaskCode &&& 16 != 0) = coins.fCoinStake ∧
      coins.headerCode nMaskCode / 32 + (if coins.headerCode nMaskCode &&& 14 != 0 then 0 else 1) = nMaskCode ∧
      coins.headerCode nMaskCode < 2 ^ 32 := by
  have flags := flags_lt coins.fCoinBase (coins.IsAvailable 0) (coins.IsAvailable 1) (coins.IsAvailable 2)
    coins.fCoinStake
  have exact : coins.headerCode nMaskCode =
      32 * (nMaskCode - if coins.IsAvailable 0 || coins.IsAvailable 1 || coins.IsAvailable 2 then 0 else 1) +
        ((if coins.fCoinBase then 1 else 0) + (if coins.IsAvailable 0 then 2 else 0) +
          (if coins.IsAvailable 1 then 4 else 0) + (if coins.IsAvailable 2 then 8 else 0) +
          (if coins.fCoinStake then 16 else 0)) := by
    rw [headerCode,Nat.mod_eq_of_lt] <;> omega
  obtain ⟨coinBase,first,second,third,coinStake,any,quotient⟩ := header_fields exact
  refine ⟨coinBase,first,second,third,coinStake,?_,Nat.mod_lt _ (by decide)⟩
  rw [any,quotient]
  cases firstThree : (coins.IsAvailable 0 || coins.IsAvailable 1 || coins.IsAvailable 2)
  · have nonzero : nMaskCode ≠ 0 := by simpa [HasUnspent,firstThree] using unspent
    simp only [if_false,Bool.false_eq_true]
    omega
  · simp

end Header

/-- The reader takes back a bitmask that ends in a non-zero byte, counting
down on its non-zero bytes. -/
theorem readMask_append {mask : List UInt8} (ends : ∀ last ∈ mask.getLast?, last ≠ 0) (rest : List UInt8) :
    readMask (mask.countP (· ≠ 0)) (mask ++ rest) = .ok (some (mask,rest)) := by
  induction mask with
  | nil => rw [List.countP_nil,List.nil_append,readMask]
  | cons chAvail mask induct =>
    have tail : ∀ last ∈ mask.getLast?, last ≠ 0 := fun last inTail =>
      ends last (by simp [List.getLast?_cons,Option.mem_def.mp inTail])
    have read := induct tail
    rw [List.countP_cons,List.cons_append]
    by_cases zero : chAvail = 0
    · -- a zero byte leaves the count as it was, and a non-zero byte is still to come
      have nonempty : mask ≠ [] := by
        rintro rfl
        exact ends chAvail rfl zero
      obtain ⟨last,lastIn⟩ := Option.isSome_iff_exists.mp (List.getLast?_isSome.mpr nonempty)
      have positive : 0 < mask.countP (· ≠ 0) :=
        List.countP_pos_iff.mpr ⟨last,List.mem_of_getLast? lastIn,by simpa using tail last lastIn⟩
      obtain ⟨count,counted⟩ : ∃ count, mask.countP (· ≠ 0) = count + 1 :=
        ⟨_,(Nat.succ_pred_eq_of_pos positive).symm⟩
      rw [counted] at read ⊢
      simp only [zero,ne_eq,not_true_eq_false,decide_false,Bool.false_eq_true,if_false,Nat.add_zero,readMask,read]
    · simp only [zero,ne_eq,not_false_eq_true,decide_true,if_true,readMask,read]

section Availability

private theorem blocks_flatMap (f : Nat → Bool) (n : Nat) :
    (List.range n).flatMap (fun b => (List.range 8).map fun i => f (3 + b * 8 + i)) =
      (List.range (n * 8)).map fun j => f (3 + j) := by
  induction n with
  | zero => rfl
  | succ n induct =>
    rw [@List.range_succ n,List.flatMap_append,induct,Nat.succ_mul,@List.range_add (n * 8) 8,List.map_append,
      List.map_map]
    simp [Function.comp_def,Nat.add_assoc]

variable (coins : CCoins)

/-- The header's three bits and the bitmask's stand for every output up to
the end of the bitmask. -/
theorem availability_bits (n : Nat) :
    [coins.IsAvailable 0,coins.IsAvailable 1,coins.IsAvailable 2] ++
        ((List.range n).map coins.maskByte).flatMap maskBits =
      (List.range (3 + n * 8)).map coins.IsAvailable := by
  rw [List.flatMap_map]
  simp only [maskBits_maskByte]
  rw [blocks_flatMap,List.range_add,List.map_append,List.map_map]
  rfl

/-- Past the last output every bit is clear: the outputs read back are the
entry's, then spent ones up to the end of the bitmask. -/
theorem availability_padded {m : Nat} (covers : coins.vout.length ≤ m) :
    (List.range m).map coins.IsAvailable =
      (coins.vout ++ List.replicate (m - coins.vout.length) CTxOut.null).map (!·.IsNull) := by
  apply List.ext_getElem (by simp; omega)
  intro j inside _
  simp only [List.getElem_map,List.getElem_range]
  by_cases within : j < coins.vout.length
  · rw [List.getElem_append_left within]
    simp [IsAvailable,List.getElem?_eq_getElem within]
  · rw [List.getElem_append_right (by omega),List.getElem_replicate,IsAvailable_of_length_le coins (by omega)]
    rfl

end Availability

/-- The outputs are read back where their bits are set, and `CTxOut()` is
put where they are not; every spent output is `CTxOut()`. -/
theorem readOutputs_filter {pubkeys : PubKeyOps} (lawful : pubkeys.Lawful) {vout : List CTxOut}
    (spent : ∀ txout ∈ vout, txout.IsNull = true → txout = CTxOut.null)
    (unspent : ∀ txout ∈ vout, txout.IsNull = false → CTxOutCompressor.Fits txout) (rest : List UInt8) :
    readOutputs pubkeys (vout.map (!·.IsNull))
      ((vout.filter (!·.IsNull)).flatMap (CTxOutCompressor.Serialize pubkeys) ++ rest) = .ok (some (vout,rest)) := by
  induction vout with
  | nil => rfl
  | cons txout vout induct =>
    have read := induct (fun other inTail => spent other (List.mem_cons_of_mem _ inTail))
      (fun other inTail => unspent other (List.mem_cons_of_mem _ inTail))
    cases null : txout.IsNull
    · -- an unspent output, in its compressed form
      have output := CTxOutCompressor.Unserialize_Serialize lawful txout (unspent txout List.mem_cons_self null)
        ((vout.filter (!·.IsNull)).flatMap (CTxOutCompressor.Serialize pubkeys) ++ rest)
      rw [List.map_cons,List.filter_cons_of_pos (by simp [null]),List.flatMap_cons,List.append_assoc,null,
        readOutputs,Decoder.ite_apply,if_pos (by decide),Decoder.bind_apply_of_some output]
      dsimp only
      rw [Decoder.bind_apply_of_some read]
      rfl
    · -- a spent output, of which nothing is written
      rw [List.map_cons,List.filter_cons_of_neg (by simp [null]),null,readOutputs,Decoder.ite_apply,
        if_neg (by decide),Decoder.bind_apply_of_some (Decoder.pure_apply _ _)]
      dsimp only
      rw [Decoder.bind_apply_of_some read,spent txout List.mem_cons_self null]
      rfl

/-- `Cleanup` takes off the spent outputs the reader adds past the last unspent one. -/
theorem Cleanup_padded {fCoinBase fCoinStake : Bool} {vout : List CTxOut} {nHeight nVersion : Int}
    (ends : ∀ txout ∈ vout.getLast?, txout.IsNull = false) (count : Nat) :
    Cleanup ⟨fCoinBase,fCoinStake,vout ++ List.replicate count CTxOut.null,nHeight,nVersion⟩ =
      ⟨fCoinBase,fCoinStake,vout,nHeight,nVersion⟩ := by
  simp only [Cleanup,List.reverse_append,List.reverse_replicate,CCoins.mk.injEq,true_and,and_true]
  rw [List.dropWhile_append_of_pos (by simp)]
  cases reversed : vout.reverse with
  | nil => simpa using reversed
  | cons last before =>
    have isLast : vout.getLast? = some last := by rw [← List.head?_reverse,reversed]; rfl
    rw [List.dropWhile_cons_of_neg (by simp [ends last isLast]),← reversed,List.reverse_reverse]

section Spans

variable {coins : CCoins}

theorem lt_of_IsAvailable {nPos : Nat} (available : coins.IsAvailable nPos = true) : nPos < coins.vout.length :=
  Nat.lt_of_not_le fun beyond => by rw [IsAvailable_of_length_le coins beyond] at available; cases available

theorem exists_available (unpruned : coins.IsPruned = false) : ∃ nPos, coins.IsAvailable nPos = true := by
  obtain ⟨txout,inside,unspent⟩ := List.all_eq_false.mp unpruned
  obtain ⟨nPos,within,rfl⟩ := List.mem_iff_getElem.mp inside
  exact ⟨nPos,by simp [IsAvailable,List.getElem?_eq_getElem within,unspent]⟩

namespace MaskSize

variable {nMaskSize nMaskCode : Nat} (spec : coins.MaskSize nMaskSize nMaskCode)
include spec

/-- The bitmask ends in a non-zero byte. -/
theorem ends : ∀ last ∈ ((List.range nMaskSize).map coins.maskByte).getLast?, last ≠ 0 := by
  intro last isLast
  cases nMaskSize with
  | zero => cases isLast
  | succ b =>
    rw [List.range_succ,List.map_append,List.map_singleton,List.getLast?_append_of_ne_nil _ (by simp)] at isLast
    cases isLast
    exact spec.last b rfl

/-- The bitmask reaches every unspent output. -/
theorem covers {nPos : Nat} (available : coins.IsAvailable nPos = true) (three : 3 ≤ nPos) :
    nPos < 3 + nMaskSize * 8 := by
  have index : 3 + (nPos - 3) / 8 * 8 + (nPos - 3) % 8 = nPos := by omega
  have nonzero := coins.maskByte_ne_zero (index ▸ available) (Nat.mod_lt _ (by decide))
  have inside : (nPos - 3) / 8 < nMaskSize := Nat.lt_of_not_le fun beyond => nonzero (spec.beyond _ beyond)
  omega

theorem length_le (cleaned : ∀ txout ∈ coins.vout.getLast?, txout.IsNull = false) :
    coins.vout.length ≤ 3 + nMaskSize * 8 := by
  by_cases short : coins.vout.length ≤ 3
  · omega
  · -- the last output is unspent, and the bitmask reaches it
    obtain ⟨last,isLast⟩ := Option.isSome_iff_exists.mp
      (List.getLast?_isSome.mpr (List.ne_nil_of_length_pos (show 0 < coins.vout.length by omega)))
    have unspent := cleaned last isLast
    have available : coins.IsAvailable (coins.vout.length - 1) = true := by
      rw [List.getLast?_eq_getElem?] at isLast
      simp [IsAvailable,isLast,unspent]
    have := spec.covers available (by omega)
    omega

theorem code_le : nMaskCode ≤ nMaskSize := by
  rw [spec.count]
  exact (List.countP_le_length).trans (by simp)

/-- The last byte has an output behind it, so the bitmask is no longer than
the outputs. -/
theorem size_le : nMaskSize * 8 ≤ coins.vout.length + 4 := by
  cases nMaskSize with
  | zero => omega
  | succ b =>
    obtain ⟨i,bit,available⟩ := coins.available_of_maskByte (spec.last b rfl)
    have := lt_of_IsAvailable available
    omega

/-- An unspent output passes the `assert`. -/
theorem unspent_of_available {nPos : Nat} (available : coins.IsAvailable nPos = true) :
    coins.HasUnspent nMaskCode = true := by
  by_cases three : nPos < 3
  · obtain rfl | rfl | rfl : nPos = 0 ∨ nPos = 1 ∨ nPos = 2 := by omega
    all_goals simp [HasUnspent,available]
  · have := spec.covers available (by omega)
    obtain ⟨b,rfl⟩ : ∃ b, nMaskSize = b + 1 := ⟨nMaskSize - 1,by omega⟩
    have positive : 0 < nMaskCode := by
      rw [spec.count]
      exact List.countP_pos_iff.mpr ⟨coins.maskByte b,List.mem_map_of_mem List.self_mem_range_succ,
        by simpa using spec.last b rfl⟩
    simp [HasUnspent,Nat.pos_iff_ne_zero.mp positive]

end MaskSize

end Spans

section Stored

/-! ## The round trip -/

/-- What the disk form needs of an entry, as `FromTx` leaves it and `Spend`
keeps it: every spent output is `CTxOut()`, every unspent one fits the
compressed form, the outputs end in an unspent one, there are at most
`MAX_SIZE` of them, and the height and the version fit the `int` they are
read into. -/
structure Stored (coins : CCoins) : Prop where
  spent : ∀ txout ∈ coins.vout, txout.IsNull = true → txout = CTxOut.null
  unspent : ∀ txout ∈ coins.vout, txout.IsNull = false → CTxOutCompressor.Fits txout
  cleaned : ∀ txout ∈ coins.vout.getLast?, txout.IsNull = false
  outputs : coins.vout.length ≤ MAX_SIZE
  height : 0 ≤ coins.nHeight ∧ coins.nHeight < 2 ^ 31
  version : coins.nVersion < 2 ^ 31

section Written

variable (pubkeys : PubKeyOps) {coins : CCoins} {nMaskSize nMaskCode : Nat}
  (sizes : coins.CalcMaskSize = (nMaskSize,nMaskCode)) (unspent : coins.HasUnspent nMaskCode = true)
include sizes unspent

/-- The bytes written for an entry with an unspent output. -/
theorem Serialize_ok :
    coins.Serialize pubkeys = .ok (VarInt.writeInt coins.nVersion ++ VarInt.write (coins.headerCode nMaskCode) ++
      (List.range nMaskSize).map coins.maskByte ++
      (coins.vout.filter (!·.IsNull)).flatMap (CTxOutCompressor.Serialize pubkeys) ++ VarInt.writeInt coins.nHeight) := by
  unfold Serialize
  rw [sizes]
  dsimp only
  rw [unspent]
  rfl

theorem GetSerializeSize_ok :
    coins.GetSerializeSize pubkeys = .ok ((VarInt.GetSizeOfVarIntInt coins.nVersion +
      VarInt.GetSizeOfVarInt (coins.headerCode nMaskCode) + nMaskSize +
      ((coins.vout.filter (!·.IsNull)).map (CTxOutCompressor.GetSerializeSize pubkeys)).sum +
      VarInt.GetSizeOfVarIntInt coins.nHeight) % 2 ^ 32) := by
  unfold GetSerializeSize
  rw [sizes]
  dsimp only
  rw [unspent]
  rfl

end Written

variable (pubkeys : PubKeyOps) {coins : CCoins} {nMaskSize nMaskCode : Nat}

/-- The size counted is the length of the bytes written. -/
theorem GetSerializeSize_eq_length (stored : coins.Stored) :
    (VarInt.GetSizeOfVarIntInt coins.nVersion + VarInt.GetSizeOfVarInt (coins.headerCode nMaskCode) + nMaskSize +
      ((coins.vout.filter (!·.IsNull)).map (CTxOutCompressor.GetSerializeSize pubkeys)).sum +
      VarInt.GetSizeOfVarIntInt coins.nHeight) =
    (VarInt.writeInt coins.nVersion ++ VarInt.write (coins.headerCode nMaskCode) ++
      (List.range nMaskSize).map coins.maskByte ++
      (coins.vout.filter (!·.IsNull)).flatMap (CTxOutCompressor.Serialize pubkeys) ++ VarInt.writeInt coins.nHeight).length := by
  have outputs : ((coins.vout.filter (!·.IsNull)).map (CTxOutCompressor.GetSerializeSize pubkeys)).sum =
      ((coins.vout.filter (!·.IsNull)).flatMap (CTxOutCompressor.Serialize pubkeys)).length := by
    rw [List.length_flatMap]
    congr 1
    apply List.map_congr_left
    intro txout kept
    obtain ⟨inside,unspent⟩ := List.mem_filter.mp kept
    exact CTxOutCompressor.GetSerializeSize_eq_length pubkeys
      (stored.unspent txout inside (by simpa using unspent)).2.2
  simp only [List.length_append,List.length_map,List.length_range,VarInt.GetSizeOfVarIntInt_eq_length,
    VarInt.GetSizeOfVarInt_eq_length,outputs]

/-- The reader takes the bytes apart field by field: the version as the
writer left it, the header code, the bitmask up to its last non-zero byte,
the unspent outputs, which with the spent ones make the entry's outputs and
spent ones up to the end of the bitmask, and the height; `Cleanup` then takes
off what the bitmask added. -/
theorem Unserialize_written {pubkeys : PubKeyOps} (lawful : pubkeys.Lawful) (stored : coins.Stored)
    (spec : coins.MaskSize nMaskSize nMaskCode) (unspent : coins.HasUnspent nMaskCode = true) (rest : List UInt8) :
    Unserialize pubkeys (VarInt.writeInt coins.nVersion ++ VarInt.write (coins.headerCode nMaskCode) ++
      (List.range nMaskSize).map coins.maskByte ++
      (coins.vout.filter (!·.IsNull)).flatMap (CTxOutCompressor.Serialize pubkeys) ++ VarInt.writeInt coins.nHeight ++
        rest) =
      .ok (some ({coins with nVersion := if coins.nVersion < 0 then coins.nVersion % 128 else coins.nVersion},rest)) := by
  have small : nMaskCode < 2 ^ 27 := by
    have := spec.code_le
    have := spec.size_le
    have := stored.outputs
    unfold MAX_SIZE at *
    omega
  obtain ⟨coinBase,first,second,third,coinStake,count,code⟩ := coins.headerCode_fields unspent small
  have covers := spec.length_le stored.cleaned
  have header : ∀ tail, ReadVarIntUInt32 (VarInt.write (coins.headerCode nMaskCode) ++ tail) =
      .ok (some (coins.headerCode nMaskCode,tail)) := VarInt.read_unsigned_write 32 _ code
  have mask := readMask_append spec.ends
  rw [← spec.count] at mask
  -- the outputs the reader builds: the entry's, then spent ones up to the end of the bitmask
  have outputs := @readOutputs_filter pubkeys lawful
    (coins.vout ++ List.replicate (3 + nMaskSize * 8 - coins.vout.length) CTxOut.null)
    (fun txout inside null => by
      rcases List.mem_append.mp inside with inside | padding
      · exact stored.spent txout inside null
      · exact List.eq_of_mem_replicate padding)
    (fun txout inside unspent => by
      rcases List.mem_append.mp inside with inside | padding
      · exact stored.unspent txout inside unspent
      · rw [List.eq_of_mem_replicate padding] at unspent; cases unspent)
  rw [List.filter_append,List.filter_replicate,if_neg (by decide),List.append_nil] at outputs
  have height := ReadVarIntInt32_writeInt stored.height.2 rest
  rw [if_neg (not_lt.mpr stored.height.1)] at height
  simp only [List.append_assoc]
  rw [Unserialize,Decoder.bind_apply_of_some (ReadVarIntInt32_writeInt stored.version _)]
  dsimp only
  -- the header code, the bitmask, then the outputs its bits and the header's stand for
  rw [Decoder.bind_apply_of_some (header _),count,Decoder.bind_apply_of_some (mask _),first,second,third,
    availability_bits,availability_padded coins covers,Decoder.bind_apply_of_some (outputs _),
    Decoder.bind_apply_of_some height,coinBase,coinStake,Decoder.pure_apply,Cleanup_padded stored.cleaned]

/-- An entry with an unspent output is written, its size is counted, and it
is read back, its version as the reader takes it. -/
theorem Unserialize_Serialize {pubkeys : PubKeyOps} (lawful : pubkeys.Lawful) {coins : CCoins}
    (stored : coins.Stored) (unpruned : coins.IsPruned = false) (rest : List UInt8) :
    ∃ bytes, coins.Serialize pubkeys = .ok bytes ∧ coins.GetSerializeSize pubkeys = .ok (bytes.length % 2 ^ 32) ∧
      Unserialize pubkeys (bytes ++ rest) =
        .ok (some ({coins with nVersion := if coins.nVersion < 0 then coins.nVersion % 128 else coins.nVersion},rest)) := by
  have spec := CalcMaskSize_spec coins
  cases sizes : coins.CalcMaskSize with
  | mk nMaskSize nMaskCode =>
    rw [sizes] at spec
    obtain ⟨nPos,available⟩ := exists_available unpruned
    have unspent := spec.unspent_of_available available
    refine ⟨_,Serialize_ok pubkeys sizes unspent,?_,Unserialize_written lawful stored spec unspent rest⟩
    rw [GetSerializeSize_ok pubkeys sizes unspent,GetSerializeSize_eq_length pubkeys stored]

end Stored

section Reached

/-- `Cleanup` keeps a prefix of the outputs that ends in an unspent one. -/
theorem Cleanup_vout_front (coins : CCoins) : coins.Cleanup.vout <+: coins.vout := by
  rw [Cleanup,← List.reverse_suffix,List.reverse_reverse]
  exact List.dropWhile_suffix _

theorem Cleanup_cleaned (coins : CCoins) : ∀ txout ∈ coins.Cleanup.vout.getLast?, txout.IsNull = false := by
  intro txout isLast
  rw [Cleanup,List.getLast?_reverse] at isLast
  have first := List.head?_dropWhile_not CTxOut.IsNull coins.vout.reverse
  rw [Option.mem_def.mp isLast] at first
  exact first

/-- `Cleanup` of outputs that each fit, in an entry whose integers fit, is stored. -/
theorem Stored_Cleanup {coins : CCoins} (spent : ∀ txout ∈ coins.vout, txout.IsNull = true → txout = CTxOut.null)
    (unspent : ∀ txout ∈ coins.vout, txout.IsNull = false → CTxOutCompressor.Fits txout)
    (outputs : coins.vout.length ≤ MAX_SIZE) (height : 0 ≤ coins.nHeight ∧ coins.nHeight < 2 ^ 31)
    (version : coins.nVersion < 2 ^ 31) : coins.Cleanup.Stored where
  spent txout inside := spent txout ((Cleanup_vout_front coins).subset inside)
  unspent txout inside := unspent txout ((Cleanup_vout_front coins).subset inside)
  cleaned := Cleanup_cleaned coins
  outputs := (Cleanup_vout_front coins).length_le.trans outputs
  height := height
  version := version

/-- `FromTx` of a transaction whose outputs are within the supply. -/
theorem Stored_FromTx {tx : CTransaction} {nHeight : Int}
    (amounts : ∀ txout ∈ tx.vout, 0 ≤ txout.nValue ∧ txout.nValue < 2 ^ 60) (outputs : tx.vout.length ≤ MAX_SIZE)
    (version : tx.nVersion < 2 ^ 31) (height : 0 ≤ nHeight ∧ nHeight < 2 ^ 31) : (FromTx tx nHeight).Stored := by
  apply Stored_Cleanup
  · intro txout inside null
    obtain ⟨original,kept,rfl⟩ := List.mem_map.mp inside
    split
    · rfl
    · case isFalse spendable =>
      -- an output of an accepted transaction has no negative value, so it is not spent
      have positive : original.nValue ≠ -1 := fun negative => by
        have := (amounts original kept).1
        rw [negative] at this
        norm_num at this
      rw [if_neg spendable] at null
      simp [CTxOut.IsNull,positive] at null
  · intro txout inside unspent
    obtain ⟨original,kept,rfl⟩ := List.mem_map.mp inside
    split at unspent
    · cases unspent
    · case isFalse spendable =>
      rw [if_neg spendable]
      refine ⟨(amounts original kept).1,(amounts original kept).2,?_⟩
      simp only [IsUnspendable,Bool.or_eq_true,Bool.and_eq_true,decide_eq_true_eq,not_or] at spendable
      exact Nat.le_of_not_lt spendable.2
  · simpa using outputs
  · exact height
  · exact version

/-- `Spend` sets an output to `CTxOut()` and cleans up: the entry stays stored. -/
theorem Stored_Spend {coins spent : CCoins} {nPos : Nat} (stored : coins.Stored) (spends : coins.Spend nPos = some spent) :
    spent.Stored := by
  unfold Spend at spends
  split at spends
  · cases spends
    apply Stored_Cleanup
    · intro txout inside null
      rcases List.mem_or_eq_of_mem_set inside with inside | rfl
      · exact stored.spent txout inside null
      · rfl
    · intro txout inside unspent
      rcases List.mem_or_eq_of_mem_set inside with inside | rfl
      · exact stored.unspent txout inside unspent
      · cases unspent
    · simpa using stored.outputs
    · exact stored.height
    · exact stored.version
  · cases spends

/-- Spending any outputs, in any order, keeps an entry stored; a `Spend` that
returns false leaves it as it was. -/
theorem Stored_spends {coins : CCoins} (stored : coins.Stored) (spends : List Nat) :
    (spends.foldl (fun coins nPos => (coins.Spend nPos).getD coins) coins).Stored := by
  induction spends generalizing coins with
  | nil => exact stored
  | cons nPos spends induct =>
    apply induct
    show ((coins.Spend nPos).getD coins).Stored
    cases spent : coins.Spend nPos with
    | none => exact stored
    | some spent' => exact Stored_Spend stored spent

end Reached

end CCoins

/-- A transaction with version -1, one input and one output. -/
def negativeTx : CTransaction := ⟨Blob.null 32,-1,[⟨⟨Blob.replicate 32 7,0⟩,[],SEQUENCE_FINAL⟩],[⟨5,[0x51]⟩],[],0,0⟩

/-- Every entry built by `FromTx` from a transaction whose outputs are
within the supply, at any height, with any outputs spent, and not pruned,
is written, its size is counted, and it is read back whole but for a negative
version, which comes back as its low seven bits. The transaction of version
-1 gives such an entry: the writer stores one byte 127, and the entry read
back differs from it under `operator==`. -/
theorem negative_version_read_back :
    (∀ (pubkeys : PubKeyOps) (tx : CTransaction) (nHeight : Int) (spends : List Nat) (coins : CCoins)
        (rest : List UInt8),
      pubkeys.Lawful → (∀ txout ∈ tx.vout, 0 ≤ txout.nValue ∧ txout.nValue < 2 ^ 60) → tx.vout.length ≤ MAX_SIZE →
      tx.nVersion < 2 ^ 31 → 0 ≤ nHeight → nHeight < 2 ^ 31 →
      coins = spends.foldl (fun coins nPos => (coins.Spend nPos).getD coins) (CCoins.FromTx tx nHeight) →
      coins.IsPruned = false →
      ∃ bytes, coins.Serialize pubkeys = .ok bytes ∧ coins.GetSerializeSize pubkeys = .ok (bytes.length % 2 ^ 32) ∧
        CCoins.Unserialize pubkeys (bytes ++ rest) =
          .ok (some ({coins with nVersion := if coins.nVersion < 0 then coins.nVersion % 128 else coins.nVersion},
            rest))) ∧
    ∃ bytes, (CCoins.FromTx negativeTx 1).Serialize plainKeys = .ok bytes ∧
      CCoins.Unserialize plainKeys bytes = .ok (some ({CCoins.FromTx negativeTx 1 with nVersion := 127},[])) ∧
      (CCoins.FromTx negativeTx 1).nVersion = -1 ∧
      CCoins.same {CCoins.FromTx negativeTx 1 with nVersion := 127} (CCoins.FromTx negativeTx 1) = false := by
  refine ⟨fun pubkeys tx nHeight spends coins rest lawful amounts outputs version low high reached unpruned => ?_,
    _,rfl,by decide,rfl,by decide⟩
  subst reached
  exact CCoins.Unserialize_Serialize lawful
    (CCoins.Stored_spends (CCoins.Stored_FromTx amounts outputs version ⟨low,high⟩) spends) unpruned rest

end Qtum
