import Qtum.Primitives.TxRoundTrip
import Qtum.Primitives.Block

/-! The network encodings of `blockencodings.h`: block headers and
transactions as a network stream holds them, the compact block message
`CBlockHeaderAndShortTxIDs`, and the `getblocktxn` request.

The request holds a block hash and the positions of the transactions asked
for, written as differences. The writer sends each position less one past the
one before; the reader reads the differences, each of at most 16 bits, and
adds them up again with a running `uint16_t offset`. The offset is one past
the last position, so after a position of 65535 it wraps to 0 and the next
difference is read as a position from the start: the reader then returns
positions that do not increase, which the writer does not write back to the
bytes read. Up to that, the two directions agree: a strictly increasing list
is read back, and a strictly increasing list read is what the writer
writes. -/
namespace Qtum

open Script

structure BlockTransactionsRequest where
  blockhash : uint256
  indexes : List Nat
  deriving DecidableEq

/-! ## Headers and transactions on the wire

A header as `CBlockHeader::SerializationOp` reads it in a network stream,
with the signature and the stake fields, and a transaction as its
deserializing constructor does, with the hash `UpdateHash` computes. -/

namespace CBlockHeader

/-- `CBlockHeader::Unserialize`; a `bool` is read as one byte, true when not 0. -/
def Unserialize : Decoder CBlockHeader := do
  let nVersion ← readLittleEndian 4
  let hashPrevBlock ← readBlob 32
  let hashMerkleRoot ← readBlob 32
  let nTime ← readLittleEndian 4
  let nBits ← readLittleEndian 4
  let nNonce ← readLittleEndian 4
  let vchBlockSig ← readScript
  let fStake ← Decoder.byte
  let prevoutStake ← COutPoint.Unserialize
  let nStakeTime ← readLittleEndian 4
  let hashStateRoot ← readBlob 32
  let hashUTXORoot ← readBlob 32
  pure ⟨toSigned 32 nVersion,hashPrevBlock,hashMerkleRoot,nTime,nBits,nNonce,vchBlockSig,fStake != 0,prevoutStake,
    nStakeTime,hashStateRoot,hashUTXORoot⟩

/-- What a network stream holds of a header: the fields of `FitsWire`, and a
`uint32_t` nonce and stake time, a signature of at most `MAX_SIZE` bytes and
a stake outpoint that fits. -/
def FitsStream (header : CBlockHeader) : Prop :=
  header.FitsWire ∧ header.nNonce < 2 ^ 32 ∧ header.vchBlockSig.length ≤ MAX_SIZE ∧ header.prevoutStake.Fits ∧
    header.nStakeTime < 2 ^ 32

theorem Unserialize_Serialize : Decoder.RoundTrip Unserialize (Serialize · SER_NETWORK) FitsStream := by
  intro header ⟨⟨low,high,time,bits⟩,nonce,signature,stakeFits,stakeTime⟩ rest
  have signatureRead : ∀ input, readScript (WriteVector (fun byte => [byte]) header.vchBlockSig ++ input) =
      .ok (some (header.vchBlockSig,input)) := readScript_serializeScript _ signature
  simp only [Serialize,serializeWith,stake,SER_NETWORK,SER_GETHASH,Nat.reduceShiftLeft,Nat.reduceAnd,if_true,
    List.append_assoc,List.cons_append,List.nil_append]
  rw [Unserialize,Decoder.bind_apply_of_some (readLittleEndian_encode (by unfold toUnsigned; omega) _),
    Decoder.bind_apply_of_some (readBlob_bytes _ _),Decoder.bind_apply_of_some (readBlob_bytes _ _),
    Decoder.bind_apply_of_some (readLittleEndian_encode (by simpa using time) _),
    Decoder.bind_apply_of_some (readLittleEndian_encode (by simpa using bits) _),
    Decoder.bind_apply_of_some (readLittleEndian_encode (by simpa using nonce) _),
    Decoder.bind_apply_of_some (signatureRead _),Decoder.bind_apply_of_some (Decoder.byte_cons _ _),
    Decoder.bind_apply_of_some (COutPoint.Unserialize_Serialize _ stakeFits _),
    Decoder.bind_apply_of_some (readLittleEndian_encode (by simpa using stakeTime) _),
    Decoder.bind_apply_of_some (readBlob_bytes _ _),Decoder.bind_apply_of_some (readBlob_bytes _ _),
    Decoder.pure_apply,toSigned_toUnsigned (by decide) (by simpa using low) (by simpa using high)]
  cases header
  cases ‹Bool›
  all_goals rfl

end CBlockHeader

/-- `CTransaction`'s deserializing `SerializationOp`: the fields, then
`UpdateHash`, the double SHA-256 of the serialization without witnesses. -/
def CTransaction.Unserialize (crypto : Crypto) : Decoder CTransaction := do
  let tx ← UnserializeTransaction false
  match SerializeTransaction (tx.withHash (Blob.null 32)) true with
  | .ok bytes => pure (tx.withHash (crypto.Hash256 bytes))
  | .error failure => Decoder.abort failure

/-- The serialization without witnesses reads neither the hash nor witnesses
that the inputs can hold. -/
theorem SerializeTransaction_noWitness {tx : CTransaction} (hash : uint256) {wit : List CScriptWitness}
    (sized : wit.length ≤ tx.vin.length) (sized' : tx.wit.length ≤ tx.vin.length) :
    SerializeTransaction {tx with hash,wit} true = SerializeTransaction tx true := by
  simp [SerializeTransaction,Nat.not_lt.mpr sized,Nat.not_lt.mpr sized']

/-- The witnesses a transaction is read back with: resized to one per input,
or none when all are empty. -/
def CTransaction.readWitness (tx : CTransaction) : List CScriptWitness :=
  if tx.HasWitness false then tx.resizedWitness else []

theorem CTransaction.readWitness_length (tx : CTransaction) (sized : tx.wit.length ≤ tx.vin.length) :
    tx.readWitness.length ≤ tx.vin.length := by
  unfold readWitness resizedWitness
  split
  · simp
    omega
  · simp

/-- A transaction whose fields fit the wire is read back with its witnesses
as the writer resized them and the hash of its serialization. -/
theorem CTransaction.Unserialize_Serialize (crypto : Crypto) {tx : CTransaction} (sized : tx.wit.length ≤ tx.vin.length)
    (fits : tx.Fits) (unambiguous : tx.vin ≠ [] ∨ tx.wit.all CScriptWitness.IsNull = false) (rest : List UInt8) :
    ∃ bytes hashed, SerializeTransaction tx false = .ok bytes ∧ SerializeTransaction tx true = .ok hashed ∧
      CTransaction.Unserialize crypto (bytes ++ rest) =
        .ok (some ({tx with hash := crypto.Hash256 hashed,wit := tx.readWitness},rest)) := by
  obtain ⟨bytes,written,read⟩ := @UnserializeTransaction_SerializeTransaction _ false sized fits unambiguous rest
  obtain ⟨hashed,hashedWrite⟩ : ∃ hashed, SerializeTransaction tx true = .ok hashed := by
    unfold SerializeTransaction
    rw [if_neg (Nat.not_lt.mpr sized)]
    exact ⟨_,rfl⟩
  have rehashed : SerializeTransaction {tx with hash := Blob.null 32,wit := tx.readWitness} true = .ok hashed :=
    (SerializeTransaction_noWitness _ (tx.readWitness_length sized) sized).trans hashedWrite
  refine ⟨bytes,hashed,written,hashedWrite,?_⟩
  have rehashed' : SerializeTransaction (CMutableTransaction.withHash
      ⟨tx.nVersion,tx.vin,tx.vout,if tx.HasWitness false then tx.resizedWitness else [],tx.nLockTime,tx.nTime⟩
      (Blob.null 32)) true = .ok hashed := rehashed
  rw [CTransaction.Unserialize,Decoder.bind_apply_of_some read,rehashed']
  rfl

/-! ## The compact block message -/

/-- `PrefilledTransaction`: the `uint16_t` index, a difference on the wire
and a position in `PartiallyDownloadedBlock`, and the transaction. -/
structure PrefilledTransaction where
  index : Nat
  tx : CTransaction
  deriving DecidableEq

namespace PrefilledTransaction

def Serialize (prefilled : PrefilledTransaction) : Except Abort (List UInt8) := do
  let bytes ← SerializeTransaction prefilled.tx false
  pure (WriteCompactSize prefilled.index ++ bytes)

/-- "index overflowed 16-bits" above 65535. -/
def Unserialize (crypto : Crypto) : Decoder PrefilledTransaction := do
  let idx ← ReadCompactSize
  if 0xffff < idx then Decoder.fail
  else do
    let tx ← CTransaction.Unserialize crypto
    pure ⟨idx,tx⟩

end PrefilledTransaction

/-- `CBlockHeaderAndShortTxIDs`: the keys of the short IDs are not stored
but computed from the header and the nonce, as `FillShortTxIDSelector` does
after every read. -/
structure CBlockHeaderAndShortTxIDs where
  nonce : Nat
  shorttxids : List Nat
  prefilledtxn : List PrefilledTransaction
  header : CBlockHeader
  deriving DecidableEq

namespace CBlockHeaderAndShortTxIDs

/-- `FillShortTxIDSelector`: the first two little-endian words of the
SHA-256 of the header and the nonce. -/
def shortTxIDKeys (crypto : Crypto) (cmpctblock : CBlockHeaderAndShortTxIDs) : Nat × Nat :=
  let shorttxidhash := crypto.SHA256 (cmpctblock.header.Serialize SER_NETWORK ++ LittleEndian.encode 8 cmpctblock.nonce)
  (LittleEndian.decode (shorttxidhash.bytes.take 8),LittleEndian.decode ((shorttxidhash.bytes.drop 8).take 8))

/-- `GetShortID`: the keyed `SipHashUint256`, cut to six bytes. -/
def GetShortID (crypto : Crypto) (sipHash : Nat → Nat → uint256 → Nat) (cmpctblock : CBlockHeaderAndShortTxIDs)
    (txhash : uint256) : Nat :=
  let (k0,k1) := cmpctblock.shortTxIDKeys crypto
  sipHash k0 k1 txhash &&& 0xffffffffffff

/-- The constructor from a block: the coinbase prefilled at index 0 and the
short IDs of the others. An empty block makes `shorttxids(block.vtx.size() - 1)`
a vector of `SIZE_MAX` elements, which throws. -/
def ofBlock (crypto : Crypto) (sipHash : Nat → Nat → uint256 → Nat) (block : CBlock) (nonce : Nat) :
    Except Abort CBlockHeaderAndShortTxIDs :=
  match block.vtx with
  | [] => .error .exception
  | coinbase :: rest =>
    let keyed : CBlockHeaderAndShortTxIDs := ⟨nonce,[],[⟨0,coinbase⟩],block.header⟩
    .ok {keyed with shorttxids := rest.map fun tx => keyed.GetShortID crypto sipHash tx.GetHash}

def BlockTxCount (cmpctblock : CBlockHeaderAndShortTxIDs) : Nat :=
  cmpctblock.shorttxids.length + cmpctblock.prefilledtxn.length

/-- A short ID on the wire: its low four bytes, then the next two. -/
def writeShortID (shorttxid : Nat) : List UInt8 :=
  LittleEndian.encode 4 (shorttxid &&& 0xffffffff) ++ LittleEndian.encode 2 ((shorttxid >>> 32) &&& 0xffff)

def readShortID : Decoder Nat := do
  let lsb ← readLittleEndian 4
  let msb ← readLittleEndian 2
  pure (msb <<< 32 ||| lsb)

def Serialize (cmpctblock : CBlockHeaderAndShortTxIDs) : Except Abort (List UInt8) := do
  let prefilled ← cmpctblock.prefilledtxn.mapM PrefilledTransaction.Serialize
  pure (cmpctblock.header.Serialize SER_NETWORK ++ LittleEndian.encode 8 cmpctblock.nonce ++
    WriteCompactSize cmpctblock.shorttxids.length ++ (cmpctblock.shorttxids.map writeShortID).flatten ++
    WriteCompactSize cmpctblock.prefilledtxn.length ++ prefilled.flatten)

def Unserialize (crypto : Crypto) : Decoder CBlockHeaderAndShortTxIDs := do
  let header ← CBlockHeader.Unserialize
  let nonce ← readLittleEndian 8
  let shorttxids_size ← ReadCompactSize
  let shorttxids ← Decoder.replicate readShortID shorttxids_size
  let prefilledtxn ← ReadVector (PrefilledTransaction.Unserialize crypto)
  pure ⟨nonce,shorttxids,prefilledtxn,header⟩

theorem readShortID_writeShortID : Decoder.RoundTrip readShortID writeShortID (· < 2 ^ 48) := by
  intro shorttxid small rest
  have low : shorttxid &&& 0xffffffff = shorttxid % 2 ^ 32 := Nat.and_two_pow_sub_one_eq_mod shorttxid 32
  have high : (shorttxid >>> 32) &&& 0xffff = shorttxid / 2 ^ 32 := by
    rw [Nat.and_two_pow_sub_one_eq_mod (shorttxid >>> 32) 16,Nat.shiftRight_eq_div_pow]
    omega
  rw [writeShortID,low,high,List.append_assoc,readShortID,
    Decoder.bind_apply_of_some (readLittleEndian_encode (by simpa using Nat.mod_lt shorttxid (by decide)) _),
    Decoder.bind_apply_of_some (readLittleEndian_encode (by simp; omega) _),Decoder.pure_apply,
    ← Nat.shiftLeft_add_eq_or_of_lt (Nat.mod_lt shorttxid (by decide)),Nat.shiftLeft_eq]
  congr
  omega

theorem GetShortID_lt (crypto : Crypto) (sipHash : Nat → Nat → uint256 → Nat) (cmpctblock : CBlockHeaderAndShortTxIDs)
    (txhash : uint256) : cmpctblock.GetShortID crypto sipHash txhash < 2 ^ 48 := by
  unfold GetShortID
  exact Nat.and_lt_two_pow _ (by decide)

/-- The message built from a block whose fields fit the wire is read back,
with the coinbase as a transaction is read: its hash recomputed and its
witnesses resized. -/
theorem ofBlock_read_back (crypto : Crypto) (sipHash : Nat → Nat → uint256 → Nat) {block : CBlock}
    {coinbase : CTransaction} {rest : List CTransaction} (vtx : block.vtx = coinbase :: rest) {nonce : Nat}
    (nonceFits : nonce < 2 ^ 64) (headerFits : block.header.FitsStream) (sized : coinbase.wit.length ≤ coinbase.vin.length)
    (fits : coinbase.Fits) (unambiguous : coinbase.vin ≠ [] ∨ coinbase.wit.all CScriptWitness.IsNull = false)
    (count : rest.length ≤ MAX_SIZE) (after : List UInt8) :
    ∃ cmpctblock bytes hashed, ofBlock crypto sipHash block nonce = .ok cmpctblock ∧ cmpctblock.Serialize = .ok bytes ∧
      SerializeTransaction coinbase true = .ok hashed ∧
      Unserialize crypto (bytes ++ after) = .ok (some ({cmpctblock with
        prefilledtxn := [⟨0,{coinbase with hash := crypto.Hash256 hashed,wit := coinbase.readWitness}⟩]},after)) := by
  obtain ⟨txBytes,hashed,written,hashedWrite,txRead⟩ := CTransaction.Unserialize_Serialize crypto sized fits unambiguous after
  let keyed : CBlockHeaderAndShortTxIDs := ⟨nonce,[],[⟨0,coinbase⟩],block.header⟩
  let shorttxids := rest.map fun tx => keyed.GetShortID crypto sipHash tx.GetHash
  have built : ofBlock crypto sipHash block nonce = .ok {keyed with shorttxids} := by
    rw [ofBlock,vtx]
  have serialized : ({keyed with shorttxids} : CBlockHeaderAndShortTxIDs).Serialize =
      .ok (block.header.Serialize SER_NETWORK ++ LittleEndian.encode 8 nonce ++ WriteCompactSize shorttxids.length ++
        (shorttxids.map writeShortID).flatten ++ WriteCompactSize 1 ++ (WriteCompactSize 0 ++ txBytes)) := by
    simp [Serialize,keyed,PrefilledTransaction.Serialize,written]
  -- the short IDs are six bytes wide
  have shortRead := readShortID_writeShortID.replicate (n := shorttxids.length) shorttxids
    ⟨rfl,fun _ mem => by
      obtain ⟨tx,-,rfl⟩ := List.mem_map.mp mem
      exact GetShortID_lt crypto sipHash keyed tx.GetHash⟩
    (WriteCompactSize 1 ++ (WriteCompactSize 0 ++ txBytes) ++ after)
  have prefilledRead : ReadVector (PrefilledTransaction.Unserialize crypto)
      (WriteCompactSize 1 ++ (WriteCompactSize 0 ++ txBytes) ++ after) =
        .ok (some ([⟨0,{coinbase with hash := crypto.Hash256 hashed,wit := coinbase.readWitness}⟩],after)) := by
    rw [List.append_assoc,List.append_assoc,ReadVector,
      Decoder.bind_apply_of_some (ReadCompactSize_WriteCompactSize 1 (by decide) _)]
    simp only [Decoder.replicate]
    rw [Decoder.bind,PrefilledTransaction.Unserialize,Decoder.bind_apply_of_some
      (ReadCompactSize_WriteCompactSize 0 (by decide) _),Decoder.ite_apply,if_neg (by decide),
      Decoder.bind_apply_of_some txRead]
    rfl
  refine ⟨_,_,hashed,built,serialized,hashedWrite,?_⟩
  have input : block.header.Serialize SER_NETWORK ++ LittleEndian.encode 8 nonce ++ WriteCompactSize shorttxids.length ++
      (shorttxids.map writeShortID).flatten ++ WriteCompactSize 1 ++ (WriteCompactSize 0 ++ txBytes) ++ after =
      block.header.Serialize SER_NETWORK ++ (LittleEndian.encode 8 nonce ++ (WriteCompactSize shorttxids.length ++
        ((shorttxids.map writeShortID).flatten ++ (WriteCompactSize 1 ++ (WriteCompactSize 0 ++ txBytes) ++ after)))) := by
    simp only [List.append_assoc]
  rw [input,Unserialize,Decoder.bind_apply_of_some (CBlockHeader.Unserialize_Serialize _ headerFits _),
    Decoder.bind_apply_of_some (readLittleEndian_encode (by simpa using nonceFits) _),
    Decoder.bind_apply_of_some (ReadCompactSize_WriteCompactSize _ (by simpa [shorttxids] using count) _),
    Decoder.bind_apply_of_some shortRead,Decoder.bind_apply_of_some prefilledRead]
  rfl

end CBlockHeaderAndShortTxIDs

namespace BlockTransactionsRequest

/-- The writer's loop: each position less one past the one before (0 for the
first), an `int` converted to `uint64_t`. -/
def writeDifferences (offset : Int) : List Nat → List UInt8
  | [] => []
  | index :: rest => WriteCompactSize ((index - offset) % 2 ^ 64).toNat ++ writeDifferences (index + 1) rest

def Serialize (request : BlockTransactionsRequest) : List UInt8 :=
  request.blockhash.bytes ++ WriteCompactSize request.indexes.length ++ writeDifferences 0 request.indexes

/-- One difference of the first loop: "index overflowed 16 bits" above 65535. -/
def readDifference : Decoder Nat := do
  let index ← ReadCompactSize
  if 0xffff < index then Decoder.fail else pure index

/-- The reader's second loop: "indexes overflowed 16 bits" where a position
passes 65535, and the `uint16_t` offset set to one past the position. -/
def addOffsets (offset : Nat) : List Nat → Option (List Nat)
  | [] => some []
  | index :: rest =>
    if 0xffff < index + offset then none
    else (addOffsets ((index + offset + 1) % 2 ^ 16) rest).map ((index + offset) :: ·)

def Unserialize : Decoder BlockTransactionsRequest := do
  let blockhash ← readBlob 32
  let indexes_size ← ReadCompactSize
  let differences ← Decoder.replicate readDifference indexes_size
  match addOffsets 0 differences with
  | some indexes => pure ⟨blockhash,indexes⟩
  | none => Decoder.fail

/-! ## Differences and positions -/

/-- Positions of 16 bits from `offset` on, strictly increasing. -/
def Increasing (offset : Nat) : List Nat → Prop
  | [] => True
  | index :: rest => offset ≤ index ∧ index ≤ 0xffff ∧ Increasing (index + 1) rest

/-- The differences the writer means: each position less one past the one
before. -/
def gaps (offset : Nat) : List Nat → List Nat
  | [] => []
  | index :: rest => (index - offset) :: gaps (index + 1) rest

section Differences

variable {offset : Nat} {indexes : List Nat}

theorem increasing_iff : ∀ {offset : Nat} {indexes : List Nat},
    Increasing offset indexes ↔ indexes.Pairwise (· < ·) ∧ ∀ index ∈ indexes, offset ≤ index ∧ index ≤ 0xffff
  | _, [] => by simp [Increasing]
  | offset, index :: rest => by
    simp only [Increasing,increasing_iff,List.pairwise_cons,List.mem_cons,forall_eq_or_imp]
    constructor
    · rintro ⟨low,fits,sorted,above⟩
      exact ⟨⟨fun other mem => (above other mem).1,sorted⟩,⟨low,fits⟩,fun other mem => ⟨by have := (above other mem).1; omega,(above other mem).2⟩⟩
    · rintro ⟨⟨above,sorted⟩,⟨low,fits⟩,bounded⟩
      exact ⟨low,fits,sorted,fun other mem => ⟨above other mem,(bounded other mem).2⟩⟩

theorem length_add_le (increasing : Increasing offset indexes) : indexes.length + min offset 0x10000 ≤ 0x10000 := by
  induction indexes generalizing offset with
  | nil => simp
  | cons index rest induct =>
    obtain ⟨low,fits,increasing⟩ := increasing
    have := induct increasing
    simp only [List.length_cons]
    omega

theorem writeDifferences_gaps (increasing : Increasing offset indexes) :
    writeDifferences offset indexes = ((gaps offset indexes).map WriteCompactSize).flatten := by
  induction indexes generalizing offset with
  | nil => rfl
  | cons index rest induct =>
    obtain ⟨low,fits,increasing⟩ := increasing
    -- the `int` difference is not negative and fits `uint64_t`
    have difference : (((index : Int) - offset) % 2 ^ 64).toNat = index - offset := by
      rw [Int.emod_eq_of_lt (by omega) (by omega)]
      omega
    rw [writeDifferences,difference,gaps,List.map_cons,List.flatten_cons,← induct increasing]
    push_cast
    rfl

theorem gaps_bounded (increasing : Increasing offset indexes) :
    (gaps offset indexes).length = indexes.length ∧ ∀ gap ∈ gaps offset indexes, gap ≤ 0xffff := by
  induction indexes generalizing offset with
  | nil => simp [gaps]
  | cons index rest induct =>
    obtain ⟨low,fits,increasing⟩ := increasing
    obtain ⟨length,bounded⟩ := induct increasing
    refine ⟨by simp [gaps,length],?_⟩
    simp only [gaps,List.mem_cons,forall_eq_or_imp]
    exact ⟨by omega,bounded⟩

/-- Adding the differences up gives the positions back: the offset one past
a position below the last stays below 65536. -/
theorem addOffsets_gaps (increasing : Increasing offset indexes) :
    addOffsets offset (gaps offset indexes) = some indexes := by
  induction indexes generalizing offset with
  | nil => rfl
  | cons index rest induct =>
    obtain ⟨low,fits,increasing⟩ := increasing
    rw [gaps,addOffsets,if_neg (by omega),Nat.sub_add_cancel low]
    cases rest with
    | nil => rfl
    | cons next rest =>
      have next_fits : index + 1 < 2 ^ 16 := by have := increasing.2.1; have := increasing.1; omega
      rw [Nat.mod_eq_of_lt next_fits,induct increasing]
      rfl

theorem addOffsets_bounded : ∀ {offset : Nat} {differences positions : List Nat},
    addOffsets offset differences = some positions →
      positions.length = differences.length ∧ ∀ position ∈ positions, position ≤ 0xffff
  | _, [], _, added => by
    cases added
    simp
  | offset, index :: rest, positions, added => by
    rw [addOffsets] at added
    split at added
    · cases added
    · rename_i fits
      obtain ⟨tail,inner,rfl⟩ := Option.map_eq_some_iff.mp added
      obtain ⟨length,bounded⟩ := addOffsets_bounded inner
      refine ⟨by simp [length],?_⟩
      simp only [List.mem_cons,forall_eq_or_imp]
      exact ⟨by omega,bounded⟩

/-- Differences added up to a strictly increasing list are that list's
differences: a wrap of the offset can only follow the last position. -/
theorem gaps_of_addOffsets : ∀ {offset : Nat} {differences positions : List Nat},
    addOffsets offset differences = some positions → positions.Pairwise (· < ·) →
      Increasing offset positions ∧ differences = gaps offset positions
  | _, [], _, added, _ => by
    cases added
    exact ⟨trivial,rfl⟩
  | offset, index :: rest, positions, added, sorted => by
    rw [addOffsets] at added
    split at added
    · cases added
    · rename_i fits
      obtain ⟨tail,inner,rfl⟩ := Option.map_eq_some_iff.mp added
      obtain ⟨above,sorted⟩ := List.pairwise_cons.mp sorted
      obtain ⟨length,bounded⟩ := addOffsets_bounded inner
      cases tail with
      | nil =>
        cases rest with
        | nil => exact ⟨⟨by omega,by omega,trivial⟩,by simp [gaps]⟩
        | cons _ _ => simp at length
      | cons next tail =>
        -- the next position is above this one and of 16 bits: no wrap
        have no_wrap : index + offset + 1 < 2 ^ 16 := by
          have := above next (by simp)
          have := bounded next (by simp)
          omega
        rw [Nat.mod_eq_of_lt no_wrap] at inner
        obtain ⟨increasing,rfl⟩ := gaps_of_addOffsets inner sorted
        exact ⟨⟨by omega,by omega,increasing⟩,by simp [gaps]⟩

end Differences

/-! ## Reading back -/

theorem readDifference_roundTrip : Decoder.RoundTrip readDifference WriteCompactSize (· ≤ 0xffff) := by
  intro index fits rest
  rw [readDifference,Decoder.bind_apply_of_some (ReadCompactSize_WriteCompactSize index (by unfold MAX_SIZE; omega) rest)]
  simp [Nat.not_lt.mpr fits]

theorem readDifference_canonical : Decoder.Canonical readDifference WriteCompactSize := by
  intro input index rest read
  obtain ⟨value,middle,sizeRead,checked⟩ := Decoder.bind_some read
  split at checked
  · cases checked
  · obtain ⟨same,left⟩ := Decoder.pure_some checked
    subst same left
    exact ReadCompactSize_canonical input _ _ sizeRead

/-- A request of strictly increasing 16-bit positions is read back. -/
theorem Unserialize_Serialize {request : BlockTransactionsRequest} (sorted : request.indexes.Pairwise (· < ·))
    (fits : ∀ index ∈ request.indexes, index < 2 ^ 16) (rest : List UInt8) :
    Unserialize (request.Serialize ++ rest) = .ok (some (request,rest)) := by
  have increasing : Increasing 0 request.indexes :=
    increasing_iff.mpr ⟨sorted,fun index mem => ⟨Nat.zero_le _,by have := fits index mem; omega⟩⟩
  have bounded : request.indexes.length ≤ MAX_SIZE := by
    have := length_add_le increasing
    unfold MAX_SIZE
    omega
  obtain ⟨length,gapsFit⟩ := gaps_bounded increasing
  have differences := (readDifference_roundTrip.replicate (n := request.indexes.length)) (gaps 0 request.indexes)
    ⟨length,gapsFit⟩ rest
  have written : writeDifferences 0 request.indexes = ((gaps 0 request.indexes).map WriteCompactSize).flatten :=
    writeDifferences_gaps increasing
  rw [Serialize,written,List.append_assoc,List.append_assoc,Unserialize,
    Decoder.bind_apply_of_some (readBlob_bytes _ _),
    Decoder.bind_apply_of_some (ReadCompactSize_WriteCompactSize _ bounded _),
    Decoder.bind_apply_of_some differences,addOffsets_gaps increasing]
  rfl

/-- A strictly increasing request that the reader returns is written back to
the bytes it read. -/
theorem Unserialize_canonical {input rest : List UInt8} {request : BlockTransactionsRequest}
    (read : Unserialize input = .ok (some (request,rest))) (sorted : request.indexes.Pairwise (· < ·)) :
    input = request.Serialize ++ rest := by
  obtain ⟨blockhash,afterHash,hashRead,sizeRead⟩ := Decoder.bind_some read
  obtain ⟨indexes_size,afterSize,countRead,differencesRead⟩ := Decoder.bind_some sizeRead
  obtain ⟨differences,after,replicated,added⟩ := Decoder.bind_some differencesRead
  rcases summed : addOffsets 0 differences with _ | positions
  · simp only [summed] at added
    cases added
  · simp only [summed] at added
    obtain ⟨same,left⟩ := Decoder.pure_some added
    subst same left
    obtain ⟨increasing,rfl⟩ := gaps_of_addOffsets summed sorted
    obtain ⟨count,differencesInput⟩ := readDifference_canonical.replicate indexes_size afterSize _ _ replicated
    have length := (gaps_bounded increasing).1
    have written : writeDifferences 0 positions = ((gaps 0 positions).map WriteCompactSize).flatten :=
      writeDifferences_gaps increasing
    rw [readBlob_canonical 32 input blockhash afterHash hashRead,ReadCompactSize_canonical _ _ _ countRead,
      differencesInput,Serialize,written,← count,length]
    simp

/-- A request for the positions 65535 and 0 as the writer would never send it:
the differences 65535 and 0. -/
def wrappedInput : List UInt8 := (Blob.null 32).bytes ++ [2,0xfd,0xff,0xff,0]

/-- Strictly increasing requests are read back and are the only ones read
from their encodings; but after the position 65535 the `uint16_t` offset
wraps to 0, and the reader returns the positions 65535 and 0, which the writer
writes as other bytes. -/
theorem wrapped_request_not_written_back :
    (∀ request : BlockTransactionsRequest, request.indexes.Pairwise (· < ·) →
      (∀ index ∈ request.indexes, index < 2 ^ 16) → ∀ rest, Unserialize (request.Serialize ++ rest) = .ok (some (request,rest))) ∧
    (∀ input rest (request : BlockTransactionsRequest), Unserialize input = .ok (some (request,rest)) →
      request.indexes.Pairwise (· < ·) → input = request.Serialize ++ rest) ∧
    Unserialize wrappedInput = .ok (some (⟨Blob.null 32,[65535,0]⟩,[])) ∧ ¬[65535,0].Pairwise (· < ·) ∧
      (⟨Blob.null 32,[65535,0]⟩ : BlockTransactionsRequest).Serialize ≠ wrappedInput :=
  ⟨fun _ sorted fits rest => Unserialize_Serialize sorted fits rest,
    fun _ _ _ read sorted => Unserialize_canonical read sorted,by decide,by decide,by decide⟩

end BlockTransactionsRequest

end Qtum
