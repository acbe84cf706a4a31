import Qtum.Primitives.TxSerialize

/-! Blocks as `primitives/block.h` defines them. Qtum appends the block
signature and three proof-of-stake fields to the header, and the hash leaves
them out (`SER_GETHASH`). The stake fields are read through virtual methods:
a bare header answers from its fields, a block with transactions from its
second transaction. The header commits to the transactions through the
merkle root of `consensus/merkle.cpp`. -/
namespace Qtum

open Script

def SER_NETWORK : Nat := 1 <<< 0
def SER_DISK : Nat := 1 <<< 1
def SER_GETHASH : Nat := 1 <<< 2

structure CBlockHeader where
  nVersion : Int
  hashPrevBlock : uint256
  hashMerkleRoot : uint256
  nTime : Nat
  nBits : Nat
  nNonce : Nat
  vchBlockSig : valtype
  fStake : Bool
  prevoutStake : COutPoint
  nStakeTime : Nat
  hashStateRoot : uint256
  hashUTXORoot : uint256
  deriving DecidableEq

/-- What the virtual methods `IsProofOfStake`, `PrevoutStake` and `StakeTime`
return on the object being serialized. -/
structure StakeFields where
  fStake : Bool
  prevoutStake : COutPoint
  nStakeTime : Nat
  deriving DecidableEq

namespace CBlockHeader

def stake (header : CBlockHeader) : StakeFields := ⟨header.fStake,header.prevoutStake,header.nStakeTime⟩

def IsProofOfStake (header : CBlockHeader) : Bool := header.fStake

def IsProofOfWork (header : CBlockHeader) : Bool := !header.IsProofOfStake

def GetBlockTime (header : CBlockHeader) : Int := header.nTime

/-- `SerializationOp` of `CBlockHeader` on an object whose virtual methods
return `stake`: outside `SER_GETHASH` the signature and the stake fields
stand between the nonce and the state roots. -/
def serializeWith (header : CBlockHeader) (stake : StakeFields) (nType : Nat) : List UInt8 :=
  LittleEndian.encode 4 (toUnsigned 32 header.nVersion) ++ header.hashPrevBlock.bytes ++
    header.hashMerkleRoot.bytes ++ LittleEndian.encode 4 header.nTime ++ LittleEndian.encode 4 header.nBits ++
    LittleEndian.encode 4 header.nNonce ++
    (if nType &&& SER_GETHASH = 0 then
      WriteVector (fun byte => [byte]) header.vchBlockSig ++ [if stake.fStake then 1 else 0] ++
        stake.prevoutStake.Serialize ++ LittleEndian.encode 4 stake.nStakeTime
    else []) ++
    header.hashStateRoot.bytes ++ header.hashUTXORoot.bytes

def Serialize (header : CBlockHeader) (nType : Nat) : List UInt8 := header.serializeWith header.stake nType

/-- `CBlockHeader::GetHash`, `SerializeHash(*this)`. -/
def GetHash (crypto : Crypto) (header : CBlockHeader) : uint256 := crypto.Hash256 (header.Serialize SER_GETHASH)

/-- The size of a header does not depend on the hashes it holds. -/
theorem serializeWith_length (header : CBlockHeader) (stake : StakeFields) (nType : Nat) :
    (header.serializeWith stake nType).length =
      144 + if nType &&& SER_GETHASH = 0 then (WriteVector (fun byte => [byte]) header.vchBlockSig).length + 41 else 0 := by
  unfold serializeWith
  split
  · simp only [List.length_append,LittleEndian.length_encode,Blob.length,COutPoint.Serialize,List.length_cons,
      List.length_nil]
    omega
  · simp [Blob.length]

/-- The hash serialization reads neither the signature nor the stake
fields, of the header or of the object. -/
theorem serializeWith_gethash_uncommitted (header : CBlockHeader) (vchBlockSig : valtype) (fStake : Bool)
    (prevoutStake : COutPoint) (nStakeTime : Nat) (stake other : StakeFields) :
    {header with vchBlockSig,fStake,prevoutStake,nStakeTime}.serializeWith stake SER_GETHASH =
      header.serializeWith other SER_GETHASH := by
  simp [serializeWith,SER_GETHASH]

/-- The hash serialization does not read the stake fields. -/
theorem serializeWith_gethash (header : CBlockHeader) (stake other : StakeFields) :
    header.serializeWith stake SER_GETHASH = header.serializeWith other SER_GETHASH :=
  serializeWith_gethash_uncommitted header header.vchBlockSig header.fStake header.prevoutStake header.nStakeTime
    stake other

/-- The fields fit their types in `CBlockHeader`: `int32_t` for the version,
`uint32_t` for the time and the target. -/
def FitsWire (header : CBlockHeader) : Prop :=
  -2 ^ 31 ≤ header.nVersion ∧ header.nVersion < 2 ^ 31 ∧ header.nTime < 2 ^ 32 ∧ header.nBits < 2 ^ 32

instance (header : CBlockHeader) : Decidable header.FitsWire := inferInstanceAs (Decidable (_ ∧ _ ∧ _ ∧ _))

/-- Two equal little-endian words of four bytes encode one value modulo `2^32`. -/
theorem encode_four_eq {m n : Nat} (same : LittleEndian.encode 4 m = LittleEndian.encode 4 n) :
    m % 2 ^ 32 = n % 2 ^ 32 := by
  have values := congrArg LittleEndian.decode same
  rwa [LittleEndian.decode_encode,LittleEndian.decode_encode] at values

/-- What the hash serialization determines: the two hashes the header chains
by and, modulo their widths, the version, the time and the target. -/
theorem serializeWith_gethash_fields {first second : CBlockHeader} {stake other : StakeFields}
    (same : first.serializeWith stake SER_GETHASH = second.serializeWith other SER_GETHASH) :
    toUnsigned 32 first.nVersion % 2 ^ 32 = toUnsigned 32 second.nVersion % 2 ^ 32 ∧
      first.hashPrevBlock = second.hashPrevBlock ∧ first.hashMerkleRoot = second.hashMerkleRoot ∧
      first.nTime % 2 ^ 32 = second.nTime % 2 ^ 32 ∧ first.nBits % 2 ^ 32 = second.nBits % 2 ^ 32 := by
  have hashed : SER_GETHASH &&& SER_GETHASH ≠ 0 := by decide
  simp only [serializeWith,if_neg hashed,List.append_nil] at same
  -- the pieces have fixed widths: peel them off from the end
  obtain ⟨same,-⟩ := List.append_inj' same (by simp [Blob.length])
  obtain ⟨same,-⟩ := List.append_inj' same (by simp [Blob.length])
  obtain ⟨same,-⟩ := List.append_inj' same (by simp)
  obtain ⟨same,bits⟩ := List.append_inj' same (by simp)
  obtain ⟨same,time⟩ := List.append_inj' same (by simp)
  obtain ⟨same,merkle⟩ := List.append_inj' same (by simp [Blob.length])
  obtain ⟨version,previous⟩ := List.append_inj' same (by simp [Blob.length])
  exact ⟨encode_four_eq version,Blob.bytes_injective previous,Blob.bytes_injective merkle,encode_four_eq time,
    encode_four_eq bits⟩

/-- Headers whose fields fit their types and whose hash serializations agree
have one version, one time and one target. -/
theorem committed_of_serialize_gethash {first second : CBlockHeader} (fitsFirst : first.FitsWire)
    (fitsSecond : second.FitsWire) (same : first.Serialize SER_GETHASH = second.Serialize SER_GETHASH) :
    first.nVersion = second.nVersion ∧ first.nTime = second.nTime ∧ first.nBits = second.nBits := by
  obtain ⟨version,-,-,time,bits⟩ := serializeWith_gethash_fields same
  obtain ⟨lowFirst,highFirst,timeFirst,bitsFirst⟩ := fitsFirst
  obtain ⟨lowSecond,highSecond,timeSecond,bitsSecond⟩ := fitsSecond
  simp only [toUnsigned] at version
  refine ⟨?_,?_,?_⟩ <;> omega

end CBlockHeader

structure CBlock where
  header : CBlockHeader
  vtx : List CTransaction
  deriving DecidableEq

namespace CBlock

/-- `CBlock::IsProofOfStake`: without transactions the header's flag,
otherwise whether the second transaction is a coin stake. -/
def IsProofOfStake (block : CBlock) : Bool :=
  match block.vtx with
  | [] => block.header.fStake
  | [_] => false
  | _ :: second :: _ => second.IsCoinStake

def IsProofOfWork (block : CBlock) : Bool := !block.IsProofOfStake

/-- `CBlock::PrevoutStake`: the outpoint the coin stake spends first, or a
null `COutPoint()` (hash zero, index `(uint32_t)-1`). -/
def PrevoutStake (block : CBlock) : COutPoint :=
  match block.vtx with
  | [] => block.header.prevoutStake
  | _ :: second :: _ =>
    if block.IsProofOfStake then (second.vin.head?.map (·.prevout)).getD COutPoint.null else COutPoint.null
  | _ => COutPoint.null

def StakeTime (block : CBlock) : Nat :=
  match block.vtx with
  | [] => block.header.nStakeTime
  | _ :: second :: _ => if block.IsProofOfStake then second.nTime else 0
  | _ => 0

def stake (block : CBlock) : StakeFields := ⟨block.IsProofOfStake,block.PrevoutStake,block.StakeTime⟩

/-- `CBlock::GetBlockHeader`: the fields, with the stake fields as the
block's virtual methods return them. -/
def GetBlockHeader (block : CBlock) : CBlockHeader :=
  {block.header with fStake := block.IsProofOfStake,prevoutStake := block.PrevoutStake,nStakeTime := block.StakeTime}

/-- `GetHash` on a block: the header part serialized for the hash. -/
def GetHash (crypto : Crypto) (block : CBlock) : uint256 :=
  crypto.Hash256 (block.header.serializeWith block.stake SER_GETHASH)

/-- The block's serialization: the header, then its transactions as a vector. -/
def Serialize (block : CBlock) (nType : Nat) (noWitness : Bool) : Except Abort (List UInt8) := do
  let txs ← block.vtx.mapM (SerializeTransaction · noWitness)
  return block.header.serializeWith block.stake nType ++ WriteCompactSize block.vtx.length ++ txs.flatten

theorem Serialize_of_mapM {block : CBlock} {nType : Nat} {noWitness : Bool} {txs : List (List UInt8)}
    (serialized : block.vtx.mapM (SerializeTransaction · noWitness) = .ok txs) :
    block.Serialize nType noWitness =
      .ok (block.header.serializeWith block.stake nType ++ WriteCompactSize block.vtx.length ++ txs.flatten) := by
  rw [Serialize,serialized]
  rfl

/-- A block and its header have one hash. -/
theorem GetHash_header (crypto : Crypto) (block : CBlock) : block.GetHash crypto = block.header.GetHash crypto := by
  rw [GetHash,CBlockHeader.GetHash,CBlockHeader.Serialize,CBlockHeader.serializeWith_gethash]

end CBlock

/-! ## The merkle root -/

/-- `inner[level] = h`. -/
def setInner (inner : Nat → uint256) (level : Nat) (h : uint256) : Nat → uint256 :=
  fun other => if other = level then h else inner other

/-- The level loop of `MerkleComputation` after `count` leaves: while the
bit of `count` at `level` is clear, `h` completes the subtree stored at
`inner[level]`, and an equal pair marks the list as mutated. -/
def mergeLevels (crypto : Crypto) (count : Nat) (inner : Nat → uint256) :
    Nat → Nat → uint256 → Bool → (Nat → uint256) × Bool
  | 0,level,h,mutated => (setInner inner level h,mutated)
  | fuel + 1,level,h,mutated =>
    if count &&& (1 <<< level) = 0 then
      mergeLevels crypto count inner fuel (level + 1) (crypto.Hash256 ((inner level).bytes ++ h.bytes))
        (mutated || decide (inner level = h))
    else (setInner inner level h,mutated)

/-- The loop over the leaves: the count, the stored subtrees and the flag. -/
def mergeLeaves (crypto : Crypto) :
    Nat → (Nat → uint256) → Bool → List uint256 → Nat × (Nat → uint256) × Bool
  | count,inner,mutated,[] => (count,inner,mutated)
  | count,inner,mutated,h :: rest =>
    let (inner,mutated) := mergeLevels crypto (count + 1) inner 32 0 h mutated
    mergeLeaves crypto (count + 1) inner mutated rest

/-- The lowest level whose bit is set in `count`. -/
def lowestLevel (count : Nat) : Nat → Nat → Nat
  | 0,level => level
  | fuel + 1,level => if count &&& (1 <<< level) = 0 then lowestLevel count fuel (level + 1) else level

/-- The inner loop of the final phase: `h` is hashed behind the stored
subtrees of the levels whose bit is clear. -/
def climbLevels (crypto : Crypto) (inner : Nat → uint256) (count : Nat) : Nat → Nat → uint256 → Nat × uint256
  | 0,level,h => (level,h)
  | fuel + 1,level,h =>
    if count &&& (1 <<< level) = 0 then
      climbLevels crypto inner count fuel (level + 1) (crypto.Hash256 ((inner level).bytes ++ h.bytes))
    else (level,h)

/-- The final phase: the last subtree is hashed with itself until the count
is a power of two. -/
def finishLevels (crypto : Crypto) (inner : Nat → uint256) : Nat → Nat → Nat → uint256 → uint256
  | 0,_,_,h => h
  | fuel + 1,count,level,h =>
    if count = 1 <<< level then h
    else
      let count := count + (1 <<< level)
      let (level,h) := climbLevels crypto inner count 32 (level + 1) (crypto.Hash256 (h.bytes ++ h.bytes))
      finishLevels crypto inner fuel count level h

/-- `ComputeMerkleRoot`, the constant-space `MerkleComputation` for at most
`2^32` leaves: the root and whether two equal hashes were paired. -/
def ComputeMerkleRoot (crypto : Crypto) (leaves : List uint256) : uint256 × Bool :=
  if leaves = [] then (Blob.null 32,false)
  else
    let (count,inner,mutated) := mergeLeaves crypto 0 (fun _ => Blob.null 32) false leaves
    let level := lowestLevel count 32 0
    (finishLevels crypto inner 32 count level (inner level),mutated)

def BlockMerkleRoot (crypto : Crypto) (block : CBlock) : uint256 × Bool :=
  ComputeMerkleRoot crypto (block.vtx.map CTransaction.GetHash)

end Qtum
