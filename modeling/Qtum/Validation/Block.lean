import Qtum.Validation.Inputs
import Qtum.Primitives.Block
import Qtum.Arith.Compact

/-! The checks of a block before its transactions are connected:
`CheckProofOfWork` of `pow.cpp`, and `CheckBlockHeader`,
`ContextualCheckBlockHeader`, `CheckBlockSignature`, `CheckBlock` and
`ContextualCheckBlock` of `main.cpp`. Qtum checks the proof of work only of
what the virtual `IsProofOfWork` calls a proof-of-work block, restricts the
coin stake to the second transaction only in a proof-of-stake block, and
signs proof-of-stake blocks with the key of the coin stake's second output.
Each check is a sequence of named stages. -/
namespace Qtum

open Script

structure ConsensusParams where
  powLimit : uint256
  hashGenesisBlock : uint256

/-- What the contextual checks read of the previous block's index and of the
chain behind it. -/
structure PrevIndex where
  nHeight : Int
  hashBlock : uint256
  /-- `GetMedianTimePast()`. -/
  medianTimePast : Int
  /-- `GetAncestor(nHeight)->GetMedianTimePast()`. -/
  ancestorMedianTimePast : Int → Int
  /-- `GetNextTargetRequired(pindexPrev, fProofOfStake)`. -/
  nextTarget : Bool → Nat
  /-- `IsSuperMajority(minVersion, pindexPrev, nMajorityEnforceBlockUpgrade)`. -/
  enforceUpgrade : Int → Bool
  /-- `IsSuperMajority(minVersion, pindexPrev, nMajorityRejectBlockOutdated)`. -/
  rejectOutdated : Int → Bool
  /-- The `DEPLOYMENT_CSV` deployment is active. -/
  csvActive : Bool
  /-- `IsWitnessEnabled(pindexPrev)`. -/
  witnessEnabled : Bool
  hashStateRoot : uint256
  hashUTXORoot : uint256

/-- A stage that runs only when its flag is set. -/
def checkIf (flag : Bool) (check : Validation Unit) : Validation Unit := if flag then check else .ok ()

@[simp] theorem checkIf_false (check : Validation Unit) : checkIf false check = .ok () := rfl

@[simp] theorem checkIf_true (check : Validation Unit) : checkIf true check = check := rfl

/-! ## Proof of work -/

/-- `UintToArith256`: the bytes as a little-endian number. -/
def UintToArith256 (hash : uint256) : Nat := LittleEndian.decode hash.bytes

/-- `CheckProofOfWork(uint256 hash, unsigned int nBits, params)`: the header's
`nBits` is passed as an `unsigned int`. -/
def CheckProofOfWork (hash : uint256) (nBits : Nat) (params : ConsensusParams) : Bool :=
  let (bnTarget,fNegative,fOverflow) := arith_uint256.SetCompact (UInt32.ofNat nBits)
  !(fNegative || bnTarget.val = 0 || fOverflow || UintToArith256 params.powLimit < bnTarget.val) &&
    UintToArith256 hash ≤ bnTarget.val

/-- `CheckBlockHeader` on an object with the header fields `header` whose
virtual `IsProofOfStake` returns `fProofOfStake`: a bare header answers from
its own `fStake`, a block from its transactions. -/
def CheckBlockHeader (crypto : Crypto) (params : ConsensusParams) (header : CBlockHeader) (fProofOfStake : Bool)
    (fCheckPOW : Bool) : Validation Unit :=
  if fCheckPOW && !fProofOfStake && !CheckProofOfWork (header.GetHash crypto) header.nBits params then
    DoS 50 REJECT_INVALID "high-hash" false
  else .ok ()

/-- The `strprintf("bad-version(0x%08x)", version - 1)` of the three upgrades. -/
def badVersion (version : Int) : String := "bad-version(0x0000000" ++ toString (version - 1) ++ ")"

/-- The rejection of outdated versions 1 to 3. -/
def checkOutdated (nVersion : Int) (prev : PrevIndex) : List Int → Validation Unit
  | [] => .ok ()
  | version :: rest =>
    if nVersion < version && prev.rejectOutdated version then Invalid REJECT_OBSOLETE (badVersion version)
    else checkOutdated nVersion prev rest

/-- `ContextualCheckBlockHeader` on an object whose virtual `IsProofOfStake`
returns `fProofOfStake`. -/
def ContextualCheckBlockHeader (header : CBlockHeader) (fProofOfStake : Bool) (prev : PrevIndex)
    (nAdjustedTime : Int) : Validation Unit :=
  if header.nBits ≠ prev.nextTarget fProofOfStake then DoS 100 REJECT_INVALID "bad-diffbits" false
  else if header.GetBlockTime ≤ prev.medianTimePast then Invalid REJECT_INVALID "time-too-old"
  else if nAdjustedTime + 2 * 60 * 60 < header.GetBlockTime then Invalid REJECT_INVALID "time-too-new"
  else checkOutdated header.nVersion prev [2,3,4]

/-- A header that passes the contextual checks carries the target asked of it
and is later than the median time past of its parent. -/
theorem ContextualCheckBlockHeader_ok {header : CBlockHeader} {fProofOfStake : Bool} {prev : PrevIndex}
    {nAdjustedTime : Int} (passed : ContextualCheckBlockHeader header fProofOfStake prev nAdjustedTime = .ok ()) :
    header.nBits = prev.nextTarget fProofOfStake ∧ prev.medianTimePast < header.GetBlockTime := by
  unfold ContextualCheckBlockHeader at passed
  split_ifs at passed with bits old
  · cases passed
  · cases passed
  all_goals exact ⟨not_not.mp bits,Int.lt_of_not_ge old⟩

/-! ## `CheckBlock` -/

/-- The key of a proof-of-stake block's signature in an `OP_RETURN` output:
the push right after the `OP_RETURN`. -/
def returnedPubKey (script : CScript) : Option valtype :=
  match getOp script 0 with
  | some op =>
    if op.opcode ≠ OP_RETURN then none
    else match getOp script op.next with
      | some key => if IsCompressedOrUncompressedPubKey key.push then some key.push else none
      | none => none
  | none => none

/-- `CheckBlockSignature`; `verify` is `CPubKey(vchPubKey).Verify(hash, vchSig)`.
Only a proof-of-stake block reads `vtx[1].vout[1]`, which its coin stake has. -/
def CheckBlockSignature (crypto : Crypto) (verify : valtype → uint256 → valtype → Bool) (block : CBlock) : Bool :=
  let vchBlockSig := block.header.vchBlockSig
  if block.IsProofOfWork then vchBlockSig.isEmpty
  else if vchBlockSig.isEmpty then false
  else match (block.vtx[1]?).bind (·.vout[1]?) with
    | none => false
    | some txout =>
      match Solver txout.scriptPubKey with
      | none => false
      | some (.TX_PUBKEY,vSolutions) => verify vSolutions.head! (block.GetHash crypto) vchBlockSig
      | some _ =>
        match returnedPubKey txout.scriptPubKey with
        | some vchPubKey => verify vchPubKey (block.GetHash crypto) vchBlockSig
        | none => false

def checkMerkleRoot (crypto : Crypto) (block : CBlock) : Validation Unit :=
  let (hashMerkleRoot2,mutated) := BlockMerkleRoot crypto block
  if block.header.hashMerkleRoot ≠ hashMerkleRoot2 then DoS 100 REJECT_INVALID "bad-txnmrklroot" true
  else if mutated then DoS 100 REJECT_INVALID "bad-txns-duplicate" true
  else .ok ()

/-- The size limits: some transaction, at most `MAX_BLOCK_BASE_SIZE` of them
and as many bytes without witnesses. -/
def checkBlockSize (block : CBlock) : Validation Unit :=
  if block.vtx.isEmpty || MAX_BLOCK_BASE_SIZE < block.vtx.length then
    DoS 100 REJECT_INVALID "bad-blk-length" false
  else do
    let serialized ← liftAbort (block.Serialize SER_NETWORK true)
    if MAX_BLOCK_BASE_SIZE < serialized.length then DoS 100 REJECT_INVALID "bad-blk-length" false else .ok ()

/-- The first transaction is a coinbase, no other is. -/
def checkCoinBases (block : CBlock) : Validation Unit :=
  match block.vtx with
  | coinbase :: rest =>
    if !coinbase.IsCoinBase then DoS 100 REJECT_INVALID "bad-cb-missing" false
    else if rest.any CTransaction.IsCoinBase then DoS 100 REJECT_INVALID "bad-cb-multiple" false
    else .ok ()
  | [] => DoS 100 REJECT_INVALID "bad-cb-missing" false

/-- Only in a proof-of-stake block: an empty coinbase output, the coin stake
second and no other coin stake. -/
def checkCoinStakes (block : CBlock) : Validation Unit :=
  if !block.IsProofOfStake then .ok ()
  else match block.vtx with
    | coinbase :: coinstake :: rest =>
      if coinbase.vout.length ≠ 1 || !(coinbase.vout.head?.map CTxOut.IsEmpty).getD false then
        DoS 100 REJECT_INVALID "bad-cb-missing" false
      else if !coinstake.IsCoinStake then DoS 100 REJECT_INVALID "bad-cs-multiple" false
      else if rest.any CTransaction.IsCoinStake then DoS 100 REJECT_INVALID "bad-cs-multiple" false
      else .ok ()
    | _ => .ok ()

def checkTransactions : List CTransaction → Validation Unit
  | [] => .ok ()
  | tx :: rest => do
    CheckTransaction tx
    checkTransactions rest

def checkBlockSigOps (block : CBlock) : Validation Unit :=
  let nSigOps := (block.vtx.map GetLegacySigOpCount).sum
  if MAX_BLOCK_SIGOPS_COST < nSigOps * WITNESS_SCALE_FACTOR then DoS 100 REJECT_INVALID "bad-blk-sigops" false
  else .ok ()

/-- `CheckBlock(block, state, params, fCheckPOW, fCheckMerkleRoot, fCheckSig)`.
The memory-only `fChecked` flag, which skips a block checked before, is not
modelled. -/
def CheckBlock (crypto : Crypto) (params : ConsensusParams) (verify : valtype → uint256 → valtype → Bool)
    (block : CBlock) (fCheckPOW fCheckMerkleRoot fCheckSig : Bool) : Validation Unit := do
  CheckBlockHeader crypto params block.header block.IsProofOfStake fCheckPOW
  checkIf fCheckMerkleRoot (checkMerkleRoot crypto block)
  checkBlockSize block
  checkCoinBases block
  checkCoinStakes block
  checkIf (fCheckSig && !CheckBlockSignature crypto verify block)
    (DoS 100 REJECT_INVALID "bad-blk-signature" false)
  checkIf ((block.vtx.head?.map CTransaction.HasExec).getD false)
    (DoS 100 REJECT_INVALID "bad-cb-have-exec-vouts" false)
  checkTransactions block.vtx
  checkBlockSigOps block

/-! ## `ContextualCheckBlock` -/

def LOCKTIME_VERIFY_SEQUENCE : Nat := 1 <<< 0
def LOCKTIME_MEDIAN_TIME_PAST : Nat := 1 <<< 1
def LOCKTIME_THRESHOLD : Nat := 500000000

def IsFinalTx (tx : CTransaction) (nBlockHeight nBlockTime : Int) : Bool :=
  tx.nLockTime = 0 ||
    decide ((tx.nLockTime : Int) < if tx.nLockTime < LOCKTIME_THRESHOLD then nBlockHeight else nBlockTime) ||
    tx.vin.all (·.nSequence = SEQUENCE_FINAL)

/-- `CTransaction::GetWitnessHash`: the hash of the serialization with witnesses. -/
def CTransaction.GetWitnessHash (crypto : Crypto) (tx : CTransaction) : Except Abort uint256 :=
  (SerializeTransaction tx false).map crypto.Hash256

/-- The commitment output's script: `OP_RETURN`, a push of 36 bytes and the
four bytes `aa21a9ed`. -/
def IsWitnessCommitment (script : CScript) : Bool :=
  38 ≤ script.length && script[0]!.toNat == OP_RETURN && script[1]! == 0x24 && script[2]! == 0xaa &&
    script[3]! == 0x21 && script[4]! == 0xa9 && script[5]! == 0xed

/-- `GetWitnessCommitmentIndex`: the last commitment output of the coinbase. -/
def GetWitnessCommitmentIndex (block : CBlock) : Option Nat :=
  match block.vtx with
  | coinbase :: _ => ((List.range coinbase.vout.length).filter fun o =>
      (coinbase.vout[o]?.map (IsWitnessCommitment ·.scriptPubKey)).getD false).getLast?
  | [] => none

/-- `BlockWitnessMerkleRoot`: the coinbase's leaf is zero. -/
def BlockWitnessMerkleRoot (crypto : Crypto) (block : CBlock) : Except Abort (uint256 × Bool) :=
  match block.vtx with
  | [] => .error .outOfRange
  | _ :: rest => do
    let hashes ← rest.mapM (CTransaction.GetWitnessHash crypto)
    return ComputeMerkleRoot crypto (Blob.null 32 :: hashes)

/-- The witness commitment of `ContextualCheckBlock`: whether the block
commits to witness data. A commitment needs a coinbase witness of one 32-byte
nonce and the double hash of the witness root and the nonce. -/
def checkWitnessCommitment (crypto : Crypto) (block : CBlock) (witnessEnabled : Bool) : Validation Bool :=
  match witnessEnabled,GetWitnessCommitmentIndex block,block.vtx with
  | true,some commitpos,coinbase :: _ => do
    let (hashWitness,_) ← liftAbort (BlockWitnessMerkleRoot crypto block)
    match coinbase.wit with
    | [⟨[nonce]⟩] =>
      if nonce.length ≠ 32 then DoS 100 REJECT_INVALID "bad-witness-nonce-size" true
      else
        let committed := ((coinbase.vout[commitpos]?.map (·.scriptPubKey)).getD []).drop 6 |>.take 32
        if (crypto.Hash256 (hashWitness.bytes ++ nonce)).bytes ≠ committed then
          DoS 100 REJECT_INVALID "bad-witness-merkle-match" true
        else .ok true
    | _ => DoS 100 REJECT_INVALID "bad-witness-nonce-size" true
  | _,_,_ => .ok false

/-- `GetBlockWeight`: three times the size without witnesses plus the full size. -/
def GetBlockWeight (block : CBlock) : Except Abort Nat := do
  let stripped ← block.Serialize SER_NETWORK true
  let total ← block.Serialize SER_NETWORK false
  return stripped.length * (WITNESS_SCALE_FACTOR - 1) + total.length

/-- The coinbase starts with the push of the height once version 2 is
enforced. -/
def checkCoinbaseHeight (block : CBlock) (prev : PrevIndex) (nHeight : Int) : Validation Unit :=
  if 2 ≤ block.header.nVersion && prev.enforceUpgrade 2 then
    let expect := pushInt64 [] nHeight
    let scriptSig := ((block.vtx.head?.bind (·.vin.head?)).map (·.scriptSig)).getD []
    if scriptSig.length < expect.length || !expect.isPrefixOf scriptSig then
      DoS 100 REJECT_INVALID "bad-cb-height" false
    else .ok ()
  else .ok ()

def ContextualCheckBlock (crypto : Crypto) (block : CBlock) (prev : PrevIndex) : Validation Unit := do
  let nHeight := prev.nHeight + 1
  let nLockTimeCutoff := if prev.csvActive then prev.medianTimePast else block.header.GetBlockTime
  checkIf (block.vtx.any fun tx => !IsFinalTx tx nHeight nLockTimeCutoff)
    (DoS 10 REJECT_INVALID "bad-txns-nonfinal" false)
  checkCoinbaseHeight block prev nHeight
  let fHaveWitness ← checkWitnessCommitment crypto block prev.witnessEnabled
  checkIf (!fHaveWitness && block.vtx.any fun tx => !tx.wit.all CScriptWitness.IsNull)
    (DoS 100 REJECT_INVALID "unexpected-witness" true)
  let weight ← liftAbort (GetBlockWeight block)
  checkIf (MAX_BLOCK_WEIGHT < weight) (DoS 100 REJECT_INVALID "bad-blk-weight" false)

end Qtum
