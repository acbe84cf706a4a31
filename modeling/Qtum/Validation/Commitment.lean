import Qtum.Validation.Block

/-! What a block's hash commits to. Under `SER_GETHASH` the header leaves out
the block signature and the three stake fields, so blocks and headers that
differ in them share one hash and one entry of `mapBlockIndex`. The header
checks read nothing outside the hash but the stake flag of a bare header,
which decides whether its proof of work is checked. The size limit and the
signature check of `CheckBlock` read the signature, and `AcceptBlock`
records their failure against the hash as one that no corruption explains. -/
namespace Qtum

open Script

/-- Whether `AcceptBlock` sets `BLOCK_FAILED_VALID` on a failed check:
`state.IsInvalid() && !state.CorruptionPossible()`. -/
def marksFailedValid (result : Validation Unit) : Bool :=
  match result with
  | .error (.invalid reject) => !reject.corruptionPossible
  | _ => false

/-- The checks of `AcceptBlock` whose failure marks the block's index:
`CheckBlock` with its defaults, then `ContextualCheckBlock`. -/
def acceptBlockChecks (crypto : Crypto) (params : ConsensusParams) (verify : valtype → uint256 → valtype → Bool)
    (block : CBlock) (prev : PrevIndex) : Validation Unit := do
  CheckBlock crypto params verify block true true true
  ContextualCheckBlock crypto block prev

theorem marksFailedValid_DoS {α : Type} {first : Validation α} {level chRejectCode : Nat} {strRejectReason : String}
    (failed : first = DoS level chRejectCode strRejectReason false) (rest : α → Validation Unit) :
    marksFailedValid (first >>= rest) = true := by
  rw [failed]
  rfl

/-! ## A regtest chain

Hash functions that map everything to zero, the largest proof-of-work limit,
and a proof-of-work block of one coinbase at height 101. -/

def regtestParams : ConsensusParams := ⟨Blob.replicate 32 0xff,Blob.replicate 32 7⟩

def regtestPrev : PrevIndex where
  nHeight := 100
  hashBlock := Blob.replicate 32 5
  medianTimePast := 1499999000
  ancestorMedianTimePast _ := 1499999000
  nextTarget _ := 0x207fffff
  enforceUpgrade version := version ≤ 4
  rejectOutdated _ := false
  csvActive := false
  witnessEnabled := false
  hashStateRoot := Blob.null 32
  hashUTXORoot := Blob.null 32

def regtestCoinbase : CTransaction :=
  ⟨Blob.replicate 32 2,1,[⟨COutPoint.null,pushInt64 [] 101,SEQUENCE_FINAL⟩],[⟨COIN,[UInt8.ofNat OP_1]⟩],[],0,
    1500000000⟩

/-- The merkle root of a single transaction is its hash. -/
def regtestHeader : CBlockHeader :=
  ⟨4,regtestPrev.hashBlock,regtestCoinbase.hash,1500000000,0x207fffff,0,[],false,COutPoint.null,0,Blob.null 32,
    Blob.null 32⟩

def regtestBlock : CBlock := ⟨regtestHeader,[regtestCoinbase]⟩

/-! ## Headers -/

/-- The header checks read of the header only what its hash serialization
determines: two headers whose fields fit their types and which serialize
alike for the hash get one verdict from each check, for one answer of the
virtual `IsProofOfStake`. -/
theorem header_checks_of_serialize_gethash {first second : CBlockHeader} (fitsFirst : first.FitsWire)
    (fitsSecond : second.FitsWire) (same : first.Serialize SER_GETHASH = second.Serialize SER_GETHASH)
    (crypto : Crypto) (params : ConsensusParams) (fProofOfStake fCheckPOW : Bool) (prev : PrevIndex)
    (nAdjustedTime : Int) :
    CheckBlockHeader crypto params first fProofOfStake fCheckPOW =
        CheckBlockHeader crypto params second fProofOfStake fCheckPOW ∧
      ContextualCheckBlockHeader first fProofOfStake prev nAdjustedTime =
        ContextualCheckBlockHeader second fProofOfStake prev nAdjustedTime := by
  obtain ⟨version,time,bits⟩ := CBlockHeader.committed_of_serialize_gethash fitsFirst fitsSecond same
  have hash : first.GetHash crypto = second.GetHash crypto := congrArg crypto.Hash256 same
  constructor
  · rw [CheckBlockHeader,CheckBlockHeader,hash,bits]
  · rw [ContextualCheckBlockHeader,ContextualCheckBlockHeader,CBlockHeader.GetBlockTime,CBlockHeader.GetBlockTime,
      version,time,bits]

theorem header_checks_of_serialize_gethash_resigned :
    regtestHeader.FitsWire ∧ CBlockHeader.FitsWire {regtestHeader with vchBlockSig := [1],nStakeTime := 7} ∧
      regtestHeader.Serialize SER_GETHASH =
        CBlockHeader.Serialize {regtestHeader with vchBlockSig := [1],nStakeTime := 7} SER_GETHASH ∧
      CheckBlockHeader nullCrypto regtestParams regtestHeader false true =
        CheckBlockHeader nullCrypto regtestParams {regtestHeader with vchBlockSig := [1],nStakeTime := 7} false true ∧
      ContextualCheckBlockHeader regtestHeader false regtestPrev 1500000000 =
        ContextualCheckBlockHeader {regtestHeader with vchBlockSig := [1],nStakeTime := 7} false regtestPrev
          1500000000 :=
  have fitsFirst : regtestHeader.FitsWire := by decide
  have fitsSecond : CBlockHeader.FitsWire {regtestHeader with vchBlockSig := [1],nStakeTime := 7} := by decide
  have same : regtestHeader.Serialize SER_GETHASH =
      CBlockHeader.Serialize {regtestHeader with vchBlockSig := [1],nStakeTime := 7} SER_GETHASH :=
    (CBlockHeader.serializeWith_gethash_uncommitted regtestHeader [1] false COutPoint.null 7 _ _).symm
  ⟨fitsFirst,fitsSecond,same,
    header_checks_of_serialize_gethash fitsFirst fitsSecond same nullCrypto regtestParams false true regtestPrev
      1500000000⟩

/-! ## Re-signed blocks -/

/-- `block` with its signature replaced, as a relaying peer may send it. -/
def CBlock.resign (block : CBlock) (vchBlockSig : valtype) : CBlock :=
  {block with header := {block.header with vchBlockSig}}

namespace CBlock

section Resign

variable (block : CBlock) (vchBlockSig : valtype)

@[simp] theorem resign_vtx : (block.resign vchBlockSig).vtx = block.vtx := rfl

@[simp] theorem resign_IsProofOfStake : (block.resign vchBlockSig).IsProofOfStake = block.IsProofOfStake := rfl

theorem resign_header_GetHash (crypto : Crypto) :
    (block.resign vchBlockSig).header.GetHash crypto = block.header.GetHash crypto :=
  congrArg crypto.Hash256 (CBlockHeader.serializeWith_gethash_uncommitted block.header vchBlockSig
    block.header.fStake block.header.prevoutStake block.header.nStakeTime _ _)

theorem resign_GetHash (crypto : Crypto) : (block.resign vchBlockSig).GetHash crypto = block.GetHash crypto :=
  congrArg crypto.Hash256 (CBlockHeader.serializeWith_gethash_uncommitted block.header vchBlockSig
    block.header.fStake block.header.prevoutStake block.header.nStakeTime _ _)

end Resign

end CBlock

section Resign

variable (crypto : Crypto) (params : ConsensusParams) (verify : valtype → uint256 → valtype → Bool)
  (block : CBlock) (vchBlockSig : valtype)

theorem CheckBlockHeader_resign (fCheckPOW : Bool) :
    CheckBlockHeader crypto params (block.resign vchBlockSig).header (block.resign vchBlockSig).IsProofOfStake
        fCheckPOW =
      CheckBlockHeader crypto params block.header block.IsProofOfStake fCheckPOW := by
  simp only [CheckBlockHeader,CBlock.resign_IsProofOfStake,CBlock.resign_header_GetHash]
  rfl

/-- The new signature can only take the block past the size limit. -/
theorem checkBlockSize_resign (sized : checkBlockSize block = .ok ()) :
    checkBlockSize (block.resign vchBlockSig) = .ok () ∨
      checkBlockSize (block.resign vchBlockSig) = DoS 100 REJECT_INVALID "bad-blk-length" false := by
  unfold checkBlockSize at sized ⊢
  rw [CBlock.resign_vtx]
  split at sized
  · exact absurd sized DoS_ne_ok
  rename_i counted
  rw [if_neg counted]
  -- the transactions serialize as in the block that passed
  obtain ⟨serialized,encoded,-⟩ := Abort.bind_ok sized
  cases txs : block.vtx.mapM (SerializeTransaction · true) with
  | error reason => simp [CBlock.Serialize,txs] at encoded
  | ok serializedTxs =>
    have resigned : (block.resign vchBlockSig).vtx.mapM (SerializeTransaction · true) = .ok serializedTxs := txs
    rw [CBlock.Serialize_of_mapM resigned,liftAbort_ok,Abort.ok_bind]
    split
    · exact Or.inr rfl
    · exact Or.inl rfl

theorem CheckBlockSignature_resign (work : block.IsProofOfWork = true) (signed : vchBlockSig ≠ []) :
    CheckBlockSignature crypto verify (block.resign vchBlockSig) = false := by
  have resignedWork : (block.resign vchBlockSig).IsProofOfWork = true := work
  have sig : (block.resign vchBlockSig).header.vchBlockSig = vchBlockSig := rfl
  simp [CheckBlockSignature,resignedWork,sig,signed]

/-- A proof-of-work block that passes `CheckBlock` fails it once re-signed,
with a rejection that rules out corruption. -/
theorem CheckBlock_resign (passed : CheckBlock crypto params verify block true true true = .ok ())
    (work : block.IsProofOfWork = true) (signed : vchBlockSig ≠ []) :
    CheckBlock crypto params verify (block.resign vchBlockSig) true true true =
        DoS 100 REJECT_INVALID "bad-blk-length" false ∨
      CheckBlock crypto params verify (block.resign vchBlockSig) true true true =
        DoS 100 REJECT_INVALID "bad-blk-signature" false := by
  obtain ⟨⟨⟩,header,passed⟩ := Abort.bind_ok passed
  obtain ⟨⟨⟩,merkle,passed⟩ := Abort.bind_ok passed
  obtain ⟨⟨⟩,sized,passed⟩ := Abort.bind_ok passed
  obtain ⟨⟨⟩,coinbases,passed⟩ := Abort.bind_ok passed
  obtain ⟨⟨⟩,coinstakes,-⟩ := Abort.bind_ok passed
  -- the merkle root and the coinbase rules read only the transactions
  have merkle : checkIf true (checkMerkleRoot crypto (block.resign vchBlockSig)) = .ok () := merkle
  have coinbases : checkCoinBases (block.resign vchBlockSig) = .ok () := coinbases
  have coinstakes : checkCoinStakes (block.resign vchBlockSig) = .ok () := coinstakes
  rw [CheckBlock,CheckBlockHeader_resign,header,Abort.ok_bind,merkle,Abort.ok_bind]
  rcases checkBlockSize_resign block vchBlockSig sized with sized | sized
  · right
    rw [sized,Abort.ok_bind,coinbases,Abort.ok_bind,coinstakes,Abort.ok_bind,
      CheckBlockSignature_resign crypto verify block vchBlockSig work signed]
    rfl
  · left
    rw [sized]
    rfl

end Resign

/-- Verdicts recorded against a hash depend on what the hash leaves out. A
bare header whose proof of work fails passes `CheckBlockHeader` once its
unhashed `fStake` is set. A proof-of-work block that passes the checks of
`AcceptBlock` shares its hash with every re-signing of it, and each of these
gets its index marked `BLOCK_FAILED_VALID`. -/
theorem verdicts_depend_on_uncommitted_fields (crypto : Crypto) (params : ConsensusParams)
    (verify : valtype → uint256 → valtype → Bool) (header : CBlockHeader) (block : CBlock) (prev : PrevIndex)
    (vchBlockSig : valtype) (work : header.fStake = false)
    (unmined : CheckProofOfWork (header.GetHash crypto) header.nBits params = false)
    (honest : acceptBlockChecks crypto params verify block prev = .ok ()) (workBlock : block.IsProofOfWork = true)
    (signed : vchBlockSig ≠ []) :
    CBlockHeader.Serialize {header with fStake := true} SER_GETHASH = header.Serialize SER_GETHASH ∧
      CheckBlockHeader crypto params header header.IsProofOfStake true = DoS 50 REJECT_INVALID "high-hash" false ∧
      CheckBlockHeader crypto params {header with fStake := true} (CBlockHeader.IsProofOfStake {header with fStake := true})
        true = .ok () ∧
      (block.resign vchBlockSig).GetHash crypto = block.GetHash crypto ∧
      marksFailedValid (acceptBlockChecks crypto params verify (block.resign vchBlockSig) prev) = true := by
  have staked := CBlockHeader.serializeWith_gethash_uncommitted header header.vchBlockSig true header.prevoutStake
    header.nStakeTime {header with fStake := true}.stake header.stake
  obtain ⟨⟨⟩,passed,-⟩ := Abort.bind_ok honest
  have marked : marksFailedValid (acceptBlockChecks crypto params verify (block.resign vchBlockSig) prev) = true := by
    rcases CheckBlock_resign crypto params verify block vchBlockSig passed workBlock signed with failed | failed
    · exact marksFailedValid_DoS failed _
    · exact marksFailedValid_DoS failed _
  refine ⟨staked,?_,?_,CBlock.resign_GetHash block vchBlockSig crypto,marked⟩
  · simp [CheckBlockHeader,CBlockHeader.IsProofOfStake,work,unmined]
  · simp [CheckBlockHeader,CBlockHeader.IsProofOfStake]

set_option maxRecDepth 20000 in
theorem verdicts_depend_on_uncommitted_fields_regtest :
    regtestHeader.fStake = false ∧
      CheckProofOfWork (CBlockHeader.GetHash nullCrypto {regtestHeader with nBits := 0}) 0 regtestParams = false ∧
      acceptBlockChecks nullCrypto regtestParams (fun _ _ _ => false) regtestBlock regtestPrev = .ok () ∧
      regtestBlock.IsProofOfWork = true ∧ [1] ≠ ([] : valtype) ∧
      CBlockHeader.Serialize {regtestHeader with nBits := 0,fStake := true} SER_GETHASH =
        CBlockHeader.Serialize {regtestHeader with nBits := 0} SER_GETHASH ∧
      CheckBlockHeader nullCrypto regtestParams {regtestHeader with nBits := 0} false true =
        DoS 50 REJECT_INVALID "high-hash" false ∧
      CheckBlockHeader nullCrypto regtestParams {regtestHeader with nBits := 0,fStake := true} true true = .ok () ∧
      (regtestBlock.resign [1]).GetHash nullCrypto = regtestBlock.GetHash nullCrypto ∧
      marksFailedValid (acceptBlockChecks nullCrypto regtestParams (fun _ _ _ => false) (regtestBlock.resign [1])
        regtestPrev) = true :=
  have work : regtestHeader.fStake = false := rfl
  have unmined : CheckProofOfWork (CBlockHeader.GetHash nullCrypto {regtestHeader with nBits := 0}) 0 regtestParams =
      false := by decide
  have honest : acceptBlockChecks nullCrypto regtestParams (fun _ _ _ => false) regtestBlock regtestPrev = .ok () := by
    rfl
  have workBlock : regtestBlock.IsProofOfWork = true := rfl
  have signed : [1] ≠ ([] : valtype) := by decide
  ⟨work,unmined,honest,workBlock,signed,
    verdicts_depend_on_uncommitted_fields nullCrypto regtestParams (fun _ _ _ => false) {regtestHeader with nBits := 0}
      regtestBlock regtestPrev [1] work unmined honest workBlock signed⟩

end Qtum
