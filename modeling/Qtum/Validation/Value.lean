import Qtum.Validation.Connect
import Qtum.Validation.Commitment

/-! Value accounting of blocks. The value a block creates is what its
outputs hold beyond the outputs they spend; consensus means to bound it by
the subsidy. The checks that enforce this are spread out: `CheckTxInputs`
makes every transaction but a coin stake pay for its outputs, and
`ConnectBlock` bounds the coinbase of a proof-of-work block and the coin
stake's surplus of a proof-of-stake block. A coin stake outside the second
place of a proof-of-stake block meets neither bound. -/
namespace Qtum

open Script

/-- The value a spent outpoint holds in `view`; zero where the view holds
no such output. -/
def valueAt (view : CoinsView) (prevout : COutPoint) : CAmount :=
  (((view prevout.hash).vout[prevout.n]?).map CTxOut.nValue).getD 0

/-- The value the outputs of a block's transactions hold. -/
def blockValueOut (block : CBlock) : CAmount := (block.vtx.map fun tx => (tx.vout.map CTxOut.nValue).sum).sum

/-- The value of the outputs that a block's transactions other than the
coinbase spend from the view before the block. -/
def blockValueIn (view : CoinsView) (block : CBlock) : CAmount :=
  ((block.vtx.filter fun tx => !tx.IsCoinBase).map fun tx => (tx.vin.map fun txin => valueAt view txin.prevout).sum).sum

/-! ## What `CheckTxInputs` enforces -/

/-- Where every spent output is available and the input loop passes,
`GetValueIn`'s sum is the loop's. -/
theorem checkInputValues_valueInFrom {view : CoinsView} {nSpendHeight : Int} :
    ∀ {vin : List CTxIn} {nValueIn total : CAmount},
      (∀ txin ∈ vin, (view txin.prevout.hash).IsAvailable txin.prevout.n = true) →
      checkInputValues view nSpendHeight nValueIn vin = .ok total → valueInFrom view nValueIn vin = .ok total := by
  intro vin
  induction vin with
  | nil =>
    intro nValueIn total _ passed
    simp only [checkInputValues,Except.ok.injEq] at passed
    rw [passed]
    rfl
  | cons txin rest ih =>
    intro nValueIn total available passed
    have here := available txin List.mem_cons_self
    simp only [checkInputValues] at passed
    split at passed
    · exact absurd passed DoS_ne_ok
    -- the loop reads `vout[n]` unchecked; availability makes it the output `GetOutputFor` returns
    cases found : (view txin.prevout.hash).vout[txin.prevout.n]? with
    | none => simp [CCoins.IsAvailable,found] at here
    | some txout =>
      simp only [found] at passed
      obtain ⟨sum,added,passed⟩ := Abort.bind_ok passed
      cases lifted : addAmount nValueIn txout.nValue with
      | error reason => simp [lifted] at added
      | ok value =>
        simp only [lifted,liftAbort_ok,Except.ok.injEq] at added
        subst added
        split at passed
        · exact absurd passed DoS_ne_ok
        have output : GetOutputFor view txin = .ok txout := by simp [GetOutputFor,found,here]
        have tail := ih (fun other member => available other (List.mem_cons_of_mem txin member)) passed
        simp [valueInFrom,output,lifted,tail]

/-- A transaction other than a coinbase or a coin stake that passes
`CheckTxInputs` pays for its outputs: `GetValueOut ≤ GetValueIn`. -/
theorem CheckTxInputs_pays {tx : CTransaction} {view : CoinsView} {nSpendHeight : Int}
    (passed : CheckTxInputs tx view nSpendHeight = .ok ()) (coinbase : tx.IsCoinBase = false)
    (stake : tx.IsCoinStake = false) :
    ∃ nValueIn nValueOut, GetValueIn view tx = .ok nValueIn ∧ tx.GetValueOut = .ok nValueOut ∧
      nValueOut ≤ nValueIn := by
  unfold CheckTxInputs at passed
  split at passed
  · exact absurd passed DoS_ne_ok
  rename_i haveInputs
  have available : ∀ txin ∈ tx.vin, (view txin.prevout.hash).IsAvailable txin.prevout.n = true := by
    simpa [HaveInputs,coinbase] using haveInputs
  obtain ⟨nValueIn,looped,fee⟩ := Abort.bind_ok passed
  simp only [stake,Bool.false_eq_true,if_false,checkFee] at fee
  obtain ⟨nValueOut,valued,fee⟩ := Abort.bind_ok fee
  cases out : tx.GetValueOut with
  | error reason => simp [out] at valued
  | ok value =>
    simp only [out,liftAbort_ok,Except.ok.injEq] at valued
    subst valued
    split at fee
    · exact absurd fee DoS_ne_ok
    rename_i covered
    refine ⟨nValueIn,value,?_,rfl,not_lt.mp covered⟩
    simpa [GetValueIn,coinbase] using checkInputValues_valueInFrom available looped

/-! ## A proof-of-work block with a coin stake

A proof-of-work block whose second transaction is an ordinary spend may
carry a coin stake third. `CheckBlock` restricts coin stakes only in a
proof-of-stake block, `CheckTxInputs` lets the coin stake pay out more than
it spends, and `ConnectBlock` checks its surplus only in a proof-of-stake
block. The block below spends two coins and its coin stake pays out a
million. Its transactions' hashes are their memory-only fields; the merkle
root and the state roots are those of the hash functions and the global
state the node runs on. -/

def inflationFunding : uint256 := Blob.replicate 32 1

def inflationView : CoinsView := fun txid =>
  if txid = inflationFunding then ⟨false,false,[⟨COIN,[UInt8.ofNat OP_1]⟩,⟨COIN,[UInt8.ofNat OP_1]⟩],1,1⟩
  else CCoins.empty

def inflationCoinbase : CTransaction :=
  ⟨Blob.replicate 32 2,1,[⟨COutPoint.null,pushInt64 [] 101,SEQUENCE_FINAL⟩],
    [⟨GetProofOfWorkReward,[UInt8.ofNat OP_1]⟩],[],0,1500000000⟩

def inflationSpend : CTransaction :=
  ⟨Blob.replicate 32 3,1,[⟨⟨inflationFunding,0⟩,[],SEQUENCE_FINAL⟩],[⟨COIN,[UInt8.ofNat OP_1]⟩],[],0,1500000000⟩

def inflationStake : CTransaction :=
  ⟨Blob.replicate 32 4,1,[⟨⟨inflationFunding,1⟩,[],SEQUENCE_FINAL⟩],
    [⟨0,[]⟩,⟨1000000 * COIN,[UInt8.ofNat OP_1]⟩],[],0,1500000000⟩

def inflationVtx : List CTransaction := [inflationCoinbase,inflationSpend,inflationStake]

/-- The compact target of regtest's proof-of-work limit. -/
def inflationBits : Nat := 0x207fffff

def inflationPrev : PrevIndex where
  nHeight := 100
  hashBlock := Blob.replicate 32 5
  medianTimePast := 1499999000
  ancestorMedianTimePast _ := 1499999000
  nextTarget _ := inflationBits
  enforceUpgrade version := version ≤ 4
  rejectOutdated _ := false
  csvActive := false
  witnessEnabled := false
  hashStateRoot := Blob.null 32
  hashUTXORoot := Blob.null 32

def inflationIndex : CBlockIndex := ⟨101,Blob.replicate 32 6,inflationPrev,true,true⟩

def inflationBlock {σ : Type} (env : ValidationEnv σ) (globalState : σ) : CBlock :=
  ⟨{nVersion := 4,hashPrevBlock := inflationPrev.hashBlock,
      hashMerkleRoot := (ComputeMerkleRoot env.crypto (inflationVtx.map CTransaction.GetHash)).1,
      nTime := 1500000000,nBits := inflationBits,nNonce := 0,vchBlockSig := [],fStake := false,
      prevoutStake := COutPoint.null,nStakeTime := 0,hashStateRoot := env.contracts.rootHash globalState,
      hashUTXORoot := env.contracts.rootHashUTXO globalState},inflationVtx⟩

/-- A transaction with two outputs of `MAX_MONEY`. -/
def overflowTx : CTransaction :=
  ⟨Blob.replicate 32 8,1,[⟨⟨inflationFunding,0⟩,[],SEQUENCE_FINAL⟩],
    [⟨MAX_MONEY,[UInt8.ofNat OP_1]⟩,⟨MAX_MONEY,[UInt8.ofNat OP_1]⟩],[],0,0⟩

theorem inflation_serialized (noWitness : Bool) :
    ∃ txs, inflationVtx.mapM (SerializeTransaction · noWitness) = .ok txs ∧ txs.flatten.length = 206 := by
  cases noWitness <;> exact ⟨_,rfl,rfl⟩

section Inflation

variable {σ : Type} (env : ValidationEnv σ) (globalState : σ)

@[simp] theorem inflationBlock_vtx : (inflationBlock env globalState).vtx = inflationVtx := rfl

theorem inflation_checkBlockSize : checkBlockSize (inflationBlock env globalState) = .ok () := by
  obtain ⟨txs,serialized,size⟩ := inflation_serialized true
  rw [← inflationBlock_vtx env globalState] at serialized
  rw [checkBlockSize,inflationBlock_vtx,if_neg (by decide),CBlock.Serialize_of_mapM serialized]
  simp only [liftAbort_ok,Abort.ok_bind,CBlockHeader.serializeWith_length,List.length_append,size]
  rw [if_neg (by simp [inflationBlock,SER_NETWORK,SER_GETHASH,WriteVector,WriteCompactSize,inflationVtx,
    MAX_BLOCK_BASE_SIZE])]

theorem inflation_merkle :
    BlockMerkleRoot env.crypto (inflationBlock env globalState) =
      ((inflationBlock env globalState).header.hashMerkleRoot,false) :=
  Prod.ext rfl rfl

theorem inflation_CheckBlock
    (mined : CheckProofOfWork ((inflationBlock env globalState).header.GetHash env.crypto) inflationBits env.params = true) :
    CheckBlock env.crypto env.params env.verify (inflationBlock env globalState) true true true = .ok () := by
  have work : (inflationBlock env globalState).IsProofOfStake = false := rfl
  have bits : (inflationBlock env globalState).header.nBits = inflationBits := rfl
  have header : CheckBlockHeader env.crypto env.params (inflationBlock env globalState).header
      (inflationBlock env globalState).IsProofOfStake true = .ok () := by
    simp [CheckBlockHeader,work,bits,mined]
  have merkle : checkMerkleRoot env.crypto (inflationBlock env globalState) = .ok () := by
    simp [checkMerkleRoot,inflation_merkle]
  rw [CheckBlock,header,Abort.ok_bind,checkIf_true,merkle,Abort.ok_bind,inflation_checkBlockSize,Abort.ok_bind]
  -- the remaining stages read only the transactions
  rfl

theorem inflation_weight : GetBlockWeight (inflationBlock env globalState) = .ok 1572 := by
  obtain ⟨stripped,strippedOk,strippedSize⟩ := inflation_serialized true
  obtain ⟨total,totalOk,totalSize⟩ := inflation_serialized false
  rw [← inflationBlock_vtx env globalState] at strippedOk totalOk
  rw [GetBlockWeight,CBlock.Serialize_of_mapM strippedOk,CBlock.Serialize_of_mapM totalOk]
  simp [List.length_append,CBlockHeader.serializeWith_length,strippedSize,totalSize,inflationBlock,SER_NETWORK,
    SER_GETHASH,WriteVector,WriteCompactSize,inflationVtx,WITNESS_SCALE_FACTOR]

theorem inflation_ContextualCheckBlock :
    ContextualCheckBlock env.crypto (inflationBlock env globalState) inflationPrev = .ok () := by
  simp only [ContextualCheckBlock,inflation_weight]
  rfl

/-- The script flags of the block: `P2SH`, `DERSIG` and `CHECKLOCKTIMEVERIFY`. -/
theorem inflation_flags : blockScriptFlags (inflationBlock env globalState) inflationPrev = 517 := by
  simp [blockScriptFlags,inflationBlock,inflationPrev,CBlockHeader.GetBlockTime]
  decide

/-- The loop over the three transactions passes, whether the script checks
run at once or are deferred, and leaves nothing queued, no refund, fees of
zero and the coinbase within them. -/
theorem inflation_loop :
    ∃ state, connectTransactionsFrom env (inflationBlock env globalState) inflationIndex 517 0 0 inflationVtx
        ⟨inflationView,0,0,0,[],[],⟨globalState,⟨[],Blob.null 32⟩,[]⟩⟩ = .ok state ∧
      state.execution.globalState = globalState ∧ state.execution.context.expectedTxHashes = [] ∧
      state.execution.refunds = [] ∧ checkReward env (inflationBlock env globalState) state = .ok () ∧
      runChecks env state.control state.execution.context = .ok () := by
  obtain ⟨crypto,params,verify,checkerFor,contracts,node,GetCoinAge,nScriptCheckThreads⟩ := env
  cases nScriptCheckThreads <;> refine ⟨_,rfl,?_⟩ <;> exact ⟨rfl,rfl,rfl,rfl,rfl⟩

theorem inflation_finishBlock {state : ConnectState σ} (global : state.execution.globalState = globalState)
    (queue : state.execution.context.expectedTxHashes = []) (refunds : state.execution.refunds = [])
    (reward : checkReward env (inflationBlock env globalState) state = .ok ())
    (checks : runChecks env state.control state.execution.context = .ok ()) :
    finishBlock env (inflationBlock env globalState) state = .ok () := by
  have refunded : CheckRefunds env.crypto [] inflationCoinbase true = .ok true := rfl
  have work : (inflationBlock env globalState).IsProofOfWork = true := rfl
  have coinbase : inflationVtx[0]? = some inflationCoinbase := rfl
  have utxoRoot : (inflationBlock env globalState).header.hashUTXORoot = env.contracts.rootHashUTXO globalState := rfl
  have stateRoot : (inflationBlock env globalState).header.hashStateRoot = env.contracts.rootHash globalState := rfl
  simp [finishBlock,queue,refunds,reward,checks,global,refunded,work,coinbase,utxoRoot,stateRoot]

theorem inflation_ConnectBlock
    (mined : CheckProofOfWork ((inflationBlock env globalState).header.GetHash env.crypto) inflationBits env.params = true)
    (notGenesis : (inflationBlock env globalState).GetHash env.crypto ≠ env.params.hashGenesisBlock) :
    ∃ connected, ConnectBlock env (inflationBlock env globalState) inflationIndex inflationView inflationPrev.hashBlock
      globalState false = .ok connected := by
  obtain ⟨state,loop,global,queue,refunds,reward,checks⟩ := inflation_loop env globalState
  have finished := inflation_finishBlock env globalState global queue refunds reward checks
  have previous : inflationIndex.prev = inflationPrev := rfl
  have bip30 : checkBIP30 inflationIndex inflationView (inflationBlock env globalState) = .ok () := rfl
  have sequence : inflationPrev.csvActive = false := rfl
  simp only [ConnectBlock,Bool.not_false,inflation_CheckBlock env globalState mined,Abort.ok_bind,previous,ne_eq,
    not_true_eq_false,if_false,notGenesis,bip30,inflation_flags,inflationBlock_vtx,sequence,Bool.false_eq_true,
    loop,finished]
  exact ⟨_,rfl⟩

/-- A proof-of-work block that passes `CheckBlock`, `ContextualCheckBlock`
and `ConnectBlock` creates 999999 coins beyond its subsidy through a coin
stake at its third place; and with `MAX_MONEY = INT64_MAX` the running sum
of `CheckTransaction` leaves `int64_t` on two maximal outputs. -/
theorem coinstake_in_proof_of_work_block_creates_value
    (mined : CheckProofOfWork ((inflationBlock env globalState).header.GetHash env.crypto) inflationBits env.params = true)
    (notGenesis : (inflationBlock env globalState).GetHash env.crypto ≠ env.params.hashGenesisBlock) :
    (inflationBlock env globalState).IsProofOfWork = true ∧ inflationStake.IsCoinStake = true ∧
      CheckBlock env.crypto env.params env.verify (inflationBlock env globalState) true true true = .ok () ∧
      ContextualCheckBlock env.crypto (inflationBlock env globalState) inflationPrev = .ok () ∧
      (∃ connected, ConnectBlock env (inflationBlock env globalState) inflationIndex inflationView
        inflationPrev.hashBlock globalState false = .ok connected) ∧
      blockValueIn inflationView (inflationBlock env globalState) + GetProofOfWorkReward + 999999 * COIN =
        blockValueOut (inflationBlock env globalState) ∧
      CheckTransaction overflowTx = .error (.abort .overflow) := by
  refine ⟨rfl,rfl,inflation_CheckBlock env globalState mined,inflation_ContextualCheckBlock env globalState,
    inflation_ConnectBlock env globalState mined notGenesis,?_,rfl⟩
  simp only [blockValueIn,blockValueOut,inflationBlock_vtx]
  decide

end Inflation

/-- A node that knows no transaction, at the tip of `inflationPrev`. -/
def quietNode : Contract.NodeState :=
  ⟨fun _ => none,fun _ _ found => by simp at found,false,fun _ => none,fun _ => none,fun _ => none,
    ⟨100,[inflationPrev.hashBlock]⟩⟩

/-- The regtest setting of `nullCrypto` and `regtestParams`, with a contract
machinery that never runs. -/
def nullEnv : ValidationEnv Unit where
  crypto := nullCrypto
  params := regtestParams
  verify _ _ _ := false
  checkerFor _ _ _ := BaseSignatureChecker
  contracts := ⟨fun _ _ _ => .error .exception,fun _ => Blob.null 32,fun _ => Blob.null 32,fun _ _ _ => (),1000000⟩
  node := quietNode
  GetCoinAge _ := true
  nScriptCheckThreads := 0

theorem coinstake_in_proof_of_work_block_creates_value_null :
    CheckProofOfWork ((inflationBlock nullEnv ()).header.GetHash nullEnv.crypto) inflationBits nullEnv.params = true ∧
      (inflationBlock nullEnv ()).GetHash nullEnv.crypto ≠ nullEnv.params.hashGenesisBlock ∧
      (inflationBlock nullEnv ()).IsProofOfWork = true ∧ inflationStake.IsCoinStake = true ∧
      CheckBlock nullEnv.crypto nullEnv.params nullEnv.verify (inflationBlock nullEnv ()) true true true = .ok () ∧
      ContextualCheckBlock nullEnv.crypto (inflationBlock nullEnv ()) inflationPrev = .ok () ∧
      (∃ connected, ConnectBlock nullEnv (inflationBlock nullEnv ()) inflationIndex inflationView
        inflationPrev.hashBlock () false = .ok connected) ∧
      blockValueIn inflationView (inflationBlock nullEnv ()) + GetProofOfWorkReward + 999999 * COIN =
        blockValueOut (inflationBlock nullEnv ()) ∧
      CheckTransaction overflowTx = .error (.abort .overflow) :=
  have mined : CheckProofOfWork ((inflationBlock nullEnv ()).header.GetHash nullEnv.crypto) inflationBits
      nullEnv.params = true := by decide
  have notGenesis : (inflationBlock nullEnv ()).GetHash nullEnv.crypto ≠ nullEnv.params.hashGenesisBlock := by decide
  ⟨mined,notGenesis,coinstake_in_proof_of_work_block_creates_value nullEnv () mined notGenesis⟩

end Qtum
