import Qtum.Validation.Block
import Qtum.Coins.Undo
import Qtum.Contract.Executor

/-! `ConnectBlock` of `main.cpp`: the transactions of a block applied to the
coins view one after another. Each pays its inputs' value into the block's
fees, except that a coin stake's surplus is kept as `nActualStakeReward`;
each contract output is executed on the global state, and the transactions
the execution generates are queued in the block's validation context. After
the loop the coinbase (proof of work) or the coin stake (proof of stake) is
held to the fees plus the subsidy, the deferred script checks run, and the
state roots must match the header. The contract machinery, the coin-age
lookup and the signature checkers are parameters. -/
namespace Qtum

open Script

/-- `ResultExecute` as `ConnectBlock` reads it: the condensing transactions
and the refunded gas as an amount. -/
structure ResultExecute where
  txs : List CTransaction
  gasRefunded : CAmount

/-- The contract machinery of a node with global state `σ`. -/
structure ContractEnv (σ : Type) where
  /-- `QtumState::execute(env, se, tx, Permanence::Committed)` followed by
  the commit of the state's database. -/
  execute : σ → Contract.EnvInfo → Contract.QtumTransaction → Except Abort (ResultExecute × σ)
  rootHash : σ → uint256
  rootHashUTXO : σ → uint256
  /-- `setRoot(stateRoot)` and `setRootUTXO(utxoRoot)`. -/
  setRoots : σ → uint256 → uint256 → σ
  /-- `GetMaxBlockSize()`, from the node's arguments. -/
  nMaxBlockSize : Nat

/-- Everything `ConnectBlock` runs on besides the block, its index and the view. -/
structure ValidationEnv (σ : Type) where
  crypto : Crypto
  params : ConsensusParams
  /-- `CPubKey(vchPubKey).Verify(hash, vchSig)`. -/
  verify : valtype → uint256 → valtype → Bool
  /-- `CachingTransactionSignatureChecker(tx, nIn, amount)`. -/
  checkerFor : CTransaction → Nat → CAmount → SignatureChecker
  contracts : ContractEnv σ
  /-- What the executor reads of the node: its lookup of transactions and
  its tip. -/
  node : Contract.NodeState
  /-- `GetCoinAge(tx, *pblocktree, pindex->pprev)`. -/
  GetCoinAge : CTransaction → Bool
  nScriptCheckThreads : Nat

/-- The index entry of the block being connected. -/
structure CBlockIndex where
  nHeight : Int
  hashBlock : uint256
  prev : PrevIndex
  /-- Neither of the two blocks that broke BIP30 nor past BIP34. -/
  fEnforceBIP30 : Bool
  /-- Not an ancestor of the last checkpoint, or checkpoints are off. -/
  fScriptChecks : Bool

def GetProofOfWorkReward : CAmount := 10000 * COIN

def GetProofOfStakeReward : CAmount := 5 * COIN

/-- `a - b` on `CAmount`. -/
def subAmount (a b : CAmount) : Except Abort CAmount :=
  if FitsInt64 (a - b) then .ok (a - b) else .error .overflow

/-! ## Sequence locks -/

def SEQUENCE_LOCKTIME_TYPE_FLAG : Nat := 1 <<< 22
def SEQUENCE_LOCKTIME_MASK : Nat := 0x0000ffff
def SEQUENCE_LOCKTIME_GRANULARITY : Nat := 9

/-- The input loop of `CalculateSequenceLocks`: the last invalid height and time. -/
def sequenceLocksFrom (pindex : CBlockIndex) : List (CTxIn × Int) → Int × Int → Int × Int
  | [],lockPair => lockPair
  | (txin,nCoinHeight) :: rest,(nMinHeight,nMinTime) =>
    let masked : Int := txin.nSequence &&& SEQUENCE_LOCKTIME_MASK
    if txin.nSequence &&& SEQUENCE_LOCKTIME_DISABLE_FLAG ≠ 0 then sequenceLocksFrom pindex rest (nMinHeight,nMinTime)
    else if txin.nSequence &&& SEQUENCE_LOCKTIME_TYPE_FLAG ≠ 0 then
      let nCoinTime := pindex.prev.ancestorMedianTimePast (max (nCoinHeight - 1) 0)
      sequenceLocksFrom pindex rest
        (nMinHeight,max nMinTime (nCoinTime + ((txin.nSequence &&& SEQUENCE_LOCKTIME_MASK) <<< SEQUENCE_LOCKTIME_GRANULARITY : Nat) - 1))
    else sequenceLocksFrom pindex rest (max nMinHeight (nCoinHeight + masked - 1),nMinTime)

def CalculateSequenceLocks (tx : CTransaction) (flags : Nat) (prevHeights : List Int) (pindex : CBlockIndex) :
    Int × Int :=
  if 2 ≤ toUnsigned 32 tx.nVersion && flags &&& LOCKTIME_VERIFY_SEQUENCE ≠ 0 then
    sequenceLocksFrom pindex (tx.vin.zip prevHeights) (-1,-1)
  else (-1,-1)

def EvaluateSequenceLocks (pindex : CBlockIndex) (lockPair : Int × Int) : Bool :=
  !(pindex.nHeight ≤ lockPair.1 || pindex.prev.medianTimePast ≤ lockPair.2)

def SequenceLocks (tx : CTransaction) (flags : Nat) (prevHeights : List Int) (pindex : CBlockIndex) : Bool :=
  EvaluateSequenceLocks pindex (CalculateSequenceLocks tx flags prevHeights pindex)

/-! ## Refunds -/

/-- The loop of `CheckRefunds`, both lists from their ends: the refunds
must be the last outputs. An iterator past `rend()` is dereferenced. -/
def checkRefundsFrom (crypto : Crypto) : List (valtype × CAmount) → List CTxOut → Except Abort Bool
  | [],_ => .ok true
  | _ :: _,[] => .error .outOfRange
  | refund :: refunds,txout :: vout =>
    if refund ≠ (Contract.keyIDBytes crypto txout.scriptPubKey,txout.nValue) then .ok false
    else checkRefundsFrom crypto refunds vout

def CheckRefunds (crypto : Crypto) (refunds : List (valtype × CAmount)) (coinBaseTX : CTransaction) (pow : Bool) :
    Except Abort Bool :=
  let vout := coinBaseTX.vout
  let sameScripts := match vout with
    | _ :: second :: third :: _ => decide (second.scriptPubKey = third.scriptPubKey)
    | _ => false
  let offset := if sameScripts then 3 else if pow then 1 else 2
  if refunds.isEmpty then .ok true
  else if vout.length < offset + 1 then .ok false
  else checkRefundsFrom crypto refunds.reverse vout.reverse

/-- The loop compares the refunds with the outputs pair by pair, and runs
past the outputs when the refunds outnumber them and all those compared
agree. -/
theorem checkRefundsFrom_eq (crypto : Crypto) (refunds : List (valtype × CAmount)) (vout : List CTxOut) :
    checkRefundsFrom crypto refunds vout =
      if refunds.take vout.length =
          (vout.map fun txout => (Contract.keyIDBytes crypto txout.scriptPubKey,txout.nValue)).take refunds.length then
        if refunds.length ≤ vout.length then .ok true else .error .outOfRange
      else .ok false := by
  induction refunds generalizing vout with
  | nil => simp [checkRefundsFrom]
  | cons refund refunds induct =>
    cases vout with
    | nil => simp [checkRefundsFrom]
    | cons txout vout =>
      rw [checkRefundsFrom,induct vout]
      by_cases paid : refund = (Contract.keyIDBytes crypto txout.scriptPubKey,txout.nValue)
      · simp [paid]
      · simp [paid]

/-- `CheckRefunds` holds the refunds against the last outputs of the
coinbase, bounded only by the number of outputs and not by those after the
reward outputs: refunds that also match reward outputs are accepted, and
refunds that match every output and outnumber them run the iterator past
`rend()`. -/
theorem CheckRefunds_bounded_by_outputs (crypto : Crypto) (refunds : List (valtype × CAmount))
    (coinBaseTX : CTransaction) (pow : Bool) (nonempty : refunds ≠ []) (room : 4 ≤ coinBaseTX.vout.length) :
    CheckRefunds crypto refunds coinBaseTX pow =
      if refunds.reverse.take coinBaseTX.vout.length = (coinBaseTX.vout.reverse.map fun txout =>
          (Contract.keyIDBytes crypto txout.scriptPubKey,txout.nValue)).take refunds.length then
        if refunds.length ≤ coinBaseTX.vout.length then .ok true else .error .outOfRange
      else .ok false := by
  -- the offset is at most three, so the size check passes
  have enough : ∀ same : Bool, ¬coinBaseTX.vout.length < (if same then 3 else if pow then 1 else 2) + 1 := by
    intro same
    cases same <;> cases pow <;> simp <;> omega
  unfold CheckRefunds
  dsimp only
  rw [if_neg (by simpa using nonempty),if_neg (enough _),checkRefundsFrom_eq,
    List.length_reverse,List.length_reverse]

/-- A coinbase of four outputs, the `k`-th paying `k` to the key ID of twenty
bytes `k`. -/
def refundCoinbase : CTransaction :=
  ⟨Blob.null 32,1,[],(List.range 4).map fun k : Nat =>
    ⟨(k : Int) + 1,[0x76,0xa9,20] ++ List.replicate 20 (UInt8.ofNat (k + 1)) ++ [0x88,0xac]⟩,[],0,0⟩

/-- The refunds the four outputs pay. -/
def coinbaseRefunds : List (valtype × CAmount) :=
  (List.range 4).map fun k : Nat => (List.replicate 20 (UInt8.ofNat (k + 1)),(k : Int) + 1)

/-- Four refunds match the four outputs of a proof-of-work coinbase, the
miner's output among them, and are accepted; a fifth before them runs the
iterator past `rend()`. -/
theorem CheckRefunds_bounded_by_outputs_reward :
    CheckRefunds ⟨fun _ => Blob.null 20,fun _ => Blob.null 20,fun _ => Blob.null 32,fun _ => true⟩ coinbaseRefunds
        refundCoinbase true = .ok true ∧
      CheckRefunds ⟨fun _ => Blob.null 20,fun _ => Blob.null 20,fun _ => Blob.null 32,fun _ => true⟩
        (([],0) :: coinbaseRefunds) refundCoinbase true = .error .outOfRange := by
  constructor
  · rw [CheckRefunds_bounded_by_outputs _ _ _ _ (by decide) (by decide),if_pos (by decide),if_pos (by decide)]
  · rw [CheckRefunds_bounded_by_outputs _ _ _ _ (by decide) (by decide),if_pos (by decide),if_neg (by decide)]

/-! ## Contract execution -/

/-- `GetTransactionWeight`: three times the size without witnesses plus the full size. -/
def GetTransactionWeight (tx : CTransaction) : Except Abort Nat := do
  let stripped ← SerializeTransaction tx true
  let total ← SerializeTransaction tx false
  return stripped.length * (WITNESS_SCALE_FACTOR - 1) + total.length

/-- The loop over the transactions an execution generates: each queues its
hash once per input, unless their weight so far passes a twentieth of the
block size (`none`). -/
def queueCondensing (nMaxBlockSize : Nat) : Nat → List CTransaction → List uint256 → Except Abort (Option (List uint256))
  | _,[],queued => .ok (some queued)
  | sizeTx,txRes :: rest,queued => do
    let weight ← GetTransactionWeight txRes
    if nMaxBlockSize / 20 < sizeTx + weight then return none
    queueCondensing nMaxBlockSize (sizeTx + weight) rest (queued ++ txRes.vin.map fun _ => txRes.GetHash)

/-- What the contract executions of a block carry from one to the next. -/
structure Execution (σ : Type) where
  globalState : σ
  context : BlockValidationContext
  refunds : List (valtype × CAmount)

section Contracts

variable {σ : Type} (env : ValidationEnv σ) (block : CBlock) (tx : CTransaction) (view : CoinsView)

/-- One execution's effect: its hashes queued and its refund recorded for
`GetSenderAddress(tx)`, asked without a view; an execution that generates
too much restores the roots of before the transaction, and empties the
queue and the refunds of the whole block. -/
def recordExecution (oldRoots : uint256 × uint256) (execution : Execution σ) (res : ResultExecute) (globalState : σ)
    (queued : Option (List uint256)) : Except Abort (Execution σ) := do
  let (execution,gasRefunded) := match queued with
    | some hashes =>
      let context := {execution.context with expectedTxHashes := execution.context.expectedTxHashes ++ hashes}
      ({execution with globalState,context},res.gasRefunded)
    | none =>
      let context := {execution.context with expectedTxHashes := []}
      (⟨env.contracts.setRoots globalState oldRoots.1 oldRoots.2,context,[]⟩,0)
  if 0 < gasRefunded then
    let sender ← Contract.GetSenderAddress env.crypto env.node tx none
    return {execution with refunds := execution.refunds ++ [(sender,gasRefunded)]}
  else return execution

/-- The loop over the outputs of a transaction with `OP_EXEC` or
`OP_EXEC_ASSIGN`, output `q` next, each run by a `BCExecutor` on the view. -/
def executeOutputs (oldRoots : uint256 × uint256) : Nat → List CTxOut → Execution σ → Except Abort (Execution σ)
  | _,[],execution => .ok execution
  | q,txout :: rest,execution =>
    if !HasOpExec txout.scriptPubKey && !HasOpAssign txout.scriptPubKey then
      executeOutputs oldRoots (q + 1) rest execution
    else do
      let (res,globalState) ← Contract.BCExecutor.execute env.crypto env.node env.contracts.execute
        execution.globalState block tx q (some view)
      let queued ← queueCondensing env.contracts.nMaxBlockSize 0 res.txs []
      let execution ← recordExecution env tx oldRoots execution res globalState queued
      executeOutputs oldRoots (q + 1) rest execution

end Contracts

/-! ## The loop over the transactions -/

/-- What the loop of `ConnectBlock` carries from one transaction to the next. -/
structure ConnectState (σ : Type) where
  view : CoinsView
  nFees : CAmount
  nActualStakeReward : CAmount
  nSigOpsCost : Nat
  vtxundo : List CTxUndo
  /-- The script checks handed to the check queue. -/
  control : List CScriptCheck
  execution : Execution σ

section Connect

variable {σ : Type} (env : ValidationEnv σ)

/-- `ConnectBlock`'s script flags from the block's time and version and the
deployments active after the previous block. -/
def blockScriptFlags (block : CBlock) (prev : PrevIndex) : Nat :=
  let flags := if 1333238400 ≤ block.header.GetBlockTime then SCRIPT_VERIFY_P2SH else 0
  let flags := if 3 ≤ block.header.nVersion && prev.enforceUpgrade 3 then flags ||| SCRIPT_VERIFY_DERSIG else flags
  let flags :=
    if 4 ≤ block.header.nVersion && prev.enforceUpgrade 4 then flags ||| SCRIPT_VERIFY_CHECKLOCKTIMEVERIFY else flags
  let flags := if prev.csvActive then flags ||| SCRIPT_VERIFY_CHECKSEQUENCEVERIFY else flags
  if prev.witnessEnabled then flags ||| SCRIPT_VERIFY_WITNESS else flags

/-- The spent coins must be available and the BIP68 locks satisfied. -/
def checkSpendable (pindex : CBlockIndex) (nLockTimeFlags : Nat) (view : CoinsView) (tx : CTransaction) :
    Validation Unit :=
  if tx.IsCoinBase then .ok ()
  else if !HaveInputs view tx then DoS 100 REJECT_INVALID "bad-txns-inputs-missingorspent" false
  else
    let prevheights := tx.vin.map fun txin => (view txin.prevout.hash).nHeight
    if !SequenceLocks tx nLockTimeFlags prevheights pindex then DoS 100 REJECT_INVALID "bad-txns-nonfinal" false
    else .ok ()

/-- The value a transaction adds: a coin stake sets `nActualStakeReward` to
its surplus, any other transaction pays its fee into `nFees`. -/
def accountValue (view : CoinsView) (tx : CTransaction) (nFees nActualStakeReward : CAmount) :
    Except Abort (CAmount × CAmount) := do
  let nValueOut ← tx.GetValueOut
  let nValueIn ← GetValueIn view tx
  if tx.IsCoinStake then
    let nActualStakeReward ← subAmount nValueOut nValueIn
    return (nFees,nActualStakeReward)
  else
    let nTxFee ← subAmount nValueIn nValueOut
    let nFees ← addAmount nFees nTxFee
    return (nFees,nActualStakeReward)

/-- The part of the loop for a transaction that is not the coinbase: its
value, its inputs' checks, immediate or deferred, and its contract outputs
unless its first scriptSig reads `OP_TXHASH`. -/
def connectSpending (block : CBlock) (pindex : CBlockIndex) (flags : Nat) (tx : CTransaction)
    (state : ConnectState σ) : Validation (ConnectState σ) := do
  let (nFees,nActualStakeReward) ← liftAbort (accountValue state.view tx state.nFees state.nActualStakeReward)
  let hasTxhash := (tx.vin.head?.map fun txin => HasOpTXHASH txin.scriptSig).getD false
  let pvChecks := !(hasTxhash || tx.HasExec) && env.nScriptCheckThreads ≠ 0
  let (vChecks,context) ← CheckInputs env.crypto env.checkerFor tx state.view pindex.nHeight pindex.fScriptChecks
    flags pvChecks (some state.execution.context)
  let execution := {state.execution with context := context.getD state.execution.context}
  let execution ←
    if tx.HasExec && !hasTxhash then
      let oldRoots := (env.contracts.rootHash execution.globalState,env.contracts.rootHashUTXO execution.globalState)
      liftAbort (executeOutputs env block tx state.view oldRoots 0 tx.vout execution)
    else pure execution
  return {state with nFees,nActualStakeReward,control := state.control ++ vChecks,execution}

/-- One round of the loop: transaction `i` of the block. -/
def connectTransaction (block : CBlock) (pindex : CBlockIndex) (flags nLockTimeFlags : Nat) (i : Nat)
    (tx : CTransaction) (state : ConnectState σ) : Validation (ConnectState σ) := do
  let state := {state with execution.context.currentTxHash := tx.GetHash}
  checkSpendable pindex nLockTimeFlags state.view tx
  let cost ← liftAbort (GetTransactionSigOpCost tx state.view flags)
  let nSigOpsCost := state.nSigOpsCost + cost
  if MAX_BLOCK_SIGOPS_COST < nSigOpsCost then return ← DoS 100 REJECT_INVALID "bad-blk-sigops" false
  let state ← if tx.IsCoinBase then pure state else connectSpending env block pindex flags tx state
  let (view,txundo) ← liftAbort (UpdateCoins tx state.view pindex.nHeight)
  return {state with view,nSigOpsCost,vtxundo := if i = 0 then state.vtxundo else state.vtxundo ++ [txundo]}

def connectTransactionsFrom (block : CBlock) (pindex : CBlockIndex) (flags nLockTimeFlags : Nat) :
    Nat → List CTransaction → ConnectState σ → Validation (ConnectState σ)
  | _,[],state => .ok state
  | i,tx :: rest,state => do
    let state ← connectTransaction env block pindex flags nLockTimeFlags i tx state
    connectTransactionsFrom block pindex flags nLockTimeFlags (i + 1) rest state

/-- `control.Wait()`: the deferred checks, here one after another, on the
context the loop left. -/
def runChecks : List CScriptCheck → BlockValidationContext → Validation Unit
  | [],_ => .ok ()
  | check :: rest,context => do
    let verification ← liftAbort (check.run env.crypto env.checkerFor (some context))
    if !verification.result then return ← DoS 100 0 "" false
    runChecks rest (verification.context.getD context)

/-- The reward rule: the coinbase of a proof-of-work block, or the coin
stake's surplus in a proof-of-stake block, is at most the fees and the
subsidy. -/
def checkReward (block : CBlock) (state : ConnectState σ) : Validation Unit :=
  match block.vtx with
  | coinbase :: rest =>
    if block.IsProofOfWork then do
      let blockReward ← liftAbort (addAmount state.nFees GetProofOfWorkReward)
      let nValueOut ← liftAbort coinbase.GetValueOut
      if blockReward < nValueOut then DoS 100 REJECT_INVALID "bad-cb-amount" false else .ok ()
    else match rest with
      | coinstake :: _ =>
        if !env.GetCoinAge coinstake then .error .error
        else do
          let blockReward ← liftAbort (addAmount state.nFees GetProofOfStakeReward)
          if blockReward < state.nActualStakeReward then DoS 100 REJECT_INVALID "bad-cs-amount" false else .ok ()
      | [] => .error (.abort .outOfRange)
  | [] => .error (.abort .outOfRange)

/-- The checks after the loop, up to the state roots. -/
def finishBlock (block : CBlock) (state : ConnectState σ) : Validation Unit := do
  let execution := state.execution
  if !execution.context.expectedTxHashes.isEmpty then return ← .error .error
  let rewarded := if block.IsProofOfWork then block.vtx[0]? else block.vtx[1]?
  let refunded ← match rewarded with
    | some coinBaseTX => liftAbort (CheckRefunds env.crypto execution.refunds coinBaseTX block.IsProofOfWork)
    | none => .error (.abort .outOfRange)
  if !refunded then return ← DoS 100 REJECT_INVALID "bad-refund" false
  checkReward env block state
  runChecks env state.control execution.context
  if env.contracts.rootHashUTXO execution.globalState ≠ block.header.hashUTXORoot then
    return ← DoS 100 REJECT_INVALID "diverged-utxo-root" false
  if env.contracts.rootHash execution.globalState ≠ block.header.hashStateRoot then
    return ← DoS 100 REJECT_INVALID "diverged-state-root" false

/-- What a connected block leaves: the view, its best block, the undo data
and the global state. -/
structure Connected (σ : Type) where
  view : CoinsView
  bestBlock : uint256
  blockundo : CBlockUndo
  globalState : σ

/-- The rule of BIP30: no transaction of the block overwrites an entry that
still has unspent outputs. -/
def checkBIP30 (pindex : CBlockIndex) (view : CoinsView) (block : CBlock) : Validation Unit :=
  checkIf (pindex.fEnforceBIP30 && block.vtx.any fun tx => !(view tx.GetHash).IsPruned)
    (DoS 100 REJECT_INVALID "bad-txns-BIP30" false)

/-- `ConnectBlock(block, state, pindex, view, chainparams, fJustCheck)` on a
view whose best block is `bestBlock` and the global state `globalState`. -/
def ConnectBlock (block : CBlock) (pindex : CBlockIndex) (view : CoinsView) (bestBlock : uint256) (globalState : σ)
    (fJustCheck : Bool) : Validation (Connected σ) := do
  CheckBlock env.crypto env.params env.verify block (!fJustCheck) (!fJustCheck) true
  if pindex.prev.hashBlock ≠ bestBlock then return ← .error (.abort .assertion)
  if block.GetHash env.crypto = env.params.hashGenesisBlock then
    return ⟨view,if fJustCheck then bestBlock else pindex.hashBlock,⟨[]⟩,globalState⟩
  checkBIP30 pindex view block
  let flags := blockScriptFlags block pindex.prev
  let nLockTimeFlags := if pindex.prev.csvActive then LOCKTIME_VERIFY_SEQUENCE else 0
  let start : ConnectState σ := ⟨view,0,0,0,[],[],⟨globalState,⟨[],Blob.null 32⟩,[]⟩⟩
  let state ← connectTransactionsFrom env block pindex flags nLockTimeFlags 0 block.vtx start
  finishBlock env block state
  let globalState := state.execution.globalState
  if fJustCheck then
    return ⟨state.view,bestBlock,⟨state.vtxundo⟩,
      env.contracts.setRoots globalState pindex.prev.hashStateRoot pindex.prev.hashUTXORoot⟩
  return ⟨state.view,pindex.hashBlock,⟨state.vtxundo⟩,globalState⟩

end Connect

end Qtum
