import Qtum.Validation.Value
import Qtum.Contract.Agreement

/-! Contract execution inside `ConnectBlock`, on a regtest chain whose block
pays a coinbase, funds a key and calls a contract from the funded output.
Two things of the run are decided outside the block and its view. The
refund's recipient is `GetSenderAddress(tx)` asked without a view, so the
node looks the funding transaction up in its mempool, its transaction index
and the tip's coins, none of which holds an output created in the block
being connected: whether `CheckRefunds` accepts the coinbase depends on the
node's mempool. And the executor re-reads the call from the stack that
`EvalScript` leaves, and reads the coinbase's payee, without the checks that
`CheckTransaction` and `CheckBlock` make. -/
namespace Qtum

open Script Contract

/-! ## A regtest chain with a contract call -/

/-- `GetScriptForDestination` of a key id: `OP_DUP OP_HASH160 <keyID>
OP_EQUALVERIFY OP_CHECKSIG`. -/
def payToKeyID (keyID : uint160) : CScript :=
  pushOpcode (pushOpcode (pushData (pushOpcode (pushOpcode [] OP_DUP) OP_HASH160) keyID.bytes) OP_EQUALVERIFY)
    OP_CHECKSIG

def senderKey : uint160 := Blob.replicate 20 9

/-- A compressed public key and a strict DER signature of hash type `SIGHASH_ALL`. -/
def senderScriptSig : CScript :=
  pushData (pushData [] [0x30,0x06,0x02,0x01,0x01,0x02,0x01,0x01,0x01]) (2 :: List.replicate 32 0x11)

def fundingTxid : uint256 := Blob.replicate 32 10

def fundingView : CoinsView := fun txid =>
  if txid = fundingTxid then ⟨false,false,[⟨2 * COIN,[UInt8.ofNat OP_1]⟩],1,1⟩ else CCoins.empty

/-- The transaction that pays a coin to `senderKey` in the block. -/
def fundTx : CTransaction :=
  ⟨Blob.replicate 32 12,1,[⟨⟨fundingTxid,0⟩,[],SEQUENCE_FINAL⟩],[⟨COIN,payToKeyID senderKey⟩],[],0,1500000000⟩

/-- A coinbase that pays the subsidy to `payee` and a coin, the refund, to
`senderKey`. -/
def contractCoinbase (payee : CScript) : CTransaction :=
  ⟨Blob.replicate 32 11,1,[⟨COutPoint.null,pushInt64 [] 101,SEQUENCE_FINAL⟩],
    [⟨GetProofOfWorkReward,payee⟩,⟨COIN,payToKeyID senderKey⟩],[],0,1500000000⟩

/-- The call: it spends the output `fundTx` creates, with the whole coin as fee. -/
def contractCall (contract : CScript) : CTransaction :=
  ⟨Blob.replicate 32 13,1,[⟨⟨fundTx.hash,0⟩,senderScriptSig,SEQUENCE_FINAL⟩],[⟨0,contract⟩],[],0,1500000000⟩

/-- Hash functions under which `senderScriptSig`'s key hashes to `senderKey`. -/
def keyCrypto : Crypto := ⟨fun _ => senderKey,fun _ => Blob.null 20,fun _ => Blob.null 32,fun _ => true⟩

def contractBlock (payee contract : CScript) : CBlock :=
  let vtx := [contractCoinbase payee,fundTx,contractCall contract]
  ⟨{nVersion := 4,hashPrevBlock := inflationPrev.hashBlock,
      hashMerkleRoot := (ComputeMerkleRoot keyCrypto (vtx.map CTransaction.GetHash)).1,nTime := 1500000000,
      nBits := inflationBits,nNonce := 0,vchBlockSig := [],fStake := false,prevoutStake := COutPoint.null,
      nStakeTime := 0,hashStateRoot := Blob.null 32,hashUTXORoot := Blob.null 32},vtx⟩

/-- A contract machinery whose every run refunds a coin, generates nothing
and keeps the state roots. -/
def refundingContracts : ContractEnv Unit :=
  ⟨fun _ _ _ => .ok (⟨[],COIN⟩,()),fun _ => Blob.null 32,fun _ => Blob.null 32,fun _ _ _ => (),1000000⟩

/-- The setting of the runs below: every signature verifies. -/
def contractEnv (node : NodeState) : ValidationEnv Unit :=
  ⟨keyCrypto,regtestParams,fun _ _ _ => false,fun _ _ _ => ⟨fun _ _ _ _ => true,fun _ => true,fun _ => true⟩,
    refundingContracts,node,fun _ => true,0⟩

/-! ## The refund's recipient -/

/-- Pay to script hash: `OP_HASH160 <scriptID> OP_EQUAL`. -/
def payToScriptHash (scriptID : uint160) : CScript :=
  pushOpcode (pushData (pushOpcode [] OP_HASH160) scriptID.bytes) OP_EQUAL

/-- A deployment whose data slot holds `OP_DROP`: `ParseScriptPubKey` takes
any instruction that pushes nothing for the data, and the run drops the gas
price before `OP_EXEC`. -/
def droppingScript : CScript :=
  pushOpcode (pushOpcode (pushData (pushData (pushData [] (CScriptNum.serialize 1)) (CScriptNum.serialize 100000))
    (CScriptNum.serialize 40)) OP_DROP) OP_EXEC

set_option maxRecDepth 20000 in
/-- Three blocks that pass `CheckBlock` and `ContextualCheckBlock` end their
connection in an exception or undefined behaviour of the executor: a
coinbase that pays to a script hash makes `boost::get<CKeyID>` throw, a
call whose run leaves two elements makes `parseTXArguments` read
`back()` of an empty stack, and a gas limit and price of `2^32` each make
their `int64_t` product overflow. -/
theorem contract_execution_aborts_in_checked_blocks :
    (CheckBlock keyCrypto regtestParams (fun _ _ _ => false)
        (contractBlock (payToScriptHash senderKey) (deployScript 100000 40 [0x60,0x00])) true true true = .ok () ∧
      ContextualCheckBlock keyCrypto (contractBlock (payToScriptHash senderKey) (deployScript 100000 40 [0x60,0x00]))
        inflationPrev = .ok () ∧
      ConnectBlock (contractEnv quietNode) (contractBlock (payToScriptHash senderKey) (deployScript 100000 40 [0x60,0x00]))
        inflationIndex fundingView inflationPrev.hashBlock () false = .error (.abort .exception)) ∧
    (CheckBlock keyCrypto regtestParams (fun _ _ _ => false) (contractBlock (payToKeyID senderKey) droppingScript) true
        true true = .ok () ∧
      ContextualCheckBlock keyCrypto (contractBlock (payToKeyID senderKey) droppingScript) inflationPrev = .ok () ∧
      ConnectBlock (contractEnv quietNode) (contractBlock (payToKeyID senderKey) droppingScript) inflationIndex
        fundingView inflationPrev.hashBlock () false = .error (.abort .emptyAccess)) ∧
    (CheckBlock keyCrypto regtestParams (fun _ _ _ => false)
        (contractBlock (payToKeyID senderKey) (deployScript (2 ^ 32) (2 ^ 32) [0x60,0x00])) true true true = .ok () ∧
      ContextualCheckBlock keyCrypto (contractBlock (payToKeyID senderKey) (deployScript (2 ^ 32) (2 ^ 32) [0x60,0x00]))
        inflationPrev = .ok () ∧
      ConnectBlock (contractEnv quietNode) (contractBlock (payToKeyID senderKey) (deployScript (2 ^ 32) (2 ^ 32) [0x60,0x00]))
        inflationIndex fundingView inflationPrev.hashBlock () false = .error (.abort .overflow)) := by
  -- each run is evaluated; a connection's result is compared through its failure
  refine ⟨⟨?_,?_,?_⟩,⟨?_,?_,?_⟩,⟨?_,?_,?_⟩⟩
  · rfl
  · rfl
  · exact Abort.eq_error_of_failureOf (by rfl)
  · rfl
  · rfl
  · exact Abort.eq_error_of_failureOf (by rfl)
  · rfl
  · rfl
  · exact Abort.eq_error_of_failureOf (by rfl)

end Qtum
