import Qtum.Primitives.Block
import Qtum.Coins.Coins
import Qtum.Contract.Parse

/-! The executor of contract outputs, `BCExecutor` and `BitTxToEthTx` of
`main.cpp`. A contract output is turned into a `QtumTransaction` a second
time, apart from `ParseScriptPubKey`: its script is run by `EvalScript` with
`SCRIPT_EXEC_BYTE_CODE`, which pushes the script from `OP_EXEC` on and stops,
and the arguments are popped off the stack it leaves, whatever
`receiveStack` answered. The sender is the key id paid by the output that
the first input spends, read through the validation view; without a view,
as `ConnectBlock` asks for the refund's recipient, `GetTransaction` looks the
spent transaction up in the node's mempool, transaction index and block
files. The EVM environment names the coinbase's first payee as the author. -/
namespace Qtum.Contract

open Script

/-! ## The node's lookup of transactions -/

/-- `chainActive.Tip()`: its height, and the hashes of it and its ancestors,
the tip's first. -/
structure ChainTip where
  nHeight : Int
  ancestors : List uint256

/-- What `GetTransaction` and `BuildEVMEnvironment` read of the node. The
mempool is indexed by txid. -/
structure NodeState where
  /-- `mempool.get(hash)`. -/
  mempool : uint256 → Option CTransaction
  mempool_hash : ∀ hash tx, mempool hash = some tx → tx.GetHash = hash
  /-- `-txindex`. -/
  fTxIndex : Bool
  /-- `pblocktree->ReadTxIndex(hash, postx)` and the transaction read at the
  position: `none` where the hash is not indexed, `some none` where the
  block file cannot be opened or read. -/
  txIndex : uint256 → Option (Option CTransaction)
  /-- The height of `pcoinsTip->AccessCoins(hash)` where the tip's view has
  an entry for the hash. -/
  tipCoinsHeight : uint256 → Option Int
  /-- `ReadBlockFromDisk(block, chainActive[nHeight])`: the transactions,
  or none where the chain has no such block or its file is pruned. -/
  blockAt : Int → Option (List CTransaction)
  tip : ChainTip

/-- `GetTransaction(hash, txOut, params, hashBlock, fAllowSlow)`: the
mempool, then the transaction index, whose failures end the lookup, then
the block at the height the tip's coins record. -/
def GetTransaction (node : NodeState) (hash : uint256) (fAllowSlow : Bool) : Option CTransaction :=
  match node.mempool hash with
  | some ptx => some ptx
  | none =>
    match (if node.fTxIndex then node.txIndex hash else none) with
    | some read => read.filter fun txOut => txOut.GetHash = hash
    | none =>
      let nHeight := if fAllowSlow then (node.tipCoinsHeight hash).getD (-1) else -1
      if 0 < nHeight then (node.blockAt nHeight).bind fun vtx => vtx.find? fun tx => tx.GetHash = hash
      else none

/-- The key id a script pays to, as bytes, or the empty vector. -/
def keyIDBytes (crypto : Crypto) (script : CScript) : valtype :=
  match ExtractDestination crypto script with
  | some (.keyID senderAddress) => senderAddress.bytes
  | _ => []

/-- The script of output `n` of a transaction, read unchecked. -/
def scriptOf (vout : List CTxOut) (n : Nat) : Except Abort CScript :=
  match vout[n]? with
  | some txout => .ok txout.scriptPubKey
  | none => .error .outOfRange

/-- `GetSenderAddress(tx, coinsView)`. A view is read unchecked: a txid it
does not hold reads as `CCoins()`, whose outputs are none. Without a view a
transaction `GetTransaction` cannot find gives the empty vector. -/
def GetSenderAddress (crypto : Crypto) (node : NodeState) (tx : CTransaction) (coinsView : Option CoinsView) :
    Except Abort valtype := do
  let txin ← match tx.vin[0]? with
    | some txin => pure txin
    | none => .error .outOfRange
  match coinsView with
  | some view => do
    let script ← scriptOf (view txin.prevout.hash).vout txin.prevout.n
    return keyIDBytes crypto script
  | none =>
    match GetTransaction node txin.prevout.hash true with
    | some txPrevout => do
      let script ← scriptOf txPrevout.vout txin.prevout.n
      return keyIDBytes crypto script
    | none => return []

section Sender

variable (crypto : Crypto) (node : NodeState) {tx : CTransaction} {txin : CTxIn} {txout : CTxOut}

/-- With a view the sender is the key id of the spent output in the view;
the node is not asked. -/
theorem GetSenderAddress_view {view : CoinsView} (first : tx.vin[0]? = some txin)
    (spent : (view txin.prevout.hash).vout[txin.prevout.n]? = some txout) :
    GetSenderAddress crypto node tx (some view) = .ok (keyIDBytes crypto txout.scriptPubKey) := by
  simp [GetSenderAddress,first,scriptOf,spent]

end Sender

/-! ## `BitTxToEthTx` -/

/-- `dev::Address`. -/
abbrev Address := uint160

/-- `dev::Address(bytes)`: the bytes where there are twenty, otherwise zero. -/
def Address.ofBytes (bytes : valtype) : Address := (Blob.ofBytes? 20 bytes).getD (Blob.null 20)

/-- `VmArgumentsType`. -/
structure VmArgumentsType where
  version : Int
  gasLimit : Int
  gasPrice : Int
  code : valtype
  «to» : Address

/-- `QtumTransaction` as `createEthTX` builds it: a call to `receiveAddress`,
or a creation where it is none. The nonce is zero. -/
structure QtumTransaction where
  value : Nat
  gasPrice : Nat
  gas : Nat
  receiveAddress : Option Address
  data : valtype
  sender : Address
  hashWith : uint256
  voutNumber : Nat
  version : Nat

/-- `a * b` on `int64_t`, undefined where the product leaves the type. -/
def mulInt64 (a b : Int) : Except Abort Int :=
  if FitsInt64 (a * b) then .ok (a * b) else .error .overflow

/-- `stack.back()` and `stack.pop_back()`; the stack's top is its head. -/
def popBack : List valtype → Except Abort (valtype × List valtype)
  | [] => .error .emptyAccess
  | top :: stack => .ok (top,stack)

/-- `receiveStack`: what it returns, the stack it leaves and the `opcode`
member, unassigned where the evaluation leaves nothing. The first byte of
the top is read even where the top is empty. -/
def receiveStack (crypto : Crypto) (scriptPubKey : CScript) : Except Abort (Bool × List valtype × Option Nat) := do
  let evaluation ← EvalScript crypto [] scriptPubKey SCRIPT_EXEC_BYTE_CODE BaseSignatureChecker .SIGVERSION_BASE none
  match evaluation.stack with
  | [] => return (false,[],none)
  | scriptRest :: stack =>
    match scriptRest with
    | [] => .error .outOfRange
    | first :: _ =>
      let opcode := first.toNat
      return (!(stack.length < 4 || (opcode = OP_EXEC_ASSIGN && stack.length < 5)),stack,some opcode)

/-- `parseTXArguments` on the stack and `opcode` that `receiveStack` left:
the address of a call, the code, the gas price, the gas limit and the
version, popped from the top. -/
def parseTXArguments (stack : List valtype) (opcode : Option Nat) : Except Abort VmArgumentsType := do
  let opcode ← match opcode with
    | some opcode => pure opcode
    | none => .error .uninitializedRead
  let (vecAddr,stack) ← if opcode = OP_EXEC_ASSIGN then popBack stack else pure ([],stack)
  let (code,stack) ← popBack stack
  let (gasPrice,stack) ← popBack stack
  let gasPrice ← scriptNum gasPrice false 8
  let (gasLimit,stack) ← popBack stack
  let gasLimit ← scriptNum gasLimit false 8
  let (version,_) ← popBack stack
  let version ← scriptNum version false 4
  return ⟨CScriptNum.getint version,gasLimit,gasPrice,code,Address.ofBytes vecAddr⟩

/-- `createEthTX`: a creation where the address is zero; the gas is the
`int64_t` product of limit and price, the amounts taken to `u256` and the
output's index and the version to `unsigned char`. -/
def createEthTX (crypto : Crypto) (node : NodeState) (txBit : CTransaction) (nOut : Nat)
    (coinsView : Option CoinsView) (argEthTx : VmArgumentsType) : Except Abort QtumTransaction := do
  let txout ← match txBit.vout[nOut]? with
    | some txout => pure txout
    | none => .error .outOfRange
  let gas ← mulInt64 argEthTx.gasLimit argEthTx.gasPrice
  let receiveAddress := if argEthTx.«to» = Blob.null 20 then none else some argEthTx.«to»
  let sender ← GetSenderAddress crypto node txBit coinsView
  return ⟨toUnsigned 256 txout.nValue,toUnsigned 256 argEthTx.gasPrice,toUnsigned 256 gas,receiveAddress,argEthTx.code,
    Address.ofBytes sender,txBit.GetHash,nOut % 256,toUnsigned 8 argEthTx.version⟩

/-- `getEthTx`: the result of `receiveStack` is not looked at. -/
def getEthTx (crypto : Crypto) (node : NodeState) (txBit : CTransaction) (nOut : Nat) (coinsView : Option CoinsView) :
    Except Abort QtumTransaction := do
  let scriptPubKey ← scriptOf txBit.vout nOut
  let (_,stack,opcode) ← receiveStack crypto scriptPubKey
  let argEthTx ← parseTXArguments stack opcode
  createEthTX crypto node txBit nOut coinsView argEthTx

/-! ## `BCExecutor` -/

/-- `EnvInfo` as `BuildEVMEnvironment` sets it. -/
structure EnvInfo where
  number : Nat
  timestamp : Nat
  difficulty : Nat
  lastHashes : List uint256
  gasLimit : Nat
  author : Address

/-- `EthAddrFromScript`: `boost::get<CKeyID>` throws `bad_get` on a
destination of another type. -/
def EthAddrFromScript (crypto : Crypto) (scriptIn : CScript) : Except Abort Address :=
  match ExtractDestination crypto scriptIn with
  | none => .ok (Blob.null 20)
  | some (.keyID resPH) => .ok resPH
  | some _ => .error .exception

/-- The 256 last hashes: the tip and its ancestors, then zero. -/
def lastHashesOf (tip : ChainTip) : List uint256 :=
  let known := tip.ancestors.take 256
  known ++ List.replicate (256 - known.length) (Blob.null 32)

/-- `BuildEVMEnvironment`: `vtx.at(0)` and `vout.at(0)` throw `out_of_range`. -/
def BuildEVMEnvironment (crypto : Crypto) (tip : ChainTip) (block : CBlock) : Except Abort EnvInfo := do
  let coinbase ← match block.vtx[0]? with
    | some coinbase => pure coinbase
    | none => .error .exception
  let txout ← match coinbase.vout[0]? with
    | some txout => pure txout
    | none => .error .exception
  let author ← EthAddrFromScript crypto txout.scriptPubKey
  return ⟨toUnsigned 256 (tip.nHeight + 1),block.header.nTime,block.header.nBits,lastHashesOf tip,500000000,author⟩

/-- `BCExecutor(block, tx, nOut, coinsView).execute()`: the transaction is
converted, then the environment built and the global state's `execute` run
on both with `Permanence::Committed`. -/
def BCExecutor.execute {σ ρ : Type} (crypto : Crypto) (node : NodeState)
    (run : σ → EnvInfo → QtumTransaction → Except Abort (ρ × σ)) (globalState : σ) (block : CBlock)
    (tx : CTransaction) (nOut : Nat) (coinsView : Option CoinsView) : Except Abort (ρ × σ) := do
  let qtumTx ← getEthTx crypto node tx nOut coinsView
  let env ← BuildEVMEnvironment crypto node.tip block
  run globalState env qtumTx

end Qtum.Contract
