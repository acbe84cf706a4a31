import Qtum.Coins.Coins
import Qtum.Coins.Compressor

/-! Undo data and the two directions of a block's effect on the coins view
(`undo.h`, `UpdateCoins`, `ApplyTxInUndo` and `DisconnectBlock` of
`main.cpp`). Connecting a block spends the outputs its transactions use and
records each spent output in a `CTxInUndo`, with the metadata of its
transaction when the spend removes the last output; disconnecting removes
the block's outputs and restores the spent ones from the undo data, in
reverse order. `DisconnectBlock` returns `none` where it returns an error
before finishing and otherwise the view and the `fClean` it reports; the
undo data it is given is what `UndoReadFromDisk` read. -/
namespace Qtum

open Script

structure CTxInUndo where
  txout : CTxOut
  fCoinBase : Bool
  fCoinStake : Bool
  nHeight : Nat
  nVersion : Int
  deriving DecidableEq

structure CTxUndo where
  vprevout : List CTxInUndo
  deriving DecidableEq

structure CBlockUndo where
  vtxundo : List CTxUndo
  deriving DecidableEq

namespace CTxInUndo

/-- The `CTxInUndo(txout)` constructor: no metadata. -/
def ofTxOut (txout : CTxOut) : CTxInUndo := ⟨txout,false,false,0,0⟩

/-- The packed code `nHeight*4 + fCoinBase + 2*fCoinStake`, an `unsigned int`. -/
def code (undo : CTxInUndo) : Nat :=
  (undo.nHeight * 4 + (if undo.fCoinBase then 1 else 0) + (if undo.fCoinStake then 2 else 0)) % 2 ^ 32

/-- Below height `2^30` the code does not wrap, and the three fields are read
back from it as `Unserialize` reads them. -/
theorem code_fields (undo : CTxInUndo) (small : undo.nHeight < 2 ^ 30) :
    undo.code / 4 = undo.nHeight ∧ decide (undo.code % 2 = 1) = undo.fCoinBase ∧
      decide (undo.code / 2 % 2 = 1) = undo.fCoinStake := by
  have fits : undo.nHeight * 4 + (if undo.fCoinBase then 1 else 0) + (if undo.fCoinStake then 2 else 0) < 2 ^ 32 := by
    split_ifs <;> omega
  unfold code
  rw [Nat.mod_eq_of_lt fits]
  cases undo.fCoinBase <;> cases undo.fCoinStake <;> simp <;> omega

def Serialize (pubkeys : PubKeyOps) (undo : CTxInUndo) : List UInt8 :=
  VarInt.write undo.code ++ (if 0 < undo.nHeight then VarInt.writeInt undo.nVersion else []) ++
    CTxOutCompressor.Serialize pubkeys undo.txout

/-- `Unserialize` into a fresh record, whose version stays 0 without a height. -/
def Unserialize (pubkeys : PubKeyOps) : Decoder CTxInUndo := do
  let nCode ← ReadVarIntUInt32
  let nHeight := nCode / 4
  let nVersion ← if 0 < nHeight then ReadVarIntInt32 else pure 0
  let txout ← CTxOutCompressor.Unserialize pubkeys
  -- `nCode & 1` and `nCode & 2`
  pure ⟨txout,nCode % 2 = 1,nCode / 2 % 2 = 1,nHeight,nVersion⟩

end CTxInUndo

def CTxUndo.Serialize (pubkeys : PubKeyOps) (txundo : CTxUndo) : List UInt8 :=
  WriteVector (CTxInUndo.Serialize pubkeys) txundo.vprevout

def CTxUndo.Unserialize (pubkeys : PubKeyOps) : Decoder CTxUndo :=
  CTxUndo.mk <$> ReadVector (CTxInUndo.Unserialize pubkeys)

def CBlockUndo.Serialize (pubkeys : PubKeyOps) (blockundo : CBlockUndo) : List UInt8 :=
  WriteVector (CTxUndo.Serialize pubkeys) blockundo.vtxundo

def CBlockUndo.Unserialize (pubkeys : PubKeyOps) : Decoder CBlockUndo :=
  CBlockUndo.mk <$> ReadVector (CTxUndo.Unserialize pubkeys)

/-! ## Connecting -/

/-- The input loop of `UpdateCoins`: each spent output, and the metadata of
its transaction where the spend prunes the entry. An input that names no
unspent output fails the `assert`. -/
def spendInputs (inputs : CoinsView) : List CTxIn → Except Abort (CoinsView × List CTxInUndo)
  | [] => .ok (inputs,[])
  | txin :: rest =>
    let coins := inputs txin.prevout.hash
    match coins.vout[txin.prevout.n]?,coins.Spend txin.prevout.n with
    | some txout,some spent =>
      let undo := if spent.vout.length = 0 then
          ⟨txout,coins.fCoinBase,coins.fCoinStake,toUnsigned 32 coins.nHeight,coins.nVersion⟩
        else CTxInUndo.ofTxOut txout
      do
        let (inputs,undos) ← spendInputs (inputs.modify txin.prevout.hash fun _ => spent) rest
        return (inputs,undo :: undos)
    | _,_ => .error .assertion

/-- `UpdateCoins(tx, inputs, txundo, nHeight)`: the view after it and the undo
record of the transaction. -/
def UpdateCoins (tx : CTransaction) (inputs : CoinsView) (nHeight : Int) :
    Except Abort (CoinsView × CTxUndo) := do
  let (inputs,vprevout) ← if tx.IsCoinBase then pure (inputs,[]) else spendInputs inputs tx.vin
  return (inputs.modify tx.GetHash fun _ => CCoins.FromTx tx nHeight,⟨vprevout⟩)

/-- The transactions after the first, each with its undo record. -/
def connectTransactions (nHeight : Int) : CoinsView → List CTransaction → Except Abort (CoinsView × List CTxUndo)
  | view,[] => .ok (view,[])
  | view,tx :: rest => do
    let (view,txundo) ← UpdateCoins tx view nHeight
    let (view,vtxundo) ← connectTransactions nHeight view rest
    return (view,txundo :: vtxundo)

/-- The loop of `ConnectBlock` over the block's transactions: the coinbase's
undo record goes to `undoDummy`, the others to `blockundo`. -/
def ConnectBlockUndo (vtx : List CTransaction) (nHeight : Int) (view : CoinsView) :
    Except Abort (CoinsView × CBlockUndo) :=
  match vtx with
  | [] => .ok (view,⟨[]⟩)
  | coinbase :: rest => do
    let (view,_) ← UpdateCoins coinbase view nHeight
    let (view,vtxundo) ← connectTransactions nHeight view rest
    return (view,⟨vtxundo⟩)

/-! ## Disconnecting -/

/-- `ApplyTxInUndo(undo, view, out)`: the view after it and whether it was
clean. The record's metadata replaces the entry through `Clear()` and three
of its fields; `vout[out.n]` is past the end where `out.n + 1` wraps. -/
def ApplyTxInUndo (undo : CTxInUndo) (view : CoinsView) (out : COutPoint) : Except Abort (CoinsView × Bool) :=
  let coins := view out.hash
  let (coins,fClean) :=
    if undo.nHeight ≠ 0 then
      ({coins.Clear with fCoinBase := undo.fCoinBase,nHeight := toSigned 32 undo.nHeight,nVersion := undo.nVersion},
        coins.IsPruned)
    else (coins,!coins.IsPruned)
  let fClean := fClean && !coins.IsAvailable out.n
  let size := (out.n + 1) % 2 ^ 32
  let vout := if coins.vout.length < size then
      coins.vout ++ List.replicate (size - coins.vout.length) CTxOut.null else coins.vout
  if out.n < vout.length then .ok (view.modify out.hash fun _ => {coins with vout := vout.set out.n undo.txout},fClean)
  else .error .outOfRange

/-- Whatever the record says, the entry it restores its metadata to is left
marked as no coinstake: `Clear()` resets `fCoinStake` and only `fCoinBase`,
`nHeight` and `nVersion` are set again. -/
theorem ApplyTxInUndo_fCoinStake {undo : CTxInUndo} {view restored : CoinsView} {out : COutPoint} {fClean : Bool}
    (applied : ApplyTxInUndo undo view out = .ok (restored,fClean)) (metadata : undo.nHeight ≠ 0) :
    (restored out.hash).fCoinStake = false := by
  unfold ApplyTxInUndo at applied
  simp only [metadata,ne_eq,not_false_eq_true,if_true] at applied
  -- whether the outputs were resized or not, the record's fields are the same
  split_ifs at applied <;> cases applied
  all_goals
    rw [CoinsView.modify_self]
    rfl

/-- The first step for each transaction: its outputs, compared with those the
block creates, are removed. -/
def removeOutputs (tx : CTransaction) (nHeight : Int) (view : CoinsView) : CoinsView × Bool :=
  let outs := (view tx.GetHash).ClearUnspendable
  let outsBlock := CCoins.FromTx tx nHeight
  let outs := if outsBlock.nVersion < 0 then {outs with nVersion := outsBlock.nVersion} else outs
  (view.modify tx.GetHash CCoins.Clear,outs.same outsBlock)

/-- The inputs of one transaction restored last to first, each paired with its
undo record. -/
def restoreInputs : CoinsView → Bool → List (CTxIn × CTxInUndo) → Except Abort (CoinsView × Bool)
  | view,fClean,[] => .ok (view,fClean)
  | view,fClean,(txin,undo) :: rest => do
    let (view,clean) ← ApplyTxInUndo undo view txin.prevout
    restoreInputs view (fClean && clean) rest

/-- The transactions last to first, each with its undo record (none for the
coinbase). -/
def disconnectTransactions (nHeight : Int) :
    CoinsView → Bool → List (CTransaction × Option CTxUndo) → Except Abort (Option (CoinsView × Bool))
  | view,fClean,[] => .ok (some (view,fClean))
  | view,fClean,(tx,txundo) :: rest =>
    let (view,matched) := removeOutputs tx nHeight view
    let fClean := fClean && matched
    match txundo with
    | none => disconnectTransactions nHeight view fClean rest
    | some txundo =>
      if txundo.vprevout.length ≠ tx.vin.length then .ok none
      else do
        let (view,fClean) ← restoreInputs view fClean (tx.vin.zip txundo.vprevout).reverse
        disconnectTransactions nHeight view fClean rest

def DisconnectBlock (vtx : List CTransaction) (nHeight : Int) (blockUndo : CBlockUndo) (view : CoinsView) :
    Except Abort (Option (CoinsView × Bool)) :=
  if blockUndo.vtxundo.length + 1 ≠ vtx.length then .ok none
  else match vtx with
    | [] => .ok none
    | coinbase :: rest =>
      disconnectTransactions nHeight view true
        ((coinbase,none) :: (rest.zip blockUndo.vtxundo).map fun (tx,txundo) => (tx,some txundo)).reverse

/-- A block connected, its undo data written and read back, and the block
disconnected again. -/
def reconnect (pubkeys : PubKeyOps) (vtx : List CTransaction) (nHeight : Int) (view : CoinsView) :
    Except Abort (Option (CoinsView × Bool)) := do
  let (connected,blockundo) ← ConnectBlockUndo vtx nHeight view
  match ← CBlockUndo.Unserialize pubkeys (CBlockUndo.Serialize pubkeys blockundo) with
  | none => return none
  | some (blockUndo,_) => DisconnectBlock vtx nHeight blockUndo connected

/-- A coinstake at height 1 whose first output was spent and whose second is
not, in a view that holds nothing else. -/
def stakeCoins : CCoins := ⟨false,true,[CTxOut.null,⟨COIN,[UInt8.ofNat OP_1]⟩],1,1⟩

def stakeView : CoinsView := fun txid => if txid = Blob.replicate 32 1 then stakeCoins else CCoins.empty

/-- A block at height 2: a coinbase, and a transaction spending the
coinstake's last output. -/
def stakeSpendingBlock : List CTransaction :=
  [⟨Blob.replicate 32 2,1,[⟨COutPoint.null,[UInt8.ofNat OP_1],SEQUENCE_FINAL⟩],[⟨COIN,[UInt8.ofNat OP_1]⟩],[],0,0⟩,
    ⟨Blob.replicate 32 3,1,[⟨⟨Blob.replicate 32 1,1⟩,[],SEQUENCE_FINAL⟩],[⟨COIN,[UInt8.ofNat OP_1]⟩],[],0,0⟩]

/-- Disconnecting the block reports a clean undo, yet the coinstake comes back
as an ordinary transaction, unequal to the entry it was. -/
theorem reconnect_loses_fCoinStake (pubkeys : PubKeyOps) :
    ∃ after, reconnect pubkeys stakeSpendingBlock 2 stakeView = .ok (some (after,true)) ∧
      after (Blob.replicate 32 1) = {stakeCoins with fCoinStake := false} ∧
      CCoins.same (after (Blob.replicate 32 1)) (stakeView (Blob.replicate 32 1)) = false :=
  ⟨_,rfl,rfl,rfl⟩

end Qtum
