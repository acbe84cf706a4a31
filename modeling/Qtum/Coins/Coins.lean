import Qtum.Primitives.Transaction

/-! The unspent outputs of one transaction, `CCoins` of `coins.h`, with
Qtum's `fCoinStake` flag, and the coins view that `UpdateCoins`,
`ApplyTxInUndo` and `DisconnectBlock` modify. A view maps every txid to its
`CCoins`; a txid the view does not hold reads as `CCoins()`, as
`AccessCoins` returns. `CCoinsViewCache::ModifyCoins` hands out the entry and
the modifier's destructor runs `Cleanup`: that is `CoinsView.modify`. A
pruned entry is kept rather than erased; `operator==` does not tell the two
apart. -/
namespace Qtum

open Script

structure CCoins where
  fCoinBase : Bool
  fCoinStake : Bool
  vout : List CTxOut
  nHeight : Int
  nVersion : Int
  deriving DecidableEq

namespace CCoins

/-- `CCoins()` and `Clear()`. -/
def empty : CCoins := ⟨false,false,[],0,0⟩

def Clear (_ : CCoins) : CCoins := empty

/-- `Cleanup`: drop the spent outputs at the end. -/
def Cleanup (coins : CCoins) : CCoins :=
  {coins with vout := (coins.vout.reverse.dropWhile CTxOut.IsNull).reverse}

/-- `ClearUnspendable`: spend the provably unspendable outputs, then `Cleanup`. -/
def ClearUnspendable (coins : CCoins) : CCoins :=
  let vout := coins.vout.map fun txout => if IsUnspendable txout.scriptPubKey then CTxOut.null else txout
  Cleanup {coins with vout}

/-- `FromTx(tx, nHeightIn)` and the constructor `CCoins(tx, nHeightIn)`. -/
def FromTx (tx : CTransaction) (nHeightIn : Int) : CCoins :=
  ClearUnspendable ⟨tx.IsCoinBase,tx.IsCoinStake,tx.vout,nHeightIn,tx.nVersion⟩

def IsPruned (coins : CCoins) : Bool := coins.vout.all CTxOut.IsNull

def IsAvailable (coins : CCoins) (nPos : Nat) : Bool :=
  match coins.vout[nPos]? with
  | some txout => !txout.IsNull
  | none => false

/-- `Spend(nPos)`: `none` where it returns false. -/
def Spend (coins : CCoins) (nPos : Nat) : Option CCoins :=
  if coins.IsAvailable nPos then some (Cleanup {coins with vout := coins.vout.set nPos CTxOut.null})
  else none

/-- `operator==`: two pruned entries are always equal. -/
def same (first second : CCoins) : Bool :=
  (first.IsPruned && second.IsPruned) ||
    (first.fCoinBase == second.fCoinBase && first.fCoinStake == second.fCoinStake &&
      first.nHeight == second.nHeight && first.nVersion == second.nVersion && first.vout == second.vout)

@[simp] theorem empty_IsPruned : empty.IsPruned = true := rfl

theorem same_refl (coins : CCoins) : same coins coins = true := by
  simp [same]

end CCoins

/-- A coins view: the `CCoins` every txid reads as. -/
abbrev CoinsView := uint256 → CCoins

namespace CoinsView

/-- `ModifyCoins(txid)`, the change made through the modifier, and the
modifier's `Cleanup`. -/
def modify (view : CoinsView) (txid : uint256) (change : CCoins → CCoins) : CoinsView :=
  Function.update view txid (CCoins.Cleanup (change (view txid)))

/-- Two views agree on every txid under `CCoins::operator==`. -/
def Same (first second : CoinsView) : Prop := ∀ txid, CCoins.same (first txid) (second txid) = true

@[simp] theorem modify_self (view : CoinsView) (txid : uint256) (change : CCoins → CCoins) :
    view.modify txid change txid = CCoins.Cleanup (change (view txid)) := by
  simp [modify]

theorem modify_other {view : CoinsView} {txid other : uint256} (change : CCoins → CCoins)
    (different : other ≠ txid) : view.modify txid change other = view other := by
  simp [modify,different]

end CoinsView

end Qtum
