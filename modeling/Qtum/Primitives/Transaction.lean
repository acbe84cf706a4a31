import Qtum.Script.Verify

/-! Transactions as `primitives/transaction.h` defines them, with Qtum's
`nTime` field and its structural tests `IsCoinBase`, `IsCoinStake` and
`HasExec`. The memory-only `hash` member, which `UpdateHash` computes as the
double SHA-256 of the serialization, is a field of the model: `GetHash()`
reads it. -/
namespace Qtum

open Script

/-- `COutPoint`: a transaction hash and an output index (`uint32_t`). -/
structure COutPoint where
  hash : uint256
  n : Nat
  deriving DecidableEq

/-- `COutPoint::IsNull`: the null hash with index `(uint32_t) -1`. -/
def COutPoint.IsNull (prevout : COutPoint) : Bool :=
  prevout.hash.IsNull && prevout.n == 0xffffffff

/-- The outpoint `SetNull()` leaves, which a coinbase input spends. -/
def COutPoint.null : COutPoint := ⟨Blob.null 32,0xffffffff⟩

structure CTxIn where
  prevout : COutPoint
  scriptSig : CScript
  nSequence : Nat
  deriving DecidableEq

/-- `CTxIn::SEQUENCE_FINAL`, the default of the constructors. -/
def SEQUENCE_FINAL : Nat := 0xffffffff

structure CTxOut where
  nValue : CAmount
  scriptPubKey : CScript
  deriving DecidableEq

namespace CTxOut

/-- The spent output `SetNull()` leaves. -/
def null : CTxOut := ⟨-1,[]⟩

def IsNull (txout : CTxOut) : Bool := txout.nValue == -1

/-- Qtum's empty output: no value and no script. -/
def IsEmpty (txout : CTxOut) : Bool := txout.nValue == 0 && txout.scriptPubKey.isEmpty

@[simp] theorem null_IsNull : null.IsNull = true := rfl

end CTxOut

/-- `CTransaction`; `wit` holds `wit.vtxinwit[i].scriptWitness` by input. -/
structure CTransaction where
  hash : uint256
  nVersion : Int
  vin : List CTxIn
  vout : List CTxOut
  wit : List CScriptWitness
  nLockTime : Nat
  nTime : Nat
  deriving DecidableEq

namespace CTransaction

def GetHash (tx : CTransaction) : uint256 := tx.hash

/-- A single input spending the null outpoint, and at least one output. -/
def IsCoinBase (tx : CTransaction) : Bool :=
  tx.vin.length == 1 && (tx.vin.head?.map (·.prevout.IsNull)).getD false && 1 ≤ tx.vout.length

/-- The coin stake is marked by an empty first output (ppcoin). -/
def IsCoinStake (tx : CTransaction) : Bool :=
  0 < tx.vin.length && !(tx.vin.head?.map (·.prevout.IsNull)).getD true && 2 ≤ tx.vout.length &&
    (tx.vout.head?.map CTxOut.IsEmpty).getD false

def HasExec (tx : CTransaction) : Bool :=
  tx.vout.any fun txout => HasOpExec txout.scriptPubKey || HasOpAssign txout.scriptPubKey

/-- The witness of input `nIn`, or none: `nIn < wit.vtxinwit.size() ? ... : NULL`. -/
def witnessOf (tx : CTransaction) (nIn : Nat) : CScriptWitness := (tx.wit[nIn]?).getD ⟨[]⟩

/-- The running sum of `GetValueOut`: it throws where an output or a partial
sum leaves the money range, and a partial sum that leaves `int64_t` has
already overflowed. -/
def valueOutFrom : CAmount → List CTxOut → Except Abort CAmount
  | nValueOut, [] => .ok nValueOut
  | nValueOut, txout :: rest =>
    let nValueOut := nValueOut + txout.nValue
    if !decide (FitsInt64 nValueOut) then .error .overflow
    else if !MoneyRange txout.nValue || !MoneyRange nValueOut then .error .exception
    else valueOutFrom nValueOut rest

/-- `CTransaction::GetValueOut`. -/
def GetValueOut (tx : CTransaction) : Except Abort CAmount := valueOutFrom 0 tx.vout

end CTransaction

end Qtum
