import Qtum.Contract.Parse
import Qtum.Primitives.TxSerialize

/-! The context-free checks of a transaction, `CheckTransaction` of
`main.cpp`, and the way validation functions fail. A check that returns
false leaves `CValidationState` invalid with a DoS score, a reject code and a
reason (`state.DoS`, `state.Invalid`), or returns `error(...)` with the state
untouched; an abort is undefined behaviour, a failed assertion or an
exception. Amounts are `int64_t`: a sum that leaves its range is undefined. -/
namespace Qtum

open Script Contract

def REJECT_MALFORMED : Nat := 0x01
def REJECT_INVALID : Nat := 0x10
def REJECT_OBSOLETE : Nat := 0x11
def REJECT_NONSTANDARD : Nat := 0x40

def MAX_BLOCK_SERIALIZED_SIZE : Nat := 4000000
def MAX_BLOCK_WEIGHT : Nat := 4000000
def MAX_BLOCK_BASE_SIZE : Nat := 1000000
def MAX_BLOCK_SIGOPS_COST : Nat := 80000
def COINBASE_MATURITY : Int := 25
def WITNESS_SCALE_FACTOR : Nat := 4

/-- What `CValidationState::DoS` leaves in the state. -/
structure Reject where
  nDoS : Nat
  chRejectCode : Nat
  strRejectReason : String
  corruptionPossible : Bool
  deriving DecidableEq

/-- How a validation function ends other than by returning true. -/
inductive Failure
  /-- The state is invalid: a rule of the network is broken. -/
  | invalid (reject : Reject)
  /-- False with the state still valid, as `return error(...)` leaves it. -/
  | error
  | abort (reason : Abort)
  deriving DecidableEq

abbrev Validation (α : Type) := Except Failure α

/-- `state.DoS(level, false, chRejectCode, strRejectReason, corruptionIn)`. -/
def DoS {α : Type} (level chRejectCode : Nat) (strRejectReason : String) (corruptionIn : Bool) :
    Validation α :=
  .error (.invalid ⟨level,chRejectCode,strRejectReason,corruptionIn⟩)

/-- `state.Invalid(false, chRejectCode, strRejectReason)`. -/
def Invalid {α : Type} (chRejectCode : Nat) (strRejectReason : String) : Validation α :=
  DoS 0 chRejectCode strRejectReason false

def liftAbort {α : Type} : Except Abort α → Validation α
  | .ok value => .ok value
  | .error reason => .error (.abort reason)

@[simp] theorem liftAbort_ok {α : Type} (value : α) : liftAbort (.ok value) = .ok value := rfl

@[simp] theorem liftAbort_error {α : Type} (reason : Abort) :
    liftAbort (.error reason : Except Abort α) = .error (.abort reason) := rfl

/-- `a + b` on `CAmount`, undefined where the sum leaves `int64_t`. -/
def addAmount (a b : CAmount) : Except Abort CAmount :=
  if FitsInt64 (a + b) then .ok (a + b) else .error .overflow

/-- Reading a member of `CDataForContract`, which has no initializer. -/
def readField {α : Type} : Option α → Validation α
  | some value => .ok value
  | none => .error (.abort .uninitializedRead)

/-- A contract output in `CheckTransaction`: it must parse, its version must
be 0 or 1, and at most one output may deploy or run version-1 code. -/
def checkContractOutput (scriptPubKey : CScript) (countExecOpcode : Nat) : Validation Nat := do
  let (parsed,transactionType,dataContract) ←
    liftAbort (ParseScriptPubKey CDataForContract.declared scriptPubKey 1)
  if !parsed then DoS 100 REJECT_INVALID "bad-txns-vout-opcodeafterexec" false
  else
    -- the version is read first, also for a deployment
    let version ← readField dataContract.version
    let countExecOpcode :=
      if version = 1 ∨ transactionType = .TX_DEPLOYMENT then countExecOpcode + 1 else countExecOpcode
    if version < 0 ∨ 1 < version then DoS 100 REJECT_INVALID "bad-txns-incorrect-version" false
    else if 1 < countExecOpcode then DoS 100 REJECT_INVALID "bad-txns-manyexecopcodes" false
    else pure countExecOpcode

/-- The count of executing outputs after one more output: only an output
with `OP_EXEC` or `OP_EXEC_ASSIGN` is parsed. -/
def countExecOutput (scriptPubKey : CScript) (countExecOpcode : Nat) : Validation Nat :=
  if HasOpExec scriptPubKey || HasOpAssign scriptPubKey then checkContractOutput scriptPubKey countExecOpcode
  else pure countExecOpcode

/-- The output loop of `CheckTransaction` with `nValueOut` and
`countExecOpcode` so far. -/
def checkOutputs (tx : CTransaction) : CAmount → Nat → List CTxOut → Validation Unit
  | _,_,[] => .ok ()
  | nValueOut,countExecOpcode,txout :: rest =>
    if txout.IsEmpty && !tx.IsCoinBase && !tx.IsCoinStake then DoS 100 REJECT_INVALID "bad-txns-vout-empty" false
    else if txout.nValue < 0 then DoS 100 REJECT_INVALID "bad-txns-vout-negative" false
    else if MAX_MONEY < txout.nValue then DoS 100 REJECT_INVALID "bad-txns-vout-toolarge" false
    else do
      let nValueOut ← liftAbort (addAmount nValueOut txout.nValue)
      if !MoneyRange nValueOut then DoS 100 REJECT_INVALID "bad-txns-txouttotal-toolarge" false
      else do
        let countExecOpcode ← countExecOutput txout.scriptPubKey countExecOpcode
        checkOutputs tx nValueOut countExecOpcode rest

/-- The duplicate-input loop, with the outpoints seen so far. -/
def checkDuplicateInputs : List COutPoint → List CTxIn → Validation Unit
  | _,[] => .ok ()
  | vInOutPoints,txin :: rest =>
    if txin.prevout ∈ vInOutPoints then DoS 100 REJECT_INVALID "bad-txns-inputs-duplicate" false
    else checkDuplicateInputs (txin.prevout :: vInOutPoints) rest

/-- The last checks: a coinbase runs no contract and has a scriptSig of 2 to
100 bytes, any other transaction spends no null outpoint. -/
def checkCoinBase (tx : CTransaction) : Validation Unit :=
  if tx.IsCoinBase then
    let size := (tx.vin.head?.map (·.scriptSig.length)).getD 0
    if tx.HasExec then DoS 100 REJECT_INVALID "bad-cb-have-exec-vouts" false
    else if size < 2 ∨ 100 < size then DoS 100 REJECT_INVALID "bad-cb-length" false
    else .ok ()
  else if tx.vin.any (·.prevout.IsNull) then DoS 10 REJECT_INVALID "bad-txns-prevout-null" false
  else .ok ()

def CheckTransaction (tx : CTransaction) : Validation Unit :=
  if tx.vin.isEmpty then DoS 10 REJECT_INVALID "bad-txns-vin-empty" false
  else if tx.vout.isEmpty then DoS 10 REJECT_INVALID "bad-txns-vout-empty" false
  else do
    let serialized ← liftAbort (SerializeTransaction tx true)
    if MAX_BLOCK_BASE_SIZE < serialized.length then DoS 100 REJECT_INVALID "bad-txns-oversize" false
    else do
      checkOutputs tx 0 0 tx.vout
      checkDuplicateInputs [] tx.vin
      checkCoinBase tx

/-! ## What the output loop guarantees -/

@[simp] theorem DoS_ne_ok {α : Type} {level chRejectCode : Nat} {strRejectReason : String} {corruptionIn : Bool}
    {value : α} : DoS level chRejectCode strRejectReason corruptionIn ≠ .ok value := by
  simp [DoS]

theorem addAmount_ok {a b : CAmount} (fits : FitsInt64 (a + b)) : addAmount a b = .ok (a + b) := by
  simp [addAmount,fits]

/-- With `MAX_MONEY = INT64_MAX` the sum of two maximal outputs leaves
`int64_t`. -/
theorem addAmount_MAX_MONEY : addAmount MAX_MONEY MAX_MONEY = .error .overflow := by
  simp [addAmount,FitsInt64,MAX_MONEY,INT64_MAX,INT64_MIN]

theorem addAmount_spec {a b sum : CAmount} (added : addAmount a b = .ok sum) : FitsInt64 (a + b) ∧ sum = a + b := by
  unfold addAmount at added
  split_ifs at added with fits
  · cases added
    exact ⟨fits,rfl⟩

/-- One round of the output loop that passes: the output and the new sum are
in the money range, and the loop goes on from that sum. -/
theorem checkOutputs_cons {tx : CTransaction} {nValueOut : CAmount} {countExecOpcode : Nat} {txout : CTxOut}
    {rest : List CTxOut} (passed : checkOutputs tx nValueOut countExecOpcode (txout :: rest) = .ok ()) :
    FitsInt64 (nValueOut + txout.nValue) ∧ MoneyRange txout.nValue = true ∧
      MoneyRange (nValueOut + txout.nValue) = true ∧
      ∃ count, checkOutputs tx (nValueOut + txout.nValue) count rest = .ok () := by
  simp only [checkOutputs] at passed
  split at passed
  · exact absurd passed DoS_ne_ok
  split at passed
  · exact absurd passed DoS_ne_ok
  rename_i negative
  split at passed
  · exact absurd passed DoS_ne_ok
  rename_i large
  obtain ⟨sum,added,passed⟩ := Abort.bind_ok passed
  cases lifted : addAmount nValueOut txout.nValue with
  | error reason => simp [lifted] at added
  | ok value =>
    obtain ⟨fits,rfl⟩ := addAmount_spec lifted
    simp only [lifted,liftAbort_ok,Except.ok.injEq] at added
    subst added
    split at passed
    · exact absurd passed DoS_ne_ok
    rename_i outside
    obtain ⟨count,-,tail⟩ := Abort.bind_ok passed
    have summed : MoneyRange (nValueOut + txout.nValue) = true := by simpa using outside
    refine ⟨fits,?_,summed,count,tail⟩
    simp only [MoneyRange,Bool.and_eq_true,decide_eq_true_eq]
    exact ⟨not_lt.mp negative,not_lt.mp large⟩

/-- Where the output loop passes from a sum in the money range, `GetValueOut`
returns a sum in the money range: every output and every partial sum is. -/
theorem checkOutputs_valueOutFrom {tx : CTransaction} {vout : List CTxOut} :
    ∀ {nValueOut : CAmount} {countExecOpcode : Nat}, MoneyRange nValueOut = true →
      checkOutputs tx nValueOut countExecOpcode vout = .ok () →
      ∃ total, CTransaction.valueOutFrom nValueOut vout = .ok total ∧ MoneyRange total = true := by
  induction vout with
  | nil =>
    intro nValueOut _ inRange _
    exact ⟨nValueOut,rfl,inRange⟩
  | cons txout rest ih =>
    intro nValueOut countExecOpcode _ passed
    obtain ⟨fits,valued,summed,count,tail⟩ := checkOutputs_cons passed
    obtain ⟨total,rest,bounded⟩ := ih summed tail
    refine ⟨total,?_,bounded⟩
    simp [CTransaction.valueOutFrom,fits,valued,summed,rest]

end Qtum
