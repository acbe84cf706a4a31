import Qtum.Validation.Transaction
import Qtum.Coins.Coins
import Qtum.Script.SigOps

/-! The checks of a transaction against the coins it spends: `HaveInputs`
and `GetValueIn` of `coins.cpp`, `Consensus::CheckTxInputs`, the script
checks of `CheckInputs` and the signature-operation cost of `main.cpp`. A
coin stake is exempt from the rule that the inputs cover the outputs. The
script checks run at once, or are handed back to run later when the caller
passes a vector for them; both share the block's validation context. -/
namespace Qtum

open Script

def MANDATORY_SCRIPT_VERIFY_FLAGS : Nat := SCRIPT_VERIFY_P2SH

def STANDARD_SCRIPT_VERIFY_FLAGS : Nat :=
  MANDATORY_SCRIPT_VERIFY_FLAGS ||| SCRIPT_VERIFY_DERSIG ||| SCRIPT_VERIFY_STRICTENC ||| SCRIPT_VERIFY_MINIMALDATA |||
    SCRIPT_VERIFY_NULLDUMMY ||| SCRIPT_VERIFY_DISCOURAGE_UPGRADABLE_NOPS ||| SCRIPT_VERIFY_CLEANSTACK |||
    SCRIPT_VERIFY_CHECKLOCKTIMEVERIFY ||| SCRIPT_VERIFY_CHECKSEQUENCEVERIFY ||| SCRIPT_VERIFY_LOW_S |||
    SCRIPT_VERIFY_WITNESS ||| SCRIPT_VERIFY_DISCOURAGE_UPGRADABLE_WITNESS_PROGRAM

def STANDARD_NOT_MANDATORY_VERIFY_FLAGS : Nat := STANDARD_SCRIPT_VERIFY_FLAGS &&& (0xffffffff ^^^ MANDATORY_SCRIPT_VERIFY_FLAGS)

/-- `ScriptErrorString`; `SCRIPT_ERR_CLEANSTACK` has no case of its own. -/
def ScriptErrorString : ScriptError → String
  | .SCRIPT_ERR_OK => "No error"
  | .SCRIPT_ERR_EVAL_FALSE => "Script evaluated without error but finished with a false/empty top stack element"
  | .SCRIPT_ERR_VERIFY => "Script failed an OP_VERIFY operation"
  | .SCRIPT_ERR_EQUALVERIFY => "Script failed an OP_EQUALVERIFY operation"
  | .SCRIPT_ERR_CHECKMULTISIGVERIFY => "Script failed an OP_CHECKMULTISIGVERIFY operation"
  | .SCRIPT_ERR_CHECKSIGVERIFY => "Script failed an OP_CHECKSIGVERIFY operation"
  | .SCRIPT_ERR_NUMEQUALVERIFY => "Script failed an OP_NUMEQUALVERIFY operation"
  | .SCRIPT_ERR_SCRIPT_SIZE => "Script is too big"
  | .SCRIPT_ERR_PUSH_SIZE => "Push value size limit exceeded"
  | .SCRIPT_ERR_OP_COUNT => "Operation limit exceeded"
  | .SCRIPT_ERR_STACK_SIZE => "Stack size limit exceeded"
  | .SCRIPT_ERR_SIG_COUNT => "Signature count negative or greater than pubkey count"
  | .SCRIPT_ERR_PUBKEY_COUNT => "Pubkey count negative or limit exceeded"
  | .SCRIPT_ERR_BAD_OPCODE => "Opcode missing or not understood"
  | .SCRIPT_ERR_DISABLED_OPCODE => "Attempted to use a disabled opcode"
  | .SCRIPT_ERR_INVALID_STACK_OPERATION => "Operation not valid with the current stack size"
  | .SCRIPT_ERR_INVALID_ALTSTACK_OPERATION => "Operation not valid with the current altstack size"
  | .SCRIPT_ERR_OP_RETURN => "OP_RETURN was encountered"
  | .SCRIPT_ERR_UNBALANCED_CONDITIONAL => "Invalid OP_IF construction"
  | .SCRIPT_ERR_NEGATIVE_LOCKTIME => "Negative locktime"
  | .SCRIPT_ERR_UNSATISFIED_LOCKTIME => "Locktime requirement not satisfied"
  | .SCRIPT_ERR_SIG_HASHTYPE => "Signature hash type missing or not understood"
  | .SCRIPT_ERR_SIG_DER => "Non-canonical DER signature"
  | .SCRIPT_ERR_MINIMALDATA => "Data push larger than necessary"
  | .SCRIPT_ERR_SIG_PUSHONLY => "Only non-push operators allowed in signatures"
  | .SCRIPT_ERR_SIG_HIGH_S => "Non-canonical signature: S value is unnecessarily high"
  | .SCRIPT_ERR_SIG_NULLDUMMY => "Dummy CHECKMULTISIG argument must be zero"
  | .SCRIPT_ERR_DISCOURAGE_UPGRADABLE_NOPS => "NOPx reserved for soft-fork upgrades"
  | .SCRIPT_ERR_DISCOURAGE_UPGRADABLE_WITNESS_PROGRAM => "Witness version reserved for soft-fork upgrades"
  | .SCRIPT_ERR_PUBKEYTYPE => "Public key is neither compressed or uncompressed"
  | .SCRIPT_ERR_WITNESS_PROGRAM_WRONG_LENGTH => "Witness program has incorrect length"
  | .SCRIPT_ERR_WITNESS_PROGRAM_WITNESS_EMPTY => "Witness program was passed an empty witness"
  | .SCRIPT_ERR_WITNESS_PROGRAM_MISMATCH => "Witness program hash mismatch"
  | .SCRIPT_ERR_WITNESS_MALLEATED => "Witness requires empty scriptSig"
  | .SCRIPT_ERR_WITNESS_MALLEATED_P2SH => "Witness requires only-redeemscript scriptSig"
  | .SCRIPT_ERR_WITNESS_UNEXPECTED => "Witness provided for non-witness script"
  | .SCRIPT_ERR_UNKNOWN_ERROR | .SCRIPT_ERR_CLEANSTACK => "unknown error"

/-! ## The spent coins -/

/-- `CCoinsViewCache::HaveInputs`. -/
def HaveInputs (inputs : CoinsView) (tx : CTransaction) : Bool :=
  tx.IsCoinBase || tx.vin.all fun txin => (inputs txin.prevout.hash).IsAvailable txin.prevout.n

/-- `GetOutputFor`, which asserts that the output is available. -/
def GetOutputFor (inputs : CoinsView) (input : CTxIn) : Except Abort CTxOut :=
  let coins := inputs input.prevout.hash
  match coins.vout[input.prevout.n]? with
  | some txout => if coins.IsAvailable input.prevout.n then .ok txout else .error .assertion
  | none => .error .assertion

def valueInFrom (inputs : CoinsView) : CAmount → List CTxIn → Except Abort CAmount
  | nResult,[] => .ok nResult
  | nResult,txin :: rest => do
    let txout ← GetOutputFor inputs txin
    let nResult ← addAmount nResult txout.nValue
    valueInFrom inputs nResult rest

/-- `CCoinsViewCache::GetValueIn`: the sum of the spent outputs, unchecked. -/
def GetValueIn (inputs : CoinsView) (tx : CTransaction) : Except Abort CAmount :=
  if tx.IsCoinBase then .ok 0 else valueInFrom inputs 0 tx.vin

/-- The input loop of `CheckTxInputs`: a spent coinbase or coin stake must
be mature, and every spent amount and partial sum in the money range. -/
def checkInputValues (inputs : CoinsView) (nSpendHeight : Int) : CAmount → List CTxIn → Validation CAmount
  | nValueIn,[] => .ok nValueIn
  | nValueIn,txin :: rest =>
    let coins := inputs txin.prevout.hash
    if (coins.fCoinBase || coins.fCoinStake) && nSpendHeight - coins.nHeight < COINBASE_MATURITY then
      Invalid REJECT_INVALID "bad-txns-premature-spend-of-coinbase"
    else match coins.vout[txin.prevout.n]? with
      | none => .error (.abort .outOfRange)
      | some txout => do
        let nValueIn ← liftAbort (addAmount nValueIn txout.nValue)
        if !MoneyRange txout.nValue || !MoneyRange nValueIn then
          DoS 100 REJECT_INVALID "bad-txns-inputvalues-outofrange" false
        else checkInputValues inputs nSpendHeight nValueIn rest

/-- The rule that the inputs pay for the outputs and the fee is in range. -/
def checkFee (tx : CTransaction) (nValueIn : CAmount) : Validation Unit := do
  let nValueOut ← liftAbort tx.GetValueOut
  if nValueIn < nValueOut then DoS 100 REJECT_INVALID "bad-txns-in-belowout" false
  else
    let nTxFee := nValueIn - nValueOut
    if nTxFee < 0 then DoS 100 REJECT_INVALID "bad-txns-fee-negative" false
    else if !MoneyRange nTxFee then DoS 100 REJECT_INVALID "bad-txns-fee-outofrange" false
    else .ok ()

/-- `Consensus::CheckTxInputs`; a coin stake skips the fee rule. -/
def CheckTxInputs (tx : CTransaction) (inputs : CoinsView) (nSpendHeight : Int) : Validation Unit :=
  if !HaveInputs inputs tx then Invalid 0 ""
  else do
    let nValueIn ← checkInputValues inputs nSpendHeight 0 tx.vin
    if tx.IsCoinStake then .ok () else checkFee tx nValueIn

/-! ## Script checks -/

/-- `CScriptCheck`: the spent output's script and amount, the spending
transaction, the input and the flags. -/
structure CScriptCheck where
  scriptPubKey : CScript
  amount : CAmount
  txTo : CTransaction
  nIn : Nat
  nFlags : Nat

/-- `CScriptCheck::operator()`: `VerifyScript` with the input's witness and
the signature checker of the transaction, input and amount. -/
def CScriptCheck.run (crypto : Crypto) (checkerFor : CTransaction → Nat → CAmount → SignatureChecker)
    (check : CScriptCheck) (context : Option BlockValidationContext) : Except Abort Verification :=
  match check.txTo.vin[check.nIn]? with
  | some txin =>
    VerifyScript crypto txin.scriptSig check.scriptPubKey (check.txTo.witnessOf check.nIn) check.nFlags
      (checkerFor check.txTo check.nIn check.amount) context
  | none => .error .outOfRange

/-- A failed check is rejected as non-standard where it passes without the
non-mandatory flags, and as invalid otherwise. -/
def rejectScript (crypto : Crypto) (checkerFor : CTransaction → Nat → CAmount → SignatureChecker)
    (check : CScriptCheck) (failed : Verification) : Validation Unit := do
  let mandatory : Validation Unit :=
    DoS 100 REJECT_INVALID ("mandatory-script-verify-flag-failed (" ++ ScriptErrorString failed.serror ++ ")") false
  if check.nFlags &&& STANDARD_NOT_MANDATORY_VERIFY_FLAGS = 0 then mandatory
  else
    let check2 := {check with nFlags := check.nFlags &&& (0xffffffff ^^^ STANDARD_NOT_MANDATORY_VERIFY_FLAGS)}
    let second ← liftAbort (check2.run crypto checkerFor failed.context)
    if second.result then
      Invalid REJECT_NONSTANDARD ("non-mandatory-script-verify-flag (" ++ ScriptErrorString failed.serror ++ ")")
    else mandatory

/-- The script loop of `CheckInputs` from input `nIn`: with a vector for
them the checks are collected, otherwise each runs at once on the context
the previous one left. -/
def checkScripts (crypto : Crypto) (checkerFor : CTransaction → Nat → CAmount → SignatureChecker)
    (tx : CTransaction) (inputs : CoinsView) (flags : Nat) (pvChecks : Bool) :
    Nat → List CTxIn → List CScriptCheck → Option BlockValidationContext →
      Validation (List CScriptCheck × Option BlockValidationContext)
  | _,[],vChecks,context => .ok (vChecks,context)
  | nIn,txin :: rest,vChecks,context =>
    match (inputs txin.prevout.hash).vout[txin.prevout.n]? with
    | none => .error (.abort .outOfRange)
    | some txout =>
      let check : CScriptCheck := ⟨txout.scriptPubKey,txout.nValue,tx,nIn,flags⟩
      if pvChecks then checkScripts crypto checkerFor tx inputs flags pvChecks (nIn + 1) rest (vChecks ++ [check]) context
      else do
        let verification ← liftAbort (check.run crypto checkerFor context)
        if verification.result then
          checkScripts crypto checkerFor tx inputs flags pvChecks (nIn + 1) rest vChecks verification.context
        else do
          rejectScript crypto checkerFor check verification
          .ok (vChecks,verification.context)

/-- `CheckInputs(tx, state, inputs, fScriptChecks, flags, cacheStore,
pvChecks, context)`: the deferred checks and the context after it. -/
def CheckInputs (crypto : Crypto) (checkerFor : CTransaction → Nat → CAmount → SignatureChecker)
    (tx : CTransaction) (inputs : CoinsView) (nSpendHeight : Int) (fScriptChecks : Bool) (flags : Nat)
    (pvChecks : Bool) (context : Option BlockValidationContext) :
    Validation (List CScriptCheck × Option BlockValidationContext) :=
  if tx.IsCoinBase then .ok ([],context)
  else do
    CheckTxInputs tx inputs nSpendHeight
    if fScriptChecks then checkScripts crypto checkerFor tx inputs flags pvChecks 0 tx.vin [] context
    else .ok ([],context)

/-! ## Signature-operation cost -/

def GetLegacySigOpCount (tx : CTransaction) : Nat :=
  (tx.vin.map fun txin => GetSigOpCount txin.scriptSig false).sum +
    (tx.vout.map fun txout => GetSigOpCount txout.scriptPubKey false).sum

def p2shSigOpsFrom (inputs : CoinsView) : List CTxIn → Except Abort Nat
  | [] => .ok 0
  | txin :: rest => do
    let prevout ← GetOutputFor inputs txin
    let nSigOps ← p2shSigOpsFrom inputs rest
    return (if IsPayToScriptHash prevout.scriptPubKey then GetSigOpCountFor prevout.scriptPubKey txin.scriptSig else 0) +
      nSigOps

def GetP2SHSigOpCount (tx : CTransaction) (inputs : CoinsView) : Except Abort Nat :=
  if tx.IsCoinBase then .ok 0 else p2shSigOpsFrom inputs tx.vin

/-- The witness loop of `GetTransactionSigOpCost` from input `i`. -/
def witnessSigOpsFrom (tx : CTransaction) (inputs : CoinsView) (flags : Nat) : Nat → List CTxIn → Except Abort Nat
  | _,[] => .ok 0
  | i,txin :: rest => do
    let prevout ← GetOutputFor inputs txin
    let nSigOps ← CountWitnessSigOps txin.scriptSig prevout.scriptPubKey (tx.witnessOf i) flags
    let others ← witnessSigOpsFrom tx inputs flags (i + 1) rest
    return nSigOps + others

def GetTransactionSigOpCost (tx : CTransaction) (inputs : CoinsView) (flags : Nat) : Except Abort Nat :=
  let nSigOps := GetLegacySigOpCount tx * WITNESS_SCALE_FACTOR
  if tx.IsCoinBase then .ok nSigOps
  else do
    let p2sh ← if hasFlag flags SCRIPT_VERIFY_P2SH then GetP2SHSigOpCount tx inputs else pure 0
    let witness ← witnessSigOpsFrom tx inputs flags 0 tx.vin
    return nSigOps + p2sh * WITNESS_SCALE_FACTOR + witness

end Qtum
