import Qtum.Script.Interpreter

/-! `VerifyScript` and `VerifyWitnessProgram` of `script/interpreter.cpp`.
The context that `VerifyScript` is passed reaches the evaluations of the
scriptSig and the scriptPubKey; the redeem script of a P2SH output and a
witness script are evaluated with `EvalScript`'s default argument, a null
context. -/
namespace Qtum.Script

open ScriptError

/-- `CScriptWitness`: the witness items in vector order, the last one on top. -/
structure CScriptWitness where
  stack : List valtype
  deriving DecidableEq

/-- A vector-ordered witness stack as the interpreter's stack, top first. -/
def ofWitnessStack (items : List valtype) : List valtype := items.reverse

/-- `stack.resize(1)`: the bottom element, or one empty element. -/
def resizeOne (stack : List valtype) : List valtype :=
  match stack.getLast? with
  | some bottom => [bottom]
  | none => [[]]

/-- `VerifyWitnessProgram`: the result and the error it leaves. -/
def VerifyWitnessProgram (crypto : Crypto) (witness : CScriptWitness) (witversion : Nat)
    (program : valtype) (flags : Nat) (checker : SignatureChecker) : Except Abort (Bool × ScriptError) :=
  let prepared : Except (Bool × ScriptError) (List valtype × CScript) :=
    if witversion = 0 then
      if program.length = 32 then
        match witness.stack.getLast? with
        | none => .error (false,SCRIPT_ERR_WITNESS_PROGRAM_WITNESS_EMPTY)
        | some scriptPubKey =>
          if (crypto.SHA256 scriptPubKey).bytes ≠ program then .error (false,SCRIPT_ERR_WITNESS_PROGRAM_MISMATCH)
          else .ok (ofWitnessStack witness.stack.dropLast,scriptPubKey)
      else if program.length = 20 then
        if witness.stack.length ≠ 2 then .error (false,SCRIPT_ERR_WITNESS_PROGRAM_MISMATCH)
        else
          let scriptPubKey := pushOpcode (pushOpcode (pushData (pushOpcode (pushOpcode [] OP_DUP)
            OP_HASH160) program) OP_EQUALVERIFY) OP_CHECKSIG
          .ok (ofWitnessStack witness.stack,scriptPubKey)
      else .error (false,SCRIPT_ERR_WITNESS_PROGRAM_WRONG_LENGTH)
    else if hasFlag flags SCRIPT_VERIFY_DISCOURAGE_UPGRADABLE_WITNESS_PROGRAM then
      .error (false,SCRIPT_ERR_DISCOURAGE_UPGRADABLE_WITNESS_PROGRAM)
    -- higher versions succeed, for future soft forks
    else .error (true,SCRIPT_ERR_OK)
  match prepared with
  | .error verdict => .ok verdict
  | .ok (stack,scriptPubKey) =>
    if stack.any (fun item => MAX_SCRIPT_ELEMENT_SIZE < item.length) then .ok (false,SCRIPT_ERR_PUSH_SIZE)
    else do
      let evaluation ← EvalScript crypto stack scriptPubKey flags checker .SIGVERSION_WITNESS_V0 none
      if !evaluation.result then return (false,evaluation.serror)
      match evaluation.stack with
      | [top] => return if CastToBool top then (true,evaluation.serror) else (false,SCRIPT_ERR_EVAL_FALSE)
      | _ => return (false,SCRIPT_ERR_EVAL_FALSE)

/-- What `VerifyScript` returns, the error it leaves and the context after it. -/
structure Verification where
  result : Bool
  serror : ScriptError
  context : Option BlockValidationContext

/-- The checks after the P2SH step: `CLEANSTACK` (with its two assertions) and
the rejection of unexpected witness data. -/
def verifyTail (witness : CScriptWitness) (flags : Nat) (hadWitness : Bool) (stack : List valtype)
    (context : Option BlockValidationContext) : Except Abort Verification :=
  if hasFlag flags SCRIPT_VERIFY_CLEANSTACK && !hasFlag flags SCRIPT_VERIFY_P2SH then .error .assertion
  else if hasFlag flags SCRIPT_VERIFY_CLEANSTACK && !hasFlag flags SCRIPT_VERIFY_WITNESS then .error .assertion
  else if hasFlag flags SCRIPT_VERIFY_CLEANSTACK && stack.length ≠ 1 then
    .ok ⟨false,SCRIPT_ERR_CLEANSTACK,context⟩
  else if hasFlag flags SCRIPT_VERIFY_WITNESS && !hasFlag flags SCRIPT_VERIFY_P2SH then .error .assertion
  else if hasFlag flags SCRIPT_VERIFY_WITNESS && !hadWitness && !witness.stack.isEmpty then
    .ok ⟨false,SCRIPT_ERR_WITNESS_UNEXPECTED,context⟩
  else .ok ⟨true,SCRIPT_ERR_OK,context⟩

/-- The pay-to-script-hash step: the redeem script, last pushed by the
scriptSig, is evaluated on the rest of the scriptSig's stack, without context. -/
def verifyP2SH (crypto : Crypto) (scriptSig : CScript) (witness : CScriptWitness) (flags : Nat)
    (checker : SignatureChecker) (hadWitness : Bool) (stackCopy : List valtype)
    (context : Option BlockValidationContext) : Except Abort Verification :=
  if !IsPushOnly scriptSig then .ok ⟨false,SCRIPT_ERR_SIG_PUSHONLY,context⟩
  else match stackCopy with
  | [] => .error .assertion
  | pubKeySerialized :: stack => do
    let pubKey2 : CScript := pubKeySerialized
    let evaluation ← EvalScript crypto stack pubKey2 flags checker .SIGVERSION_BASE none
    if !evaluation.result then return ⟨false,evaluation.serror,context⟩
    match evaluation.stack with
    | [] => return ⟨false,SCRIPT_ERR_EVAL_FALSE,context⟩
    | top :: _ =>
      if !CastToBool top then return ⟨false,SCRIPT_ERR_EVAL_FALSE,context⟩
      match (if hasFlag flags SCRIPT_VERIFY_WITNESS then IsWitnessProgram pubKey2 else none) with
      | none => verifyTail witness flags hadWitness evaluation.stack context
      | some (witnessversion,witnessprogram) =>
        if scriptSig ≠ pushData [] pubKey2 then return ⟨false,SCRIPT_ERR_WITNESS_MALLEATED_P2SH,context⟩
        let (verified,serror) ← VerifyWitnessProgram crypto witness witnessversion witnessprogram flags checker
        if !verified then return ⟨false,serror,context⟩
        verifyTail witness flags true (resizeOne evaluation.stack) context

/-- The bare witness program step of `VerifyScript`: whether a witness was
verified and the stack after it, or the error that ends the verification. -/
def verifyBareWitness (crypto : Crypto) (scriptSig scriptPubKey : CScript) (witness : CScriptWitness)
    (flags : Nat) (checker : SignatureChecker) (stack : List valtype) :
    Except Abort (Except ScriptError (Bool × List valtype)) :=
  match (if hasFlag flags SCRIPT_VERIFY_WITNESS then IsWitnessProgram scriptPubKey else none) with
  | none => .ok (.ok (false,stack))
  | some (witnessversion,witnessprogram) =>
    if scriptSig.length ≠ 0 then .ok (.error SCRIPT_ERR_WITNESS_MALLEATED)
    else do
      let (verified,serror) ← VerifyWitnessProgram crypto witness witnessversion witnessprogram flags checker
      return if verified then .ok (true,resizeOne stack) else .error serror

/-- `VerifyScript(scriptSig, scriptPubKey, witness, flags, checker, serror, blockContext)`. -/
def VerifyScript (crypto : Crypto) (scriptSig scriptPubKey : CScript) (witness : CScriptWitness)
    (flags : Nat) (checker : SignatureChecker) (blockContext : Option BlockValidationContext) :
    Except Abort Verification := do
  if hasFlag flags SCRIPT_VERIFY_SIGPUSHONLY && !IsPushOnly scriptSig then
    return ⟨false,SCRIPT_ERR_SIG_PUSHONLY,blockContext⟩
  let signed ← EvalScript crypto [] scriptSig flags checker .SIGVERSION_BASE blockContext
  if !signed.result then return ⟨false,signed.serror,signed.context⟩
  let evaluation ← EvalScript crypto signed.stack scriptPubKey flags checker .SIGVERSION_BASE signed.context
  let context := evaluation.context
  if !evaluation.result then return ⟨false,evaluation.serror,context⟩
  match evaluation.stack with
  | [] => return ⟨false,SCRIPT_ERR_EVAL_FALSE,context⟩
  | top :: _ =>
    if !CastToBool top then return ⟨false,SCRIPT_ERR_EVAL_FALSE,context⟩
    match ← verifyBareWitness crypto scriptSig scriptPubKey witness flags checker evaluation.stack with
    | .error serror => return ⟨false,serror,context⟩
    | .ok (hadWitness,stack) =>
      -- `stackCopy` is the stack the scriptSig left
      if hasFlag flags SCRIPT_VERIFY_P2SH && IsPayToScriptHash scriptPubKey then
        verifyP2SH crypto scriptSig witness flags checker hadWitness signed.stack context
      else verifyTail witness flags hadWitness stack context

end Qtum.Script
