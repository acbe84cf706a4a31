import Qtum.Script.Verify

/-! Signature-operation counting of `script.cpp` and `interpreter.cpp`. The
legacy count charges `MAX_PUBKEYS_PER_MULTISIG` for every multisig opcode;
the accurate count reads the number of keys from an `OP_1` to `OP_16` just
before it. A pay-to-script-hash spend is counted on the last element its
scriptSig pushes, a witness program on its witness script. -/
namespace Qtum.Script

/-- The loop of `CScript::GetSigOpCount(fAccurate)` from offset `pc`, with the
opcode read last. It stops at the first instruction `GetOp` cannot read. -/
def sigOpCountFrom (script : CScript) (fAccurate : Bool) : Nat → Nat → Nat → Nat
  | 0,_,_ => 0
  | fuel + 1,pc,lastOpcode =>
    if pc < script.length then
      match getOp script pc with
      | none => 0
      | some op =>
        let n :=
          if op.opcode = OP_CHECKSIG ∨ op.opcode = OP_CHECKSIGVERIFY then 1
          else if op.opcode = OP_CHECKMULTISIG ∨ op.opcode = OP_CHECKMULTISIGVERIFY then
            if fAccurate ∧ OP_1 ≤ lastOpcode ∧ lastOpcode ≤ OP_16 then DecodeOP_N lastOpcode
            else MAX_PUBKEYS_PER_MULTISIG
          else 0
        n + sigOpCountFrom script fAccurate fuel op.next op.opcode
    else 0

def GetSigOpCount (script : CScript) (fAccurate : Bool) : Nat :=
  sigOpCountFrom script fAccurate script.length 0 OP_INVALIDOPCODE

/-- The data the last instruction of a scriptSig pushes (empty after an
`OP_n`), or `none` where an instruction does not read or is no push. -/
def lastPushFrom (script : CScript) : Nat → Nat → valtype → Option valtype
  | 0,_,data => some data
  | fuel + 1,pc,data =>
    if pc < script.length then
      match getOp script pc with
      | none => none
      | some op => if OP_16 < op.opcode then none else lastPushFrom script fuel op.next op.push
    else some data

/-- `CScript::GetSigOpCount(const CScript& scriptSig)` on a scriptPubKey. -/
def GetSigOpCountFor (scriptPubKey scriptSig : CScript) : Nat :=
  if !IsPayToScriptHash scriptPubKey then GetSigOpCount scriptPubKey true
  else match lastPushFrom scriptSig scriptSig.length 0 [] with
    | none => 0
    | some data => GetSigOpCount data true

def WitnessSigOps (witversion : Nat) (witprogram : valtype) (witness : CScriptWitness) : Nat :=
  if witversion = 0 then
    if witprogram.length = 20 then 1
    else match witness.stack.getLast? with
      | some last => if witprogram.length = 32 then GetSigOpCount last true else 0
      | none => 0
  else 0

/-- `CountWitnessSigOps`, which asserts that `P2SH` comes with `WITNESS`.
Behind a push-only scriptSig every instruction reads, so the loop that
ignores what `GetOp` returns ends on the last push. -/
def CountWitnessSigOps (scriptSig scriptPubKey : CScript) (witness : CScriptWitness) (flags : Nat) :
    Except Abort Nat :=
  if !hasFlag flags SCRIPT_VERIFY_WITNESS then .ok 0
  else if !hasFlag flags SCRIPT_VERIFY_P2SH then .error .assertion
  else match IsWitnessProgram scriptPubKey with
    | some (witversion,witprogram) => .ok (WitnessSigOps witversion witprogram witness)
    | none =>
      if IsPayToScriptHash scriptPubKey && IsPushOnly scriptSig then
        let subscript := (lastPushFrom scriptSig scriptSig.length 0 []).getD []
        match IsWitnessProgram subscript with
        | some (witversion,witprogram) => .ok (WitnessSigOps witversion witprogram witness)
        | none => .ok 0
      else .ok 0

/-- `DecodeOP_N` of an `OP_1` to `OP_16` is at most sixteen keys. -/
theorem DecodeOP_N_le {opcode : Nat} (small : opcode ≤ OP_16) : DecodeOP_N opcode ≤ MAX_PUBKEYS_PER_MULTISIG := by
  unfold DecodeOP_N
  split_ifs
  · simp [MAX_PUBKEYS_PER_MULTISIG]
  · simp only [OP_1,OP_16,MAX_PUBKEYS_PER_MULTISIG] at small ⊢
    omega

/-- The accurate count never exceeds the legacy one: the keys a multisig
opcode announces are at most `MAX_PUBKEYS_PER_MULTISIG`. -/
theorem sigOpCountFrom_accurate_le (script : CScript) (fuel pc lastOpcode : Nat) :
    sigOpCountFrom script true fuel pc lastOpcode ≤ sigOpCountFrom script false fuel pc lastOpcode := by
  induction fuel generalizing pc lastOpcode with
  | zero => simp [sigOpCountFrom]
  | succ fuel ih =>
    unfold sigOpCountFrom
    split
    · cases read : getOp script pc with
      | none => simp
      | some op =>
        have tail := ih op.next op.opcode
        have keys : OP_1 ≤ lastOpcode ∧ lastOpcode ≤ OP_16 → DecodeOP_N lastOpcode ≤ MAX_PUBKEYS_PER_MULTISIG :=
          fun ⟨_,small⟩ => DecodeOP_N_le small
        simp only [Bool.false_eq_true,false_and,if_false,true_and]
        -- the two counts differ only where a multisig opcode follows an `OP_n`
        split_ifs <;> omega
    · exact le_rfl

theorem GetSigOpCount_accurate_le (script : CScript) : GetSigOpCount script true ≤ GetSigOpCount script false :=
  sigOpCountFrom_accurate_le script script.length 0 OP_INVALIDOPCODE

end Qtum.Script
