import Qtum.Script.Standard

/-! `ParseScriptPubKey` of `main.cpp`, the parser that the consensus checks
apply to contract outputs. It walks the script beside two templates, first
the deployment `OP_VERSION OP_GAS_LAP OP_GAS_LAP OP_DATA OP_EXEC` and then
the call that adds `OP_PUBKEYHASH` and ends in `OP_EXEC_ASSIGN`; a
placeholder of the template matches an instruction of the script and may
assign a field of `CDataForContract`. The data are shared by the two
attempts, and the `int` and `CAmount` fields have no initializer: a field
the walk never assigns is `none`. The two templates are those of `Solver`. -/
namespace Qtum.Contract

open Script

structure CDataForContract where
  version : Option Int
  gasLimit : Option Int
  gasPrice : Option Int
  opcode : valtype
  contractAddr : uint160
  deriving DecidableEq

/-- A `CDataForContract` declared without initializer: `dev::Address` starts
as zero and the vector empty. -/
def CDataForContract.declared : CDataForContract := ⟨none,none,none,[],Blob.null 20⟩

/-- A `CScriptNum` constructor that throws `scriptnum_error` where the model
returns `none`. -/
def scriptNum (vch : valtype) (fRequireMinimal : Bool) (nMaxNumSize : Nat) : Except Abort Int :=
  match CScriptNum.ofBytes vch fRequireMinimal nMaxNumSize with
  | some value => .ok value
  | none => .error .exception

/-- The walk over the script and one template from offsets `pc1` and `pc2`:
whether both end together, and the data assigned on the way. Every round
reads an instruction of the script, so its length plus one rounds suffice. -/
def matchTemplate (script tplate : CScript) (flags : Nat) :
    Nat → Nat → Nat → Nat → CDataForContract → Except Abort (Bool × CDataForContract)
  | 0,_,_,_,data => .ok (false,data)
  | fuel + 1,pc1,pc2,countGasLAP,data =>
    if pc1 = script.length ∧ pc2 = tplate.length then .ok (true,data)
    else match getOp script pc1,getOp tplate pc2 with
    | some op1,some op2 =>
      let next := matchTemplate script tplate flags fuel op1.next op2.next
      let vch1 := op1.push
      if op2.opcode = OP_VERSION then
        -- an instruction that pushes nothing is accepted and assigns nothing
        if op1.opcode ≤ OP_PUSHDATA4 then
          if 1 < vch1.length then .ok (false,data)
          else do
            let version ← scriptNum vch1 (hasFlag flags SCRIPT_VERIFY_MINIMALDATA) 4
            next countGasLAP {data with version := some (CScriptNum.getint version)}
        else next countGasLAP data
      else if op2.opcode = OP_DATA then
        if op1.opcode ≤ OP_PUSHDATA4 then
          if vch1.length = 0 then .ok (false,data) else next countGasLAP {data with opcode := vch1}
        else next countGasLAP data
      else if op2.opcode = OP_PUBKEYHASH then
        match Blob.ofBytes? 20 vch1 with
        | none => .ok (false,data)
        | some contractAddr => next countGasLAP {data with contractAddr}
      else if op2.opcode = OP_GAS_LAP then
        if vch1.length = 0 ∨ 8 < vch1.length then .ok (false,data)
        else do
          let value ← scriptNum vch1 false 8
          let data := if countGasLAP = 0 then {data with gasLimit := some value}
            else if countGasLAP = 1 then {data with gasPrice := some value} else data
          next (countGasLAP + 1) data
      else if op1.opcode ≠ op2.opcode ∨ vch1 ≠ op2.push then .ok (false,data)
      else next countGasLAP data
    | _,_ => .ok (false,data)

/-- `ParseScriptPubKey(data, transactionType, scriptPubKey, flags)`: what it
returns, the type it sets and the data it leaves. -/
def ParseScriptPubKey (data : CDataForContract) (scriptPubKey : CScript) (flags : Nat) :
    Except Abort (Bool × txnouttype × CDataForContract) := do
  let fuel := scriptPubKey.length + 1
  let (matched,data) ← matchTemplate scriptPubKey deploymentTemplate flags fuel 0 0 0 data
  if matched then return (true,.TX_DEPLOYMENT,data)
  let (matched,data) ← matchTemplate scriptPubKey assignTemplate flags fuel 0 0 0 data
  if matched then return (true,.TX_ASSIGN_SC,data)
  return (false,.TX_NONSTANDARD,data)

end Qtum.Contract
