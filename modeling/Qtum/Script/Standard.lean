import Qtum.Script.Interpreter

/-! `Solver` and `ExtractDestination` of `script/standard.cpp`. After the
pay-to-script-hash, witness and `OP_RETURN` shortcuts, `Solver` walks the
script beside each template in the order of `txnouttype`: pay to pubkey, pay
to pubkey hash, multisig, contract deployment and contract call. The
template's placeholder opcodes match classes of instructions and collect the
solutions; Qtum's `OP_VERSION`, `OP_DATA` and `OP_GAS_LAP` placeholders
accept what the consensus parser `ParseScriptPubKey` treats otherwise. -/
namespace Qtum.Script

inductive txnouttype
  | TX_NONSTANDARD | TX_PUBKEY | TX_PUBKEYHASH | TX_SCRIPTHASH | TX_MULTISIG | TX_DEPLOYMENT | TX_ASSIGN_SC
  | TX_NULL_DATA | TX_WITNESS_V0_SCRIPTHASH | TX_WITNESS_V0_KEYHASH
  deriving DecidableEq, Repr

open txnouttype

def pubkeyTemplate : CScript := [OP_PUBKEY,OP_CHECKSIG].map UInt8.ofNat

def pubkeyhashTemplate : CScript := [OP_DUP,OP_HASH160,OP_PUBKEYHASH,OP_EQUALVERIFY,OP_CHECKSIG].map UInt8.ofNat

def multisigTemplate : CScript := [OP_SMALLINTEGER,OP_PUBKEYS,OP_SMALLINTEGER,OP_CHECKMULTISIG].map UInt8.ofNat

def deploymentTemplate : CScript := [OP_VERSION,OP_GAS_LAP,OP_GAS_LAP,OP_DATA,OP_EXEC].map UInt8.ofNat

def assignTemplate : CScript := [OP_VERSION,OP_GAS_LAP,OP_GAS_LAP,OP_DATA,OP_PUBKEYHASH,OP_EXEC_ASSIGN].map UInt8.ofNat

/-- The templates of `Solver`, in the order of the `multimap`'s keys. -/
def solverTemplates : List (txnouttype × CScript) :=
  [(TX_PUBKEY,pubkeyTemplate),(TX_PUBKEYHASH,pubkeyhashTemplate),(TX_MULTISIG,multisigTemplate),
    (TX_DEPLOYMENT,deploymentTemplate),(TX_ASSIGN_SC,assignTemplate)]

/-- What `GetOp` leaves where it fails: `OP_INVALIDOPCODE` and no data. -/
def failedOp (script : CScript) : Instruction := ⟨OP_INVALIDOPCODE,[],script.length⟩

/-- The `OP_PUBKEYS` loop: consecutive pushes of 33 to 65 bytes are solutions. -/
def collectPubKeys (script : CScript) : Nat → Instruction → List valtype → Instruction × List valtype
  | 0,op1,solutions => (op1,solutions)
  | fuel + 1,op1,solutions =>
    if 33 ≤ op1.push.length ∧ op1.push.length ≤ 65 then
      match getOp script op1.next with
      | some next => collectPubKeys script fuel next (solutions ++ [op1.push])
      | none => (failedOp script,solutions ++ [op1.push])
    else (op1,solutions)

/-- One placeholder or literal of the template against one instruction of
the script: the solutions after it, or `none` where the walk breaks. -/
def solveStep (op1 op2 : Instruction) (solutions : List valtype) : Option (List valtype) :=
  let vch1 := op1.push
  if op2.opcode = OP_PUBKEY then
    if vch1.length < 33 ∨ 65 < vch1.length then none else some (solutions ++ [vch1])
  else if op2.opcode = OP_PUBKEYHASH then
    if vch1.length ≠ 20 then none else some (solutions ++ [vch1])
  else if op2.opcode = OP_SMALLINTEGER then
    if op1.opcode = OP_0 ∨ (OP_1 ≤ op1.opcode ∧ op1.opcode ≤ OP_16) then
      some (solutions ++ [[UInt8.ofNat (DecodeOP_N op1.opcode)]])
    else none
  else if op2.opcode = OP_EXTBC then
    if vch1.length < 8 ∨ MAX_EXT_BYTECODE_SIZE < vch1.length then none else some (solutions ++ [vch1])
  else if op2.opcode = OP_VERSION then
    if op1.opcode ≤ OP_PUSHDATA4 ∧ 1 < vch1.length then none else some solutions
  else if op2.opcode = OP_DATA then
    if op1.opcode ≤ OP_PUSHDATA4 ∧ vch1.length = 0 then none else some solutions
  else if op2.opcode = OP_GAS_LAP then
    if vch1.length = 0 ∨ 32 < vch1.length then none else some solutions
  else if op1.opcode ≠ op2.opcode ∨ vch1 ≠ op2.push then none
  else some solutions

/-- The walk over the script and one template: the solutions where both end
together. Every round reads an instruction of the script. -/
def solveTemplate (script tplate : CScript) : Nat → Nat → Nat → List valtype → Option (List valtype)
  | 0,_,_,_ => none
  | fuel + 1,pc1,pc2,solutions =>
    if pc1 = script.length ∧ pc2 = tplate.length then some solutions
    else match getOp script pc1,getOp tplate pc2 with
    | some op1,some op2 =>
      if op2.opcode = OP_PUBKEYS then
        let (op1,solutions) := collectPubKeys script script.length op1 solutions
        match getOp tplate op2.next with
        | none => none
        | some op2 =>
          match solveStep op1 op2 solutions with
          | none => none
          | some solutions => solveTemplate script tplate fuel op1.next op2.next solutions
      else
        match solveStep op1 op2 solutions with
        | none => none
        | some solutions => solveTemplate script tplate fuel op1.next op2.next solutions
    | _,_ => none

/-- The further conditions on a matched multisig template: `1 ≤ m ≤ n` and
`n` keys between them. -/
def multisigSound (solutions : List valtype) : Bool :=
  match solutions.head?,solutions.getLast? with
  | some first,some last =>
    let m := first[0]!.toNat
    let n := last[0]!.toNat
    1 ≤ m && 1 ≤ n && m ≤ n && solutions.length - 2 == n
  | _,_ => false

/-- The first template the script matches. -/
def scanTemplates (scriptPubKey : CScript) : List (txnouttype × CScript) → Option (txnouttype × List valtype)
  | [] => none
  | (typeRet,tplate) :: rest =>
    match solveTemplate scriptPubKey tplate (scriptPubKey.length + 1) 0 0 [] with
    | some solutions =>
      if typeRet = TX_MULTISIG && !multisigSound solutions then none else some (typeRet,solutions)
    | none => scanTemplates scriptPubKey rest

/-- `Solver(scriptPubKey, typeRet, vSolutionsRet)`: the type and the solutions
where it returns true. -/
def Solver (scriptPubKey : CScript) : Option (txnouttype × List valtype) :=
  if IsPayToScriptHash scriptPubKey then some (TX_SCRIPTHASH,[(scriptPubKey.drop 2).take 20])
  else match IsWitnessProgram scriptPubKey with
    | some (witnessversion,witnessprogram) =>
      if witnessversion = 0 ∧ witnessprogram.length = 20 then some (TX_WITNESS_V0_KEYHASH,[witnessprogram])
      else if witnessversion = 0 ∧ witnessprogram.length = 32 then some (TX_WITNESS_V0_SCRIPTHASH,[witnessprogram])
      else none
    | none =>
      if 1 ≤ scriptPubKey.length ∧ scriptPubKey[0]!.toNat = OP_RETURN ∧
          isPushOnlyFrom scriptPubKey scriptPubKey.length 1 then some (TX_NULL_DATA,[])
      else scanTemplates scriptPubKey solverTemplates

/-- `CTxDestination`, the variant of no destination, a key id and a script id. -/
inductive CTxDestination
  | noDestination
  | keyID (id : uint160)
  | scriptID (id : uint160)
  deriving DecidableEq

/-- `CPubKey::GetLen` of the first byte. -/
def pubKeyLen (header : UInt8) : Nat :=
  if header = 2 ∨ header = 3 then 33 else if header = 4 ∨ header = 6 ∨ header = 7 then 65 else 0

/-- `CPubKey(vch).IsValid()`: the length the first byte announces is the size. -/
def pubKeyIsValid (vch : valtype) : Bool :=
  match vch with
  | [] => false
  | header :: _ => pubKeyLen header ≠ 0 && pubKeyLen header == vch.length

def ExtractDestination (crypto : Crypto) (scriptPubKey : CScript) : Option CTxDestination :=
  match Solver scriptPubKey with
  | some (TX_PUBKEY,solutions) =>
    let pubKey := solutions.head!
    if pubKeyIsValid pubKey then some (.keyID (crypto.Hash160 pubKey)) else none
  | some (TX_PUBKEYHASH,solutions) => (Blob.ofBytes? 20 solutions.head!).map .keyID
  | some (TX_SCRIPTHASH,solutions) => (Blob.ofBytes? 20 solutions.head!).map .scriptID
  | _ => none

end Qtum.Script
