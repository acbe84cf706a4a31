import Qtum.Contract.Executor
import Qtum.Validation.Transaction

/-! The three readers of a contract output: `ParseScriptPubKey`, whose data
`CheckTransaction` checks, `Solver`, which classifies outputs for the
wallet and for `ExtractDestination`, and the executor's `receiveStack` and
`parseTXArguments`, whose arguments are run. They read the placeholders of
the templates differently: the first two accept any instruction that pushes
nothing in the version and data slots, the parser assigns nothing for it,
and the executor runs that instruction; the gas slots take at most eight
bytes in the parser and 32 in `Solver`. -/
namespace Qtum.Contract

open Script

/-- `CScript() << CScriptNum(1) << CScriptNum(gasLimit) << CScriptNum(gasPrice)
<< code << OP_EXEC`: a script of the `TX_DEPLOYMENT` template of
`standard.cpp`, `OP_VERSION OP_GAS_LAP OP_GAS_LAP OP_DATA OP_EXEC`. -/
def deployScript (gasLimit gasPrice : Int) (code : valtype) : CScript :=
  pushOpcode (pushData (pushData (pushData (pushData [] (CScriptNum.serialize 1)) (CScriptNum.serialize gasLimit))
    (CScriptNum.serialize gasPrice)) code) OP_EXEC

/-- The executor's reading of an output script: the arguments
`parseTXArguments` pops off the stack `receiveStack` leaves. -/
def executorArguments (crypto : Crypto) (scriptPubKey : CScript) : Except Abort VmArgumentsType := do
  let (_,stack,opcode) ← receiveStack crypto scriptPubKey
  parseTXArguments stack opcode

/-- A transaction whose one output has the script. -/
def contractTx (scriptPubKey : CScript) : CTransaction :=
  ⟨Blob.replicate 32 14,1,[⟨⟨Blob.replicate 32 1,0⟩,[],SEQUENCE_FINAL⟩],[⟨0,scriptPubKey⟩],[],0,0⟩

/-- A deployment whose version slot holds `OP_1`. -/
def unversionedScript : CScript :=
  pushOpcode (pushData (pushData (pushData (pushOpcode [] OP_1) (CScriptNum.serialize 100000)) (CScriptNum.serialize 40))
    [0x60,0x00]) OP_EXEC

/-- A deployment whose data slot holds `OP_2DUP`. -/
def duplicatingScript : CScript :=
  pushOpcode (pushOpcode (pushData (pushData (pushData [] (CScriptNum.serialize 1)) (CScriptNum.serialize 100000))
    (CScriptNum.serialize 40)) OP_2DUP) OP_EXEC

/-- A deployment whose gas limit is pushed in nine bytes. -/
def wideGasScript : CScript :=
  pushOpcode (pushData (pushData (pushData (pushData [] (CScriptNum.serialize 1)) (List.replicate 8 0 ++ [1]))
    (CScriptNum.serialize 40)) [0x60,0x00]) OP_EXEC

/-- The readers disagree on outputs `CheckTransaction` admits or reads.
With `OP_1` for the version the parser matches and leaves the version
unassigned, and `CheckTransaction` reads it. With `OP_2DUP` for the data
both succeed, but the executor runs version 100000 with gas limit 40, gas
price 100000 and the gas price as code, where the parser saw version 1,
gas limit 100000, gas price 40 and no code. A nine-byte gas limit is a
deployment to `Solver` and no contract output to the parser. -/
theorem contract_readers_disagree (crypto : Crypto) :
    ParseScriptPubKey CDataForContract.declared unversionedScript 1 =
        .ok (true,.TX_DEPLOYMENT,⟨none,some 100000,some 40,[0x60,0x00],Blob.null 20⟩) ∧
      CheckTransaction (contractTx unversionedScript) = .error (.abort .uninitializedRead) ∧
      ParseScriptPubKey CDataForContract.declared duplicatingScript 1 =
        .ok (true,.TX_DEPLOYMENT,⟨some 1,some 100000,some 40,[],Blob.null 20⟩) ∧
      CheckTransaction (contractTx duplicatingScript) = .ok () ∧
      (executorArguments crypto duplicatingScript).map (fun argEthTx =>
          (argEthTx.version,argEthTx.gasLimit,argEthTx.gasPrice,argEthTx.code)) =
        .ok (100000,40,100000,CScriptNum.serialize 40) ∧
      (Solver wideGasScript).map Prod.fst = some .TX_DEPLOYMENT ∧
      (ParseScriptPubKey CDataForContract.declared wideGasScript 1).map Prod.fst = .ok false := by
  refine ⟨by decide,by decide,by decide,by decide,?_,by decide,by decide⟩
  -- the run of the script reads no hash function
  rfl

end Qtum.Contract
