import Qtum.Primitives.TxSerialize
import Qtum.Script.Ops

/-! `SignatureHash` of `script/interpreter.cpp`. For `SIGVERSION_BASE` it
streams the transaction through `CTransactionSignatureSerializer`, which
masks it in place: code separators are skipped while the script code is
written, the other inputs are blanked, and outputs and sequences are masked
by the hash type. The serializer writes `nVersion`, the inputs, the outputs
and `nLockTime`, and nothing of Qtum's `nTime`. `SignatureHashOld` of
`test/sighash_tests.cpp`, the reference, masks a copy of the transaction and
serializes it with `SerializeTransaction`, which writes `nTime` after
`nLockTime`. -/
namespace Qtum.Script

def SIGHASH_NONE : UInt8 := 2

/-- `uint256S("0000...0001")`, the hash returned for an input or output out of range. -/
def one : uint256 := ⟨1 :: List.replicate 31 0,rfl⟩

/-- The bits of an `int` hash type, as `&` reads them. -/
def hashTypeBits (nHashType : Int) : Nat := toUnsigned 32 nHashType

def fAnyoneCanPay (nHashType : Int) : Bool := hashTypeBits nHashType &&& SIGHASH_ANYONECANPAY.toNat != 0

def fHashSingle (nHashType : Int) : Bool := hashTypeBits nHashType &&& 0x1f == SIGHASH_SINGLE.toNat

def fHashNone (nHashType : Int) : Bool := hashTypeBits nHashType &&& 0x1f == SIGHASH_NONE.toNat

/-- Where `GetOp2` leaves `pc` when it returns false: after the opcode, and
after a length field that it could read. -/
def getOpFailedAt (script : CScript) (pc : Nat) : Nat :=
  if scriptEnd script ≤ pc then pc
  else
    match script.drop pc with
    | [] => pc
    | byte :: rest =>
      match pushSize byte.toNat (scriptEnd script - (pc + 1)) rest with
      | some (field,_) => pc + 1 + field
      | none => pc + 1

/-- The second loop of `SerializeScriptCode` over the instructions `GetOp`
reads: at each code separator the bytes since `itBegin` up to it are
written, and `itBegin` moves past it. -/
def writeSeparated (scriptCode : CScript) : List Instruction → Nat → List UInt8 × Nat
  | [], itBegin => ([],itBegin)
  | op :: ops, itBegin =>
    if op.opcode = OP_CODESEPARATOR then
      let (written,last) := writeSeparated scriptCode ops op.next
      ((scriptCode.drop itBegin).take (op.next - 1 - itBegin) ++ written,last)
    else writeSeparated scriptCode ops itBegin

/-- `SerializeScriptCode`: the size less the code separators, then the bytes
between them, up to where `GetOp` returned false. -/
def SerializeScriptCode (scriptCode : CScript) : List UInt8 :=
  let (ops,stop) := getOps scriptCode
  let nCodeSeparators := ops.countP (·.opcode = OP_CODESEPARATOR)
  let (written,itBegin) := writeSeparated scriptCode ops 0
  let it := getOpFailedAt scriptCode stop
  WriteCompactSize (scriptCode.length - nCodeSeparators) ++ written ++
    if itBegin ≠ scriptCode.length then (scriptCode.drop itBegin).take (it - itBegin) else []

section Serializer

variable (txTo : CTransaction) (scriptCode : CScript) (nIn : Nat) (nHashType : Int)

/-- `SerializeInput`: under `SIGHASH_ANYONECANPAY` only the input signed. -/
def SerializeInput (nInput : Nat) : Except Abort (List UInt8) :=
  let nInput := if fAnyoneCanPay nHashType then nIn else nInput
  match txTo.vin[nInput]? with
  | none => .error .outOfRange
  | some txin =>
    .ok (txin.prevout.Serialize ++ (if nInput ≠ nIn then serializeScript [] else SerializeScriptCode scriptCode) ++
      LittleEndian.encode 4 (if nInput ≠ nIn ∧ (fHashSingle nHashType ∨ fHashNone nHashType) then 0 else txin.nSequence))

/-- `SerializeOutput`: under `SIGHASH_SINGLE` the other outputs are `CTxOut()`. -/
def SerializeOutput (nOutput : Nat) : Except Abort (List UInt8) :=
  if fHashSingle nHashType ∧ nOutput ≠ nIn then .ok CTxOut.null.Serialize
  else match txTo.vout[nOutput]? with
    | none => .error .outOfRange
    | some txout => .ok txout.Serialize

/-- `CTransactionSignatureSerializer::Serialize`. -/
def serializeForSignature : Except Abort (List UInt8) := do
  let nInputs := if fAnyoneCanPay nHashType then 1 else txTo.vin.length
  let inputs ← (List.range nInputs).mapM (SerializeInput txTo scriptCode nIn nHashType)
  let nOutputs := if fHashNone nHashType then 0 else if fHashSingle nHashType then nIn + 1 else txTo.vout.length
  let outputs ← (List.range nOutputs).mapM (SerializeOutput txTo nIn nHashType)
  return LittleEndian.encode 4 (toUnsigned 32 txTo.nVersion) ++ WriteCompactSize nInputs ++ inputs.flatten ++
    WriteCompactSize nOutputs ++ outputs.flatten ++ LittleEndian.encode 4 txTo.nLockTime

end Serializer

/-- `SignatureHash`. The BIP 143 digest of a witness program commits to
`nTime` after the hash type; the legacy digest is the serializer's output
followed by the hash type. -/
def SignatureHash (crypto : Crypto) (scriptCode : CScript) (txTo : CTransaction) (nIn : Nat) (nHashType : Int)
    (amount : CAmount) : SigVersion → Except Abort uint256
  | .SIGVERSION_WITNESS_V0 =>
    let anyoneCanPay := fAnyoneCanPay nHashType
    let single := fHashSingle nHashType
    let none := fHashNone nHashType
    let hashPrevouts := if !anyoneCanPay then crypto.Hash256 (txTo.vin.flatMap (·.prevout.Serialize)) else Blob.null 32
    let hashSequence := if !anyoneCanPay && !single && !none then
        crypto.Hash256 (txTo.vin.flatMap (LittleEndian.encode 4 ·.nSequence)) else Blob.null 32
    let hashOutputs := if !single && !none then crypto.Hash256 (txTo.vout.flatMap CTxOut.Serialize)
      else match single,txTo.vout[nIn]? with
        | true,some txout => crypto.Hash256 txout.Serialize
        | _,_ => Blob.null 32
    -- `txTo.vin[nIn]` is read unchecked
    match txTo.vin[nIn]? with
    | Option.none => .error .outOfRange
    | some txin => .ok (crypto.Hash256 (LittleEndian.encode 4 (toUnsigned 32 txTo.nVersion) ++ hashPrevouts.bytes ++
        hashSequence.bytes ++ txin.prevout.Serialize ++ serializeScript scriptCode ++
        LittleEndian.encode 8 (toUnsigned 64 amount) ++ LittleEndian.encode 4 txin.nSequence ++ hashOutputs.bytes ++
        LittleEndian.encode 4 txTo.nLockTime ++ LittleEndian.encode 4 (hashTypeBits nHashType) ++
        LittleEndian.encode 4 txTo.nTime))
  | .SIGVERSION_BASE =>
    if txTo.vin.length ≤ nIn then .ok one
    else if fHashSingle nHashType ∧ txTo.vout.length ≤ nIn then .ok one
    else do
      let bytes ← serializeForSignature txTo scriptCode nIn nHashType
      return crypto.Hash256 (bytes ++ LittleEndian.encode 4 (hashTypeBits nHashType))

/-- The copy `SignatureHashOld` masks, or none where it returns `one` for an
output out of range: the script code without its code separators at the
input signed, the other scripts blanked, and the outputs and other sequences
masked; `CMutableTransaction(tx)` copies no witness. -/
def oldSignatureCopy (scriptCode : CScript) (txTo : CTransaction) (nIn : Nat) (nHashType : Int) : Option CTransaction :=
  let scriptCode := FindAndDelete scriptCode (pushOpcode [] OP_CODESEPARATOR)
  let vin := txTo.vin.mapIdx fun i txin => {txin with scriptSig := if i = nIn then scriptCode else []}
  let others := fun (vin : List CTxIn) => vin.mapIdx fun i txin => if i = nIn then txin else {txin with nSequence := 0}
  let masked : Option (List CTxIn × List CTxOut) :=
    if hashTypeBits nHashType &&& 0x1f = SIGHASH_NONE.toNat then some (others vin,[])
    else if hashTypeBits nHashType &&& 0x1f = SIGHASH_SINGLE.toNat then
      if txTo.vout.length ≤ nIn then none
      else some (others vin,(txTo.vout.take (nIn + 1)).mapIdx fun i txout => if i < nIn then CTxOut.null else txout)
    else some (vin,txTo.vout)
  masked.map fun (vin,vout) =>
    let vin := if hashTypeBits nHashType &&& SIGHASH_ANYONECANPAY.toNat ≠ 0 then (vin.drop nIn).take 1 else vin
    {txTo with vin := vin,vout := vout,wit := []}

/-- `SignatureHashOld`: the copy serialized without witness, then the hash type. -/
def SignatureHashOld (crypto : Crypto) (scriptCode : CScript) (txTo : CTransaction) (nIn : Nat) (nHashType : Int) :
    Except Abort uint256 :=
  if txTo.vin.length ≤ nIn then .ok one
  else match oldSignatureCopy scriptCode txTo nIn nHashType with
    | none => .ok one
    | some txTmp => do
      let bytes ← SerializeTransaction txTmp true
      return crypto.Hash256 (bytes ++ LittleEndian.encode 4 (hashTypeBits nHashType))

/-! ## What the legacy digest commits to -/

/-- The last bytes of the data, padded with zeros: a hash under which
preimages that end differently stay apart. -/
def suffixBlob (size : Nat) (data : valtype) : Blob size := ⟨(List.replicate size 0 ++ data).drop data.length,by simp⟩

def suffixCrypto : Crypto := ⟨suffixBlob 20,suffixBlob 20,suffixBlob 32,fun _ => true⟩

/-- A transaction of one input and one output, with `nTime` zero. -/
def spendTx : CTransaction := ⟨Blob.null 32,1,[⟨⟨Blob.replicate 32 7,0⟩,[],SEQUENCE_FINAL⟩],[⟨5,[0x51]⟩],[],0,0⟩

/-- The legacy digest does not commit to `nTime`: two transactions that
differ in `nTime` alone share it, for every script code, input and hash
type. `SignatureHashOld` does commit to it, so the two disagree, here with
`SIGHASH_ALL` on a one-input transaction. And where the script code ends in a
push that runs past its end, `SerializeScriptCode` writes the size of the
whole script but stops at the failed `GetOp`, where the reference keeps the
script whole. -/
theorem legacy_sighash_ignores_nTime :
    (∀ (crypto : Crypto) (scriptCode : CScript) (txTo : CTransaction) (nIn : Nat) (nHashType : Int)
        (amount : CAmount) (nTime : Nat),
      SignatureHash crypto scriptCode {txTo with nTime := nTime} nIn nHashType amount .SIGVERSION_BASE =
        SignatureHash crypto scriptCode txTo nIn nHashType amount .SIGVERSION_BASE) ∧
    SignatureHashOld suffixCrypto [0x51] spendTx 0 1 ≠ SignatureHashOld suffixCrypto [0x51] {spendTx with nTime := 1} 0 1 ∧
    SignatureHash suffixCrypto [0x51] spendTx 0 1 0 .SIGVERSION_BASE ≠ SignatureHashOld suffixCrypto [0x51] spendTx 0 1 ∧
    SerializeScriptCode [0x02,0x01] = [2,2] ∧
      serializeScript (FindAndDelete [0x02,0x01] (pushOpcode [] OP_CODESEPARATOR)) = [2,2,1] :=
  -- the serializer reads every field of the transaction but `nTime`
  ⟨fun _ _ _ _ _ _ _ => rfl,by decide,by decide,by decide,by decide⟩

end Qtum.Script
