import Qtum.Primitives.Serialize
import Qtum.Primitives.Transaction

/-! The wire format of transactions, `SerializeTransaction` of
`primitives/transaction.h` with Qtum's `nTime` after `nLockTime`. Integers
are little-endian, a script is a byte vector, and the witness, when any
input has one, follows the outputs behind a dummy empty input vector and a
flag byte. The writer resizes the witness to one entry per input; it
asserts that there are no more entries than inputs. The reader takes an
empty input vector for the dummy unless witnesses are off, and rejects
unknown flags and a witness of empty entries only. -/
namespace Qtum

open Script

def SERIALIZE_TRANSACTION_NO_WITNESS : Nat := 0x40000000

/-- A script as the `prevector` it is stored in: its size, then its bytes. -/
def serializeScript (script : CScript) : List UInt8 := WriteVector (fun byte => [byte]) script

def COutPoint.Serialize (prevout : COutPoint) : List UInt8 :=
  prevout.hash.bytes ++ LittleEndian.encode 4 prevout.n

def CTxIn.Serialize (txin : CTxIn) : List UInt8 :=
  txin.prevout.Serialize ++ serializeScript txin.scriptSig ++ LittleEndian.encode 4 txin.nSequence

def CTxOut.Serialize (txout : CTxOut) : List UInt8 :=
  LittleEndian.encode 8 (toUnsigned 64 txout.nValue) ++ serializeScript txout.scriptPubKey

/-- `CScriptWitness::IsNull`. -/
def CScriptWitness.IsNull (witness : CScriptWitness) : Bool := witness.stack.isEmpty

/-- The witness entries resized to one per input, as the writer leaves them. -/
def CTransaction.resizedWitness (tx : CTransaction) : List CScriptWitness :=
  tx.wit ++ List.replicate (tx.vin.length - tx.wit.length) ⟨[]⟩

/-- `SerializeTransaction` writing; `noWitness` is `SERIALIZE_TRANSACTION_NO_WITNESS`. -/
def SerializeTransaction (tx : CTransaction) (noWitness : Bool) : Except Abort (List UInt8) :=
  if tx.vin.length < tx.wit.length then .error .assertion
  else
    let flags : Nat := if !noWitness && !tx.wit.all CScriptWitness.IsNull then 1 else 0
    .ok (LittleEndian.encode 4 (toUnsigned 32 tx.nVersion) ++
      (if flags ≠ 0 then WriteCompactSize 0 ++ [UInt8.ofNat flags] else []) ++
      WriteVector CTxIn.Serialize tx.vin ++ WriteVector CTxOut.Serialize tx.vout ++
      (if flags = 1 then (tx.resizedWitness.map fun witness => WriteVector serializeScript witness.stack).flatten
        else []) ++
      LittleEndian.encode 4 tx.nLockTime ++ LittleEndian.encode 4 tx.nTime)

/-! ## Reading -/

/-- `CMutableTransaction`: the fields the reader fills in, without the hash. -/
structure CMutableTransaction where
  nVersion : Int
  vin : List CTxIn
  vout : List CTxOut
  wit : List CScriptWitness
  nLockTime : Nat
  nTime : Nat
  deriving DecidableEq

/-- The transaction of these fields with a given hash, which the writer does not read. -/
def CMutableTransaction.withHash (tx : CMutableTransaction) (hash : uint256) : CTransaction :=
  ⟨hash,tx.nVersion,tx.vin,tx.vout,tx.wit,tx.nLockTime,tx.nTime⟩

/-- `base_blob::Unserialize`: the raw bytes. -/
def readBlob (size : Nat) : Decoder (Blob size) := fun input =>
  if fits : size ≤ input.length then .ok (some (⟨input.take size,by simp [fits]⟩,input.drop size)) else .ok none

/-- A `prevector` of bytes: its size, then the bytes. -/
def readScript : Decoder CScript := do
  let nSize ← ReadCompactSize
  Decoder.bytes nSize

def COutPoint.Unserialize : Decoder COutPoint := do
  let hash ← readBlob 32
  let n ← readLittleEndian 4
  pure ⟨hash,n⟩

def CTxIn.Unserialize : Decoder CTxIn := do
  let prevout ← COutPoint.Unserialize
  let scriptSig ← readScript
  let nSequence ← readLittleEndian 4
  pure ⟨prevout,scriptSig,nSequence⟩

/-- `nValue` is an `int64_t`. -/
def CTxOut.Unserialize : Decoder CTxOut := do
  let nValue ← readLittleEndian 8
  let scriptPubKey ← readScript
  pure ⟨toSigned 64 nValue,scriptPubKey⟩

/-- `CTxInWitness::SerializationOp`: the stack, a vector of byte vectors. -/
def CScriptWitness.Unserialize : Decoder CScriptWitness := do
  let stack ← ReadVector readScript
  pure ⟨stack⟩

/-- The vectors after `nVersion`. Unless witnesses are off, an empty input
vector may be the dummy of the extended format, and the flag byte follows. -/
def readVectors (noWitness : Bool) : Decoder (UInt8 × List CTxIn × List CTxOut) := do
  let vin ← ReadVector CTxIn.Unserialize
  if vin.isEmpty && !noWitness then do
    let flags ← Decoder.byte
    if flags ≠ 0 then do
      let vin ← ReadVector CTxIn.Unserialize
      let vout ← ReadVector CTxOut.Unserialize
      pure (flags,vin,vout)
    else pure (flags,vin,[])
  else do
    let vout ← ReadVector CTxOut.Unserialize
    pure (0,vin,vout)

/-- The witness the flag announces, resized to one entry for each input;
`CTxWitness::SerializationOp` throws "Superfluous witness record" where
every entry is empty. -/
def readWitness (noWitness : Bool) (flags : UInt8) (vin : List CTxIn) : Decoder (UInt8 × List CScriptWitness) :=
  if flags &&& 1 ≠ 0 && !noWitness then do
    let wit ← Decoder.replicate CScriptWitness.Unserialize vin.length
    if wit.all CScriptWitness.IsNull then Decoder.fail else pure (flags ^^^ 1,wit)
  else pure (flags,[])

/-- `SerializeTransaction` reading; `noWitness` is `SERIALIZE_TRANSACTION_NO_WITNESS`. -/
def UnserializeTransaction (noWitness : Bool) : Decoder CMutableTransaction := do
  let nVersion ← readLittleEndian 4
  let (flags,vin,vout) ← readVectors noWitness
  let (flags,wit) ← readWitness noWitness flags vin
  -- "Unknown transaction optional data"
  if flags ≠ 0 then Decoder.fail
  else do
    let nLockTime ← readLittleEndian 4
    let nTime ← readLittleEndian 4
    pure ⟨toSigned 32 nVersion,vin,vout,wit,nLockTime,nTime⟩

end Qtum
