import Qtum.Primitives.TxSerialize

/-! The wire format of transactions read back. A transaction whose fields
fit their C++ types and whose vectors and scripts hold at most `MAX_SIZE`
entries is read back from what `SerializeTransaction` writes, in both modes,
as long as the reader cannot take its empty input vector for the dummy of
the extended format. In the other direction, what the reader accepts is the
encoding of the transaction it returns: every size it reads is in its
shortest form, and the extended format only carries a witness that is not
null. -/
namespace Qtum

open Script

/-! ## Fields -/

theorem readBlob_bytes {size : Nat} (blob : Blob size) (rest : List UInt8) :
    readBlob size (blob.bytes ++ rest) = .ok (some (blob,rest)) := by
  have length := blob.length
  simp [readBlob,length]

theorem readBlob_canonical (size : Nat) : Decoder.Canonical (readBlob size) Blob.bytes := by
  intro input blob rest read
  unfold readBlob at read
  split at read
  · cases read
    exact (List.take_append_drop size input).symm
  · cases read

@[simp] theorem serializeScript_eq (script : CScript) : serializeScript script = WriteCompactSize script.length ++ script := by
  rw [serializeScript,WriteVector,← List.flatMap_def,List.flatMap_singleton']

theorem readScript_serializeScript : Decoder.RoundTrip readScript serializeScript (·.length ≤ MAX_SIZE) := by
  intro script bounded rest
  rw [serializeScript_eq,List.append_assoc,readScript,
    Decoder.bind_apply_of_some (ReadCompactSize_WriteCompactSize script.length bounded _)]
  exact Decoder.bytes_append rfl rest

theorem readScript_canonical : Decoder.Canonical readScript serializeScript := by
  intro input script rest read
  obtain ⟨nSize,middle,sizeRead,bytesRead⟩ := Decoder.bind_some read
  obtain ⟨length,split⟩ := Decoder.bytes_some bytesRead
  rw [ReadCompactSize_canonical input nSize middle sizeRead,split,serializeScript_eq,length,List.append_assoc]

/-- The fields of an outpoint fit a `uint32_t`. -/
def COutPoint.Fits (prevout : COutPoint) : Prop := prevout.n < 2 ^ 32

instance (prevout : COutPoint) : Decidable prevout.Fits := inferInstanceAs (Decidable (_ < _))

theorem COutPoint.Unserialize_Serialize : Decoder.RoundTrip COutPoint.Unserialize COutPoint.Serialize COutPoint.Fits := by
  intro prevout fits rest
  rw [COutPoint.Serialize,List.append_assoc,COutPoint.Unserialize,Decoder.bind_apply_of_some (readBlob_bytes _ _),
    Decoder.bind_apply_of_some (readLittleEndian_encode (by unfold COutPoint.Fits at fits; omega) rest)]
  rfl

theorem COutPoint.Unserialize_canonical : Decoder.Canonical COutPoint.Unserialize COutPoint.Serialize := by
  intro input prevout rest read
  obtain ⟨hash,middle,hashRead,nRead⟩ := Decoder.bind_some read
  obtain ⟨n,after,nRead,built⟩ := Decoder.bind_some nRead
  obtain ⟨same,left⟩ := Decoder.pure_some built
  subst same left
  rw [readBlob_canonical 32 input hash middle hashRead,(readLittleEndian_some nRead).2,COutPoint.Serialize,
    List.append_assoc]

/-- What the wire format holds of an input: `uint32_t` fields and a script of at most `MAX_SIZE` bytes. -/
def CTxIn.Fits (txin : CTxIn) : Prop :=
  txin.prevout.Fits ∧ txin.scriptSig.length ≤ MAX_SIZE ∧ txin.nSequence < 2 ^ 32

instance (txin : CTxIn) : Decidable txin.Fits := inferInstanceAs (Decidable (_ ∧ _ ∧ _))

theorem CTxIn.Unserialize_Serialize : Decoder.RoundTrip CTxIn.Unserialize CTxIn.Serialize CTxIn.Fits := by
  rintro txin ⟨prevout,script,sequence⟩ rest
  rw [CTxIn.Serialize,List.append_assoc,List.append_assoc,CTxIn.Unserialize,
    Decoder.bind_apply_of_some (COutPoint.Unserialize_Serialize _ prevout _),
    Decoder.bind_apply_of_some (readScript_serializeScript _ script _),
    Decoder.bind_apply_of_some (readLittleEndian_encode (by omega) rest)]
  rfl

theorem CTxIn.Unserialize_canonical : Decoder.Canonical CTxIn.Unserialize CTxIn.Serialize := by
  intro input txin rest read
  obtain ⟨prevout,middle,prevoutRead,afterPrevout⟩ := Decoder.bind_some read
  obtain ⟨scriptSig,after,scriptRead,afterScript⟩ := Decoder.bind_some afterPrevout
  obtain ⟨nSequence,last,sequenceRead,built⟩ := Decoder.bind_some afterScript
  obtain ⟨same,left⟩ := Decoder.pure_some built
  subst same left
  rw [COutPoint.Unserialize_canonical input prevout middle prevoutRead,
    readScript_canonical middle scriptSig after scriptRead,(readLittleEndian_some sequenceRead).2,CTxIn.Serialize]
  simp

/-- What the wire format holds of an output: an `int64_t` value and a script of at most `MAX_SIZE` bytes. -/
def CTxOut.Fits (txout : CTxOut) : Prop := FitsInt64 txout.nValue ∧ txout.scriptPubKey.length ≤ MAX_SIZE

instance (txout : CTxOut) : Decidable txout.Fits := inferInstanceAs (Decidable (_ ∧ _))

theorem CTxOut.Unserialize_Serialize : Decoder.RoundTrip CTxOut.Unserialize CTxOut.Serialize CTxOut.Fits := by
  rintro txout ⟨⟨low,high⟩,script⟩ rest
  have fits : toUnsigned 64 txout.nValue < 256 ^ 8 := by
    unfold toUnsigned
    omega
  have signed : toSigned 64 (toUnsigned 64 txout.nValue) = txout.nValue := by
    unfold INT64_MIN at low
    unfold INT64_MAX at high
    exact toSigned_toUnsigned (by decide) (by simpa using low) (by simp; omega)
  rw [CTxOut.Serialize,List.append_assoc,CTxOut.Unserialize,Decoder.bind_apply_of_some (readLittleEndian_encode fits _),
    Decoder.bind_apply_of_some (readScript_serializeScript _ script rest),Decoder.pure_apply,signed]

theorem CTxOut.Unserialize_canonical : Decoder.Canonical CTxOut.Unserialize CTxOut.Serialize := by
  intro input txout rest read
  obtain ⟨nValue,middle,valueRead,afterValue⟩ := Decoder.bind_some read
  obtain ⟨scriptPubKey,after,scriptRead,built⟩ := Decoder.bind_some afterValue
  obtain ⟨same,left⟩ := Decoder.pure_some built
  subst same left
  obtain ⟨fits,split⟩ := readLittleEndian_some valueRead
  rw [split,readScript_canonical middle scriptPubKey rest scriptRead,CTxOut.Serialize,
    toUnsigned_toSigned (by simpa using fits),List.append_assoc]

/-- What the wire format holds of a witness: at most `MAX_SIZE` items of at most `MAX_SIZE` bytes. -/
def CScriptWitness.Fits (witness : CScriptWitness) : Prop :=
  witness.stack.length ≤ MAX_SIZE ∧ ∀ item ∈ witness.stack, item.length ≤ MAX_SIZE

instance (witness : CScriptWitness) : Decidable (CScriptWitness.Fits witness) := inferInstanceAs (Decidable (_ ∧ _))

/-- `CTxInWitness::SerializationOp` writing. -/
def CScriptWitness.Serialize (witness : CScriptWitness) : List UInt8 := WriteVector serializeScript witness.stack

theorem CScriptWitness.Unserialize_Serialize :
    Decoder.RoundTrip CScriptWitness.Unserialize CScriptWitness.Serialize CScriptWitness.Fits := by
  intro witness fits rest
  rw [CScriptWitness.Serialize,CScriptWitness.Unserialize,
    Decoder.bind_apply_of_some (ReadVector_WriteVector readScript_serializeScript witness.stack fits rest)]
  rfl

theorem CScriptWitness.Unserialize_canonical : Decoder.Canonical CScriptWitness.Unserialize CScriptWitness.Serialize := by
  intro input witness rest read
  obtain ⟨stack,middle,stackRead,built⟩ := Decoder.bind_some read
  obtain ⟨same,left⟩ := Decoder.pure_some built
  subst same left
  exact ReadVector_canonical readScript_canonical input stack rest stackRead

/-! ## Transactions -/

/-- What the wire format holds of a transaction: an `int32_t` version,
`uint32_t` times, and vectors and scripts of at most `MAX_SIZE` entries. -/
def CTransaction.Fits (tx : CTransaction) : Prop :=
  -2 ^ 31 ≤ tx.nVersion ∧ tx.nVersion < 2 ^ 31 ∧
  tx.vin.length ≤ MAX_SIZE ∧ (∀ txin ∈ tx.vin, txin.Fits) ∧
  tx.vout.length ≤ MAX_SIZE ∧ (∀ txout ∈ tx.vout, txout.Fits) ∧
  (∀ witness ∈ tx.wit, CScriptWitness.Fits witness) ∧ tx.nLockTime < 2 ^ 32 ∧ tx.nTime < 2 ^ 32

instance (tx : CTransaction) : Decidable tx.Fits := inferInstanceAs (Decidable (_ ∧ _ ∧ _ ∧ _ ∧ _ ∧ _ ∧ _ ∧ _ ∧ _))

/-- Whether the writer uses the extended format: witnesses are on and some input has one. -/
def CTransaction.HasWitness (tx : CTransaction) (noWitness : Bool) : Bool :=
  !noWitness && !tx.wit.all CScriptWitness.IsNull

theorem SerializeTransaction_extended {tx : CTransaction} {noWitness : Bool} (sized : tx.wit.length ≤ tx.vin.length)
    (extended : tx.HasWitness noWitness = true) :
    SerializeTransaction tx noWitness = .ok (LittleEndian.encode 4 (toUnsigned 32 tx.nVersion) ++
      WriteVector CTxIn.Serialize [] ++ [1] ++ WriteVector CTxIn.Serialize tx.vin ++ WriteVector CTxOut.Serialize tx.vout ++
      (tx.resizedWitness.map CScriptWitness.Serialize).flatten ++
      LittleEndian.encode 4 tx.nLockTime ++ LittleEndian.encode 4 tx.nTime) := by
  unfold CTransaction.HasWitness at extended
  simp [SerializeTransaction,Nat.not_lt.mpr sized,extended,WriteVector]
  rfl

theorem SerializeTransaction_basic {tx : CTransaction} {noWitness : Bool} (sized : tx.wit.length ≤ tx.vin.length)
    (basic : tx.HasWitness noWitness = false) :
    SerializeTransaction tx noWitness = .ok (LittleEndian.encode 4 (toUnsigned 32 tx.nVersion) ++
      WriteVector CTxIn.Serialize tx.vin ++ WriteVector CTxOut.Serialize tx.vout ++
      LittleEndian.encode 4 tx.nLockTime ++ LittleEndian.encode 4 tx.nTime) := by
  unfold CTransaction.HasWitness at basic
  simp [SerializeTransaction,Nat.not_lt.mpr sized,basic]

theorem readVectors_extended {flags : UInt8} (flagged : flags ≠ 0) {vin : List CTxIn} {vout : List CTxOut}
    (inputs : vin.length ≤ MAX_SIZE ∧ ∀ txin ∈ vin, txin.Fits)
    (outputs : vout.length ≤ MAX_SIZE ∧ ∀ txout ∈ vout, txout.Fits) (rest : List UInt8) :
    readVectors false (WriteVector CTxIn.Serialize [] ++ flags :: (WriteVector CTxIn.Serialize vin ++
      (WriteVector CTxOut.Serialize vout ++ rest))) = .ok (some ((flags,vin,vout),rest)) := by
  rw [readVectors,Decoder.bind_apply_of_some (ReadVector_WriteVector CTxIn.Unserialize_Serialize [] ⟨by simp,by simp⟩ _),
    Decoder.ite_apply,if_pos (by decide),Decoder.bind_apply_of_some (Decoder.byte_cons _ _),Decoder.ite_apply,if_pos flagged,Decoder.bind_apply_of_some (ReadVector_WriteVector CTxIn.Unserialize_Serialize vin inputs _),
    Decoder.bind_apply_of_some (ReadVector_WriteVector CTxOut.Unserialize_Serialize vout outputs _)]
  rfl

theorem readVectors_basic {noWitness : Bool} {vin : List CTxIn} {vout : List CTxOut} (unambiguous : vin ≠ [] ∨ noWitness)
    (inputs : vin.length ≤ MAX_SIZE ∧ ∀ txin ∈ vin, txin.Fits)
    (outputs : vout.length ≤ MAX_SIZE ∧ ∀ txout ∈ vout, txout.Fits) (rest : List UInt8) :
    readVectors noWitness (WriteVector CTxIn.Serialize vin ++ (WriteVector CTxOut.Serialize vout ++ rest)) =
      .ok (some ((0,vin,vout),rest)) := by
  have plain : (vin.isEmpty && !noWitness) = false := by
    rcases unambiguous with nonempty | off
    · simp [List.isEmpty_iff,nonempty]
    · simp [off]
  rw [readVectors,Decoder.bind_apply_of_some (ReadVector_WriteVector CTxIn.Unserialize_Serialize vin inputs _),
    Decoder.ite_apply,plain,if_neg Bool.false_ne_true,
    Decoder.bind_apply_of_some (ReadVector_WriteVector CTxOut.Unserialize_Serialize vout outputs _)]
  rfl

theorem readWitness_present {vin : List CTxIn} {wit : List CScriptWitness}
    (witnesses : wit.length = vin.length ∧ ∀ witness ∈ wit, CScriptWitness.Fits witness)
    (notNull : wit.all CScriptWitness.IsNull = false) (rest : List UInt8) :
    readWitness false 1 vin ((wit.map CScriptWitness.Serialize).flatten ++ rest) = .ok (some ((0,wit),rest)) := by
  have entries := Decoder.RoundTrip.replicate CScriptWitness.Unserialize_Serialize wit witnesses rest
  rw [readWitness,Decoder.ite_apply,if_pos (by decide),Decoder.bind_apply_of_some entries,Decoder.ite_apply,notNull]
  rfl

theorem readWitness_absent (noWitness : Bool) (vin : List CTxIn) (input : List UInt8) :
    readWitness noWitness 0 vin input = .ok (some ((0,[]),input)) := rfl

theorem UnserializeTransaction_basic_bytes {noWitness : Bool} {tx : CTransaction} (fits : tx.Fits)
    (unambiguous : tx.vin ≠ [] ∨ noWitness) (rest : List UInt8) :
    UnserializeTransaction noWitness (LittleEndian.encode 4 (toUnsigned 32 tx.nVersion) ++
        WriteVector CTxIn.Serialize tx.vin ++ WriteVector CTxOut.Serialize tx.vout ++
        LittleEndian.encode 4 tx.nLockTime ++ LittleEndian.encode 4 tx.nTime ++ rest) =
      .ok (some (⟨tx.nVersion,tx.vin,tx.vout,[],tx.nLockTime,tx.nTime⟩,rest)) := by
  obtain ⟨low,high,inputCount,inputs,outputCount,outputs,-,lock,time⟩ := fits
  simp only [List.append_assoc]
  rw [UnserializeTransaction,Decoder.bind_apply_of_some (readLittleEndian_encode (by unfold toUnsigned; omega) _),
    Decoder.bind_apply_of_some (readVectors_basic unambiguous ⟨inputCount,inputs⟩ ⟨outputCount,outputs⟩ _)]
  dsimp only
  rw [Decoder.bind_apply_of_some (readWitness_absent noWitness tx.vin _)]
  dsimp only
  rw [Decoder.ite_apply,if_neg (by decide),Decoder.bind_apply_of_some (readLittleEndian_encode (by omega) _),
    Decoder.bind_apply_of_some (readLittleEndian_encode (by omega) _),Decoder.pure_apply,
    toSigned_toUnsigned (by decide) (by simpa using low) (by simpa using high)]

theorem UnserializeTransaction_extended_bytes {tx : CTransaction} (fits : tx.Fits) {wit : List CScriptWitness}
    (witnesses : wit.length = tx.vin.length ∧ ∀ witness ∈ wit, CScriptWitness.Fits witness)
    (notNull : wit.all CScriptWitness.IsNull = false) (rest : List UInt8) :
    UnserializeTransaction false (LittleEndian.encode 4 (toUnsigned 32 tx.nVersion) ++
        WriteVector CTxIn.Serialize [] ++ [1] ++ WriteVector CTxIn.Serialize tx.vin ++
        WriteVector CTxOut.Serialize tx.vout ++ (wit.map CScriptWitness.Serialize).flatten ++
        LittleEndian.encode 4 tx.nLockTime ++ LittleEndian.encode 4 tx.nTime ++ rest) =
      .ok (some (⟨tx.nVersion,tx.vin,tx.vout,wit,tx.nLockTime,tx.nTime⟩,rest)) := by
  obtain ⟨low,high,inputCount,inputs,outputCount,outputs,-,lock,time⟩ := fits
  simp only [List.append_assoc,List.cons_append,List.nil_append]
  rw [UnserializeTransaction,Decoder.bind_apply_of_some (readLittleEndian_encode (by unfold toUnsigned; omega) _),
    Decoder.bind_apply_of_some (readVectors_extended (by decide) ⟨inputCount,inputs⟩ ⟨outputCount,outputs⟩ _)]
  dsimp only
  rw [Decoder.bind_apply_of_some (readWitness_present witnesses notNull _)]
  dsimp only
  rw [Decoder.ite_apply,if_neg (by decide),Decoder.bind_apply_of_some (readLittleEndian_encode (by omega) _),
    Decoder.bind_apply_of_some (readLittleEndian_encode (by omega) _),Decoder.pure_apply,
    toSigned_toUnsigned (by decide) (by simpa using low) (by simpa using high)]

/-! ## What the reader accepts -/

/-- The vectors are read from the basic format, or from the extended one
behind the dummy and a flag that is not zero. An empty input vector with a
zero flag is the basic format of no inputs and no outputs. -/
theorem readVectors_some {noWitness : Bool} {input rest : List UInt8} {flags : UInt8} {vin : List CTxIn}
    {vout : List CTxOut} (read : readVectors noWitness input = .ok (some ((flags,vin,vout),rest))) :
    flags = 0 ∧ input = WriteVector CTxIn.Serialize vin ++ (WriteVector CTxOut.Serialize vout ++ rest) ∨
      noWitness = false ∧ flags ≠ 0 ∧
        input = WriteVector CTxIn.Serialize [] ++ flags :: (WriteVector CTxIn.Serialize vin ++
          (WriteVector CTxOut.Serialize vout ++ rest)) := by
  obtain ⟨first,middle,firstRead,afterFirst⟩ := Decoder.bind_some read
  have firstInput := ReadVector_canonical CTxIn.Unserialize_canonical input first middle firstRead
  rw [Decoder.ite_apply] at afterFirst
  split at afterFirst
  · -- an empty input vector, and witnesses on: a flag byte follows
    rename_i dummy
    obtain ⟨empty,witnesses⟩ : first = [] ∧ noWitness = false := by simpa using dummy
    subst empty
    obtain ⟨flag,afterFlag,flagRead,vectorsRead⟩ := Decoder.bind_some afterFirst
    rw [Decoder.byte_some flagRead] at firstInput
    rw [Decoder.ite_apply] at vectorsRead
    split at vectorsRead
    · rename_i flagged
      obtain ⟨second,afterSecond,secondRead,outputsRead⟩ := Decoder.bind_some vectorsRead
      obtain ⟨outputs,last,outputsRead,built⟩ := Decoder.bind_some outputsRead
      obtain ⟨same,left⟩ := Decoder.pure_some built
      cases same
      subst left
      refine .inr ⟨witnesses,flagged,?_⟩
      rw [firstInput,ReadVector_canonical CTxIn.Unserialize_canonical afterFlag vin afterSecond secondRead,
        ReadVector_canonical CTxOut.Unserialize_canonical afterSecond vout rest outputsRead]
    · rename_i zero
      obtain ⟨same,left⟩ := Decoder.pure_some vectorsRead
      cases same
      subst left
      refine .inl ⟨not_not.mp zero,?_⟩
      rw [firstInput,not_not.mp zero]
      rfl
  · obtain ⟨outputs,last,outputsRead,built⟩ := Decoder.bind_some afterFirst
    obtain ⟨same,left⟩ := Decoder.pure_some built
    cases same
    subst left
    exact .inl ⟨rfl,by rw [firstInput,ReadVector_canonical CTxOut.Unserialize_canonical middle vout rest outputsRead]⟩

/-- A witness that leaves no flag set was announced by the flag `1` alone,
and has one entry for each input, not all of them empty. -/
theorem readWitness_some {noWitness : Bool} {flags : UInt8} {vin : List CTxIn} {input rest : List UInt8}
    {wit : List CScriptWitness} (read : readWitness noWitness flags vin input = .ok (some ((0,wit),rest))) :
    flags = 0 ∧ wit = [] ∧ rest = input ∨
      noWitness = false ∧ flags = 1 ∧ wit.length = vin.length ∧ wit.all CScriptWitness.IsNull = false ∧
        input = (wit.map CScriptWitness.Serialize).flatten ++ rest := by
  rw [readWitness,Decoder.ite_apply] at read
  split at read
  · rename_i announced
    obtain ⟨entries,after,entriesRead,checked⟩ := Decoder.bind_some read
    rw [Decoder.ite_apply] at checked
    split at checked
    · cases checked
    · rename_i notNull
      obtain ⟨same,left⟩ := Decoder.pure_some checked
      obtain ⟨cleared,same⟩ := Prod.mk.inj same
      subst same left
      obtain ⟨length,entriesInput⟩ := CScriptWitness.Unserialize_canonical.replicate vin.length input wit rest entriesRead
      have one : flags = 1 := by
        have back := congrArg (· ^^^ (1 : UInt8)) cleared
        simpa [UInt8.xor_assoc] using back.symm
      exact .inr ⟨(by simpa using announced : _ ∧ noWitness = false).2,one,length,by simpa using notNull,entriesInput⟩
  · obtain ⟨same,left⟩ := Decoder.pure_some read
    obtain ⟨cleared,same⟩ := Prod.mk.inj same
    exact .inl ⟨cleared.symm,same,left⟩

/-- What the reader accepts re-serializes, in the same mode, to the bytes it
consumed, whatever hash the transaction is given. -/
theorem UnserializeTransaction_canonical {noWitness : Bool} {input rest : List UInt8} {tx : CMutableTransaction}
    (read : UnserializeTransaction noWitness input = .ok (some (tx,rest))) :
    ∃ consumed, input = consumed ++ rest ∧ ∀ hash, SerializeTransaction (tx.withHash hash) noWitness = .ok consumed := by
  obtain ⟨nVersion,afterVersion,versionRead,read⟩ := Decoder.bind_some read
  obtain ⟨⟨flags,vin,vout⟩,afterVectors,vectorsRead,read⟩ := Decoder.bind_some read
  dsimp only at read
  obtain ⟨⟨cleared,wit⟩,afterWitness,witnessRead,read⟩ := Decoder.bind_some read
  dsimp only at read
  rw [Decoder.ite_apply] at read
  split at read
  · cases read
  · rename_i known
    rw [not_not] at known
    subst known
    obtain ⟨nLockTime,afterLock,lockRead,read⟩ := Decoder.bind_some read
    obtain ⟨nTime,last,timeRead,built⟩ := Decoder.bind_some read
    obtain ⟨same,left⟩ := Decoder.pure_some built
    subst same left
    obtain ⟨versionFits,versionInput⟩ := readLittleEndian_some versionRead
    have version : toUnsigned 32 (toSigned 32 nVersion) = nVersion := toUnsigned_toSigned (by simpa using versionFits)
    rcases readVectors_some vectorsRead with ⟨zero,vectorsInput⟩ | ⟨witnesses,flagged,vectorsInput⟩
    · -- the basic format: no witness can follow a zero flag
      subst zero
      rcases readWitness_some witnessRead with ⟨-,empty,same⟩ | ⟨-,one,-⟩
      · subst empty same
        refine ⟨LittleEndian.encode 4 nVersion ++ WriteVector CTxIn.Serialize vin ++ WriteVector CTxOut.Serialize vout ++
          LittleEndian.encode 4 nLockTime ++ LittleEndian.encode 4 nTime,?_,fun hash => ?_⟩
        · rw [versionInput,vectorsInput,(readLittleEndian_some lockRead).2,(readLittleEndian_some timeRead).2]
          simp
        · rw [SerializeTransaction_basic (by simp [CMutableTransaction.withHash])
            (by simp [CTransaction.HasWitness,CMutableTransaction.withHash])]
          simp [CMutableTransaction.withHash,version]
      · cases one
    · -- the extended format carries a witness that is not null
      subst witnesses
      rcases readWitness_some witnessRead with ⟨zero,-,-⟩ | ⟨-,one,length,notNull,witnessInput⟩
      · exact absurd zero flagged
      · subst one
        refine ⟨LittleEndian.encode 4 nVersion ++ WriteVector CTxIn.Serialize [] ++ [1] ++
          WriteVector CTxIn.Serialize vin ++ WriteVector CTxOut.Serialize vout ++
          (wit.map CScriptWitness.Serialize).flatten ++ LittleEndian.encode 4 nLockTime ++
          LittleEndian.encode 4 nTime,?_,fun hash => ?_⟩
        · rw [versionInput,vectorsInput,witnessInput,(readLittleEndian_some lockRead).2,(readLittleEndian_some timeRead).2]
          simp
        · have extended : (CMutableTransaction.withHash ⟨toSigned 32 nVersion,vin,vout,wit,nLockTime,nTime⟩ hash).HasWitness
              false = true := by
            simp [CTransaction.HasWitness,CMutableTransaction.withHash,notNull]
          have resized : (CMutableTransaction.withHash ⟨toSigned 32 nVersion,vin,vout,wit,nLockTime,nTime⟩ hash).resizedWitness
              = wit := by
            simp [CTransaction.resizedWitness,CMutableTransaction.withHash,length]
          rw [SerializeTransaction_extended (by simp [CMutableTransaction.withHash,length]) extended,resized]
          simp [CMutableTransaction.withHash,version]

/-! ## Round trips -/

section Resized

variable {tx : CTransaction}

theorem resizedWitness_length (sized : tx.wit.length ≤ tx.vin.length) : tx.resizedWitness.length = tx.vin.length := by
  simp only [CTransaction.resizedWitness,List.length_append,List.length_replicate]
  omega

theorem resizedWitness_fits (fits : ∀ witness ∈ tx.wit, CScriptWitness.Fits witness) :
    ∀ witness ∈ tx.resizedWitness, CScriptWitness.Fits witness := by
  intro witness member
  rcases List.mem_append.mp member with written | padded
  · exact fits witness written
  · rw [(List.mem_replicate.mp padded).2]
    exact ⟨by simp,by simp⟩

/-- The entries the writer pads the witness with are null. -/
theorem resizedWitness_all_IsNull : tx.resizedWitness.all CScriptWitness.IsNull = tx.wit.all CScriptWitness.IsNull := by
  simp [CTransaction.resizedWitness,CScriptWitness.IsNull]

end Resized

/-- A transaction that fits the wire format, and whose input vector is not
empty or whose witness is not null, is read back from what the writer
writes, in both modes: with the witness resized to its inputs where the
extended format is written, and without one otherwise. -/
theorem UnserializeTransaction_SerializeTransaction {tx : CTransaction} {noWitness : Bool}
    (sized : tx.wit.length ≤ tx.vin.length) (fits : tx.Fits)
    (unambiguous : tx.vin ≠ [] ∨ tx.wit.all CScriptWitness.IsNull = false) (rest : List UInt8) :
    ∃ bytes, SerializeTransaction tx noWitness = .ok bytes ∧
      UnserializeTransaction noWitness (bytes ++ rest) =
        .ok (some (⟨tx.nVersion,tx.vin,tx.vout,if tx.HasWitness noWitness then tx.resizedWitness else [],
          tx.nLockTime,tx.nTime⟩,rest)) := by
  cases extended : tx.HasWitness noWitness
  · -- the basic format, which an empty input vector could only be read from with witnesses off
    refine ⟨_,SerializeTransaction_basic sized extended,?_⟩
    have plain : tx.vin ≠ [] ∨ noWitness := by
      rcases unambiguous with nonempty | notNull
      · exact .inl nonempty
      · simp [CTransaction.HasWitness,notNull] at extended
        exact .inr extended
    exact UnserializeTransaction_basic_bytes fits plain rest
  · have witnesses : noWitness = false := by
      simp only [CTransaction.HasWitness,Bool.and_eq_true,Bool.not_eq_true'] at extended
      exact extended.1
    have notNull : tx.resizedWitness.all CScriptWitness.IsNull = false := by
      simp only [CTransaction.HasWitness,Bool.and_eq_true,Bool.not_eq_true'] at extended
      rw [resizedWitness_all_IsNull,extended.2]
    subst witnesses
    refine ⟨_,SerializeTransaction_extended sized extended,?_⟩
    exact UnserializeTransaction_extended_bytes fits
      ⟨resizedWitness_length sized,resizedWitness_fits fits.2.2.2.2.2.2.1⟩ notNull rest

/-- The wire format round-trips for transactions that fit it. What the
writer writes is read back in both modes, unless an empty input vector
could be taken for the dummy. What the reader accepts is what the writer
writes of the transaction it returns. -/
theorem transaction_wire_round_trip :
    (∀ (tx : CTransaction) (noWitness : Bool) (rest : List UInt8), tx.wit.length ≤ tx.vin.length → tx.Fits →
      (tx.vin ≠ [] ∨ tx.wit.all CScriptWitness.IsNull = false) →
      ∃ bytes, SerializeTransaction tx noWitness = .ok bytes ∧
        UnserializeTransaction noWitness (bytes ++ rest) =
          .ok (some (⟨tx.nVersion,tx.vin,tx.vout,if tx.HasWitness noWitness then tx.resizedWitness else [],
            tx.nLockTime,tx.nTime⟩,rest))) ∧
    (∀ (noWitness : Bool) (input rest : List UInt8) (tx : CMutableTransaction),
      UnserializeTransaction noWitness input = .ok (some (tx,rest)) →
      ∃ consumed, input = consumed ++ rest ∧ ∀ hash, SerializeTransaction (tx.withHash hash) noWitness = .ok consumed) :=
  ⟨fun _ _ rest sized fits unambiguous => UnserializeTransaction_SerializeTransaction sized fits unambiguous rest,
    fun _ _ _ _ read => UnserializeTransaction_canonical read⟩

/-- One input with a witness of one item and one output. -/
def witnessedTx : CTransaction :=
  ⟨Blob.null 32,2,[⟨⟨Blob.replicate 32 7,0⟩,[],SEQUENCE_FINAL⟩],[⟨5,[0x51]⟩],[⟨[[1,2]]⟩],0,1500000000⟩

/-- `witnessedTx` written in the extended format and read back, followed by
one more byte. -/
theorem transaction_wire_round_trip_witnessed :
    witnessedTx.wit.length ≤ witnessedTx.vin.length ∧ witnessedTx.Fits ∧
      (witnessedTx.vin ≠ [] ∨ witnessedTx.wit.all CScriptWitness.IsNull = false) ∧
      witnessedTx.HasWitness false = true ∧
      ∃ bytes, SerializeTransaction witnessedTx false = .ok bytes ∧
        UnserializeTransaction false (bytes ++ [0xff]) =
          .ok (some (⟨witnessedTx.nVersion,witnessedTx.vin,witnessedTx.vout,
            if witnessedTx.HasWitness false then witnessedTx.resizedWitness else [],
            witnessedTx.nLockTime,witnessedTx.nTime⟩,[0xff])) :=
  have sized : witnessedTx.wit.length ≤ witnessedTx.vin.length := by decide
  have fits : witnessedTx.Fits := by decide
  have unambiguous : witnessedTx.vin ≠ [] ∨ witnessedTx.wit.all CScriptWitness.IsNull = false := .inl (by decide)
  ⟨sized,fits,unambiguous,by decide,transaction_wire_round_trip.1 witnessedTx false [0xff] sized fits unambiguous⟩

/-! ## Sizes past `MAX_SIZE` -/

/-- `ReadCompactSize` throws "size too large" on a size it could hold. -/
theorem ReadCompactSize_oversized {nSize : Nat} (large : MAX_SIZE < nSize) (fits : nSize < 2 ^ 32) (rest : List UInt8) :
    ReadCompactSize (WriteCompactSize nSize ++ rest) = .ok none := by
  have wide : ¬nSize ≤ 0xffff := by unfold MAX_SIZE at large; omega
  have value : readCompactValue 254 (LittleEndian.encode 4 nSize ++ rest) = .ok (some (nSize,rest)) := by
    rw [readCompactValue,if_neg (by decide),if_neg (by decide),if_pos (by decide)]
    exact readCompactForm_encode (by omega) (by simpa using fits) rest
  rw [WriteCompactSize,if_neg (by omega),if_neg wide,if_pos (by omega),List.cons_append,ReadCompactSize,
    Decoder.bind_apply_of_some (Decoder.byte_cons _ _),Decoder.bind_apply_of_some value,if_pos large]
  rfl

section Oversized

variable {txin : CTxIn} (large : MAX_SIZE < txin.scriptSig.length) (fits : txin.scriptSig.length < 2 ^ 32)
  (prevout : txin.prevout.Fits)
include large fits prevout

/-- An input whose script is longer than `MAX_SIZE` is rejected, whatever follows it. -/
theorem CTxIn.Unserialize_oversized (rest : List UInt8) : CTxIn.Unserialize (txin.Serialize ++ rest) = .ok none := by
  rw [CTxIn.Serialize,serializeScript_eq,List.append_assoc,List.append_assoc,List.append_assoc,CTxIn.Unserialize,
    Decoder.bind_apply_of_some (COutPoint.Unserialize_Serialize _ prevout _)]
  exact Decoder.bind_none (Decoder.bind_none (ReadCompactSize_oversized large fits _))

/-- A transaction of that one input is written in either mode, and rejected. -/
theorem UnserializeTransaction_oversized (hash : uint256) (nVersion : Int) (nLockTime nTime : Nat) (noWitness : Bool) :
    ∃ bytes, SerializeTransaction ⟨hash,nVersion,[txin],[],[],nLockTime,nTime⟩ noWitness = .ok bytes ∧
      UnserializeTransaction noWitness bytes = .ok none := by
  refine ⟨_,SerializeTransaction_basic (by simp) (by simp [CTransaction.HasWitness]),?_⟩
  have inputs : ∀ rest, ReadVector CTxIn.Unserialize (WriteVector CTxIn.Serialize [txin] ++ rest) = .ok none := by
    intro rest
    rw [ReadVector,WriteVector,List.append_assoc,
      Decoder.bind_apply_of_some (ReadCompactSize_WriteCompactSize _ (by simp [MAX_SIZE]) _)]
    show Decoder.bind _ _ _ = _
    rw [Decoder.bind]
    simp only [List.map_cons,List.map_nil,List.flatten_cons,List.flatten_nil,List.append_nil,
      CTxIn.Unserialize_oversized large fits prevout]
  simp only [List.append_assoc]
  rw [UnserializeTransaction,Decoder.bind_apply_of_some (readLittleEndian_encode (by unfold toUnsigned; omega) _)]
  exact Decoder.bind_none (Decoder.bind_none (inputs _))

end Oversized

/-- A script one byte longer than `MAX_SIZE`. -/
def oversizedScript : CScript := List.replicate (MAX_SIZE + 1) 0

/-- One input, spending the null outpoint with `oversizedScript`. -/
def oversizedTx : CTransaction := ⟨Blob.null 32,1,[⟨COutPoint.null,oversizedScript,SEQUENCE_FINAL⟩],[],[],0,0⟩

/-- A transaction with an input and no witness that the writer writes, in
either mode, and the reader rejects: the size of its script is past `MAX_SIZE`. -/
theorem oversized_script_not_read_back :
    oversizedTx.wit.length ≤ oversizedTx.vin.length ∧ oversizedTx.vin ≠ [] ∧
      ∀ noWitness : Bool, ∃ bytes, SerializeTransaction oversizedTx noWitness = .ok bytes ∧
        UnserializeTransaction noWitness bytes = .ok none := by
  have length : oversizedScript.length = MAX_SIZE + 1 := List.length_replicate
  have large : MAX_SIZE < oversizedScript.length := by rw [length]; omega
  have fits : oversizedScript.length < 2 ^ 32 := by rw [length]; unfold MAX_SIZE; omega
  refine ⟨by simp [oversizedTx],by simp [oversizedTx],fun noWitness => ?_⟩
  exact @UnserializeTransaction_oversized ⟨COutPoint.null,oversizedScript,SEQUENCE_FINAL⟩ large fits (by decide)
    (Blob.null 32) 1 0 0 noWitness

end Qtum
