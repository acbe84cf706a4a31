import Qtum.Script.SigHash

/-! The legacy digest against its reference. Apart from `nTime`, which only
the reference writes, `CTransactionSignatureSerializer` writes the bytes of
the copy that `SignatureHashOld` masks, wherever the script code parses to
its end. Both remove the code separators of the script code by walking its
instructions: `FindAndDelete` by skipping the separators at each boundary,
the serializer by writing the bytes between them; both keep exactly the
bytes of the other instructions. -/
namespace Qtum.Script

/-- The bytes of the instructions read from `pc` on, code separators left out. -/
def withoutSeparators (script : CScript) : List Instruction → Nat → CScript
  | [], _ => []
  | op :: ops, pc =>
    (if op.opcode = OP_CODESEPARATOR then [] else (script.drop pc).take (op.next - pc)) ++
      withoutSeparators script ops op.next

theorem take_sub_append (script : CScript) {low middle high : Nat} (first : low ≤ middle) (second : middle ≤ high) :
    (script.drop low).take (middle - low) ++ (script.drop middle).take (high - middle) =
      (script.drop low).take (high - low) := by
  have width : high - low = (middle - low) + (high - middle) := by omega
  rw [width,List.take_add,List.drop_drop,Nat.add_sub_cancel' first]

theorem readOps_some {script : CScript} {pc : Nat} {op : Instruction} (read : getOp script pc = some op) (fuel : Nat) :
    readOps script (fuel + 1) pc = (op :: (readOps script fuel op.next).1,(readOps script fuel op.next).2) := by
  simp [readOps,read]

theorem readOps_length (script : CScript) : ∀ (fuel pc : Nat), (readOps script fuel pc).1.length ≤ fuel
  | 0, pc => by simp [readOps]
  | fuel + 1, pc => by
    cases read : getOp script pc with
    | none => simp [readOps,read]
    | some op =>
      rw [readOps_some read]
      simpa using readOps_length script fuel op.next

/-- A code separator is the byte `0xab`, read as an opcode that pushes nothing. -/
theorem getOp_separator {script : CScript} {pc : Nat} {op : Instruction} (read : getOp script pc = some op)
    (separator : op.opcode = OP_CODESEPARATOR) : (script.drop pc).head? = some 0xab ∧ op.next = pc + 1 := by
  obtain ⟨byte,rest,split,opcode,-,-⟩ := getOp_spec read
  have byteIs : byte.toNat = 0xab := by rw [← opcode,separator]; rfl
  unfold getOp at read
  rw [split] at read
  simp only [byteIs,OP_PUSHDATA4,show ¬(0xab ≤ 0x4e) by decide,if_false] at read
  -- past the end test, the opcode is read with nothing after it
  split at read
  · cases read
  refine ⟨?_,by rw [← Option.some.inj read]⟩
  rw [split,List.head?_cons,Option.some.injEq]
  exact UInt8.toNat_inj.mp byteIs

theorem getOp_other {script : CScript} {pc : Nat} {op : Instruction} (read : getOp script pc = some op)
    (other : op.opcode ≠ OP_CODESEPARATOR) : (script.drop pc).head? ≠ some 0xab := by
  obtain ⟨byte,rest,split,opcode,-,-⟩ := getOp_spec read
  rw [split,List.head?_cons]
  intro same
  cases same
  exact other opcode

/-! ## `FindAndDelete` of the code separator -/

section Skip

variable {script : CScript} {pc found : Nat}

theorem skipMatches_match (fuel : Nat) (separator : (script.drop pc).head? = some 0xab) :
    skipMatches script [0xab] (fuel + 1) pc found = skipMatches script [0xab] fuel (pc + 1) (found + 1) := by
  obtain ⟨rest,split⟩ : ∃ rest, script.drop pc = 0xab :: rest := by
    cases split : script.drop pc with
    | nil => simp [split] at separator
    | cons byte rest => simp_all
  have inside : 1 ≤ script.length - pc := by
    have sized := congrArg List.length split
    simp only [List.length_drop,List.length_cons] at sized
    omega
  simp [skipMatches,split,inside]

theorem skipMatches_miss (fuel : Nat) (other : (script.drop pc).head? ≠ some 0xab) :
    skipMatches script [0xab] fuel pc found = (pc,found) := by
  cases fuel with
  | zero => rfl
  | succ fuel =>
    have miss : (script.drop pc).take 1 ≠ [0xab] := by
      cases split : script.drop pc with
      | nil => simp
      | cons byte rest => simp_all
    simp [skipMatches,miss]

/-- Fuel beyond the bytes left does not change the skip. -/
theorem skipMatches_succ : ∀ {fuel pc found : Nat}, script.length - pc ≤ fuel →
    skipMatches script [0xab] (fuel + 1) pc found = skipMatches script [0xab] fuel pc found
  | 0, pc, found, ended => by
    have empty : script.drop pc = [] := List.drop_eq_nil_of_le (by omega)
    rw [skipMatches_miss _ (by simp [empty]),skipMatches_miss _ (by simp [empty])]
  | fuel + 1, pc, found, enough => by
    by_cases separator : (script.drop pc).head? = some 0xab
    · rw [skipMatches_match _ separator,skipMatches_match _ separator]
      exact skipMatches_succ (by omega)
    · rw [skipMatches_miss _ separator,skipMatches_miss _ separator]

end Skip

section Loop

variable {script : CScript} {pc : Nat} {op : Instruction}

/-- A separator is skipped within the iteration that reached it. -/
theorem findAndDeleteLoop_separator (read : getOp script pc = some op) (separator : op.opcode = OP_CODESEPARATOR)
    (fuel copied : Nat) (kept : CScript) (found : Nat) :
    findAndDeleteLoop script [0xab] (fuel + 1) copied pc kept found =
      findAndDeleteLoop script [0xab] (fuel + 1) (pc + 1) (pc + 1) (kept ++ (script.drop copied).take (pc - copied))
        (found + 1) := by
  obtain ⟨byte,next⟩ := getOp_separator read separator
  obtain ⟨-,-,-,-,-,within⟩ := getOp_spec read
  have inside : pc + 1 ≤ script.length := next ▸ within
  have skip : skipMatches script [0xab] script.length pc found =
      skipMatches script [0xab] script.length (pc + 1) (found + 1) := by
    obtain ⟨bytes,sized⟩ : ∃ bytes, script.length = bytes + 1 := ⟨script.length - 1,by omega⟩
    rw [sized,skipMatches_match _ byte,skipMatches_succ (by omega)]
  simp only [findAndDeleteLoop,skip,Nat.sub_self,List.take_zero,List.append_nil]

/-- Any other instruction ends the iteration, and its bytes are copied by the next. -/
theorem findAndDeleteLoop_other (read : getOp script pc = some op) (other : op.opcode ≠ OP_CODESEPARATOR)
    (fuel copied : Nat) (kept : CScript) (found : Nat) :
    findAndDeleteLoop script [0xab] (fuel + 1) copied pc kept found =
      findAndDeleteLoop script [0xab] fuel pc op.next (kept ++ (script.drop copied).take (pc - copied)) found := by
  simp only [findAndDeleteLoop,skipMatches_miss _ (getOp_other read other),read]

theorem findAndDeleteLoop_end (fuel copied : Nat) (kept : CScript) (found : Nat) :
    findAndDeleteLoop script [0xab] (fuel + 1) copied script.length kept found =
      (kept ++ (script.drop copied).take (script.length - copied),found) := by
  have ended : script.drop script.length = [] := List.drop_length
  simp [findAndDeleteLoop,skipMatches_miss _ (by simp [ended] : (script.drop script.length).head? ≠ some 0xab),
    getOp,ended]

/-- The loop over the instructions read from `pc` to the end: the bytes of
those that are not code separators are kept, and the separators counted. -/
theorem findAndDeleteLoop_walk : ∀ (n pc : Nat), (readOps script n pc).2 = script.length →
    ∀ (fuel copied : Nat) (kept : CScript) (found : Nat), copied ≤ pc → (readOps script n pc).1.length < fuel →
      findAndDeleteLoop script [0xab] fuel copied pc kept found =
        (kept ++ (script.drop copied).take (pc - copied) ++ withoutSeparators script (readOps script n pc).1 pc,
          found + (readOps script n pc).1.countP (·.opcode = OP_CODESEPARATOR))
  | 0, pc, stops, fuel + 1, copied, kept, found, _, _ => by
    simp only [readOps] at stops ⊢
    subst stops
    simp [findAndDeleteLoop_end,withoutSeparators]
  | n + 1, pc, stops, fuel + 1, copied, kept, found, before, enough => by
    cases read : getOp script pc with
    | none =>
      simp only [readOps,read] at stops ⊢
      subst stops
      simp [findAndDeleteLoop_end,withoutSeparators]
    | some op =>
      rw [readOps_some read] at stops enough ⊢
      obtain ⟨-,-,-,-,after,-⟩ := getOp_spec read
      by_cases separator : op.opcode = OP_CODESEPARATOR
      · -- the separator costs no iteration of its own
        have next := (getOp_separator read separator).2
        rw [findAndDeleteLoop_separator read separator,← next,
          findAndDeleteLoop_walk n op.next stops (fuel + 1) op.next _ _ (le_refl _) (by simp at enough; omega)]
        simp only [withoutSeparators,separator,if_true,List.countP_cons,decide_true,Nat.sub_self,List.take_zero,
          List.append_nil,List.nil_append,Prod.mk.injEq,true_and]
        omega
      · obtain ⟨fuel,rfl⟩ : ∃ remaining, fuel = remaining + 1 := ⟨fuel - 1,by simp at enough; omega⟩
        rw [findAndDeleteLoop_other read separator,
          findAndDeleteLoop_walk n op.next stops (fuel + 1) pc _ _ after.le (by simp at enough; omega)]
        simp [withoutSeparators,separator]

end Loop

section Counting

variable {script : CScript}

/-- With no separator among them, the instructions keep every byte from `pc` on. -/
theorem withoutSeparators_of_none : ∀ (n pc : Nat), (readOps script n pc).2 = script.length →
    (readOps script n pc).1.countP (·.opcode = OP_CODESEPARATOR) = 0 →
    withoutSeparators script (readOps script n pc).1 pc = script.drop pc
  | 0, pc, stops, _ => by
    simp only [readOps] at stops ⊢
    simp [withoutSeparators,stops]
  | n + 1, pc, stops, noSeparator => by
    cases read : getOp script pc with
    | none =>
      simp only [readOps,read] at stops ⊢
      simp [withoutSeparators,stops]
    | some op =>
      rw [readOps_some read] at stops noSeparator ⊢
      obtain ⟨-,-,-,-,after,-⟩ := getOp_spec read
      have other : op.opcode ≠ OP_CODESEPARATOR := by
        intro separator
        simp [separator] at noSeparator
      rw [List.countP_cons,if_neg (by simpa using other)] at noSeparator
      have split := List.take_append_drop (op.next - pc) (script.drop pc)
      rw [List.drop_drop,Nat.add_sub_cancel' after.le] at split
      rw [withoutSeparators,if_neg other,withoutSeparators_of_none n op.next stops noSeparator,split]

/-- Each separator the serializer leaves out is one byte. -/
theorem withoutSeparators_length : ∀ (n pc : Nat), (readOps script n pc).2 = script.length →
    (withoutSeparators script (readOps script n pc).1 pc).length +
      (readOps script n pc).1.countP (·.opcode = OP_CODESEPARATOR) = script.length - pc
  | 0, pc, stops => by
    simp only [readOps] at stops ⊢
    simp [withoutSeparators,stops]
  | n + 1, pc, stops => by
    cases read : getOp script pc with
    | none =>
      simp only [readOps,read] at stops ⊢
      simp [withoutSeparators,stops]
    | some op =>
      rw [readOps_some read] at stops ⊢
      obtain ⟨-,-,-,-,after,within⟩ := getOp_spec read
      have rest := withoutSeparators_length n op.next stops
      by_cases separator : op.opcode = OP_CODESEPARATOR
      · have next := (getOp_separator read separator).2
        simp only [withoutSeparators,separator,if_true,List.nil_append,List.countP_cons,decide_true]
        omega
      · simp [withoutSeparators,separator]
        omega

end Counting

/-! ## The script code the serializer writes -/

section Written

variable {script : CScript}

theorem writeSeparated_separator {op : Instruction} (ops : List Instruction) (itBegin : Nat)
    (separator : op.opcode = OP_CODESEPARATOR) :
    writeSeparated script (op :: ops) itBegin =
      ((script.drop itBegin).take (op.next - 1 - itBegin) ++ (writeSeparated script ops op.next).1,
        (writeSeparated script ops op.next).2) := by
  rw [writeSeparated,if_pos separator]

/-- What `writeSeparated` writes of the instructions from `pc`, followed by
the bytes from where it leaves `itBegin`, are the bytes from `itBegin` to
`pc` and those of the instructions, separators left out. -/
theorem writeSeparated_walk : ∀ (n pc : Nat), (readOps script n pc).2 = script.length → ∀ itBegin, itBegin ≤ pc →
    (writeSeparated script (readOps script n pc).1 itBegin).1 ++
        script.drop (writeSeparated script (readOps script n pc).1 itBegin).2 =
      (script.drop itBegin).take (pc - itBegin) ++ withoutSeparators script (readOps script n pc).1 pc
  | 0, pc, stops, itBegin, _ => by
    simp only [readOps] at stops ⊢
    subst stops
    simp [writeSeparated,withoutSeparators,List.take_of_length_le]
  | n + 1, pc, stops, itBegin, before => by
    cases read : getOp script pc with
    | none =>
      simp only [readOps,read] at stops ⊢
      subst stops
      simp [writeSeparated,withoutSeparators,List.take_of_length_le]
    | some op =>
      rw [readOps_some read] at stops ⊢
      obtain ⟨-,-,-,-,after,-⟩ := getOp_spec read
      by_cases separator : op.opcode = OP_CODESEPARATOR
      · -- the bytes before the separator are written, and the rest starts after it
        have next := (getOp_separator read separator).2
        have rest := writeSeparated_walk n op.next stops op.next (le_refl _)
        rw [Nat.sub_self,List.take_zero,List.nil_append] at rest
        rw [writeSeparated_separator _ _ separator,List.append_assoc,rest,next,Nat.add_sub_cancel,withoutSeparators,
          if_pos separator,List.nil_append,next]
      · have rest := writeSeparated_walk n op.next stops itBegin (by omega)
        rw [writeSeparated,if_neg separator,rest,withoutSeparators,if_neg separator,← List.append_assoc,
          take_sub_append script before after.le]

/-- For a script code that parses to its end, the serializer writes the
script code with its code separators left out. -/
theorem SerializeScriptCode_of_parses (parses : (getOps script).2 = script.length) :
    SerializeScriptCode script = serializeScript (withoutSeparators script (getOps script).1 0) := by
  have written := writeSeparated_walk script.length 0 parses 0 (le_refl 0)
  have counted := withoutSeparators_length script.length 0 parses
  rw [Nat.sub_zero,List.take_zero,List.nil_append] at written
  rw [Nat.sub_zero] at counted
  have failedAt : getOpFailedAt script script.length = script.length := by
    simp [getOpFailedAt,List.drop_length]
  have tail : ∀ itBegin, (if itBegin ≠ script.length then (script.drop itBegin).take (script.length - itBegin) else []) =
      script.drop itBegin := by
    intro itBegin
    split
    · exact List.take_of_length_le (by simp)
    · rename_i ended
      rw [not_not] at ended
      rw [ended,List.drop_length]
  unfold SerializeScriptCode serializeScript WriteVector getOps
  unfold getOps at parses
  -- name the walk, so that the matches of the source reduce
  generalize readOps script script.length 0 = walk at parses written counted ⊢
  obtain ⟨ops,stop⟩ := walk
  dsimp only at parses written counted ⊢
  subst parses
  rw [failedAt,tail,List.append_assoc,written,← List.flatMap_def,List.flatMap_singleton']
  congr 2
  omega

/-- For a script code that parses to its end, `FindAndDelete` of the code
separator keeps the bytes of the other instructions. -/
theorem FindAndDelete_of_parses (parses : (getOps script).2 = script.length) :
    FindAndDelete script (pushOpcode [] OP_CODESEPARATOR) = withoutSeparators script (getOps script).1 0 := by
  have walk := findAndDeleteLoop_walk script.length 0 parses (script.length + 1) 0 [] 0 (le_refl 0)
    (Nat.lt_succ_of_le (readOps_length script script.length 0))
  have pattern : pushOpcode [] OP_CODESEPARATOR = [0xab] := rfl
  rw [pattern,FindAndDelete,if_neg (List.cons_ne_nil _ _),walk]
  dsimp only
  rw [Nat.sub_zero,List.take_zero,List.nil_append,List.nil_append,Nat.zero_add]
  split
  · rfl
  · -- no separator was found, and the script is kept whole
    rename_i none
    rw [getOps,withoutSeparators_of_none script.length 0 parses (by omega),List.drop_zero]

end Written

/-! ## The masked copy -/

section Copy

variable (scriptCode : CScript) (txTo : CTransaction) (nIn : Nat) (nHashType : Int)

/-- Input `j` of the copy: the script code without separators at the input
signed and an empty script elsewhere, and under `SIGHASH_NONE` and
`SIGHASH_SINGLE` no sequence on the other inputs. -/
def maskInput (j : Nat) (txin : CTxIn) : CTxIn :=
  {txin with
    scriptSig := (if j = nIn then FindAndDelete scriptCode (pushOpcode [] OP_CODESEPARATOR) else [])
    nSequence := (if j ≠ nIn ∧ (fHashSingle nHashType ∨ fHashNone nHashType) then 0 else txin.nSequence)}

def maskedInputs : List CTxIn :=
  if fAnyoneCanPay nHashType then ((txTo.vin.mapIdx (maskInput scriptCode nIn nHashType)).drop nIn).take 1
  else txTo.vin.mapIdx (maskInput scriptCode nIn nHashType)

def maskedOutputs : List CTxOut :=
  if fHashNone nHashType then []
  else if fHashSingle nHashType then
    (txTo.vout.take (nIn + 1)).mapIdx fun i txout => if i < nIn then CTxOut.null else txout
  else txTo.vout

theorem fHashNone_iff : fHashNone nHashType = true ↔ hashTypeBits nHashType &&& 0x1f = SIGHASH_NONE.toNat := by
  simp [fHashNone]

theorem fHashSingle_iff : fHashSingle nHashType = true ↔ hashTypeBits nHashType &&& 0x1f = SIGHASH_SINGLE.toNat := by
  simp [fHashSingle]

theorem fAnyoneCanPay_iff :
    fAnyoneCanPay nHashType = true ↔ hashTypeBits nHashType &&& SIGHASH_ANYONECANPAY.toNat ≠ 0 := by
  simp [fAnyoneCanPay]

/-- The copy blanks the other scripts, and masks the other sequences under
`SIGHASH_NONE` and `SIGHASH_SINGLE`. -/
theorem masked_mapIdx (masks : fHashSingle nHashType ∨ fHashNone nHashType) :
    ((txTo.vin.mapIdx fun i txin =>
        {txin with scriptSig := if i = nIn then FindAndDelete scriptCode (pushOpcode [] OP_CODESEPARATOR) else []}).mapIdx
      fun i txin => if i = nIn then txin else {txin with nSequence := 0}) =
      txTo.vin.mapIdx (maskInput scriptCode nIn nHashType) := by
  rw [List.mapIdx_mapIdx]
  congr
  funext i txin
  by_cases signed : i = nIn <;> simp [maskInput,signed,masks]

theorem blanked_mapIdx (keeps : ¬(fHashSingle nHashType ∨ fHashNone nHashType)) :
    (txTo.vin.mapIdx fun i txin =>
        {txin with scriptSig := if i = nIn then FindAndDelete scriptCode (pushOpcode [] OP_CODESEPARATOR) else []}) =
      txTo.vin.mapIdx (maskInput scriptCode nIn nHashType) := by
  congr
  funext i txin
  simp [maskInput,keeps]

theorem oldSignatureCopy_eq :
    oldSignatureCopy scriptCode txTo nIn nHashType =
      if fHashSingle nHashType ∧ txTo.vout.length ≤ nIn then none
      else some {txTo with
        vin := maskedInputs scriptCode txTo nIn nHashType
        vout := maskedOutputs txTo nIn nHashType
        wit := []} := by
  simp only [oldSignatureCopy,maskedInputs,maskedOutputs,fHashSingle_iff,fHashNone_iff,fAnyoneCanPay_iff]
  by_cases none : hashTypeBits nHashType &&& 0x1f = SIGHASH_NONE.toNat
  · have notSingle : ¬hashTypeBits nHashType &&& 0x1f = SIGHASH_SINGLE.toNat := by rw [none]; decide
    rw [if_pos none,if_pos none,if_neg (fun single => notSingle single.1),Option.map_some,
      masked_mapIdx scriptCode txTo nIn nHashType (.inr ((fHashNone_iff nHashType).mpr none))]
  · by_cases single : hashTypeBits nHashType &&& 0x1f = SIGHASH_SINGLE.toNat
    · by_cases short : txTo.vout.length ≤ nIn
      · rw [if_neg none,if_pos single,if_pos short,if_pos ⟨single,short⟩,Option.map_none]
      · rw [if_neg none,if_pos single,if_neg short,if_neg (fun covered => short covered.2),if_neg none,if_pos single,
          Option.map_some,masked_mapIdx scriptCode txTo nIn nHashType (.inl ((fHashSingle_iff nHashType).mpr single))]
    · have keeps : ¬(fHashSingle nHashType ∨ fHashNone nHashType) := by
        rw [fHashSingle_iff,fHashNone_iff]
        exact not_or.mpr ⟨single,none⟩
      rw [if_neg none,if_neg single,if_neg (fun covered => single covered.1),if_neg none,if_neg single,Option.map_some,
        blanked_mapIdx scriptCode txTo nIn nHashType keeps]

/-- The serializer writes input `j`, or under `SIGHASH_ANYONECANPAY` the
input signed, as the copy has it. -/
theorem SerializeInput_masked (parses : (getOps scriptCode).2 = scriptCode.length) (j : Nat)
    (inside : (if fAnyoneCanPay nHashType then nIn else j) < txTo.vin.length) :
    SerializeInput txTo scriptCode nIn nHashType j =
      .ok (maskInput scriptCode nIn nHashType (if fAnyoneCanPay nHashType then nIn else j)
        txTo.vin[if fAnyoneCanPay nHashType then nIn else j]).Serialize := by
  unfold SerializeInput
  generalize (if fAnyoneCanPay nHashType then nIn else j) = nInput at inside ⊢
  dsimp only
  rw [List.getElem?_eq_getElem inside]
  by_cases signed : nInput = nIn
  · subst signed
    simp [maskInput,CTxIn.Serialize,SerializeScriptCode_of_parses parses,FindAndDelete_of_parses parses]
  · simp [maskInput,CTxIn.Serialize,signed]

theorem serializedInputs (parses : (getOps scriptCode).2 = scriptCode.length) (inRange : nIn < txTo.vin.length) :
    (List.range (if fAnyoneCanPay nHashType then 1 else txTo.vin.length)).mapM
        (SerializeInput txTo scriptCode nIn nHashType) =
      .ok ((maskedInputs scriptCode txTo nIn nHashType).map CTxIn.Serialize) ∧
    (maskedInputs scriptCode txTo nIn nHashType).length = if fAnyoneCanPay nHashType then 1 else txTo.vin.length := by
  unfold maskedInputs
  cases anyone : fAnyoneCanPay nHashType
  · have each : ∀ i (inside : i < ((txTo.vin.mapIdx (maskInput scriptCode nIn nHashType)).map CTxIn.Serialize).length),
        SerializeInput txTo scriptCode nIn nHashType i =
          .ok ((txTo.vin.mapIdx (maskInput scriptCode nIn nHashType)).map CTxIn.Serialize)[i] := by
      intro i inside
      simp only [List.length_map,List.length_mapIdx] at inside
      have serialized := SerializeInput_masked scriptCode txTo nIn nHashType parses i (by simpa [anyone] using inside)
      simpa [anyone] using serialized
    have walk := Abort.mapM_range_ok each
    simp only [List.length_map,List.length_mapIdx] at walk
    exact ⟨walk,by simp⟩
  · -- one input, the one signed
    have single : ((txTo.vin.mapIdx (maskInput scriptCode nIn nHashType)).drop nIn).take 1 =
        [maskInput scriptCode nIn nHashType nIn txTo.vin[nIn]] := by
      rw [List.drop_eq_getElem_cons (by simpa using inRange),List.take_succ_cons,List.take_zero,List.getElem_mapIdx]
    have serialized := SerializeInput_masked scriptCode txTo nIn nHashType parses 0 (by simpa [anyone] using inRange)
    simp only [anyone,if_true] at serialized
    rw [single]
    have walk : (List.range [(maskInput scriptCode nIn nHashType nIn txTo.vin[nIn]).Serialize].length).mapM
        (SerializeInput txTo scriptCode nIn nHashType) = .ok [(maskInput scriptCode nIn nHashType nIn txTo.vin[nIn]).Serialize] :=
      Abort.mapM_range_ok fun i inside => by
        obtain rfl : i = 0 := Nat.lt_one_iff.mp (by simpa using inside)
        exact serialized
    exact ⟨walk,rfl⟩

theorem maskedOutputs_length (covered : fHashSingle nHashType → nIn < txTo.vout.length) :
    (maskedOutputs txTo nIn nHashType).length =
      if fHashNone nHashType then 0 else if fHashSingle nHashType then nIn + 1 else txTo.vout.length := by
  unfold maskedOutputs
  split_ifs with none single
  · rfl
  · have inside := covered single
    simp only [List.length_mapIdx,List.length_take]
    omega
  · rfl

/-- The serializer writes output `j` as the copy has it: under
`SIGHASH_SINGLE` the outputs before the one signed are `CTxOut()`. -/
theorem SerializeOutput_masked (covered : fHashSingle nHashType → nIn < txTo.vout.length) (j : Nat)
    (inside : j < (maskedOutputs txTo nIn nHashType).length) :
    SerializeOutput txTo nIn nHashType j = .ok (maskedOutputs txTo nIn nHashType)[j].Serialize := by
  have sized := maskedOutputs_length txTo nIn nHashType covered
  unfold SerializeOutput
  cases single : fHashSingle nHashType
  · have unmasked : maskedOutputs txTo nIn nHashType = if fHashNone nHashType then [] else txTo.vout := by
      simp [maskedOutputs,single]
    simp only [unmasked] at inside ⊢
    by_cases none : fHashNone nHashType
    · simp [none] at inside
    · simp only [none,Bool.false_eq_true,if_false] at inside ⊢
      simp [List.getElem?_eq_getElem inside]
  · have notNone : fHashNone nHashType = false := by
      revert single
      simp only [fHashSingle,fHashNone,beq_iff_eq]
      intro single
      simp [single,SIGHASH_SINGLE,SIGHASH_NONE]
    have masked : maskedOutputs txTo nIn nHashType =
        (txTo.vout.take (nIn + 1)).mapIdx fun i txout => if i < nIn then CTxOut.null else txout := by
      simp [maskedOutputs,single,notNone]
    have below : j < nIn + 1 := by
      rw [sized] at inside
      simpa [notNone,single] using inside
    simp only [masked,List.getElem_mapIdx,List.getElem_take]
    by_cases signed : j = nIn
    · subst signed
      simp [List.getElem?_eq_getElem (covered single)]
    · simp [signed,show j < nIn by omega]

theorem serializedOutputs (covered : fHashSingle nHashType → nIn < txTo.vout.length) :
    (List.range (if fHashNone nHashType then 0 else if fHashSingle nHashType then nIn + 1 else txTo.vout.length)).mapM
        (SerializeOutput txTo nIn nHashType) =
      .ok ((maskedOutputs txTo nIn nHashType).map CTxOut.Serialize) := by
  have each : ∀ i (inside : i < ((maskedOutputs txTo nIn nHashType).map CTxOut.Serialize).length),
      SerializeOutput txTo nIn nHashType i = .ok ((maskedOutputs txTo nIn nHashType).map CTxOut.Serialize)[i] := by
    intro i inside
    rw [List.length_map] at inside
    rw [List.getElem_map]
    exact SerializeOutput_masked txTo nIn nHashType covered i inside
  have walk := Abort.mapM_range_ok each
  rwa [List.length_map,maskedOutputs_length txTo nIn nHashType covered] at walk

theorem serializeForSignature_masked (parses : (getOps scriptCode).2 = scriptCode.length)
    (inRange : nIn < txTo.vin.length) (covered : fHashSingle nHashType → nIn < txTo.vout.length) :
    serializeForSignature txTo scriptCode nIn nHashType =
      .ok (LittleEndian.encode 4 (toUnsigned 32 txTo.nVersion) ++
        WriteVector CTxIn.Serialize (maskedInputs scriptCode txTo nIn nHashType) ++
        WriteVector CTxOut.Serialize (maskedOutputs txTo nIn nHashType) ++ LittleEndian.encode 4 txTo.nLockTime) := by
  obtain ⟨inputs,inputCount⟩ := serializedInputs scriptCode txTo nIn nHashType parses inRange
  unfold serializeForSignature
  dsimp only
  rw [inputs,Abort.ok_bind,serializedOutputs txTo nIn nHashType covered,Abort.ok_bind]
  simp only [WriteVector,inputCount,maskedOutputs_length txTo nIn nHashType covered,List.append_assoc]
  rfl

/-- The copy has no witness, and is written with `nTime` last. -/
theorem SerializeTransaction_masked :
    SerializeTransaction {txTo with
        vin := maskedInputs scriptCode txTo nIn nHashType
        vout := maskedOutputs txTo nIn nHashType
        wit := []} true =
      .ok (LittleEndian.encode 4 (toUnsigned 32 txTo.nVersion) ++
        WriteVector CTxIn.Serialize (maskedInputs scriptCode txTo nIn nHashType) ++
        WriteVector CTxOut.Serialize (maskedOutputs txTo nIn nHashType) ++ LittleEndian.encode 4 txTo.nLockTime ++
        LittleEndian.encode 4 txTo.nTime) := by
  simp [SerializeTransaction]

end Copy

/-- The legacy digest against `SignatureHashOld`, for a script code that
parses to its end. Where an input or, under `SIGHASH_SINGLE`, an output is
out of range, both are `one`. Otherwise both hash the bytes the serializer
writes, followed by the hash type: the reference writes `nTime` in between. -/
theorem SignatureHash_refines (crypto : Crypto) (scriptCode : CScript) (txTo : CTransaction) (nIn : Nat)
    (nHashType : Int) (amount : CAmount) (parses : (getOps scriptCode).2 = scriptCode.length) :
    (txTo.vin.length ≤ nIn ∨ fHashSingle nHashType ∧ txTo.vout.length ≤ nIn →
      SignatureHash crypto scriptCode txTo nIn nHashType amount .SIGVERSION_BASE = .ok one ∧
        SignatureHashOld crypto scriptCode txTo nIn nHashType = .ok one) ∧
    (nIn < txTo.vin.length → (fHashSingle nHashType → nIn < txTo.vout.length) →
      ∃ bytes, serializeForSignature txTo scriptCode nIn nHashType = .ok bytes ∧
        SignatureHash crypto scriptCode txTo nIn nHashType amount .SIGVERSION_BASE =
          .ok (crypto.Hash256 (bytes ++ LittleEndian.encode 4 (hashTypeBits nHashType))) ∧
        SignatureHashOld crypto scriptCode txTo nIn nHashType =
          .ok (crypto.Hash256 (bytes ++ LittleEndian.encode 4 txTo.nTime ++
            LittleEndian.encode 4 (hashTypeBits nHashType)))) := by
  constructor
  · rintro (short | ⟨single,short⟩)
    · exact ⟨by simp [SignatureHash,short],by simp [SignatureHashOld,short]⟩
    · by_cases noInput : txTo.vin.length ≤ nIn
      · exact ⟨by simp [SignatureHash,noInput],by simp [SignatureHashOld,noInput]⟩
      · refine ⟨by simp [SignatureHash,noInput,single,short],?_⟩
        simp [SignatureHashOld,noInput,oldSignatureCopy_eq,single,short]
  · intro inRange covered
    have serialized := serializeForSignature_masked scriptCode txTo nIn nHashType parses inRange covered
    refine ⟨_,serialized,?_,?_⟩
    · rw [SignatureHash,if_neg (Nat.not_le.mpr inRange),if_neg (fun short => Nat.not_le.mpr (covered short.1) short.2),
        serialized,Abort.ok_bind]
      rfl
    · rw [SignatureHashOld,if_neg (Nat.not_le.mpr inRange),oldSignatureCopy_eq,
        if_neg (fun short => Nat.not_le.mpr (covered short.1) short.2)]
      dsimp only
      rw [SerializeTransaction_masked,Abort.ok_bind]
      rfl

/-- Input 0 of `spendTx`, which is there, and input 1, which is not. -/
theorem SignatureHash_refines_spendTx :
    (getOps [0x51]).2 = [0x51].length ∧ 0 < spendTx.vin.length ∧ (fHashSingle 1 → 0 < spendTx.vout.length) ∧
    (∃ bytes, serializeForSignature spendTx [0x51] 0 1 = .ok bytes ∧
      SignatureHash suffixCrypto [0x51] spendTx 0 1 0 .SIGVERSION_BASE =
        .ok (suffixCrypto.Hash256 (bytes ++ LittleEndian.encode 4 (hashTypeBits 1))) ∧
      SignatureHashOld suffixCrypto [0x51] spendTx 0 1 =
        .ok (suffixCrypto.Hash256 (bytes ++ LittleEndian.encode 4 spendTx.nTime ++
          LittleEndian.encode 4 (hashTypeBits 1)))) ∧
    spendTx.vin.length ≤ 1 ∧
    (SignatureHash suffixCrypto [0x51] spendTx 1 1 0 .SIGVERSION_BASE = .ok one ∧
      SignatureHashOld suffixCrypto [0x51] spendTx 1 1 = .ok one) :=
  have parses : (getOps [0x51]).2 = [0x51].length := by decide
  have inRange : 0 < spendTx.vin.length := by decide
  have covered : fHashSingle 1 → 0 < spendTx.vout.length := by decide
  have outside : spendTx.vin.length ≤ 1 := by decide
  ⟨parses,inRange,covered,(SignatureHash_refines suffixCrypto [0x51] spendTx 0 1 0 parses).2 inRange covered,outside,
    (SignatureHash_refines suffixCrypto [0x51] spendTx 1 1 0 parses).1 (Or.inl outside)⟩

end Qtum.Script
