import Qtum.Script.Interpreter

/-! The strict DER check `IsValidSignatureEncoding` of `interpreter.cpp`, in
Qtum's form where the trailing sighash byte is optional. The check reads
`sig` only at indices its earlier checks bound: with every read checked it
never fails and agrees with the model of the check. What it accepts is the
DER grammar `0x30 L 0x02 lenR R 0x02 lenS S`, the sighash byte after it where
there is one, of 9 to 73 bytes in all, where each integer is not empty, has
no top bit in its first byte and no leading zero byte unless the next byte
has the top bit. -/
namespace Qtum.Script

/-! ## The reads -/

/-- `sig[i]`, read with its bound checked. -/
def readByte (sig : valtype) (i : Nat) : Except Abort UInt8 :=
  match sig[i]? with
  | some byte => .ok byte
  | none => .error .outOfRange

theorem readByte_of_lt {sig : valtype} {i : Nat} (within : i < sig.length) : readByte sig i = .ok sig[i]! := by
  simp [readByte,within]

/-- `IsValidSignatureEncoding` with every `sig[i]` a checked read, made where
the source makes it: after the checks before it, and in a condition of an
`&&` only when the conditions before it hold. A byte tested twice in a row is
read once. -/
def IsValidSignatureEncodingChecked (sig : valtype) (haveHashType : Bool) : Except Abort Bool :=
  let size := sig.length
  if size < 9 then .ok false
  else if 73 < size then .ok false
  else readByte sig 0 >>= fun sig0 =>
  if sig0 != 0x30 then .ok false
  else readByte sig 1 >>= fun sig1 =>
  if sig1.toNat != size - (if haveHashType then 3 else 2) then .ok false
  else readByte sig 3 >>= fun sig3 =>
  let lenR := sig3.toNat
  if size ≤ 5 + lenR then .ok false
  else readByte sig (5 + lenR) >>= fun sigLenS =>
  let lenS := sigLenS.toNat
  if lenR + lenS + (if haveHashType then 7 else 6) != size then .ok false
  else readByte sig 2 >>= fun sig2 =>
  if sig2 != 0x02 then .ok false
  else if lenR = 0 then .ok false
  else readByte sig 4 >>= fun sig4 =>
  if sig4 &&& 0x80 != 0 then .ok false
  else (if 1 < lenR then
      if sig4 == 0 then readByte sig 5 >>= fun second => .ok (second &&& 0x80 == 0) else .ok false
    else .ok false) >>= fun paddedR =>
  if paddedR then .ok false
  else readByte sig (lenR + 4) >>= fun sigTagS =>
  if sigTagS != 0x02 then .ok false
  else if lenS = 0 then .ok false
  else readByte sig (lenR + 6) >>= fun sigS =>
  if sigS &&& 0x80 != 0 then .ok false
  else (if 1 < lenS then
      if sigS == 0 then readByte sig (lenR + 7) >>= fun second => .ok (second &&& 0x80 == 0) else .ok false
    else .ok false) >>= fun paddedS =>
  if paddedS then .ok false else .ok true

/-- The `&&` of a padding check: the second byte is read only when the
integer is longer than one byte and its first byte is zero. -/
private theorem padding_reads {sig : valtype} {length i : Nat} {first : UInt8} (within : 1 < length → i < sig.length) :
    ((if 1 < length then
        if first == 0 then readByte sig i >>= fun second => .ok (second &&& 0x80 == 0) else .ok false
      else .ok false) : Except Abort Bool) =
      .ok (decide (1 < length) && first == 0 && sig[i]! &&& 0x80 == 0) := by
  by_cases longer : 1 < length
  · rw [if_pos longer]
    by_cases zero : first == 0
    · rw [if_pos zero,readByte_of_lt (within longer),Abort.ok_bind,zero,decide_eq_true longer]
      rfl
    · rw [if_neg zero,Bool.eq_false_iff.mpr zero,Bool.and_false,Bool.false_and]
  · rw [if_neg longer,decide_eq_false longer,Bool.false_and,Bool.false_and]

private theorem ok_ite {p : Prop} [Decidable p] (a b : Bool) :
    (Except.ok (if p then a else b) : Except Abort Bool) = if p then .ok a else .ok b :=
  apply_ite _ _ _ _

/-- Every read of the check is inside `sig`: the checked reads never fail,
and the check computes what the model computes. -/
theorem IsValidSignatureEncodingChecked_eq (sig : valtype) (haveHashType : Bool) :
    IsValidSignatureEncodingChecked sig haveHashType = .ok (IsValidSignatureEncoding sig haveHashType) := by
  unfold IsValidSignatureEncodingChecked IsValidSignatureEncoding
  dsimp only
  simp only [ok_ite]
  by_cases short : sig.length < 9
  · simp only [short,if_true]
  by_cases long : 73 < sig.length
  · simp only [short,long,if_true,if_false]
  -- the reads below index 9, which the size bounds
  rw [if_neg short,if_neg long,if_neg short,if_neg long,readByte_of_lt (i := 0) (by omega),
    readByte_of_lt (i := 1) (by omega),readByte_of_lt (i := 2) (by omega),readByte_of_lt (i := 3) (by omega),
    readByte_of_lt (i := 4) (by omega)]
  simp only [Abort.ok_bind]
  rw [padding_reads (i := 5) (fun _ => by omega)]
  simp only [Abort.ok_bind]
  -- the length of S and the tag before it, which the room after R bounds
  by_cases room : sig.length ≤ 5 + sig[3]!.toNat
  · simp only [room,if_true]
  rw [readByte_of_lt (i := 5 + sig[3]!.toNat) (by omega),readByte_of_lt (i := sig[3]!.toNat + 4) (by omega)]
  simp only [Abort.ok_bind]
  by_cases summed : (sig[3]!.toNat + sig[5 + sig[3]!.toNat]!.toNat + (if haveHashType then 7 else 6) != sig.length) = true
  · simp only [summed,if_true]
  by_cases empty : sig[5 + sig[3]!.toNat]!.toNat = 0
  · simp only [empty,if_true]
  -- the bytes of S, which the sum of the lengths bounds
  have equal : sig[3]!.toNat + sig[5 + sig[3]!.toNat]!.toNat + (if haveHashType then 7 else 6) = sig.length := by
    simpa only [bne_iff_ne,ne_eq,not_not] using summed
  have inside : sig[3]!.toNat + 6 < sig.length := by
    cases haveHashType <;> simp only [Bool.false_eq_true,if_false,if_true] at equal <;> omega
  have second : 1 < sig[5 + sig[3]!.toNat]!.toNat → sig[3]!.toNat + 7 < sig.length := by
    cases haveHashType <;> simp only [Bool.false_eq_true,if_false,if_true] at equal <;> omega
  rw [readByte_of_lt inside]
  simp only [Abort.ok_bind]
  rw [padding_reads second]
  simp only [Abort.ok_bind]

/-! ## The grammar -/

/-- An integer as the check admits it: not empty, no top bit in its first
byte, and a zero first byte only before a byte with the top bit. -/
def DERInteger : valtype → Prop
  | [] => False
  | [first] => first &&& 0x80 = 0
  | first :: second :: _ => first &&& 0x80 = 0 ∧ (first = 0 → second &&& 0x80 ≠ 0)

/-- The strict DER layout: the compound marker, the length of what follows up
to the sighash byte, the two integers each after its tag and length, then the
sighash byte where there is one; 9 to 73 bytes in all. -/
def StrictDER (sig : valtype) (haveHashType : Bool) : Prop :=
  9 ≤ sig.length ∧ sig.length ≤ 73 ∧ ∃ R S hashType : valtype, DERInteger R ∧ DERInteger S ∧
    hashType.length = (if haveHashType then 1 else 0) ∧
    sig = [0x30,UInt8.ofNat (R.length + S.length + 4),0x02,UInt8.ofNat R.length] ++ R ++
      [0x02,UInt8.ofNat S.length] ++ S ++ hashType

private theorem getElem!_append_length_add (l t : valtype) (i : Nat) : (l ++ t)[l.length + i]! = t[i]! := by
  simp [List.getElem?_append_right]

private theorem if_false_eq_true {p : Prop} [Decidable p] {rest : Bool} :
    (if p then false else rest) = true ↔ ¬p ∧ rest = true := by
  by_cases holds : p <;> simp [holds]

/-- The integer's conditions, as the check reads them in front of the bytes
that follow it. -/
private theorem DERInteger_iff (bytes rest : valtype) :
    DERInteger bytes ↔ bytes.length ≠ 0 ∧ (bytes ++ rest)[0]! &&& 0x80 = 0 ∧
      ¬((1 < bytes.length ∧ (bytes ++ rest)[0]! = 0) ∧ (bytes ++ rest)[1]! &&& 0x80 = 0) := by
  rcases bytes with _ | ⟨first,_ | ⟨second,bytes⟩⟩ <;> simp [DERInteger]

/-- The check on a signature laid out as the grammar lays it out, with the two
length bytes right: it holds when the marker, the total length and the two
tags are right and both integers are admitted. -/
theorem IsValidSignatureEncoding_layout {marker total tagR sizeR tagS sizeS : UInt8} {R S hashType : valtype}
    {haveHashType : Bool} (lengthR : sizeR.toNat = R.length) (lengthS : sizeS.toNat = S.length)
    (hashed : hashType.length = if haveHashType then 1 else 0)
    (large : 9 ≤ R.length + S.length + 6 + hashType.length) (small : R.length + S.length + 6 + hashType.length ≤ 73) :
    IsValidSignatureEncoding (marker :: total :: tagR :: sizeR :: (R ++ tagS :: sizeS :: (S ++ hashType))) haveHashType =
        true ↔
      marker = 0x30 ∧ total.toNat = R.length + S.length + 4 ∧ tagR = 0x02 ∧ tagS = 0x02 ∧ DERInteger R ∧
        DERInteger S := by
  -- the reads past R
  have after : ∀ i, (marker :: total :: tagR :: sizeR :: (R ++ tagS :: sizeS :: (S ++ hashType)))[R.length + i + 4]! =
      (tagS :: sizeS :: (S ++ hashType))[i]! := by
    intro i
    simp only [List.getElem!_cons_succ]
    exact getElem!_append_length_add _ _ i
  have readLengthS :
      (marker :: total :: tagR :: sizeR :: (R ++ tagS :: sizeS :: (S ++ hashType)))[5 + R.length]! = sizeS := by
    rw [show 5 + R.length = R.length + 1 + 4 by omega,after]
    rfl
  have length : (marker :: total :: tagR :: sizeR :: (R ++ tagS :: sizeS :: (S ++ hashType))).length =
      R.length + S.length + 6 + hashType.length := by
    simp
    omega
  have declared : R.length + S.length + 6 + hashType.length - (if haveHashType then 3 else 2) =
      R.length + S.length + 4 := by
    cases haveHashType <;> simp only [Bool.false_eq_true,if_false,if_true] at hashed ⊢ <;> omega
  have summed : (R.length + S.length + (if haveHashType then 7 else 6) !=
      R.length + S.length + 6 + hashType.length) = false := by
    cases haveHashType <;> simp at hashed ⊢ <;> omega
  have room : ¬R.length + S.length + 6 + hashType.length ≤ 5 + R.length := by omega
  unfold IsValidSignatureEncoding
  dsimp only
  rw [show (marker :: total :: tagR :: sizeR :: (R ++ tagS :: sizeS :: (S ++ hashType)))[3]! = sizeR from rfl,lengthR,
    readLengthS,after 0,after 2,after 3,lengthS,length,if_neg (by omega),if_neg (by omega),declared,if_neg room,summed]
  simp only [List.getElem!_cons_zero,List.getElem!_cons_succ,DERInteger_iff R (tagS :: sizeS :: (S ++ hashType)),
    DERInteger_iff S hashType,if_false_eq_true,bne_iff_ne,ne_eq,not_not,Bool.and_eq_true,beq_iff_eq,
    decide_eq_true_eq,and_true]
  tauto

/-- What the first checks of an accepted signature establish: its size, and
the two lengths that lay it out. -/
private theorem IsValidSignatureEncoding_sizes {sig : valtype} {haveHashType : Bool}
    (valid : IsValidSignatureEncoding sig haveHashType = true) :
    9 ≤ sig.length ∧ sig.length ≤ 73 ∧ 5 + sig[3]!.toNat < sig.length ∧
      sig[3]!.toNat + sig[5 + sig[3]!.toNat]!.toNat + (if haveHashType then 7 else 6) = sig.length := by
  unfold IsValidSignatureEncoding at valid
  dsimp only at valid
  obtain ⟨short,valid⟩ := if_false_eq_true.mp valid
  obtain ⟨long,valid⟩ := if_false_eq_true.mp valid
  obtain ⟨-,valid⟩ := if_false_eq_true.mp valid
  obtain ⟨-,valid⟩ := if_false_eq_true.mp valid
  obtain ⟨room,valid⟩ := if_false_eq_true.mp valid
  obtain ⟨summed,-⟩ := if_false_eq_true.mp valid
  simp only [bne_iff_ne,ne_eq,not_not] at summed
  exact ⟨by omega,by omega,by omega,summed⟩

/-- An accepted signature is laid out by the grammar. -/
theorem StrictDER_of_valid {sig : valtype} {haveHashType : Bool}
    (valid : IsValidSignatureEncoding sig haveHashType = true) : StrictDER sig haveHashType := by
  obtain ⟨large,small,room,summed⟩ := IsValidSignatureEncoding_sizes valid
  -- the four bytes in front of R
  obtain ⟨marker,total,tagR,sizeR,rest,rfl⟩ :
      ∃ marker total tagR sizeR rest, sig = marker :: total :: tagR :: sizeR :: rest := by
    rcases sig with _ | ⟨marker,_ | ⟨total,_ | ⟨tagR,_ | ⟨sizeR,rest⟩⟩⟩⟩
    all_goals first | exact ⟨_,_,_,_,_,rfl⟩ | simp at large
  have readS : (marker :: total :: tagR :: sizeR :: rest)[5 + sizeR.toNat]! = rest[sizeR.toNat + 1]! := by
    rw [show 5 + sizeR.toNat = sizeR.toNat + 1 + 4 by omega]
    simp only [List.getElem!_cons_succ]
  rw [show (marker :: total :: tagR :: sizeR :: rest)[3]! = sizeR from rfl,readS] at summed
  rw [show (marker :: total :: tagR :: sizeR :: rest)[3]! = sizeR from rfl] at room
  simp only [List.length_cons] at large small room summed
  -- R, then the tag and the length of S, then S and the sighash byte
  have dropped : rest.drop sizeR.toNat = rest[sizeR.toNat]! :: rest[sizeR.toNat + 1]! :: rest.drop (sizeR.toNat + 2) := by
    rw [List.drop_eq_getElem_cons (by omega),List.drop_eq_getElem_cons (by omega),getElem!_pos rest _ (by omega),
      getElem!_pos rest _ (by omega)]
  obtain ⟨R,tagS,sizeS,tail,shape,lengthR,readSizeS⟩ : ∃ R tagS sizeS tail, rest = R ++ tagS :: sizeS :: tail ∧
      R.length = sizeR.toNat ∧ rest[sizeR.toNat + 1]! = sizeS :=
    ⟨rest.take sizeR.toNat,_,_,rest.drop (sizeR.toNat + 2),by rw [← dropped,List.take_append_drop],
      by simp; omega,rfl⟩
  have tailLength : rest.length = R.length + tail.length + 2 := by simp [shape]; omega
  rw [readSizeS] at summed
  obtain ⟨S,hashType,tailShape,lengthS⟩ : ∃ S hashType, tail = S ++ hashType ∧ S.length = sizeS.toNat :=
    ⟨tail.take sizeS.toNat,tail.drop sizeS.toNat,(List.take_append_drop _ _).symm,
      by simp; cases haveHashType <;> simp at summed <;> omega⟩
  subst shape tailShape
  simp only [List.length_append,List.length_cons] at tailLength large small
  have hashed : hashType.length = if haveHashType then 1 else 0 := by
    cases haveHashType <;> simp only [Bool.false_eq_true,if_false,if_true,List.length_append,List.length_cons] at summed ⊢ <;>
      omega
  obtain ⟨isMarker,isTotal,isTagR,isTagS,integerR,integerS⟩ :=
    (IsValidSignatureEncoding_layout lengthR.symm lengthS.symm hashed (by omega) (by omega)).mp valid
  refine ⟨by simp; omega,by simp; omega,R,S,hashType,integerR,integerS,hashed,?_⟩
  rw [isMarker,isTagR,isTagS,← isTotal,lengthR,lengthS,UInt8.ofNat_toNat,UInt8.ofNat_toNat,UInt8.ofNat_toNat]
  simp

/-- A signature laid out by the grammar is accepted. -/
theorem valid_of_StrictDER {sig : valtype} {haveHashType : Bool} (der : StrictDER sig haveHashType) :
    IsValidSignatureEncoding sig haveHashType = true := by
  obtain ⟨large,small,R,S,hashType,integerR,integerS,hashed,rfl⟩ := der
  have shape : [0x30,UInt8.ofNat (R.length + S.length + 4),0x02,UInt8.ofNat R.length] ++ R ++
      [0x02,UInt8.ofNat S.length] ++ S ++ hashType = 0x30 :: UInt8.ofNat (R.length + S.length + 4) :: 0x02 ::
        UInt8.ofNat R.length :: (R ++ 0x02 :: UInt8.ofNat S.length :: (S ++ hashType)) := by
    simp
  rw [shape] at large small ⊢
  simp only [List.length_cons,List.length_append] at large small
  have byte : ∀ n, n < 256 → (UInt8.ofNat n).toNat = n := fun n below => by simp [UInt8.toNat_ofNat']; omega
  exact (IsValidSignatureEncoding_layout (byte _ (by omega)) (byte _ (by omega)) hashed (by omega) (by omega)).mpr
    ⟨rfl,byte _ (by omega),rfl,rfl,integerR,integerS⟩

/-- `IsValidSignatureEncoding` accepts exactly the signatures of the strict
DER layout, in both modes, and never reads past the end of the signature. -/
theorem IsValidSignatureEncoding_strict_der (sig : valtype) (haveHashType : Bool) :
    (IsValidSignatureEncoding sig haveHashType = true ↔ StrictDER sig haveHashType) ∧
      IsValidSignatureEncodingChecked sig haveHashType = .ok (IsValidSignatureEncoding sig haveHashType) :=
  ⟨⟨StrictDER_of_valid,valid_of_StrictDER⟩,IsValidSignatureEncodingChecked_eq sig haveHashType⟩

/-- The integer zero, written as the single byte zero, is admitted for `R`. -/
theorem IsValidSignatureEncoding_admits_zero :
    IsValidSignatureEncoding [0x30,0x06,0x02,0x01,0x00,0x02,0x01,0x01,0x01] true = true := by
  decide

end Qtum.Script
