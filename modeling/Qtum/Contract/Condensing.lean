import Qtum.Contract.Accounting
import Mathlib.Algebra.Order.BigOperators.Group.List

/-! The condensing transactions of `QtumState::execute`, from the sender's
vins. `SelectOutputs` takes the shortest run of vins after the placeholder
whose amount reaches the value, or all of them; `CreateOutputs` pays the
value and returns what exceeds it. Where the vins cover the value, the
transaction spends what it pays and `savedVinToAccount` moves exactly the
spent vins. Where they do not, it pays the value out of less, and where
nothing is selected the condensing loop still reads the first output of
`CTransaction()`. -/
namespace Qtum.Contract

open Script

/-- What a list of vins holds. -/
def vinAmount (vins : VinsInfo) : CAmount := (vins.map Prod.snd).sum

@[simp] theorem vinAmount_nil : vinAmount [] = 0 := rfl

@[simp] theorem vinAmount_cons (vin : vinInfo) (vins : VinsInfo) :
    vinAmount (vin :: vins) = vin.2 + vinAmount vins := by
  simp [vinAmount]

theorem vinSum_eq_vinAmount (vins : VinsInfo) : vinSum vins = vinAmount (vins.drop 1) := rfl

/-! ## The selection loop -/

section Select

variable (value : CAmount)

@[simp] theorem selectFrom_nil (sum : CAmount) : selectFrom value [] sum = ([],sum) := rfl

/-- The loop's sum is the amount of what it selected. -/
theorem selectFrom_snd : ∀ (vins : VinsInfo) (sum : CAmount),
    (selectFrom value vins sum).2 = sum + vinAmount (selectFrom value vins sum).1
  | [], sum => by simp
  | vin :: rest, sum => by
    unfold selectFrom
    split
    · simp
    · have later := selectFrom_snd rest (sum + vin.2)
      dsimp only
      rw [later,vinAmount_cons]
      linarith

theorem selectFrom_prefix_vins : ∀ (vins : VinsInfo) (sum : CAmount), (selectFrom value vins sum).1 <+: vins
  | [], _ => by simp
  | vin :: rest, sum => by
    unfold selectFrom
    split
    · exact List.cons_prefix_cons.mpr ⟨rfl,List.nil_prefix⟩
    · exact List.cons_prefix_cons.mpr ⟨rfl,selectFrom_prefix_vins rest _⟩

theorem selectFrom_ne_nil {vins : VinsInfo} (present : vins ≠ []) (sum : CAmount) :
    (selectFrom value vins sum).1 ≠ [] := by
  obtain ⟨vin,rest,rfl⟩ := List.exists_cons_of_ne_nil present
  unfold selectFrom
  split <;> simp

/-- The loop stops where the value is reached, or after the last vin. -/
theorem selectFrom_reaches : ∀ (vins : VinsInfo) (sum : CAmount),
    value ≤ (selectFrom value vins sum).2 ∨ (selectFrom value vins sum).1 = vins
  | [], _ => .inr rfl
  | vin :: rest, sum => by
    unfold selectFrom
    split
    · exact .inl ‹_›
    · rcases selectFrom_reaches rest (sum + vin.2) with reached | all
      · exact .inl reached
      · exact .inr (by dsimp only; rw [all])

/-- Without its last vin the selection falls short: it is the shortest run
that reaches the value. -/
theorem selectFrom_dropLast : ∀ (vins : VinsInfo) (sum : CAmount),
    sum < value → sum + vinAmount (selectFrom value vins sum).1.dropLast < value
  | [], _, short => by simpa using short
  | vin :: rest, sum, short => by
    unfold selectFrom
    split
    · simpa using short
    · rename_i missed
      have later := selectFrom_dropLast rest (sum + vin.2) (by linarith)
      dsimp only
      cases selected : (selectFrom value rest (sum + vin.2)).1 with
      | nil => simpa using short
      | cons first more =>
        rw [selected] at later
        rw [List.dropLast_cons_cons,vinAmount_cons]
        linarith

/-- Where no run of vins reaches the value, all of them are selected. -/
theorem selectFrom_all : ∀ (vins : VinsInfo) (sum : CAmount), (∀ vin ∈ vins, 0 ≤ vin.2) →
    sum + vinAmount vins < value → (selectFrom value vins sum).1 = vins
  | [], _, _, _ => rfl
  | vin :: rest, sum, nonneg, short => by
    have rest_nonneg : ∀ vin ∈ rest, 0 ≤ vin.2 := fun vin mem => nonneg vin (List.mem_cons_of_mem _ mem)
    have rest_amount : 0 ≤ vinAmount rest := by
      apply List.sum_nonneg
      intro amount listed
      obtain ⟨vin,mem,rfl⟩ := List.mem_map.mp listed
      exact rest_nonneg vin mem
    rw [vinAmount_cons] at short
    unfold selectFrom
    rw [if_neg (by linarith)]
    dsimp only
    rw [selectFrom_all rest (sum + vin.2) rest_nonneg (by linarith)]

/-- Where the vins after the placeholder cover a positive value, the
selection is a nonempty run of them from the first that reaches the value
and falls short without its last vin. -/
theorem SelectOutputs_covered {vins : VinsInfo} (positive : 0 < value) (covered : value ≤ vinSum vins) :
    ∃ k, 0 < k ∧ k ≤ (vins.drop 1).length ∧ (SelectOutputs vins value).1 = (vins.drop 1).take k ∧
      (SelectOutputs vins value).2 = vinAmount ((vins.drop 1).take k) ∧
      value ≤ vinAmount ((vins.drop 1).take k) ∧ vinAmount ((vins.drop 1).take k).dropLast < value := by
  have present : vins.drop 1 ≠ [] := by
    intro empty
    rw [vinSum_eq_vinAmount,empty,vinAmount_nil] at covered
    linarith
  unfold SelectOutputs
  have amount := selectFrom_snd value (vins.drop 1) 0
  have taken := List.prefix_iff_eq_take.mp (selectFrom_prefix_vins value (vins.drop 1) 0)
  have reached : value ≤ (selectFrom value (vins.drop 1) 0).2 := by
    rcases selectFrom_reaches value (vins.drop 1) 0 with reached | all
    · exact reached
    · rw [amount,all,zero_add,← vinSum_eq_vinAmount]
      exact covered
  have short := selectFrom_dropLast value (vins.drop 1) 0 positive
  refine ⟨_,List.length_pos_of_ne_nil (selectFrom_ne_nil value present 0),
    (selectFrom_prefix_vins value (vins.drop 1) 0).length_le,taken,?_,?_,?_⟩ <;> rw [← taken]
  · rw [amount,zero_add]
  · linarith
  · linarith

end Select

/-! ## The transaction -/

/-- The outputs pay the larger of the value and the selected sum: the sum
where it covers the value. -/
theorem CreateOutputs_amount (sender receiver : Address) (value sum : CAmount) (type : TransferType) :
    ((CreateOutputs sender receiver value sum type).map CTxOut.nValue).sum = max value sum := by
  unfold CreateOutputs
  split
  · rename_i below
    simp only [List.map_cons,List.map_nil,List.sum_cons,List.sum_nil,add_zero]
    rw [max_eq_right below.le]
    linarith
  · rename_i above
    simp [max_eq_left (not_lt.mp above)]

theorem scriptTypes_IsPayToPubkeyHash (type : TransferType) (receiver : Address) :
    IsPayToPubkeyHash (scriptTypes type receiver) = decide (type = .ContractToPubkeyhash) := by
  obtain ⟨bytes,length⟩ := receiver
  cases type with
  | ContractToContract => simp [scriptTypes,pushData,pushOpcode,IsPayToPubkeyHash,length,OP_PUSHDATA1]
  | ContractToPubkeyhash =>
    simp [scriptTypes,pushData,pushOpcode,IsPayToPubkeyHash,length,OP_PUSHDATA1,OP_DUP,OP_HASH160,OP_EQUALVERIFY,
      OP_CHECKSIG]

/-- The type `TxGeneration` pays the receiver by: an assignment where the
receiver is in use and neither the transaction's sender nor the block's author. -/
def condensingType (s : QtumState) (txData : TxDataToGenerate) (author sender : Address) : TransferType :=
  if s.addressInUse txData.receiver && (txData.receiver != sender && txData.receiver != author) then .ContractToContract
  else .ContractToPubkeyhash

/-! ## The vins the transaction moves -/

theorem eraseSecond_ok (first : vinInfo) : ∀ (rest : VinsInfo) (amount : Nat), amount ≤ rest.length →
    QtumState.eraseSecond (first :: rest) amount = .ok (first :: rest.drop amount)
  | _, 0, _ => rfl
  | [], _ + 1, fits => by simp at fits
  | second :: rest, amount + 1, fits => by
    rw [QtumState.eraseSecond]
    exact eraseSecond_ok first rest amount (by simpa using fits)

theorem subVins_of_find {s : QtumState} {a : Address} {first : vinInfo} {rest : VinsInfo} {amount : Nat}
    (found : s.vins.find a = some (first :: rest)) (fits : amount ≤ rest.length) :
    s.subVins a amount = .ok (s.setVins a (first :: rest.drop amount)) := by
  unfold QtumState.subVins
  rw [found]
  dsimp only
  rw [if_neg (by simp; omega),eraseSecond_ok first rest amount fits]
  rfl

/-- What `savedVinToAccount` leaves at every address where the sender holds
the vins it erases and the transaction has an output: the erased vins gone,
the first output at the receiver unless it pays a key hash, and the second
at the sender. -/
theorem savedVinToAccount_getVins {s : QtumState} {tx : CTransaction} {txData : TxDataToGenerate}
    {first : vinInfo} {rest : VinsInfo} {paid : CTxOut} {more : List CTxOut}
    (found : s.vins.find txData.sender = some (first :: rest)) (fits : txData.delVinSender ≤ rest.length)
    (outputs : tx.vout = paid :: more) :
    ∃ s', savedVinToAccount s tx txData = .ok s' ∧ ∀ a, s'.getVins a =
      (if a = txData.sender then first :: rest.drop txData.delVinSender else s.getVins a) ++
      (if IsPayToPubkeyHash paid.scriptPubKey = false ∧ a = txData.receiver then [(⟨tx.GetHash,0⟩,paid.nValue)]
        else []) ++
      (if a = txData.sender then more.head?.toList.map fun change => (⟨tx.GetHash,1⟩,change.nValue) else []) := by
  unfold savedVinToAccount
  rw [subVins_of_find found fits]
  simp only [Abort.ok_bind,outputAt,outputs,List.getElem?_cons_zero,List.getElem?_cons_succ]
  refine ⟨_,rfl,fun a => ?_⟩
  have erased := @QtumState.getVins_setVins s txData.sender (first :: rest.drop txData.delVinSender) a
  cases more with
  | nil =>
    cases IsPayToPubkeyHash paid.scriptPubKey <;> simp [QtumState.getVins_addVin,erased]
  | cons change later =>
    cases IsPayToPubkeyHash paid.scriptPubKey <;> simp [QtumState.getVins_addVin,erased]

/-- `A` holding 3 and 4 after its placeholder; `A` holding 3 only; a transfer
of 5 from `A` to `B`. -/
def coveringState : QtumState :=
  genesis.setVins contractA [(⟨Blob.null 32,0⟩,0),(⟨Blob.replicate 32 1,0⟩,3),(⟨Blob.replicate 32 2,1⟩,4)]

def shortState : QtumState := genesis.setVins contractA [(⟨Blob.null 32,0⟩,0),(⟨Blob.replicate 32 1,0⟩,3)]

def transferToB : TxDataToGenerate := ⟨contractA,contractB,5,0⟩

section Generation

variable (crypto : Crypto) (s : QtumState) (txData : TxDataToGenerate) (author sender : Address)

theorem TxGeneration_of_nil (nothing : (s.getVins txData.sender).drop 1 = []) :
    TxGeneration crypto s txData author sender = (defaultTransaction,txData) := by
  simp [TxGeneration,SelectOutputs,nothing,CreateInputs]

theorem TxGeneration_of_ne_nil (present : (s.getVins txData.sender).drop 1 ≠ []) :
    TxGeneration crypto s txData author sender =
      (CTransaction.ofMutable crypto (CreateInputs (SelectOutputs (s.getVins txData.sender) (CAmountOf txData.value)).1)
        (CreateOutputs txData.sender txData.receiver (CAmountOf txData.value)
          (SelectOutputs (s.getVins txData.sender) (CAmountOf txData.value)).2 (condensingType s txData author sender)),
        {txData with delVinSender := (SelectOutputs (s.getVins txData.sender) (CAmountOf txData.value)).1.length}) := by
  have selected := selectFrom_ne_nil (CAmountOf txData.value) present 0
  unfold TxGeneration
  rw [if_neg (by simpa [CreateInputs,SelectOutputs] using selected)]
  dsimp only
  rw [CreateInputs,List.length_map]
  rfl

/-- The condensing transaction of a transfer its sender's vins cover. -/
theorem TxGeneration_covered (positive : 0 < CAmountOf txData.value)
    (covered : CAmountOf txData.value ≤ vinSum (s.getVins txData.sender)) :
    ∃ k, 0 < k ∧ k ≤ ((s.getVins txData.sender).drop 1).length ∧
      CAmountOf txData.value ≤ vinAmount (((s.getVins txData.sender).drop 1).take k) ∧
      vinAmount (((s.getVins txData.sender).drop 1).take k).dropLast < CAmountOf txData.value ∧
      TxGeneration crypto s txData author sender =
        (CTransaction.ofMutable crypto (CreateInputs (((s.getVins txData.sender).drop 1).take k))
          (CreateOutputs txData.sender txData.receiver (CAmountOf txData.value)
            (vinAmount (((s.getVins txData.sender).drop 1).take k)) (condensingType s txData author sender)),
          {txData with delVinSender := k}) := by
  obtain ⟨k,nonempty,fits,taken,amount,reached,short⟩ :=
    SelectOutputs_covered (CAmountOf txData.value) positive covered
  have present : (s.getVins txData.sender).drop 1 ≠ [] := by
    intro empty
    rw [empty,List.take_nil,vinAmount_nil] at reached
    linarith
  refine ⟨k,nonempty,fits,reached,short,?_⟩
  rw [TxGeneration_of_ne_nil crypto s txData author sender present,taken,amount,List.length_take_of_le fits]

/-- A transfer the sender's vins cover: the condensing transaction spends the
shortest run of vins after the placeholder that reaches the value, pays the
value to the receiver and what is left over back to the sender, and its
outputs sum to what it spends. -/
theorem TxGeneration_conserves (positive : 0 < CAmountOf txData.value)
    (covered : CAmountOf txData.value ≤ vinSum (s.getVins txData.sender)) :
    let generated := TxGeneration crypto s txData author sender
    ∃ k, 0 < k ∧ generated.2.delVinSender = k ∧
      let spent := ((s.getVins txData.sender).drop 1).take k
      CAmountOf txData.value ≤ vinAmount spent ∧ vinAmount spent.dropLast < CAmountOf txData.value ∧
      generated.1.vin = CreateInputs spent ∧
      generated.1.vout = ⟨CAmountOf txData.value,scriptTypes (condensingType s txData author sender) txData.receiver⟩ ::
        (if CAmountOf txData.value < vinAmount spent then
          [⟨vinAmount spent - CAmountOf txData.value,scriptTypes .ContractToContract txData.sender⟩] else []) ∧
      (generated.1.vout.map CTxOut.nValue).sum = vinAmount spent := by
  intro generated
  obtain ⟨k,nonempty,-,reached,short,generation⟩ := TxGeneration_covered crypto s txData author sender positive covered
  rw [show generated = _ from generation]
  refine ⟨k,nonempty,rfl,reached,short,CTransaction.ofMutable_vin _ _ _,CTransaction.ofMutable_vout _ _ _,?_⟩
  rw [CTransaction.ofMutable_vout,CreateOutputs_amount,max_eq_right reached]

theorem TxGeneration_conserves_coveringState :
    0 < CAmountOf transferToB.value ∧ CAmountOf transferToB.value ≤ vinSum (coveringState.getVins transferToB.sender) ∧
      let generated := TxGeneration prefixCrypto coveringState transferToB userKey userKey
      ∃ k, 0 < k ∧ generated.2.delVinSender = k ∧
        let spent := ((coveringState.getVins transferToB.sender).drop 1).take k
        CAmountOf transferToB.value ≤ vinAmount spent ∧ vinAmount spent.dropLast < CAmountOf transferToB.value ∧
        generated.1.vin = CreateInputs spent ∧
        generated.1.vout = ⟨CAmountOf transferToB.value,
            scriptTypes (condensingType coveringState transferToB userKey userKey) transferToB.receiver⟩ ::
          (if CAmountOf transferToB.value < vinAmount spent then
            [⟨vinAmount spent - CAmountOf transferToB.value,scriptTypes .ContractToContract transferToB.sender⟩]
          else []) ∧
        (generated.1.vout.map CTxOut.nValue).sum = vinAmount spent :=
  ⟨by decide,by decide,
    TxGeneration_conserves prefixCrypto coveringState transferToB userKey userKey (by decide) (by decide)⟩

/-- After a covered transfer's transaction, `savedVinToAccount` returns and
moves what the transaction moves: the sender loses the vins spent and gains
the change, and a receiver paid by assignment gains the value. -/
theorem savedVinToAccount_follows (positive : 0 < CAmountOf txData.value)
    (covered : CAmountOf txData.value ≤ vinSum (s.getVins txData.sender)) :
    let generated := TxGeneration crypto s txData author sender
    let vins := s.getVins txData.sender
    let spent := (vins.drop 1).take generated.2.delVinSender
    ∃ s', savedVinToAccount s generated.1 generated.2 = .ok s' ∧ ∀ a, s'.getVins a =
      (if a = txData.sender then vins.take 1 ++ vins.drop (generated.2.delVinSender + 1) else s.getVins a) ++
      (if condensingType s txData author sender = .ContractToContract ∧ a = txData.receiver then
        [(⟨generated.1.GetHash,0⟩,CAmountOf txData.value)] else []) ++
      (if a = txData.sender ∧ CAmountOf txData.value < vinAmount spent then
        [(⟨generated.1.GetHash,1⟩,vinAmount spent - CAmountOf txData.value)] else []) := by
  obtain ⟨k,nonempty,fits,-,-,generation⟩ := TxGeneration_covered crypto s txData author sender positive covered
  -- the sender's vins are in the cache or the store: there is something to spend
  obtain ⟨first,rest,found⟩ : ∃ first rest, s.vins.find txData.sender = some (first :: rest) := by
    cases stored : s.vins.find txData.sender with
    | none =>
      simp [QtumState.getVins,stored] at fits
      omega
    | some listed =>
      cases listed with
      | nil =>
        simp [QtumState.getVins,stored] at fits
        omega
      | cons first rest => exact ⟨first,rest,rfl⟩
  have listed : s.getVins txData.sender = first :: rest := by simp [QtumState.getVins,found]
  have rest_fits : k ≤ rest.length := by simpa [listed] using fits
  dsimp only
  rw [generation]
  dsimp only
  obtain ⟨s',saved,moved⟩ := @savedVinToAccount_getVins s _ {txData with delVinSender := k} first rest _ _ found
    rest_fits (CTransaction.ofMutable_vout _ _ _)
  refine ⟨s',saved,fun a => ?_⟩
  rw [moved a,scriptTypes_IsPayToPubkeyHash]
  -- the receiver's output and the change output, each present or not
  simp only [listed,List.drop_one,List.tail_cons]
  by_cases change : CAmountOf txData.value < vinAmount (rest.take k) <;>
    cases condensingType s txData author sender <;> simp [change,CreateOutputs]

theorem savedVinToAccount_follows_coveringState :
    0 < CAmountOf transferToB.value ∧ CAmountOf transferToB.value ≤ vinSum (coveringState.getVins transferToB.sender) ∧
      let generated := TxGeneration prefixCrypto coveringState transferToB userKey userKey
      let vins := coveringState.getVins transferToB.sender
      let spent := (vins.drop 1).take generated.2.delVinSender
      ∃ s', savedVinToAccount coveringState generated.1 generated.2 = .ok s' ∧ ∀ a, s'.getVins a =
        (if a = transferToB.sender then vins.take 1 ++ vins.drop (generated.2.delVinSender + 1)
          else coveringState.getVins a) ++
        (if condensingType coveringState transferToB userKey userKey = .ContractToContract ∧
            a = transferToB.receiver then
          [(⟨generated.1.GetHash,0⟩,CAmountOf transferToB.value)] else []) ++
        (if a = transferToB.sender ∧ CAmountOf transferToB.value < vinAmount spent then
          [(⟨generated.1.GetHash,1⟩,vinAmount spent - CAmountOf transferToB.value)] else []) :=
  ⟨by decide,by decide,
    savedVinToAccount_follows prefixCrypto coveringState transferToB userKey userKey (by decide) (by decide)⟩

/-- A transfer the sender's vins do not cover. Where there are vins after
the placeholder, the condensing transaction spends all of them and still pays
the whole value, more than it spends. Where the sender holds only its
placeholder, the transaction is `CTransaction()`, and the condensing loop
passes it to `savedVinToAccount`, which reads its first output. -/
theorem condensing_without_cover (positive : 0 < CAmountOf txData.value) :
    ((s.getVins txData.sender).drop 1 ≠ [] → (∀ vin ∈ s.getVins txData.sender, 0 ≤ vin.2) →
      vinSum (s.getVins txData.sender) < CAmountOf txData.value →
      (TxGeneration crypto s txData author sender).1.vin = CreateInputs ((s.getVins txData.sender).drop 1) ∧
        ((TxGeneration crypto s txData author sender).1.vout.map CTxOut.nValue).sum = CAmountOf txData.value) ∧
    (∀ (env : EnvInfo) (t : QtumTransaction) (i : Nat) (rest : List TxDataToGenerate) (placeholder : vinInfo),
      s.vins.find txData.sender = some [placeholder] → txData.delVinSender = 0 → ¬(t.version = 1 ∧ 0 < t.value ∧ i = 0) →
      QtumState.generateTransactions crypto env t i (txData :: rest) s = .error .outOfRange) := by
  constructor
  · intro present nonneg short
    have all := selectFrom_all (CAmountOf txData.value) ((s.getVins txData.sender).drop 1) 0
      (fun vin mem => nonneg vin (List.mem_of_mem_drop mem)) (by rw [zero_add,← vinSum_eq_vinAmount]; exact short)
    have amount := selectFrom_snd (CAmountOf txData.value) ((s.getVins txData.sender).drop 1) 0
    rw [all,zero_add,← vinSum_eq_vinAmount] at amount
    rw [TxGeneration_of_ne_nil crypto s txData author sender present]
    refine ⟨by rw [CTransaction.ofMutable_vin,SelectOutputs,all],?_⟩
    rw [CTransaction.ofMutable_vout,CreateOutputs_amount,SelectOutputs,amount,max_eq_left short.le]
  · intro env t i rest placeholder found recorded eligible
    have nothing : (s.getVins txData.sender).drop 1 = [] := by simp [QtumState.getVins,found]
    have transferred : 0 < txData.value := by
      apply Nat.pos_of_ne_zero
      intro zero
      simp [zero,CAmountOf,toSigned] at positive
    -- `subVins` of no vins returns, and the first output of `CTransaction()` is read
    have saved : savedVinToAccount s defaultTransaction txData = .error .outOfRange := by
      unfold savedVinToAccount
      rw [subVins_of_find found (by simp [recorded])]
      rfl
    unfold QtumState.generateTransactions
    rw [if_pos ⟨transferred,eligible⟩]
    dsimp only
    rw [TxGeneration_of_nil crypto s txData env.author t.sender nothing]
    exact Abort.bind_error saved

/-- The sender `A` holding its placeholder vin only. -/
def placeholderState : QtumState := genesis.setVins contractA [(⟨Blob.null 32,0⟩,0)]

/-- Case (a) at `shortState`, whose vins after the placeholder hold 3 of the
5 sent, and case (b) at `placeholderState`, for a creation without value. -/
theorem condensing_without_cover_shortState :
    0 < CAmountOf transferToB.value ∧
    (shortState.getVins transferToB.sender).drop 1 ≠ [] ∧ (∀ vin ∈ shortState.getVins transferToB.sender, 0 ≤ vin.2) ∧
    vinSum (shortState.getVins transferToB.sender) < CAmountOf transferToB.value ∧
    ((TxGeneration prefixCrypto shortState transferToB userKey userKey).1.vin =
        CreateInputs ((shortState.getVins transferToB.sender).drop 1) ∧
      ((TxGeneration prefixCrypto shortState transferToB userKey userKey).1.vout.map CTxOut.nValue).sum =
        CAmountOf transferToB.value) ∧
    placeholderState.vins.find transferToB.sender = some [(⟨Blob.null 32,0⟩,0)] ∧ transferToB.delVinSender = 0 ∧
    ¬(deployA.version = 1 ∧ 0 < deployA.value ∧ 0 = 0) ∧
    QtumState.generateTransactions prefixCrypto blockEnv deployA 0 [transferToB] placeholderState = .error .outOfRange :=
  have positive : 0 < CAmountOf transferToB.value := by decide
  have present : (shortState.getVins transferToB.sender).drop 1 ≠ [] := by decide
  have nonneg : ∀ vin ∈ shortState.getVins transferToB.sender, 0 ≤ vin.2 := by decide
  have short : vinSum (shortState.getVins transferToB.sender) < CAmountOf transferToB.value := by decide
  have found : placeholderState.vins.find transferToB.sender = some [(⟨Blob.null 32,0⟩,0)] := by decide
  have recorded : transferToB.delVinSender = 0 := rfl
  have creation : ¬(deployA.version = 1 ∧ 0 < deployA.value ∧ 0 = 0) := by decide
  ⟨positive,present,nonneg,short,
    (condensing_without_cover prefixCrypto shortState transferToB userKey userKey positive).1 present nonneg short,
    found,recorded,creation,
    (condensing_without_cover prefixCrypto placeholderState transferToB userKey userKey positive).2 blockEnv deployA 0 []
      _ found recorded creation⟩

/-- From genesis: a creation with value 5 whose code sends 5 on, then a call
of it. The contract holds 5 and only its placeholder vin, and the condensing
loop reads the first output of the empty transaction of its transfer. -/
theorem condensing_without_cover_genesis : Abort.failureOf (executeAll prefixCrypto (prefixBlob 32) tableVM genesis
    [(blockEnv,⟨5,1,100000,none,[0xa0],userKey,Blob.replicate 32 0xe1,0,1⟩),
      (blockEnv,⟨0,1,100000,some endowedContract,[],userKey,Blob.replicate 32 0x44,0,1⟩)]) = some .outOfRange := by
  rfl

end Generation

end Qtum.Contract
