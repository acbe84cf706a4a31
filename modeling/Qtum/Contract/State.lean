import Qtum.Library.Overlay
import Qtum.Contract.Executor
import Qtum.Primitives.TxSerialize

/-! `QtumState` of `libethereum/State.cpp`: the accounts of the virtual
machine, cached in `m_cache` over the account trie, and Qtum's vins, the
outputs each contract owns, cached in `m_cache_utxo` over the vin trie. A
trie is a map here, and its root a function of it; a read through a cache
loads nothing, since what `ensureCached` loads is the stored entry. After a
run each transfer of `txData` becomes a condensing transaction, which spends
the sender's vins from the second on, pays the receiver, and returns the
change; the vins follow it. -/
namespace Qtum.Contract

open Script

/-- The `accountStartNonce` `init.cpp` builds the global state with. -/
def accountStartNonce : Nat := 0

/-- `Account`. `storage` is the overlay merged over the stored root, and
`fresh` the conception phase, while `setCode` may still be called. -/
structure Account where
  alive : Bool
  nonce : Nat
  balance : Nat
  storage : Nat → Nat
  code : valtype
  fresh : Bool

namespace Account

/-- `Account()`, the dead account, which is also what `kill` leaves. -/
def dead : Account := ⟨false,0,0,fun _ => 0,[],false⟩

/-- `Account(nonce, balance, NormalCreation)`, or `ContractConception` where fresh. -/
def create (nonce balance : Nat) (fresh : Bool) : Account := ⟨true,nonce,balance,fun _ => 0,[],fresh⟩

/-- `isFreshCode() || codeHash() != EmptySHA3`. -/
def hasCode (account : Account) : Bool := account.fresh || !account.code.isEmpty

end Account

/-- `vinInfo`: an output a contract owns, with its amount. -/
abbrev vinInfo := COutPoint × CAmount

abbrev VinsInfo := List vinInfo

/-- `CAmount(u256)`: the low 64 bits, read as a signed number. -/
def CAmountOf (value : Nat) : CAmount := toSigned 64 (value % 2 ^ 64)

theorem CAmountOf_of_lt {value : Nat} (small : value < 2 ^ 63) : CAmountOf value = value := by
  have fits : value < 2 ^ 64 := by omega
  unfold CAmountOf toSigned
  rw [Nat.mod_eq_of_lt fits,if_pos small]

/-- What a contract's vins hold for it to spend: all but the placeholder
`vins[0]`, which `SelectOutputs` skips. -/
def vinSum (vins : VinsInfo) : CAmount := ((vins.drop 1).map Prod.snd).sum

/-- A vin of no amount leaves the sum as it was, also where it becomes the placeholder. -/
theorem vinSum_append_zero (vins : VinsInfo) (outpoint : COutPoint) : vinSum (vins ++ [(outpoint,0)]) = vinSum vins := by
  cases vins with
  | nil => rfl
  | cons first rest => simp [vinSum]

structure QtumState where
  accounts : Overlay Address Account
  vins : Overlay Address VinsInfo

/-- `TxDataToGenerate`: a transfer of the run, and the number of the
sender's vins its condensing transaction spends. -/
structure TxDataToGenerate where
  sender : Address
  receiver : Address
  value : Nat
  delVinSender : Nat

namespace QtumState

variable (s : QtumState)

def addressInUse (a : Address) : Bool := (s.accounts.find a).isSome

def balance (a : Address) : Nat := ((s.accounts.find a).map Account.balance).getD 0

def addressHasCode (a : Address) : Bool := ((s.accounts.find a).map Account.hasCode).getD false

def code (a : Address) : valtype := if s.addressHasCode a then ((s.accounts.find a).map Account.code).getD [] else []

def storage (a : Address) (key : Nat) : Nat := ((s.accounts.find a).map fun account => account.storage key).getD 0

def transactionsFrom (a : Address) : Nat := ((s.accounts.find a).map Account.nonce).getD accountStartNonce

def getVins (a : Address) : VinsInfo := (s.vins.find a).getD []

/-- `m_cache[a]`: the account, or a dead one where there is none. -/
def cached (a : Address) : Account := (s.accounts.find a).getD Account.dead

def setAccount (a : Address) (account : Account) : QtumState := {s with accounts := s.accounts.set a account}

/-- `addBalance`: an account that does not exist is created. -/
def addBalance (a : Address) (amount : Nat) : QtumState :=
  match s.accounts.find a with
  | some account => s.setAccount a {account with balance := (account.balance + amount) % 2 ^ 256}
  | none => s.setAccount a (Account.create accountStartNonce (amount % 2 ^ 256) false)

/-- `subBalance` throws `NotEnoughCash` where there is no account or too little. -/
def subBalance (a : Address) (amount : Nat) : Except Abort QtumState :=
  match s.accounts.find a with
  | some account =>
    if amount ≤ account.balance then .ok (s.setAccount a {account with balance := account.balance - amount})
    else .error .exception
  | none => .error .exception

def transferBalance (sender receiver : Address) (value : Nat) : Except Abort QtumState := do
  let s ← s.subBalance sender value
  return s.addBalance receiver value

/-- `noteSending`: where there is no account, `Account(accountStartNonce + 1, 0)`. -/
def noteSending (a : Address) : QtumState :=
  match s.accounts.find a with
  | some account => s.setAccount a {account with nonce := (account.nonce + 1) % 2 ^ 256}
  | none => s.setAccount a (Account.create (accountStartNonce + 1) 0 false)

def setStorage (a : Address) (key value : Nat) : QtumState :=
  let account := s.cached a
  s.setAccount a {account with storage := Function.update account.storage key value}

def setVins (a : Address) (vins : VinsInfo) : QtumState := {s with vins := s.vins.set a vins}

def addVin (a : Address) (vin : vinInfo) : QtumState := s.setVins a (s.getVins a ++ [vin])

/-- The loop of `subVins`: `erase(begin() + 1)` `amount` times, where each
erasure needs a second vin. -/
def eraseSecond : VinsInfo → Nat → Except Abort VinsInfo
  | vins, 0 => .ok vins
  | first :: _ :: rest, amount + 1 => eraseSecond (first :: rest) amount
  | _, _ + 1 => .error .outOfRange

/-- `subVins` throws `NotEnoughCash` where there are no vins or fewer than the amount. -/
def subVins (a : Address) (amount : Nat) : Except Abort QtumState :=
  match s.vins.find a with
  | none => .error .exception
  | some vins =>
    if vins.length < amount then .error .exception
    else do
      let vins ← eraseSecond vins amount
      return s.setVins a vins

/-- `m_cache.erase(a)` and `m_cache_utxo.erase(a)`. -/
def erase (a : Address) : QtumState := ⟨s.accounts.erase a,s.vins.erase a⟩

/-- `m_cache.clear()` and `m_cache_utxo.clear()`. -/
def clear : QtumState := ⟨s.accounts.clear,s.vins.clear⟩

/-- `QtumState::commit`: `State::commit` writes each changed account, removing
the dead ones, and empties the account cache; `commitUTXO` then writes the
vins of each address in use and removes the others. -/
def commit : QtumState :=
  let accounts := s.accounts.flush fun _ account => if account.alive then some {account with fresh := false} else none
  ⟨accounts,s.vins.flush fun a vins => if (accounts.find a).isSome then some vins else none⟩

/-! Every operation but `commit` writes the caches only; those on accounts
leave the vins as they are. -/

variable {s} {a : Address}

@[simp] theorem setAccount_accounts_store (account : Account) :
    (s.setAccount a account).accounts.store = s.accounts.store := rfl
@[simp] theorem setAccount_vins (account : Account) : (s.setAccount a account).vins = s.vins := rfl
@[simp] theorem setVins_accounts (vins : VinsInfo) : (s.setVins a vins).accounts = s.accounts := rfl
@[simp] theorem setVins_vins_store (vins : VinsInfo) : (s.setVins a vins).vins.store = s.vins.store := rfl
@[simp] theorem erase_accounts_store : (s.erase a).accounts.store = s.accounts.store := rfl
@[simp] theorem erase_vins_store : (s.erase a).vins.store = s.vins.store := rfl
@[simp] theorem clear_accounts_store : s.clear.accounts.store = s.accounts.store := rfl
@[simp] theorem clear_vins_store : s.clear.vins.store = s.vins.store := rfl

@[simp] theorem addBalance_accounts_store (amount : Nat) : (s.addBalance a amount).accounts.store = s.accounts.store := by
  unfold addBalance
  split <;> rfl

@[simp] theorem addBalance_vins (amount : Nat) : (s.addBalance a amount).vins = s.vins := by
  unfold addBalance
  split <;> rfl

@[simp] theorem noteSending_accounts_store : (s.noteSending a).accounts.store = s.accounts.store := by
  unfold noteSending
  split <;> rfl

@[simp] theorem noteSending_vins : (s.noteSending a).vins = s.vins := by
  unfold noteSending
  split <;> rfl

@[simp] theorem setStorage_accounts_store (key value : Nat) :
    (s.setStorage a key value).accounts.store = s.accounts.store := rfl
@[simp] theorem setStorage_vins (key value : Nat) : (s.setStorage a key value).vins = s.vins := rfl

@[simp] theorem addVin_accounts (vin : vinInfo) : (s.addVin a vin).accounts = s.accounts := rfl
@[simp] theorem addVin_vins_store (vin : vinInfo) : (s.addVin a vin).vins.store = s.vins.store := rfl

@[simp] theorem getVins_setVins_self (vins : VinsInfo) : (s.setVins a vins).getVins a = vins := by
  simp [getVins,setVins]

theorem getVins_setVins_of_ne {a' : Address} (vins : VinsInfo) (ne : a' ≠ a) :
    (s.setVins a vins).getVins a' = s.getVins a' := by
  simp [getVins,setVins,Overlay.find_set_of_ne _ _ ne]

theorem getVins_setVins (vins : VinsInfo) (a' : Address) :
    (s.setVins a vins).getVins a' = if a' = a then vins else s.getVins a' := by
  split
  · subst_vars
    exact getVins_setVins_self vins
  · exact getVins_setVins_of_ne vins ‹_›

/-- `addVin` appends at its address and nowhere else. -/
theorem getVins_addVin (vin : vinInfo) (a' : Address) :
    (s.addVin a vin).getVins a' = s.getVins a' ++ if a' = a then [vin] else [] := by
  unfold addVin
  rw [getVins_setVins]
  split
  · subst_vars
    rfl
  · simp

/-- A placeholder vin leaves every address's `vinSum` as it was. -/
theorem vinSum_addVin_zero (outpoint : COutPoint) (a' : Address) :
    vinSum ((s.addVin a (outpoint,0)).getVins a') = vinSum (s.getVins a') := by
  by_cases same : a' = a
  · subst same
    simp [addVin,vinSum_append_zero]
  · simp [addVin,getVins_setVins_of_ne _ same]

/-- Both tries as they were: what `rootHash()` and `rootHashUTXO()` are the roots of. -/
structure SameTries (s s' : QtumState) : Prop where
  accounts : s'.accounts.store = s.accounts.store
  vins : s'.vins.store = s.vins.store

namespace SameTries

variable {s₁ s₂ s₃ : QtumState}

theorem refl (s : QtumState) : SameTries s s := ⟨rfl,rfl⟩

theorem trans (first : SameTries s₁ s₂) (second : SameTries s₂ s₃) : SameTries s₁ s₃ :=
  ⟨second.accounts.trans first.accounts,second.vins.trans first.vins⟩

/-- A loop of steps that each keep the tries keeps them. -/
theorem foldl {α : Type} {step : QtumState → α → QtumState} (kept : ∀ s a, SameTries s (step s a)) :
    ∀ (items : List α) (s : QtumState), SameTries s (items.foldl step s)
  | [], s => refl s
  | item :: items, s => (kept s item).trans (foldl kept items (step s item))

end SameTries

theorem erase_tries (s : QtumState) (a : Address) : SameTries s (s.erase a) := ⟨rfl,rfl⟩

/-- What a `subBalance` that returns does: the account was there and could pay. -/
theorem subBalance_ok {amount : Nat} {s' : QtumState} (ok : s.subBalance a amount = .ok s') :
    ∃ account, s.accounts.find a = some account ∧ amount ≤ account.balance ∧
      s' = s.setAccount a {account with balance := account.balance - amount} := by
  unfold subBalance at ok
  split at ok
  · rename_i account found
    split at ok
    · cases ok
      exact ⟨account,found,‹_›,rfl⟩
    · cases ok
  · cases ok

theorem transferBalance_ok {sender receiver : Address} {value : Nat} {s' : QtumState}
    (ok : s.transferBalance sender receiver value = .ok s') :
    ∃ paid, s.subBalance sender value = .ok paid ∧ s' = paid.addBalance receiver value := by
  obtain ⟨paid,sub,added⟩ := Abort.bind_ok ok
  exact ⟨paid,sub,(Except.ok.inj added).symm⟩

/-- A transfer fails only by `NotEnoughCash`. -/
theorem transferBalance_error {sender receiver : Address} {value : Nat} {failure : Abort}
    (failed : s.transferBalance sender receiver value = .error failure) : failure = .exception := by
  unfold transferBalance subBalance at failed
  split at failed
  · split at failed
    · cases failed
    · cases failed
      rfl
  · cases failed
    rfl

/-- A transfer changes cached accounts only. -/
theorem transferBalance_frame {sender receiver : Address} {value : Nat} {s' : QtumState}
    (ok : s.transferBalance sender receiver value = .ok s') :
    s'.accounts.store = s.accounts.store ∧ s'.vins = s.vins := by
  obtain ⟨paid,sub,rfl⟩ := transferBalance_ok ok
  obtain ⟨account,-,-,rfl⟩ := subBalance_ok sub
  simp

theorem eraseSecond_error {failure : Abort} (amount : Nat) :
    ∀ {vins : VinsInfo}, eraseSecond vins amount = .error failure → failure = .outOfRange := by
  induction amount with
  | zero =>
    intro vins failed
    cases failed
  | succ amount ih =>
    intro vins failed
    rcases vins with _ | ⟨first,_ | ⟨second,rest⟩⟩
    · cases failed
      rfl
    · cases failed
      rfl
    · exact ih failed

/-- `subVins` fails by `NotEnoughCash` or an erasure past the end. -/
theorem subVins_error {amount : Nat} {failure : Abort} (failed : s.subVins a amount = .error failure) :
    failure = .exception ∨ failure = .outOfRange := by
  unfold subVins at failed
  split at failed
  · cases failed
    exact .inl rfl
  · split at failed
    · cases failed
      exact .inl rfl
    · rcases Abort.bind_eq_error failed with erased | ⟨_,-,set⟩
      · exact .inr (eraseSecond_error _ erased)
      · cases set

/-- What a `subVins` that returns does: it sets the vins of the address. -/
theorem subVins_ok {amount : Nat} {s' : QtumState} (ok : s.subVins a amount = .ok s') :
    ∃ vins, s' = s.setVins a vins := by
  unfold subVins at ok
  split at ok
  · cases ok
  · split at ok
    · cases ok
    · obtain ⟨vins,-,set⟩ := Abort.bind_ok ok
      exact ⟨vins,(Except.ok.inj set).symm⟩

end QtumState

/-- The genesis state: both tries empty. -/
def genesis : QtumState := ⟨⟨fun _ => none,fun _ => none⟩,⟨fun _ => none,fun _ => none⟩⟩

/-! ## Condensing transactions -/

/-- `CTransaction()`, with the hash it never computes. -/
def defaultTransaction : CTransaction := ⟨Blob.null 32,1,[],[],[],0,0⟩

/-- `CTransaction(CMutableTransaction)` of inputs and outputs: version 1,
times zero, no witness, and the hash `UpdateHash` computes. -/
def CTransaction.ofMutable (crypto : Crypto) (vin : List CTxIn) (vout : List CTxOut) : CTransaction :=
  let tx : CTransaction := ⟨Blob.null 32,1,vin,vout,[],0,0⟩
  match SerializeTransaction tx true with
  | .ok bytes => {tx with hash := crypto.Hash256 bytes}
  | .error _ => tx

@[simp] theorem CTransaction.ofMutable_vin (crypto : Crypto) (vin : List CTxIn) (vout : List CTxOut) :
    (CTransaction.ofMutable crypto vin vout).vin = vin := by
  unfold CTransaction.ofMutable
  dsimp only
  split <;> rfl

@[simp] theorem CTransaction.ofMutable_vout (crypto : Crypto) (vin : List CTxIn) (vout : List CTxOut) :
    (CTransaction.ofMutable crypto vin vout).vout = vout := by
  unfold CTransaction.ofMutable
  dsimp only
  split <;> rfl

inductive TransferType
  | ContractToContract
  | ContractToPubkeyhash
  deriving DecidableEq

/-- `scriptTypes` of `CreateOutputs`: an assignment to a contract, or
pay-to-pubkey-hash. -/
def scriptTypes : TransferType → Address → CScript
  | .ContractToContract, receiver =>
    pushOpcode (pushData (pushData (pushData (pushData (pushData [] [0]) [0]) [0]) [0]) receiver.bytes) OP_EXEC_ASSIGN
  | .ContractToPubkeyhash, receiver =>
    pushOpcode (pushOpcode (pushData (pushOpcode (pushOpcode [] OP_DUP) OP_HASH160) receiver.bytes) OP_EQUALVERIFY)
      OP_CHECKSIG

/-- The loop of `SelectOutputs` from a vin on, with the sum so far: vins
are taken until their sum reaches the value. -/
def selectFrom (value : CAmount) : VinsInfo → CAmount → VinsInfo × CAmount
  | [], sum => ([],sum)
  | vin :: rest, sum =>
    if value ≤ sum + vin.2 then ([vin],sum + vin.2)
    else
      let selected := selectFrom value rest (sum + vin.2)
      (vin :: selected.1,selected.2)

/-- `SelectOutputs`, which starts at the second vin, and the sum it leaves. -/
def SelectOutputs (vins : VinsInfo) (value : CAmount) : VinsInfo × CAmount := selectFrom value (vins.drop 1) 0

def CreateInputs (outs : VinsInfo) : List CTxIn := outs.map fun out => ⟨out.1,pushOpcode [] OP_TXHASH,SEQUENCE_FINAL⟩

def CreateOutputs (sender receiver : Address) (value sum : CAmount) (type : TransferType) : List CTxOut :=
  ⟨value,scriptTypes type receiver⟩ :: if value < sum then [⟨sum - value,scriptTypes .ContractToContract sender⟩] else []

/-- `TxGeneration`: the condensing transaction of a transfer, and the
transfer with the number of vins it spends; `CTransaction()` where nothing is
selected. The receiver is paid as a contract where it is in use and is
neither the transaction's sender nor the block's author. -/
def TxGeneration (crypto : Crypto) (s : QtumState) (txData : TxDataToGenerate) (author sender : Address) :
    CTransaction × TxDataToGenerate :=
  let selected := SelectOutputs (s.getVins txData.sender) (CAmountOf txData.value)
  let vinIn := CreateInputs selected.1
  if vinIn.isEmpty then (defaultTransaction,txData)
  else
    let notSenderAndAuthor := txData.receiver != sender && txData.receiver != author
    let type := if s.addressInUse txData.receiver && notSenderAndAuthor then TransferType.ContractToContract
      else .ContractToPubkeyhash
    (CTransaction.ofMutable crypto vinIn (CreateOutputs txData.sender txData.receiver (CAmountOf txData.value) selected.2 type),
      {txData with delVinSender := vinIn.length})

/-- `vout[n]`, read unchecked. -/
def outputAt (vout : List CTxOut) (n : Nat) : Except Abort CTxOut :=
  match vout[n]? with
  | some txout => .ok txout
  | none => .error .outOfRange

/-- `savedVinToAccount`: the spent vins go, the receiver gains the first
output unless it pays a public key hash, and the sender the change. The
first output is read even where there is none. -/
def savedVinToAccount (s : QtumState) (tx : CTransaction) (txData : TxDataToGenerate) : Except Abort QtumState := do
  let s ← s.subVins txData.sender txData.delVinSender
  let paid ← outputAt tx.vout 0
  let s := if IsPayToPubkeyHash paid.scriptPubKey then s else s.addVin txData.receiver (⟨tx.GetHash,0⟩,paid.nValue)
  return match tx.vout[1]? with
    | some change => s.addVin txData.sender (⟨tx.GetHash,1⟩,change.nValue)
    | none => s

theorem savedVinToAccount_tries {s s' : QtumState} {tx : CTransaction} {txData : TxDataToGenerate}
    (ok : savedVinToAccount s tx txData = .ok s') : QtumState.SameTries s s' := by
  unfold savedVinToAccount at ok
  obtain ⟨spent,sub,ok⟩ := Abort.bind_ok ok
  obtain ⟨vins,rfl⟩ := QtumState.subVins_ok sub
  obtain ⟨paid,-,ok⟩ := Abort.bind_ok ok
  cases ok
  constructor <;> split <;> split <;> simp

theorem savedVinToAccount_ne_error (s : QtumState) (tx : CTransaction) (txData : TxDataToGenerate) :
    savedVinToAccount s tx txData ≠ .error .emptyAccess := by
  unfold savedVinToAccount
  refine Abort.bind_ne_error (fun failed => ?_) fun _ _ => Abort.bind_ne_error ?_ fun _ _ => by simp [pure,Except.pure]
  · rcases QtumState.subVins_error failed with wrong | wrong <;> cases wrong
  · unfold outputAt
    split <;> simp

/-- `createP2PHTx`: the output of the transaction paid back to its sender. -/
def createP2PHTx (crypto : Crypto) (hashWith : uint256) (voutNum value : Nat) (sender : Address) : CTransaction :=
  CTransaction.ofMutable crypto [⟨⟨hashWith,voutNum⟩,pushOpcode [] OP_TXHASH,SEQUENCE_FINAL⟩]
    [⟨CAmountOf value,scriptTypes .ContractToPubkeyhash sender⟩]

/-- `createQtumAddress`: RIPEMD-160 of SHA-256 of the transaction hash and
the output's index. -/
def createQtumAddress (crypto : Crypto) (hashTx : uint256) (voutNumber : Nat) : Address :=
  crypto.Hash160 (hashTx.bytes ++ [UInt8.ofNat voutNumber])

end Qtum.Contract
