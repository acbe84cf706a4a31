import Qtum.Contract.State

/-! The executive of `libethereum/Executive.cpp`, the calls of
`QuantumExtVM`, and `QtumState::execute`. What the virtual machine does in a
frame is a `Code`: the instructions of the frame that reach the state, in
order, each call or creation with the run of the code it starts. Every run of
the interpreter is one, since the state and the transaction fix it; the gas a
run leaves is the run's. A `QuantumExtVM` is built before its frame's
transfer and keeps the account cache of that moment: `revert` brings it back
and drops the last `txData` entry, and leaves the vin cache as it is. -/
namespace Qtum.Contract

open Script

/-- `CALL`, `CALLCODE` and `DELEGATECALL`. -/
inductive CallKind
  | CALL
  | CALLCODE
  | DELEGATECALL
  deriving DecidableEq

/-- What the code of one frame does. Empty init code runs as `stop []`, and
the run of a precompiled contract is `throw` where the gas does not cover its
cost. -/
inductive Code where
  /-- `STOP` or `RETURN`, with the output. -/
  | stop (output : valtype)
  /-- A `VMException`: a bad instruction, a stack fault, or out of gas. -/
  | throw
  | sstore (key value : Nat) (rest : Code)
  /-- A call of the code at `codeAddress`; `callee` is what that code does. -/
  | call (kind : CallKind) (codeAddress : Address) (value : Nat) (callee rest : Code)
  /-- `CREATE`; `init` is what the init code does. -/
  | create (endowment : Nat) (init rest : Code)
  /-- `SUICIDE`, which ends the frame. -/
  | suicide (beneficiary : Address)

def Code.isThrow : Code → Bool
  | .throw => true
  | _ => false

/-- The precompiled contracts of `ChainParams`, `ecrecover`, `sha256`,
`ripemd160` and `identity`, at the addresses 1 to 4. -/
def isPrecompiled (a : Address) : Bool := [1,2,3,4].any fun n => a.bytes == List.replicate 19 0 ++ [n]

/-- `u256` subtraction. -/
def u256Sub (a b : Nat) : Nat := (a + 2 ^ 256 - b) % 2 ^ 256

/-- `rlp` of a `u256`: its big-endian bytes without leading zeros, behind
their length over `0x80` unless they are one byte below `0x80`. -/
def rlpNumber (value : Nat) : List UInt8 :=
  let bytes := (LittleEndian.encode 32 value).reverse.dropWhile (· == 0)
  match bytes with
  | [byte] => if byte.toNat < 0x80 then [byte] else [0x81,byte]
  | _ => UInt8.ofNat (0x80 + bytes.length) :: bytes

/-- `right160(sha3(rlpList(sender, nonce)))`, the address `CREATE` gives. -/
def contractAddress (sha3 : valtype → uint256) (sender : Address) (nonce : Nat) : Address :=
  let payload := (0x94 : UInt8) :: sender.bytes ++ rlpNumber nonce
  Address.ofBytes ((sha3 (UInt8.ofNat (0xc0 + payload.length) :: payload)).bytes.drop 12)

/-- The `QuantumExtVM` a code runs on: `myAddress`, `caller` and `depth`. -/
structure Frame where
  myAddress : Address
  caller : Address
  depth : Nat

/-- What a run changes: the state, and the seal engine's `txData`,
`delAddresses` and `qtumAddress`. -/
structure Machine where
  state : QtumState
  txData : List TxDataToGenerate
  delAddresses : List Address
  qtumAddress : Address

/-- How a frame's code ends: normally, with its output and the suicides of
its substate, or by a `VMException`, whose substate is cleared. -/
inductive Ending
  | returned (output : valtype) (suicides : List Address)
  | excepted

def Ending.suicides : Ending → List Address
  | .returned _ suicides => suicides
  | .excepted => []

structure CallParameters where
  senderAddress : Address
  codeAddress : Address
  receiveAddress : Address
  valueTransfer : Nat

/-- `caseCallSetup`: the parameters of the call, or none where the frame
cannot pay the value or is 1024 deep, and the instruction pushes 0. -/
def caseCallSetup (s : QtumState) (frame : Frame) (kind : CallKind) (codeAddress : Address) (value : Nat) :
    Option CallParameters :=
  let valueTransfer := if kind = .DELEGATECALL then 0 else value
  if valueTransfer ≤ s.balance frame.myAddress ∧ frame.depth < 1024 then
    some ⟨if kind = .DELEGATECALL then frame.caller else frame.myAddress,codeAddress,
      if kind = .CALL then codeAddress else frame.myAddress,valueTransfer⟩
  else none

/-- How `Executive::call` leaves the frame it starts. -/
inductive Started
  /-- `OutOfGasBase` at a precompiled contract, before any transfer. -/
  | outOfGasBase
  /-- No code to run. -/
  | finished
  /-- The code runs, on an extension that holds the account cache of its construction. -/
  | running (origCache : Address → Option Account)

/-- `Executive::call`: a receiver not in use is marked for deletion, the
value moves, and the transfer is recorded. -/
def Executive.call (p : CallParameters) (callee : Code) (m : Machine) : Except Abort (Started × Machine) :=
  if isPrecompiled p.codeAddress && callee.isThrow then .ok (.outOfGasBase,m)
  else do
    let started := if !isPrecompiled p.codeAddress && m.state.addressHasCode p.codeAddress
      then Started.running m.state.accounts.cache else .finished
    let delAddresses := if m.state.addressInUse p.receiveAddress then m.delAddresses
      else m.delAddresses ++ [p.receiveAddress]
    let state ← m.state.transferBalance p.senderAddress p.receiveAddress p.valueTransfer
    let txData := m.txData ++ [⟨p.senderAddress,p.receiveAddress,p.valueTransfer,0⟩]
    return (started,{m with state := state,delAddresses := delAddresses,txData := txData})

/-- The address `Executive::create` takes: the `qtumAddress` set for the
transaction, which is then reset, or else the one `CREATE` gives, whose
placeholder vin is recorded. -/
def Executive.creationAddress (sha3 : valtype → uint256) (sender : Address) (m : Machine) : Address × Machine :=
  if m.qtumAddress = Blob.null 20 then
    let newAddress := contractAddress sha3 sender (u256Sub (m.state.transactionsFrom sender) 1)
    (newAddress,{m with state := m.state.addVin newAddress (⟨Blob.null 32,0⟩,0)})
  else (m.qtumAddress,{m with qtumAddress := Blob.null 20})

/-- `Executive::create` up to the run of the init code: a fresh account
replaces what was at the address, the endowment moves and the transfer is
recorded. The extension holds the cache from before the account. -/
def Executive.create (sha3 : valtype → uint256) (sender : Address) (endowment : Nat) (m : Machine) :
    Except Abort (Address × (Address → Option Account) × Machine) := do
  let (newAddress,m) := Executive.creationAddress sha3 sender m
  let origCache := m.state.accounts.cache
  let state := m.state.setAccount newAddress (Account.create accountStartNonce (m.state.balance newAddress) true)
  let state ← state.transferBalance sender newAddress endowment
  return (newAddress,origCache,{m with state := state,txData := m.txData ++ [⟨sender,newAddress,endowment,0⟩]})

/-- `QuantumExtVM::revert`: the account cache of the extension's
construction comes back and the last `txData` entry goes. -/
def revert (origCache : Address → Option Account) (m : Machine) : Except Abort Machine :=
  if m.txData.isEmpty then .error .emptyAccess
  else .ok {m with state := {m.state with accounts := m.state.accounts.restore origCache},txData := m.txData.dropLast}

/-- The end of `go` for a call: a `VMException` is reverted. -/
def endCall (origCache : Address → Option Account) : Ending → Machine → Except Abort (Ending × Machine)
  | .excepted, m => do return (.excepted,← revert origCache m)
  | ending, m => .ok (ending,m)

/-- The end of `go` for a creation: the output becomes the contract's code,
which `setCode` asserts is still to be set; a `VMException` is reverted. -/
def endCreation (newAddress : Address) (origCache : Address → Option Account) :
    Ending → Machine → Except Abort (Ending × Machine)
  | .returned output suicides, m =>
    let account := m.state.cached newAddress
    if account.fresh then
      .ok (.returned output suicides,{m with state := m.state.setAccount newAddress {account with code := output}})
    else .error .assertion
  | .excepted, m => endCall origCache .excepted m

/-- `QuantumExtVM::suicide`: the transfer of the whole balance is recorded,
the beneficiary paid, and the balance read once more taken from the frame. -/
def suicide (frame : Frame) (beneficiary : Address) (m : Machine) : Except Abort Machine := do
  let txData := m.txData ++ [⟨frame.myAddress,beneficiary,m.state.balance frame.myAddress,0⟩]
  let delAddresses := if m.state.addressInUse beneficiary then m.delAddresses else m.delAddresses ++ [beneficiary]
  let state := m.state.addBalance beneficiary (m.state.balance frame.myAddress)
  let state ← state.subBalance frame.myAddress (state.balance frame.myAddress)
  return {m with state := state,txData := txData,delAddresses := delAddresses}

/-! ## What a run keeps

Each operation of a frame writes the caches only, adds to `txData` or drops
no more than its own entry, and records no vin but placeholders of no
amount. `RunFrame` collects these, and each operation gets one lemma. -/

/-- What a run keeps: both tries, the `txData` it started with, and every
address's `vinSum`. -/
structure RunFrame (m m' : Machine) : Prop where
  tries : QtumState.SameTries m.state m'.state
  txData_grows : m.txData <+: m'.txData
  vinSum_eq : ∀ a, vinSum (m'.state.getVins a) = vinSum (m.state.getVins a)

namespace RunFrame

variable {m m' m₀ m₁ m₂ m₃ : Machine}

theorem refl (m : Machine) : RunFrame m m := ⟨.refl _,List.prefix_refl _,fun _ => rfl⟩

theorem trans (first : RunFrame m₁ m₂) (second : RunFrame m₂ m₃) : RunFrame m₁ m₃ :=
  ⟨first.tries.trans second.tries,first.txData_grows.trans second.txData_grows,
    fun a => (second.vinSum_eq a).trans (first.vinSum_eq a)⟩

/-- A step on cached accounts only that adds to `txData`. -/
theorem of_accounts (store : m'.state.accounts.store = m.state.accounts.store) (vins : m'.state.vins = m.state.vins)
    (extended : m.txData <+: m'.txData) : RunFrame m m' :=
  ⟨⟨store,by rw [vins]⟩,extended,fun a => by simp [QtumState.getVins,vins]⟩

/-- A frame's end, reverted or not, keeps from before the frame's push what
its run kept: a revert drops no more than the push. -/
theorem dropLast {e : TxDataToGenerate} (start : RunFrame m₀ m₁) (pushed : m₁.txData = m₀.txData ++ [e])
    (inner : RunFrame m₁ m₂) (store : m₃.state.accounts.store = m₂.state.accounts.store)
    (vins : m₃.state.vins = m₂.state.vins) (dropped : m₃.txData = m₂.txData.dropLast) : RunFrame m₀ m₃ := by
  have kept := start.trans inner
  obtain ⟨later,extended⟩ := pushed ▸ inner.txData_grows
  refine ⟨⟨store.trans kept.tries.accounts,by rw [vins]; exact kept.tries.vins⟩,?_,
    fun a => by simpa [QtumState.getVins,vins] using kept.vinSum_eq a⟩
  rw [dropped,← extended,List.append_assoc,List.dropLast_append_of_ne_nil (by simp)]
  exact List.prefix_append _ _

end RunFrame

theorem setStorage_frame (m : Machine) (a : Address) (key value : Nat) :
    RunFrame m {m with state := m.state.setStorage a key value} :=
  .of_accounts (by simp) (by simp) (List.prefix_refl _)

theorem noteSending_frame (m : Machine) (a : Address) : RunFrame m {m with state := m.state.noteSending a} :=
  .of_accounts (by simp) (by simp) (List.prefix_refl _)

/-- What an `Executive::call` that returns does: it stops at a precompiled
contract short of gas, or makes the transfer and records it. -/
theorem Executive.call_ok {p : CallParameters} {callee : Code} {m m' : Machine} {started : Started}
    (ok : Executive.call p callee m = .ok (started,m')) :
    (started = .outOfGasBase ∧ m' = m) ∨
      ∃ state, m.state.transferBalance p.senderAddress p.receiveAddress p.valueTransfer = .ok state ∧
        m'.state = state ∧ m'.txData = m.txData ++ [⟨p.senderAddress,p.receiveAddress,p.valueTransfer,0⟩] ∧
        (started = .finished ∨ started = .running m.state.accounts.cache) := by
  unfold Executive.call at ok
  split at ok
  · cases ok
    exact .inl ⟨rfl,rfl⟩
  · obtain ⟨state,transferred,returned⟩ := Abort.bind_ok ok
    cases returned
    refine .inr ⟨state,transferred,rfl,rfl,?_⟩
    split <;> simp

theorem Executive.call_frame {p : CallParameters} {callee : Code} {m m' : Machine} {started : Started}
    (ok : Executive.call p callee m = .ok (started,m')) : RunFrame m m' := by
  rcases Executive.call_ok ok with ⟨-,rfl⟩ | ⟨state,transferred,rfl,pushed,-⟩
  · exact .refl _
  · obtain ⟨store,vins⟩ := QtumState.transferBalance_frame transferred
    exact .of_accounts store vins (pushed ▸ List.prefix_append _ _)

theorem creationAddress_frame (sha3 : valtype → uint256) (sender : Address) (m : Machine) :
    RunFrame m (Executive.creationAddress sha3 sender m).2 ∧ (Executive.creationAddress sha3 sender m).2.txData = m.txData := by
  unfold Executive.creationAddress
  split
  · exact ⟨⟨⟨by simp [QtumState.addVin],by simp [QtumState.addVin]⟩,List.prefix_refl _,
      QtumState.vinSum_addVin_zero _⟩,rfl⟩
  · exact ⟨.of_accounts rfl rfl (List.prefix_refl _),rfl⟩

/-- An `Executive::create` that returns keeps what a run keeps and pushes one transfer. -/
theorem Executive.create_ok {sha3 : valtype → uint256} {sender : Address} {endowment : Nat} {m m' : Machine}
    {newAddress : Address} {origCache : Address → Option Account}
    (ok : Executive.create sha3 sender endowment m = .ok (newAddress,origCache,m')) :
    RunFrame m m' ∧ ∃ e, m'.txData = m.txData ++ [e] := by
  unfold Executive.create at ok
  obtain ⟨chosen,kept⟩ := creationAddress_frame sha3 sender m
  generalize Executive.creationAddress sha3 sender m = choice at chosen kept ok
  obtain ⟨address,m₁⟩ := choice
  dsimp only at chosen kept ok
  obtain ⟨state,transferred,returned⟩ := Abort.bind_ok ok
  cases returned
  obtain ⟨store,vins⟩ := QtumState.transferBalance_frame transferred
  refine ⟨chosen.trans (.of_accounts (by simpa using store) (by simpa using vins) (List.prefix_append _ _)),
    ⟨sender,newAddress,endowment,0⟩,?_⟩
  rw [kept]

theorem revert_ok {origCache : Address → Option Account} {m m' : Machine} (ok : revert origCache m = .ok m') :
    m'.state.accounts.store = m.state.accounts.store ∧ m'.state.vins = m.state.vins ∧
      m'.txData = m.txData.dropLast := by
  unfold revert at ok
  split at ok
  · cases ok
  · cases ok
    exact ⟨rfl,rfl,rfl⟩

theorem Executive.call_ne_error (p : CallParameters) (callee : Code) (m : Machine) :
    Executive.call p callee m ≠ .error .emptyAccess := by
  unfold Executive.call
  split
  · simp
  · refine Abort.bind_ne_error (fun failed => ?_) fun _ _ => by simp [pure,Except.pure]
    cases QtumState.transferBalance_error failed

theorem Executive.create_ne_error (sha3 : valtype → uint256) (sender : Address) (endowment : Nat) (m : Machine) :
    Executive.create sha3 sender endowment m ≠ .error .emptyAccess := by
  unfold Executive.create
  refine Abort.bind_ne_error (fun failed => ?_) fun _ _ => by simp [pure,Except.pure]
  cases QtumState.transferBalance_error failed

theorem suicide_ne_error (frame : Frame) (beneficiary : Address) (m : Machine) :
    suicide frame beneficiary m ≠ .error .emptyAccess := by
  unfold suicide
  refine Abort.bind_ne_error (fun failed => ?_) fun _ _ => by simp [pure,Except.pure]
  unfold QtumState.subBalance at failed
  split at failed
  · split at failed <;> cases failed
  · cases failed

/-- A revert pops an entry where there is one. -/
theorem revert_ne_error {origCache : Address → Option Account} {m : Machine} (nonempty : m.txData ≠ []) :
    revert origCache m ≠ .error .emptyAccess := by
  unfold revert
  simp [nonempty]

/-- A call's frame, from its start to its end. -/
theorem endCall_frame {origCache : Address → Option Account} {ending ending' : Ending} {m₀ m₁ m₂ m₃ : Machine}
    {e : TxDataToGenerate} (start : RunFrame m₀ m₁) (pushed : m₁.txData = m₀.txData ++ [e]) (inner : RunFrame m₁ m₂)
    (ended : endCall origCache ending m₂ = .ok (ending',m₃)) : RunFrame m₀ m₃ := by
  cases ending with
  | returned output suicides =>
    cases ended
    exact start.trans inner
  | excepted =>
    obtain ⟨reverted,returned,ended⟩ := Abort.bind_ok ended
    cases ended
    obtain ⟨store,vins,dropped⟩ := revert_ok returned
    exact .dropLast start pushed inner store vins dropped

/-- A creation's frame, from its start to its end. -/
theorem endCreation_frame {newAddress : Address} {origCache : Address → Option Account} {ending ending' : Ending}
    {m₀ m₁ m₂ m₃ : Machine} {e : TxDataToGenerate} (start : RunFrame m₀ m₁) (pushed : m₁.txData = m₀.txData ++ [e])
    (inner : RunFrame m₁ m₂) (ended : endCreation newAddress origCache ending m₂ = .ok (ending',m₃)) :
    RunFrame m₀ m₃ := by
  cases ending with
  | returned output suicides =>
    by_cases fresh : (m₂.state.cached newAddress).fresh
    · simp only [endCreation,fresh,if_true] at ended
      cases ended
      exact (start.trans inner).trans (.of_accounts (by simp) (by simp) (List.prefix_refl _))
    · simp [endCreation,fresh] at ended
  | excepted =>
    simp only [endCreation] at ended
    exact endCall_frame start pushed inner ended

theorem endCall_ne_error {origCache : Address → Option Account} {ending : Ending} {m : Machine}
    (nonempty : m.txData ≠ []) : endCall origCache ending m ≠ .error .emptyAccess := by
  cases ending with
  | returned output suicides => simp [endCall]
  | excepted =>
    refine Abort.bind_ne_error (revert_ne_error nonempty) fun _ _ => ?_
    simp [pure,Except.pure]

theorem endCreation_ne_error {newAddress : Address} {origCache : Address → Option Account} {ending : Ending}
    {m : Machine} (nonempty : m.txData ≠ []) : endCreation newAddress origCache ending m ≠ .error .emptyAccess := by
  cases ending with
  | returned output suicides =>
    by_cases fresh : (m.state.cached newAddress).fresh <;> simp [endCreation,fresh]
  | excepted =>
    simp only [endCreation]
    exact endCall_ne_error nonempty

theorem suicide_frame {frame : Frame} {beneficiary : Address} {m m' : Machine}
    (ok : suicide frame beneficiary m = .ok m') : RunFrame m m' := by
  unfold suicide at ok
  obtain ⟨state,paid,returned⟩ := Abort.bind_ok ok
  cases returned
  obtain ⟨account,-,-,rfl⟩ := QtumState.subBalance_ok paid
  exact .of_accounts (by simp) (by simp) (List.prefix_append _ _)

/-- The run of a frame's code, with the suicides of its substate so far. A
call's frame runs where the callee has code, a creation's always; the
substate of each joins the caller's. -/
def run (sha3 : valtype → uint256) (frame : Frame) : Code → List Address → Machine → Except Abort (Ending × Machine)
  | .stop output, suicides, m => .ok (.returned output suicides,m)
  | .throw, _, m => .ok (.excepted,m)
  | .sstore key value rest, suicides, m =>
    run sha3 frame rest suicides {m with state := m.state.setStorage frame.myAddress key value}
  | .call kind codeAddress value callee rest, suicides, m =>
    match caseCallSetup m.state frame kind codeAddress value with
    | none => run sha3 frame rest suicides m
    | some p => do
      let (started,m) ← Executive.call p callee m
      let (ending,m) ← match started with
        | .running origCache => do
          let (ending,m) ← run sha3 ⟨p.receiveAddress,p.senderAddress,frame.depth + 1⟩ callee [] m
          endCall origCache ending m
        | _ => pure (Ending.returned [] [],m)
      run sha3 frame rest (suicides ++ ending.suicides) m
  | .create endowment init rest, suicides, m =>
    if endowment ≤ m.state.balance frame.myAddress ∧ frame.depth < 1024 then do
      -- `QuantumExtVM::create` notes the sending before the executive starts
      let (newAddress,origCache,m) ← Executive.create sha3 frame.myAddress endowment
        {m with state := m.state.noteSending frame.myAddress}
      let (ending,m) ← run sha3 ⟨newAddress,frame.myAddress,frame.depth + 1⟩ init [] m
      let (ending,m) ← endCreation newAddress origCache ending m
      run sha3 frame rest (suicides ++ ending.suicides) m
    else run sha3 frame rest suicides m
  | .suicide beneficiary, suicides, m => do
    return (.returned [] (suicides ++ [frame.myAddress]),← suicide frame beneficiary m)

/-- What a run keeps, by induction on the code: each instruction is one of
the steps above, and the run of a nested frame is kept by the hypothesis on
its code. -/
theorem run_frame (sha3 : valtype → uint256) (code : Code) :
    ∀ {frame : Frame} {suicides : List Address} {m m' : Machine} {ending : Ending},
      run sha3 frame code suicides m = .ok (ending,m') → RunFrame m m' := by
  induction code with
  | stop output =>
    intro frame suicides m m' ending ran
    cases ran
    exact .refl _
  | throw =>
    intro frame suicides m m' ending ran
    cases ran
    exact .refl _
  | sstore key value rest ih =>
    intro frame suicides m m' ending ran
    exact (setStorage_frame m _ key value).trans (ih ran)
  | call kind codeAddress value callee rest ihCallee ihRest =>
    intro frame suicides m m' ending ran
    simp only [run] at ran
    split at ran
    · exact ihRest ran
    · obtain ⟨⟨started,m₁⟩,called,ran⟩ := Abort.bind_ok ran
      have start := Executive.call_frame called
      dsimp only at ran
      split at ran
      · -- the callee's code ran on the extension
        rcases Executive.call_ok called with ⟨⟨⟩,-⟩ | ⟨state,-,-,pushed,-⟩
        obtain ⟨⟨e₁,m₂⟩,inner,ran⟩ := Abort.bind_ok ran
        obtain ⟨⟨e₂,m₃⟩,ended,ran⟩ := Abort.bind_ok ran
        exact (endCall_frame start pushed (ihCallee inner) ended).trans (ihRest ran)
      · obtain ⟨_,⟨⟩,ran⟩ := Abort.bind_ok ran
        exact start.trans (ihRest ran)
  | create endowment init rest ihInit ihRest =>
    intro frame suicides m m' ending ran
    simp only [run] at ran
    split at ran
    · obtain ⟨⟨newAddress,origCache,m₁⟩,created,ran⟩ := Abort.bind_ok ran
      obtain ⟨⟨e₁,m₂⟩,inner,ran⟩ := Abort.bind_ok ran
      obtain ⟨⟨e₂,m₃⟩,ended,ran⟩ := Abort.bind_ok ran
      obtain ⟨start,e,pushed⟩ := Executive.create_ok created
      exact ((noteSending_frame m frame.myAddress).trans (endCreation_frame start pushed (ihInit inner) ended)).trans
        (ihRest ran)
    · exact ihRest ran
  | suicide beneficiary =>
    intro frame suicides m m' ending ran
    obtain ⟨m₁,died,returned⟩ := Abort.bind_ok ran
    cases returned
    exact suicide_frame died

/-- A run never pops an empty `txData`: a frame reverts only after its own
push, which the run of its code keeps. -/
theorem run_ne_error (sha3 : valtype → uint256) (code : Code) :
    ∀ {frame : Frame} {suicides : List Address} {m : Machine}, run sha3 frame code suicides m ≠ .error .emptyAccess := by
  induction code with
  | stop output => simp [run]
  | throw => simp [run]
  | sstore key value rest ih => exact ih
  | call kind codeAddress value callee rest ihCallee ihRest =>
    intro frame suicides m
    simp only [run]
    split
    · exact ihRest
    · refine Abort.bind_ne_error (Executive.call_ne_error _ _ _) fun ⟨started,m₁⟩ called => ?_
      dsimp only
      split
      · rcases Executive.call_ok called with ⟨⟨⟩,-⟩ | ⟨state,-,-,pushed,-⟩
        refine Abort.bind_ne_error ihCallee fun ⟨e₁,m₂⟩ inner => ?_
        refine Abort.bind_ne_error (endCall_ne_error ?_) fun _ _ => ihRest
        exact (run_frame sha3 callee inner).txData_grows.ne_nil (by simp [pushed])
      · exact Abort.bind_ne_error (by simp [pure,Except.pure]) fun _ _ => ihRest
  | create endowment init rest ihInit ihRest =>
    intro frame suicides m
    simp only [run]
    split
    · refine Abort.bind_ne_error (Executive.create_ne_error _ _ _ _) fun ⟨newAddress,origCache,m₁⟩ created => ?_
      obtain ⟨-,e,pushed⟩ := Executive.create_ok created
      refine Abort.bind_ne_error ihInit fun ⟨e₁,m₂⟩ inner => ?_
      refine Abort.bind_ne_error (endCreation_ne_error ?_) fun _ _ => ihRest
      exact (run_frame sha3 init inner).txData_grows.ne_nil (by simp [pushed])
    · exact ihRest
  | suicide beneficiary =>
    intro frame suicides m
    exact Abort.bind_ne_error (suicide_ne_error _ _ _) fun _ _ => by simp [pure,Except.pure]

/-- `QtumTransaction::isCreation`. -/
def QtumTransaction.isCreation (t : QtumTransaction) : Bool := t.receiveAddress.isNone

/-- `to()`, `receiveAddress()`: zero for a creation. -/
def QtumTransaction.«to» (t : QtumTransaction) : Address := t.receiveAddress.getD (Blob.null 20)

/-- `Transaction::gasRequired` under the Homestead schedule. -/
def gasRequired (isCreation : Bool) (data : valtype) : Nat :=
  (if isCreation then 53000 else 21000) + (data.map fun byte => if byte = 0 then 4 else 68).sum

/-- What the virtual machine does on a transaction: the run of the top
frame's code and the gas it leaves, refunds included. -/
structure VmRun where
  code : Code
  gasLeft : Nat

/-- The virtual machine, from the state and the transaction it runs on. -/
abbrev VM := QtumState → EnvInfo → QtumTransaction → VmRun

/-- `Executive::initialize`, which throws where the block's gas limit, the
base gas, the nonce, zero for these transactions, or the sender's balance
does not allow the transaction; the gas the block has used is zero. -/
def Executive.initialize (env : EnvInfo) (s : QtumState) (t : QtumTransaction) : Except Abort Unit :=
  if env.gasLimit < t.gas then .error .exception
  else if t.gas < gasRequired t.isCreation t.data then .error .exception
  else if s.transactionsFrom t.sender ≠ 0 then .error .exception
  else if s.balance t.sender < t.value + t.gas * t.gasPrice then .error .exception
  else .ok ()

inductive TransactionException
  | None
  | Unknown
  | OutOfGasBase
  /-- What `toTransactionException` makes of a `VMException`. -/
  | VMException
  deriving DecidableEq

/-- What the executive holds once `go` is done: `m_excepted`,
`m_newAddress`, the output, the suicides of its substate, and `m_gas` after
the refund. -/
structure Outcome where
  excepted : TransactionException
  newAddress : Address
  output : valtype
  suicides : List Address
  gas : Nat

/-- A top frame's ending; a `VMException` zeroes the gas and the address. -/
def Outcome.ofEnding (newAddress : Address) (gas : Nat) : Ending → Outcome
  | .returned output suicides => ⟨.None,newAddress,output,suicides,gas⟩
  | .excepted => ⟨.VMException,Blob.null 20,[],[],0⟩

/-- `Executive::execute` and `go`: the nonce and the gas are paid, then the
transaction creates at the `qtumAddress` set for it or calls its receiver. -/
def Executive.execute (sha3 : valtype → uint256) (t : QtumTransaction) (vmRun : VmRun) (m : Machine) :
    Except Abort (Outcome × Machine) := do
  let state ← (m.state.noteSending t.sender).subBalance t.sender (t.gas * t.gasPrice)
  let m := {m with state := state}
  match t.receiveAddress with
  | none => do
    let (newAddress,origCache,m) ← Executive.create sha3 t.sender t.value m
    let (ending,m) ← run sha3 ⟨newAddress,t.sender,0⟩ vmRun.code [] m
    let (ending,m) ← endCreation newAddress origCache ending m
    return (Outcome.ofEnding newAddress vmRun.gasLeft ending,m)
  | some receiveAddress => do
    let (started,m) ← Executive.call ⟨t.sender,receiveAddress,receiveAddress,t.value⟩ vmRun.code m
    match started with
    | .outOfGasBase => return (⟨.OutOfGasBase,Blob.null 20,[],[],0⟩,m)
    | .finished =>
      let gas := if isPrecompiled receiveAddress then vmRun.gasLeft else t.gas - gasRequired false t.data
      return (⟨.None,Blob.null 20,[],[],gas⟩,m)
    | .running origCache => do
      let (ending,m) ← run sha3 ⟨receiveAddress,t.sender,0⟩ vmRun.code [] m
      let (ending,m) ← endCall origCache ending m
      return (Outcome.ofEnding (Blob.null 20) vmRun.gasLeft ending,m)

/-- The executive keeps what a run keeps. -/
theorem Executive.execute_frame {sha3 : valtype → uint256} {t : QtumTransaction} {vmRun : VmRun} {m m' : Machine}
    {outcome : Outcome} (ok : Executive.execute sha3 t vmRun m = .ok (outcome,m')) : RunFrame m m' := by
  unfold Executive.execute at ok
  obtain ⟨state,paid,ok⟩ := Abort.bind_ok ok
  obtain ⟨account,-,-,paidState⟩ := QtumState.subBalance_ok paid
  have paying : RunFrame m {m with state := state} :=
    .of_accounts (by rw [paidState]; simp) (by rw [paidState]; simp) (List.prefix_refl _)
  refine paying.trans ?_
  dsimp only at ok
  split at ok
  · -- a creation, at the `qtumAddress` set for it
    obtain ⟨⟨newAddress,origCache,m₁⟩,created,ok⟩ := Abort.bind_ok ok
    obtain ⟨⟨e₁,m₂⟩,inner,ok⟩ := Abort.bind_ok ok
    obtain ⟨⟨e₂,m₃⟩,ended,ok⟩ := Abort.bind_ok ok
    cases ok
    obtain ⟨start,e,pushed⟩ := Executive.create_ok created
    exact endCreation_frame start pushed (run_frame sha3 _ inner) ended
  · obtain ⟨⟨started,m₁⟩,called,ok⟩ := Abort.bind_ok ok
    have start := Executive.call_frame called
    dsimp only at ok
    split at ok
    · cases ok
      exact start
    · cases ok
      exact start
    · rcases Executive.call_ok called with ⟨⟨⟩,-⟩ | ⟨state,-,-,pushed,-⟩
      obtain ⟨⟨e₁,m₂⟩,inner,ok⟩ := Abort.bind_ok ok
      obtain ⟨⟨e₂,m₃⟩,ended,ok⟩ := Abort.bind_ok ok
      cases ok
      exact endCall_frame start pushed (run_frame sha3 _ inner) ended

theorem Executive.execute_ne_error (sha3 : valtype → uint256) (t : QtumTransaction) (vmRun : VmRun) (m : Machine) :
    Executive.execute sha3 t vmRun m ≠ .error .emptyAccess := by
  unfold Executive.execute
  refine Abort.bind_ne_error (fun failed => ?_) fun state _ => ?_
  · unfold QtumState.subBalance at failed
    split at failed
    · split at failed <;> cases failed
    · cases failed
  · dsimp only
    split
    · refine Abort.bind_ne_error (Executive.create_ne_error _ _ _ _) fun ⟨newAddress,origCache,m₁⟩ created => ?_
      obtain ⟨-,e,pushed⟩ := Executive.create_ok created
      refine Abort.bind_ne_error (run_ne_error sha3 _) fun ⟨e₁,m₂⟩ inner => ?_
      refine Abort.bind_ne_error (endCreation_ne_error ?_) fun _ _ => by simp [pure,Except.pure]
      exact (run_frame sha3 _ inner).txData_grows.ne_nil (by simp [pushed])
    · refine Abort.bind_ne_error (Executive.call_ne_error _ _ _) fun ⟨started,m₁⟩ called => ?_
      dsimp only
      split
      · simp [pure,Except.pure]
      · simp [pure,Except.pure]
      · rcases Executive.call_ok called with ⟨⟨⟩,-⟩ | ⟨state,-,-,pushed,-⟩
        refine Abort.bind_ne_error (run_ne_error sha3 _) fun ⟨e₁,m₂⟩ inner => ?_
        refine Abort.bind_ne_error (endCall_ne_error ?_) fun _ _ => by simp [pure,Except.pure]
        exact (run_frame sha3 _ inner).txData_grows.ne_nil (by simp [pushed])

/-- `Executive::finalize`: the sender is paid for the gas left and the author
for the gas used, and the suicided accounts are killed. -/
def Executive.finalize (env : EnvInfo) (t : QtumTransaction) (outcome : Outcome) (m : Machine) : Machine :=
  let state := (m.state.addBalance t.sender (outcome.gas * t.gasPrice % 2 ^ 256)).addBalance env.author
    (u256Sub t.gas outcome.gas * t.gasPrice % 2 ^ 256)
  {m with state := outcome.suicides.foldl (fun state a => state.setAccount a Account.dead) state}

theorem finalize_tries (env : EnvInfo) (t : QtumTransaction) (outcome : Outcome) (m : Machine) :
    QtumState.SameTries m.state (Executive.finalize env t outcome m).state := by
  unfold Executive.finalize
  dsimp only
  have killed : ∀ s a, QtumState.SameTries s (s.setAccount a Account.dead) := fun _ _ => ⟨rfl,rfl⟩
  exact QtumState.SameTries.trans ⟨by simp,by simp⟩ (QtumState.SameTries.foldl killed outcome.suicides _)

inductive Permanence
  | Reverted
  | Committed
  deriving DecidableEq

/-- `ExecutionResult`, with the fields its readers use. -/
structure ExecutionResult where
  gasUsed : Nat
  excepted : TransactionException
  newAddress : Address
  output : valtype
  gasRefunded : Nat

/-- `ExecutionResult()`. -/
def ExecutionResult.default : ExecutionResult := ⟨0,.Unknown,Blob.null 20,[],0⟩

/-- `ResultExecute`: the result, the gas used of the receipt, and the
condensing transactions. -/
structure ResultExecute where
  execRes : ExecutionResult
  gasUsed : Nat
  txs : List CTransaction

namespace QtumState

/-- `processingVersionNullAndOne`: a version-0 transaction only credits its
receiver with the output and the value, and is committed or cleared at once;
a version-1 one with value records the output as a vin of its receiver. -/
def processingVersionNullAndOne (s : QtumState) (t : QtumTransaction) (p : Permanence) : Bool × QtumState :=
  let vin : vinInfo := (⟨t.hashWith,t.voutNumber⟩,CAmountOf t.value)
  if t.version = 0 then
    let s := (s.addVin t.«to» vin).addBalance t.«to» t.value
    (true,match p with
      | .Committed => s.commit
      | .Reverted => s.clear)
  else if t.version = 1 ∧ 0 < t.value then (false,s.addVin t.«to» vin)
  else (false,s)

/-- Without permanence the processing writes the caches only. -/
theorem processingVersionNullAndOne_tries (s : QtumState) (t : QtumTransaction) :
    SameTries s (s.processingVersionNullAndOne t .Reverted).2 := by
  unfold processingVersionNullAndOne
  split
  · exact ⟨by simp,by simp⟩
  · split
    · exact ⟨rfl,rfl⟩
    · exact .refl s

/-- `exceptionHandling`: the cached accounts of the sender and the author
and the cached vins of the receiver go, and the value, if any, is paid back
to the sender from the transaction's output. -/
def exceptionHandling (crypto : Crypto) (s : QtumState) (env : EnvInfo) (t : QtumTransaction) :
    ResultExecute × QtumState :=
  (⟨{ExecutionResult.default with gasRefunded := 0},t.gas,
      if t.value ≠ 0 then [createP2PHTx crypto t.hashWith t.voutNumber t.value t.sender] else []⟩,
    ⟨(s.accounts.erase t.sender).erase env.author,s.vins.erase t.«to»⟩)

theorem exceptionHandling_tries (crypto : Crypto) (s : QtumState) (env : EnvInfo) (t : QtumTransaction) :
    SameTries s (s.exceptionHandling crypto env t).2 := ⟨rfl,rfl⟩

/-- The loop of `execute` over `txData`: a transfer of a positive value
becomes a condensing transaction and the vins follow it, except the first
of a version-1 transaction with value, whose output is already a vin. -/
def generateTransactions (crypto : Crypto) (env : EnvInfo) (t : QtumTransaction) :
    Nat → List TxDataToGenerate → QtumState → Except Abort (List CTransaction × QtumState)
  | _, [], s => .ok ([],s)
  | i, txData :: rest, s =>
    if 0 < txData.value ∧ ¬(t.version = 1 ∧ 0 < t.value ∧ i = 0) then do
      let generated := TxGeneration crypto s txData env.author t.sender
      let s ← savedVinToAccount s generated.1 generated.2
      let (txs,s) ← generateTransactions crypto env t (i + 1) rest s
      return (generated.1 :: txs,s)
    else generateTransactions crypto env t (i + 1) rest s

theorem generateTransactions_tries {crypto : Crypto} {env : EnvInfo} {t : QtumTransaction} :
    ∀ {i : Nat} {txData : List TxDataToGenerate} {s s' : QtumState} {txs : List CTransaction},
      generateTransactions crypto env t i txData s = .ok (txs,s') → SameTries s s'
  | _, [], s, _, _, ok => by
    cases ok
    exact .refl s
  | _, _ :: _, _, _, _, ok => by
    unfold generateTransactions at ok
    split at ok
    · obtain ⟨s₁,saved,ok⟩ := Abort.bind_ok ok
      obtain ⟨⟨txs,s₂⟩,generated,ok⟩ := Abort.bind_ok ok
      cases ok
      exact (savedVinToAccount_tries saved).trans (generateTransactions_tries generated)
    · exact generateTransactions_tries ok

theorem generateTransactions_ne_error (crypto : Crypto) (env : EnvInfo) (t : QtumTransaction) :
    ∀ (i : Nat) (txData : List TxDataToGenerate) (s : QtumState),
      generateTransactions crypto env t i txData s ≠ .error .emptyAccess
  | _, [], _ => by simp [generateTransactions]
  | i, _ :: rest, _ => by
    unfold generateTransactions
    split
    · exact Abort.bind_ne_error (savedVinToAccount_ne_error _ _ _) fun _ _ =>
        Abort.bind_ne_error (generateTransactions_ne_error crypto env t (i + 1) rest _) fun _ _ => by
          simp [pure,Except.pure]
    · exact generateTransactions_ne_error crypto env t (i + 1) rest _

/-- `QtumState::execute`. The sender is credited with the gas and the value,
the executive runs, and the cached entries of `delAddresses` are erased; a
transaction that throws in `initialize` or excepts ends in
`exceptionHandling`. Otherwise the transfers become condensing transactions
and both caches are committed, or cleared where the permanence is
`Reverted`. -/
def execute (crypto : Crypto) (sha3 : valtype → uint256) (vm : VM) (s : QtumState) (env : EnvInfo)
    (t : QtumTransaction) (p : Permanence) : Except Abort (ResultExecute × QtumState) :=
  match s.processingVersionNullAndOne t p with
  | (true,processed) => .ok (⟨ExecutionResult.default,0,[]⟩,processed)
  | (false,processed) =>
    let funded := processed.addBalance t.sender ((t.gas * t.gasPrice + t.value) % 2 ^ 256)
    match Executive.initialize env funded t with
    | .error _ => .ok (funded.exceptionHandling crypto env t)
    | .ok () => do
      let m : Machine := ⟨funded,[],[t.sender,env.author],Blob.null 20⟩
      let m := if t.isCreation then
          let qtumAddress := createQtumAddress crypto t.hashWith t.voutNumber
          {m with state := m.state.addVin qtumAddress (⟨t.hashWith,t.voutNumber⟩,0),qtumAddress := qtumAddress}
        else m
      let (outcome,m) ← Executive.execute sha3 t (vm s env t) m
      let m := Executive.finalize env t outcome m
      let state := m.delAddresses.foldl QtumState.erase m.state
      if outcome.excepted ≠ .None then .ok (state.exceptionHandling crypto env t)
      else do
        let (txs,state) ← generateTransactions crypto env t 0 m.txData state
        let state := match p with
          | .Reverted => state.clear
          | .Committed => state.commit
        let gasUsed := u256Sub t.gas outcome.gas
        return (⟨⟨gasUsed,outcome.excepted,outcome.newAddress,outcome.output,outcome.gas⟩,gasUsed,txs⟩,state)

end QtumState

/-- The sender `callcontract` takes where none is given. -/
def defaultCallSender : Address :=
  Address.ofBytes [0xf1,0xb0,0x74,0x7f,0xe2,0x9c,0x1f,0xe5,0xd4,0xff,0x1e,0x63,0xce,0xfd,0xbd,0xea,0xae,0x13,0x29,0xd6]

/-- The RPC `callcontract`, on the environment of the tip, which has no
author: a version-1 call of an address in use with no value, gas price 1
and gas `MAX_MONEY`, run on the global state with `Permanence::Reverted`.
The gas limit is `u256(1 << 31)`, of a negative `int`. The output index is
never read for a call without value. -/
def callcontract (crypto : Crypto) (sha3 : valtype → uint256) (vm : VM) (globalState : QtumState) (env : EnvInfo)
    (addrAccount : Address) (data : valtype) (senderAddress : Address) : Except Abort (ResultExecute × QtumState) :=
  if !globalState.addressInUse addrAccount then .error .exception
  else
    let callTransaction : QtumTransaction := ⟨0,1,MAX_MONEY.toNat,some addrAccount,data,senderAddress,Blob.null 32,0,1⟩
    globalState.execute crypto sha3 vm {env with gasLimit := 2 ^ 256 - 2 ^ 31,author := Blob.null 20}
      callTransaction .Reverted

end Qtum.Contract
