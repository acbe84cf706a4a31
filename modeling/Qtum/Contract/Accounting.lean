import Qtum.Contract.Executive

/-! What `QtumState::execute` does to the two states it keeps: the accounts,
whose balances the virtual machine moves, and the vins, the outputs each
contract owns, which only the condensing transactions move. Without
permanence no trie is written, and no revert pops more than its frame
pushed. The vins and the balances need not agree: a creation's value is
recorded at the zero address, and a reverted frame's transfer can survive
in `txData` when the frame had called on. And a `Reverted` execution that
excepts leaves the vin cache with the placeholder of a creation it undid. -/
namespace Qtum.Contract

open Script

/-! ## Runs from genesis -/

/-- The state committed executions reach, block environment and transaction
after transaction. -/
def executeAll (crypto : Crypto) (sha3 : valtype → uint256) (vm : VM) :
    QtumState → List (EnvInfo × QtumTransaction) → Except Abort QtumState
  | s, [] => .ok s
  | s, (env,t) :: rest => do
    let (_,s) ← s.execute crypto sha3 vm env t .Committed
    executeAll crypto sha3 vm s rest

/-- The first bytes of the data, padded with zeros: a hash function under
which the addresses and outpoints below stay apart. -/
def prefixBlob (size : Nat) (data : valtype) : Blob size := ⟨(data ++ List.replicate size 0).take size,by simp⟩

def prefixCrypto : Crypto := ⟨prefixBlob 20,fun _ => Blob.null 20,prefixBlob 32,fun _ => true⟩

def userKey : Address := Blob.replicate 20 0x55

def blockEnv : EnvInfo := ⟨1,0,0,[],500000000,Blob.replicate 20 0x77⟩

/-- A version-1 creation with value 5 and empty init code, and the address it creates. -/
def endowedCreation : QtumTransaction := ⟨5,1,100000,none,[],userKey,Blob.replicate 32 0xe1,0,1⟩
def endowedContract : Address := Blob.replicate 20 0xe1

/-! ## Executions and the tries -/

/-- A `Reverted` execution writes neither trie: `rootHash()` and
`rootHashUTXO()` are as they were, whatever the transaction and the run. -/
theorem execute_Reverted_keeps_tries (crypto : Crypto) (sha3 : valtype → uint256) (vm : VM) (s : QtumState)
    (env : EnvInfo) (t : QtumTransaction) {result : ResultExecute} {s' : QtumState}
    (ok : s.execute crypto sha3 vm env t .Reverted = .ok (result,s')) : QtumState.SameTries s s' := by
  unfold QtumState.execute at ok
  have processing := QtumState.processingVersionNullAndOne_tries s t
  generalize s.processingVersionNullAndOne t .Reverted = pair at ok processing
  obtain ⟨done,processed⟩ := pair
  cases done with
  | true =>
    cases ok
    exact processing
  | false =>
    dsimp only at ok processing
    have funded := processing.trans (⟨by simp,by simp⟩ :
      QtumState.SameTries processed (processed.addBalance t.sender ((t.gas * t.gasPrice + t.value) % 2 ^ 256)))
    split at ok
    · obtain rfl := congrArg Prod.snd (Except.ok.inj ok)
      exact funded.trans (QtumState.exceptionHandling_tries _ _ _ _)
    · obtain ⟨⟨outcome,m₁⟩,executed,ok⟩ := Abort.bind_ok ok
      -- a creation first records the placeholder vin of its address
      have executive : QtumState.SameTries s m₁.state := by
        split at executed
        · exact (funded.trans ⟨by simp,by simp⟩).trans (Executive.execute_frame executed).tries
        · exact funded.trans (Executive.execute_frame executed).tries
      have finalized := (executive.trans (finalize_tries env t outcome m₁)).trans
        (QtumState.SameTries.foldl QtumState.erase_tries (Executive.finalize env t outcome m₁).delAddresses _)
      dsimp only at ok
      split at ok
      · obtain rfl := congrArg Prod.snd (Except.ok.inj ok)
        exact finalized.trans (QtumState.exceptionHandling_tries _ _ _ _)
      · obtain ⟨⟨txs,s₂⟩,generated,ok⟩ := Abort.bind_ok ok
        cases ok
        exact (finalized.trans (QtumState.generateTransactions_tries generated)).trans ⟨by simp,by simp⟩

/-- The creation that sends 5 to the contract it makes, run reverted: it
returns, and its state has the tries of genesis, where the same creation
committed leaves the new contract holding 5. -/
theorem execute_Reverted_keeps_tries_genesis :
    (∃ result s', genesis.execute prefixCrypto (prefixBlob 32) (fun _ _ _ => ⟨.stop [],0⟩) blockEnv endowedCreation
        .Reverted = .ok (result,s') ∧ QtumState.SameTries genesis s') ∧
      (genesis.execute prefixCrypto (prefixBlob 32) (fun _ _ _ => ⟨.stop [],0⟩) blockEnv endowedCreation
        .Committed).map (fun done => done.2.balance endowedContract) = .ok 5 := by
  have committed : (genesis.execute prefixCrypto (prefixBlob 32) (fun _ _ _ => ⟨.stop [],0⟩) blockEnv endowedCreation
      .Committed).map (fun done => done.2.balance endowedContract) = .ok 5 := by
    rfl
  have returns : (genesis.execute prefixCrypto (prefixBlob 32) (fun _ _ _ => ⟨.stop [],0⟩) blockEnv endowedCreation
      .Reverted).isOk = true := by
    rfl
  match executed : genesis.execute prefixCrypto (prefixBlob 32) (fun _ _ _ => ⟨.stop [],0⟩) blockEnv endowedCreation
      .Reverted with
  | .ok (result,s') => exact ⟨⟨result,s',rfl,execute_Reverted_keeps_tries _ _ _ _ _ _ executed⟩,committed⟩
  | .error _ => simp [executed,Except.isOk,Except.toBool] at returns

/-- No execution pops an empty `txData`: every `revert` follows the push of
its own frame, which the frame's run keeps. -/
theorem execute_never_pops_empty (crypto : Crypto) (sha3 : valtype → uint256) (vm : VM) (s : QtumState)
    (env : EnvInfo) (t : QtumTransaction) (p : Permanence) :
    s.execute crypto sha3 vm env t p ≠ .error .emptyAccess := by
  unfold QtumState.execute
  generalize s.processingVersionNullAndOne t p = pair
  obtain ⟨done,processed⟩ := pair
  cases done with
  | true => simp
  | false =>
    dsimp only
    split
    · simp
    · refine Abort.bind_ne_error (Executive.execute_ne_error _ _ _ _) fun ⟨outcome,m₁⟩ _ => ?_
      dsimp only
      split
      · simp
      · exact Abort.bind_ne_error (QtumState.generateTransactions_ne_error _ _ _ _ _ _) fun _ _ => by
          simp [pure,Except.pure]

/-! ## Balances and vins -/

/-- The contracts `A` and `B` that `deployA` and `deployB` create, and an
address `C` that is not in use. -/
def contractA : Address := Blob.replicate 20 0xa1
def contractB : Address := Blob.replicate 20 0xb1
def accountC : Address := Blob.replicate 20 0xcc

/-- The runs of the codes below: the init codes `a0` and `b0` return the
codes `0a` and `0b`; `0a` calls `B` with 5, where `0b` calls `C` with
nothing and then hits an invalid instruction. Other code stops at once. -/
def runOf (code : valtype) : Code :=
  if code = [0xa0] then .stop [0x0a]
  else if code = [0xb0] then .stop [0x0b]
  else if code = [0x0a] then .call .CALL contractB 5 (.call .CALL accountC 0 (.stop []) .throw) (.stop [])
  else .stop []

/-- A machine that runs the init code of a creation and the code of the receiver of a call. -/
def tableVM : VM := fun s _ t => ⟨runOf (match t.receiveAddress with
  | none => t.data
  | some a => s.code a),0⟩

def deployA : QtumTransaction := ⟨0,1,100000,none,[0xa0],userKey,Blob.replicate 32 0xa1,0,1⟩
def deployB : QtumTransaction := ⟨0,1,100000,none,[0xb0],userKey,Blob.replicate 32 0xb1,0,1⟩

/-- A version-1 call that sends 10 to `A`. -/
def callA : QtumTransaction := ⟨10,1,100000,some contractA,[],userKey,Blob.replicate 32 0x33,0,1⟩

/-- After one creation with value from genesis, the contract's balance is 5
and its vins hold nothing to spend: the creation's output was recorded at
the zero address, which `commitUTXO` drops. After deploying `A` and `B` and
sending 10 to `A`, whose run has `B` revert after a call of its own, `A`
holds 10 where its vins hold 5, and `B` holds nothing where its vins hold 5:
`B`'s revert popped the entry of its call, not of its own transfer, so the
condensing transaction pays `B` a transfer that was undone. -/
theorem balances_disagree_with_vins :
    (executeAll prefixCrypto (prefixBlob 32) tableVM genesis [(blockEnv,endowedCreation)]).map
        (fun s => (s.balance endowedContract,vinSum (s.getVins endowedContract))) = .ok (5,0) ∧
      (executeAll prefixCrypto (prefixBlob 32) tableVM genesis [(blockEnv,deployA),(blockEnv,deployB),(blockEnv,callA)]).map
        (fun s => (s.balance contractA,vinSum (s.getVins contractA),s.balance contractB,vinSum (s.getVins contractB))) =
        .ok (10,5,0,5) := by
  constructor <;> rfl

/-! ## A call that must not change the state -/

/-- A global state in which `A` is a contract, with its placeholder vin. -/
def contractState : QtumState :=
  ⟨⟨fun a => if a = contractA then some ⟨true,0,0,fun _ => 0,[0x0a],false⟩ else none,fun _ => none⟩,
    ⟨fun a => if a = contractA then some [(⟨Blob.replicate 32 0xa1,0⟩,0)] else none,fun _ => none⟩⟩

/-- A machine on which the called code creates a contract and then hits an
invalid instruction. -/
def creatingVM : VM := fun _ _ _ => ⟨.create 0 (.stop []) .throw,0⟩

/-- The address of the contract `A`'s creation would have. -/
def createdAddress : Address := contractAddress (prefixBlob 32) contractA 0

/-- `callcontract` on `A` returns, and so does the same call committed, both
through `exceptionHandling`: no gas refunded and no refund. Yet afterwards
the created address, which has no vins in the state, reads the placeholder
vin its undone creation recorded, since `revert` restores the account cache
only and `exceptionHandling` erases the vins of the receiver only. -/
theorem callcontract_changes_vins :
    contractState.getVins createdAddress = [] ∧
      (callcontract prefixCrypto (prefixBlob 32) creatingVM contractState blockEnv contractA [] defaultCallSender).map
          (fun result => (result.1.execRes.excepted,result.1.execRes.gasRefunded,result.1.txs,
            result.2.getVins createdAddress)) =
        .ok (.Unknown,0,[],[(⟨Blob.null 32,0⟩,0)]) ∧
      (contractState.execute prefixCrypto (prefixBlob 32) creatingVM blockEnv
          ⟨0,1,100000,some contractA,[],userKey,Blob.replicate 32 0x33,0,1⟩ .Committed).map
          (fun result => (result.1.execRes.excepted,result.1.execRes.gasRefunded,result.1.txs,
            result.2.getVins createdAddress)) =
        .ok (.Unknown,0,[],[(⟨Blob.null 32,0⟩,0)]) := by
  refine ⟨by rfl,by rfl,by rfl⟩

end Qtum.Contract
