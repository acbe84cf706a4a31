import Qtum.Script.Verify

/-! Qtum's contract opcodes inside script verification. `OP_EXEC` and
`OP_EXEC_ASSIGN` end the output script of a contract; when such an output is
spent, the opcode pops the pushed arguments and compares the element under
them, which the spender's scriptSig left, with the front of the queue of
hashes that the block's contract executions expect. `OP_TXHASH` pushes the
hash of the transaction being checked. All three read the block context and
the queue without checking that they exist. -/
namespace Qtum.Script

open ScriptError

/-- The output script of a contract transaction: the arguments pushed in order,
then `OP_EXEC` or `OP_EXEC_ASSIGN`. -/
def contractScript (args : List valtype) (opcode : Nat) : CScript := pushOpcode (args.foldl pushData []) opcode

section Step

variable {crypto : Crypto} {checker : SignatureChecker} {flags : Nat} {sigversion : SigVersion}
  {script : CScript} {pc : Nat} {fExec : Bool} {m : Machine}

theorem execute_txHash_null (null : m.context = none) :
    execute crypto checker flags sigversion script OP_TXHASH pc fExec m = .fault .nullDereference := by
  simp [execute,opKind,OP_TXHASH,null]

theorem execute_exec (assign : Bool) :
    execute crypto checker flags sigversion script (if assign then OP_EXEC_ASSIGN else OP_EXEC) pc fExec m =
      execContract flags script assign pc m := by
  cases assign <;> simp [execute,opKind,OP_EXEC,OP_EXEC_ASSIGN]

/-- Evaluating the arguments of a contract output without a block context
dereferences the null pointer. -/
theorem execContract_null (evaluated : hasFlag flags SCRIPT_EXEC_BYTE_CODE = false)
    (enough : 5 ≤ m.stack.length) (null : m.context = none) (assign : Bool) :
    execContract flags script assign pc m = .fault .nullDereference := by
  have remaining : (m.stack.drop 4).isEmpty = false := by
    rw [List.isEmpty_eq_false_iff,← List.length_pos_iff_ne_nil,List.length_drop]
    omega
  simp [execContract,evaluated,Nat.not_lt.mpr (Nat.le_of_succ_le enough),remaining,null]

variable {context : BlockValidationContext} {front : uint256} {queued : List uint256}
  {args rest : List valtype} {top : uint256}

private theorem execContract_compare (evaluated : hasFlag flags SCRIPT_EXEC_BYTE_CODE = false)
    (stack : m.stack = args ++ top.bytes :: rest) (four : args.length = 4) (found : m.context = some context)
    (queue : context.expectedTxHashes = front :: queued) :
    execContract flags script false pc m =
      if front = top then
        .next {m with stack := vchTrue :: top.bytes :: rest,context := some {context with expectedTxHashes := queued}}
      else .next {m with stack := top.bytes :: rest} := by
  have dropped : m.stack.drop 4 = top.bytes :: rest := by
    rw [stack,← four,List.drop_left]
  have enough : ¬m.stack.length < 4 := by
    rw [stack,List.length_append,four]
    omega
  simp only [execContract,evaluated,enough,dropped,found,queue,Bool.false_eq_true,if_false,
    Bool.false_and,List.isEmpty_cons,Bool.or_false,List.head!_cons,Blob.ofBytes?_bytes]

/-- A spend whose top is the expected hash pushes true and takes the hash off
the queue. -/
theorem execContract_matched (evaluated : hasFlag flags SCRIPT_EXEC_BYTE_CODE = false)
    (stack : m.stack = args ++ top.bytes :: rest) (four : args.length = 4) (found : m.context = some context)
    (queue : context.expectedTxHashes = front :: queued) (matched : front = top) :
    execContract flags script false pc m =
      .next {m with stack := vchTrue :: top.bytes :: rest,context := some {context with expectedTxHashes := queued}} := by
  rw [execContract_compare evaluated stack four found queue,if_pos matched]

/-- A spend whose top is another hash leaves that top in place and the queue
as it was. -/
theorem execContract_unmatched (evaluated : hasFlag flags SCRIPT_EXEC_BYTE_CODE = false)
    (stack : m.stack = args ++ top.bytes :: rest) (four : args.length = 4) (found : m.context = some context)
    (queue : context.expectedTxHashes = front :: queued) (other : front ≠ top) :
    execContract flags script false pc m = .next {m with stack := top.bytes :: rest} := by
  rw [execContract_compare evaluated stack four found queue,if_neg other]

end Step

/-- A block whose contract execution expects the condensing transaction with
hash `9…9` next, while the transaction being checked has hash `5…5`. -/
def unexpectedSpendContext : BlockValidationContext := ⟨[Blob.replicate 32 9],Blob.replicate 32 5⟩

/-- A scriptSig that pushes any 32 nonzero bytes spends a contract output:
nothing compares the expected hash with the transaction's, the unmatched
`OP_EXEC` leaves the pushed bytes on top, and they count as true. -/
theorem contract_output_spent_by_unexpected_transaction (crypto : Crypto) (checker : SignatureChecker) :
    ∃ verification, VerifyScript crypto (pushData [] (List.replicate 32 7)) (contractScript [[1],[1],[1],[1]] OP_EXEC)
        ⟨[]⟩ (SCRIPT_VERIFY_P2SH ||| SCRIPT_VERIFY_WITNESS) checker (some unexpectedSpendContext) = .ok verification ∧
      verification.result = true ∧ verification.context = some unexpectedSpendContext :=
  ⟨_,rfl,rfl,rfl⟩

/-- The mempool checks scripts without a block context; a scriptSig holding
`OP_TXHASH` then dereferences the null pointer. -/
theorem txHash_without_context_dereferences_null (crypto : Crypto) (checker : SignatureChecker) :
    VerifyScript crypto [UInt8.ofNat OP_TXHASH] [UInt8.ofNat OP_1] ⟨[]⟩ 0 checker none = .error .nullDereference :=
  rfl

end Qtum.Script
