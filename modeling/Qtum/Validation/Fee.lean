import Qtum.Contract.Agreement

/-! `CheckTxFee` of `main.cpp`: the fee a transaction must pay, the gas of
its contract outputs, `gasLimit * gasPrice` summed, and the relay fee. The
products and the sums are `CAmount` operations, which leave `int64_t` for
gas values `CheckTransaction` admits: gas limits and prices of up to eight
bytes. Where nothing overflows, the requirement is the exact sum. -/
namespace Qtum

open Script Contract

/-- The loop of `CheckTxFee` over the outputs with `gasFee` so far. The
parse is not looked at, only the fields it leaves. -/
def gasFeeFrom : CAmount → List CTxOut → Validation CAmount
  | gasFee, [] => .ok gasFee
  | gasFee, vout :: rest =>
    if HasOpExec vout.scriptPubKey || HasOpAssign vout.scriptPubKey then do
      let (_,_,dataContract) ← liftAbort (ParseScriptPubKey CDataForContract.declared vout.scriptPubKey 1)
      let gasLimit ← readField dataContract.gasLimit
      let gasPrice ← readField dataContract.gasPrice
      let product ← liftAbort (mulInt64 gasLimit gasPrice)
      let gasFee ← liftAbort (addAmount gasFee product)
      if gasLimit < 0 ∨ gasPrice < 0 then DoS 100 REJECT_INVALID "bad-txns-gas-negative" false
      else gasFeeFrom gasFee rest
    else gasFeeFrom gasFee rest

/-- `CheckTxFee`, with the relay fee `GetMinFee` of the mempool gives for the
size of the transaction. -/
def CheckTxFee (nRelayFee : CAmount) (tx : CTransaction) (nFees : CAmount) : Validation Unit := do
  let gasFee ← gasFeeFrom 0 tx.vout
  let nFeeRequired ← liftAbort (addAmount gasFee nRelayFee)
  if nFees < nFeeRequired then DoS 100 REJECT_INVALID "bad-txns-fee-notenough" false
  else .ok ()

/-- Whether an output carries a contract, which `CheckTxFee` charges gas for. -/
def IsContractOutput (txout : CTxOut) : Bool := HasOpExec txout.scriptPubKey || HasOpAssign txout.scriptPubKey

/-- The gas limit and price the parser reads from an output. -/
def gasOf (txout : CTxOut) : Option (Int × Int) :=
  match ParseScriptPubKey CDataForContract.declared txout.scriptPubKey 1 with
  | .ok (_,_,dataContract) => do
    let gasLimit ← dataContract.gasLimit
    let gasPrice ← dataContract.gasPrice
    pure (gasLimit,gasPrice)
  | .error _ => none

/-- The exact gas fee of gas values. -/
def exactGasFee (gas : List (Int × Int)) : Int := (gas.map fun (gasLimit,gasPrice) => gasLimit * gasPrice).sum

theorem readField_ok {α : Type} {field : Option α} {value : α} (read : readField field = .ok value) :
    field = some value := by
  cases field <;> simp_all [readField]

/-- Where the loop returns, the gas values of the contract outputs are read
and not negative, and the fee is the running sum plus their exact fee. -/
theorem gasFeeFrom_ok : ∀ {gasFee fee : CAmount} {vout : List CTxOut}, gasFeeFrom gasFee vout = .ok fee →
    ∃ gas, (vout.filter IsContractOutput).map gasOf = gas.map some ∧
      (∀ g ∈ gas, 0 ≤ g.1 ∧ 0 ≤ g.2) ∧ fee = gasFee + exactGasFee gas
  | gasFee, fee, [], done => by
    cases Except.ok.inj done
    exact ⟨[],rfl,by simp,by simp [exactGasFee]⟩
  | gasFee, fee, txout :: rest, done => by
    unfold gasFeeFrom at done
    by_cases contract : IsContractOutput txout = true
    swap
    · -- an output without a contract adds nothing
      rw [if_neg (by simpa [IsContractOutput] using contract)] at done
      obtain ⟨gas,read,nonnegative,summed⟩ := gasFeeFrom_ok done
      exact ⟨gas,by simp [contract,read],nonnegative,summed⟩
    rw [if_pos (by simpa [IsContractOutput] using contract)] at done
    obtain ⟨⟨parsed,kind,dataContract⟩,parsing,done⟩ := Abort.bind_ok done
    rcases parse : ParseScriptPubKey CDataForContract.declared txout.scriptPubKey 1 with reason | result
    · simp [parse,liftAbort] at parsing
    rw [parse,liftAbort_ok] at parsing
    cases Except.ok.inj parsing
    obtain ⟨gasLimit,limitRead,done⟩ := Abort.bind_ok done
    obtain ⟨gasPrice,priceRead,done⟩ := Abort.bind_ok done
    obtain ⟨product,multiplied,done⟩ := Abort.bind_ok done
    obtain ⟨summed,added,done⟩ := Abort.bind_ok done
    -- the fields were set, the product and the sum stayed in int64_t
    have limitSet := readField_ok limitRead
    have priceSet := readField_ok priceRead
    have exactProduct : product = gasLimit * gasPrice := by
      unfold mulInt64 at multiplied
      split_ifs at multiplied <;> simp_all [liftAbort]
    have exactSum : summed = gasFee + product := by
      unfold addAmount at added
      split_ifs at added <;> simp_all [liftAbort]
    split_ifs at done with negative
    · simp at done
    obtain ⟨gas,read,nonnegative,rest⟩ := gasFeeFrom_ok done
    refine ⟨(gasLimit,gasPrice) :: gas,?_,?_,?_⟩
    · simp [contract,read,gasOf,parse,limitSet,priceSet]
    · intro g mem
      rcases List.mem_cons.mp mem with rfl | later
      · constructor <;> omega
      · exact nonnegative g later
    · rw [rest,exactSum,exactProduct]
      simp [exactGasFee]
      ring

/-- Where `CheckTxFee` accepts, no gas value is negative and the fee paid is
at least the exact gas fee plus the relay fee. -/
theorem CheckTxFee_ok {nRelayFee nFees : CAmount} {tx : CTransaction} (accepted : CheckTxFee nRelayFee tx nFees = .ok ()) :
    ∃ gas, (tx.vout.filter IsContractOutput).map gasOf = gas.map some ∧ (∀ g ∈ gas, 0 ≤ g.1 ∧ 0 ≤ g.2) ∧
      exactGasFee gas + nRelayFee ≤ nFees := by
  obtain ⟨gasFee,summing,accepted⟩ := Abort.bind_ok accepted
  obtain ⟨required,added,accepted⟩ := Abort.bind_ok accepted
  obtain ⟨gas,read,nonnegative,summed⟩ := gasFeeFrom_ok summing
  have exactRequired : required = gasFee + nRelayFee := by
    unfold addAmount at added
    split_ifs at added <;> simp_all [liftAbort]
  split_ifs at accepted with short
  · simp at accepted
  refine ⟨gas,read,nonnegative,?_⟩
  rw [exactRequired,summed,zero_add,not_lt] at short
  exact short

/-- A deployment with gas limit and gas price 2 ^ 32, each a five-byte
script number. -/
def wideGasTx : CTransaction := contractTx (deployScript (2 ^ 32) (2 ^ 32) [0x60,0x00])

/-- `CheckTransaction` admits a deployment whose gas fee, 2 ^ 64, leaves
`int64_t`: `CheckTxFee` multiplies out of range whatever the fees. -/
theorem gas_fee_leaves_int64 :
    CheckTransaction wideGasTx = .ok () ∧ wideGasTx.vout.map gasOf = [some (2 ^ 32,2 ^ 32)] ∧
      ¬ FitsInt64 (2 ^ 32 * 2 ^ 32) ∧
      ∀ nRelayFee nFees, CheckTxFee nRelayFee wideGasTx nFees = .error (.abort .overflow) := by
  have overflowing : gasFeeFrom 0 wideGasTx.vout = .error (.abort .overflow) := by decide
  refine ⟨by decide,by decide,by decide,fun nRelayFee nFees => ?_⟩
  rw [CheckTxFee,overflowing]
  rfl

end Qtum
