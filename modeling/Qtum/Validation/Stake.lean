import Qtum.Validation.Block
import Qtum.Validation.Retarget

/-! The proof-of-stake kernel of `pos.cpp`: `CheckStakeKernelHashV2`, which
hashes the stake modifier with the staked output's position and the
coinstake's time and compares the hash with the target weighted by the
output's value, and `CheckProofOfStake`, which reads the staked transaction
from disk, checks its signature and its depth and then the kernel. The
weighted target is `bnTarget *= bnWeight` in the arithmetic of `base_uint`,
so it is the product modulo `2 ^ 256`: below the limit of main and test,
`2 ^ 240 - 1`, an output of `2 ^ 16` or more coins can push it past
`2 ^ 256`, and the kernel then compares against what is left. The depth is
`IsConfirmedInNPrevBlocks` of `main.cpp`, a walk back through `pprev` over
the last `nStakeMinConfirmations - 1` blocks. -/
namespace Qtum.Pos

open base_uint Script

/-- What the kernel and `IsConfirmedInNPrevBlocks` read of a `CBlockIndex`;
`pprev` is the next entry of the list the index heads. -/
structure CBlockIndex where
  nHeight : Int
  nFile : Int
  nDataPos : Nat
  bnStakeModifierV2 : uint256

/-- `CDiskTxPos`: the block file and the position of the block in it. -/
structure CDiskTxPos where
  nFile : Int
  nPos : Nat

def nStakeMinConfirmations : Int := 25

def SCRIPT_VERIFY_NONE : Nat := 0

/-! ## IsConfirmedInNPrevBlocks -/

/-- The loop of `IsConfirmedInNPrevBlocks` from `pindex` on, for a walk that
started at height `nHeightFrom`. -/
def confirmedFrom (txindex : CDiskTxPos) (nHeightFrom nMaxDepth : Int) : List CBlockIndex → Option Int
  | [] => none
  | pindex :: pprev =>
    if nHeightFrom - pindex.nHeight < nMaxDepth then
      if pindex.nDataPos = txindex.nPos ∧ pindex.nFile = txindex.nFile then some (nHeightFrom - pindex.nHeight)
      else confirmedFrom txindex nHeightFrom nMaxDepth pprev
    else none

/-- `IsConfirmedInNPrevBlocks(txindex, pindexFrom, nMaxDepth, nActualDepth)`:
the depth it stores in `nActualDepth` when it returns true. -/
def IsConfirmedInNPrevBlocks (txindex : CDiskTxPos) (pindexFrom : List CBlockIndex) (nMaxDepth : Int) : Option Int :=
  match pindexFrom with
  | [] => none
  | pindex :: _ => confirmedFrom txindex pindex.nHeight nMaxDepth pindexFrom

/-- Whether a block is the one at the position `txindex` names. -/
def holdsTx (txindex : CDiskTxPos) (pindex : CBlockIndex) : Bool :=
  pindex.nDataPos == txindex.nPos && pindex.nFile == txindex.nFile

/-- A chain read back through `pprev`: each block one above the next. -/
def Descending (chain : List CBlockIndex) : Prop :=
  chain.IsChain fun pindex pprev => pprev.nHeight + 1 = pindex.nHeight

/-- On a descending chain the walk from the block at depth `k` finds the first
block within the depth bound that holds the transaction. -/
theorem confirmedFrom_eq (txindex : CDiskTxPos) (nHeightFrom nMaxDepth : Int) (pindex : CBlockIndex)
    (pprev : List CBlockIndex) (k : Nat) (chain : Descending (pindex :: pprev))
    (depth : pindex.nHeight = nHeightFrom - k) :
    confirmedFrom txindex nHeightFrom nMaxDepth (pindex :: pprev) =
      Option.map (fun i : Nat => ((i + k : Nat) : Int)) (((pindex :: pprev).take (nMaxDepth - k).toNat).findIdx? (holdsTx txindex)) := by
  -- the walk and the chain advance together, one block deeper per step
  induction pprev generalizing pindex k with
  | nil =>
    by_cases within : (k : Int) < nMaxDepth
    · obtain ⟨n,room⟩ : ∃ n, (nMaxDepth - k).toNat = n + 1 := ⟨(nMaxDepth - k).toNat - 1,by omega⟩
      by_cases found : pindex.nDataPos = txindex.nPos ∧ pindex.nFile = txindex.nFile <;>
        simp [confirmedFrom,depth,within,found,room,holdsTx]
    · have none : (nMaxDepth - k).toNat = 0 := by omega
      simp [confirmedFrom,depth,within,none]
  | cons next rest ih =>
    obtain ⟨step,tail⟩ : next.nHeight + 1 = pindex.nHeight ∧ Descending (next :: rest) := List.isChain_cons_cons.mp chain
    have deeper := ih next (k + 1) tail (by omega)
    by_cases within : (k : Int) < nMaxDepth
    · obtain ⟨n,room⟩ : ∃ n, (nMaxDepth - k).toNat = n + 1 := ⟨(nMaxDepth - k).toNat - 1,by omega⟩
      have roomNext : (nMaxDepth - (k + 1 : Nat)).toNat = n := by omega
      rw [roomNext] at deeper
      rw [confirmedFrom,depth,if_pos (by omega),room,List.take_succ_cons,List.findIdx?_cons]
      by_cases found : pindex.nDataPos = txindex.nPos ∧ pindex.nFile = txindex.nFile
      · have hit : holdsTx txindex pindex = true := by simpa [holdsTx] using found
        simp [found,hit]
      · rw [if_neg found,deeper]
        have skip : holdsTx txindex pindex = false := by simpa [holdsTx] using found
        simp only [skip,Bool.false_eq_true,if_false,Option.map_map]
        congr 1
        funext i
        simp only [Function.comp_apply]
        omega
    · have none : (nMaxDepth - k).toNat = 0 := by omega
      simp [confirmedFrom,depth,within,none]

/-- On a descending chain `IsConfirmedInNPrevBlocks` returns the depth of the
first of the last `nMaxDepth` blocks that holds the transaction. -/
theorem IsConfirmedInNPrevBlocks_eq (txindex : CDiskTxPos) (pindexFrom : List CBlockIndex) (nMaxDepth : Int)
    (chain : Descending pindexFrom) :
    IsConfirmedInNPrevBlocks txindex pindexFrom nMaxDepth =
      Option.map (fun i : Nat => (i : Int)) ((pindexFrom.take nMaxDepth.toNat).findIdx? (holdsTx txindex)) := by
  cases pindexFrom with
  | nil => simp [IsConfirmedInNPrevBlocks]
  | cons pindex pprev =>
    rw [IsConfirmedInNPrevBlocks,confirmedFrom_eq txindex pindex.nHeight nMaxDepth pindex pprev 0 chain (by omega)]
    simp

/-! ## The kernel -/

/-- What `CheckStakeKernelHashV2` writes through its reference parameters. -/
structure StakeProof where
  hashProofOfStake : uint256
  targetProofOfStake : arith_uint256

/-- `ss << bnStakeModifierV2 << txPrev.nTime << prevout.hash << prevout.n << nTimeTx`. -/
def kernelBytes (pindexPrev : CBlockIndex) (txPrev : CTransaction) (prevout : COutPoint) (nTimeTx : Nat) :
    List UInt8 :=
  pindexPrev.bnStakeModifierV2.bytes ++ LittleEndian.encode 4 txPrev.nTime ++ prevout.hash.bytes ++
    LittleEndian.encode 4 prevout.n ++ LittleEndian.encode 4 nTimeTx

/-- `CheckStakeKernelHashV2`: whether the kernel meets the weighted target, and
the reference parameters after it, `proof` being their values before. The
older stake modifier, the height and the times it reads are only logged. -/
def CheckStakeKernelHashV2 (crypto : Crypto) (pindexPrev : Option CBlockIndex) (nBits : UInt32)
    (txPrev : CTransaction) (prevout : COutPoint) (nTimeTx : Nat) (proof : StakeProof) :
    Except Abort (Bool × StakeProof) :=
  if nTimeTx < txPrev.nTime then .ok (false,proof)
  else
    let bnTarget := (arith_uint256.SetCompact nBits).1
    match txPrev.vout[prevout.n]? with
    | none => .error .outOfRange
    | some txout =>
      -- `arith_uint256(nValueIn)` converts the `int64_t` to `uint64_t`
      let bnWeight : arith_uint256 := ofUInt64 (UInt64.ofInt txout.nValue)
      let bnTarget := bnTarget.mul bnWeight
      match pindexPrev with
      | none => .error .nullDereference
      | some pindex =>
        let hashProofOfStake := crypto.Hash256 (kernelBytes pindex txPrev prevout nTimeTx)
        -- `operator>` of `base_uint` compares the numbers (`CompareTo_eq`)
        .ok (if UintToArith256 hashProofOfStake > bnTarget.val then false else true,⟨hashProofOfStake,bnTarget⟩)

/-- The weighted target of an output in `MoneyRange` is the compact target
times the value, modulo `2 ^ 256`. -/
theorem val_weightedTarget (nBits : UInt32) {nValue : Int} (range : MoneyRange nValue = true) :
    ((arith_uint256.SetCompact nBits).1.mul (ofUInt64 (UInt64.ofInt nValue))).val =
      (arith_uint256.SetCompact nBits).1.val * nValue.toNat % 2 ^ 256 := by
  simp only [MoneyRange,Bool.and_eq_true,decide_eq_true_eq] at range
  -- the bounds restated with the literals of Int, which omega reads
  have low : 0 ≤ nValue := range.1
  have high : nValue ≤ 2 ^ 63 - 1 := range.2
  have bounds : 0 ≤ nValue ∧ nValue < 2 ^ 64 := by omega
  rw [val_mul,val_ofUInt64 _ (by decide),Pow.toNat_ofInt64 bounds]

/-- The kernel of a staked output in `MoneyRange` is accepted when the
coinstake is not older than the staked transaction and the hash does not
exceed the weighted target as `base_uint` computes it. -/
theorem CheckStakeKernelHashV2_accepts (crypto : Crypto) (pindexPrev : CBlockIndex) (nBits : UInt32)
    (txPrev : CTransaction) (prevout : COutPoint) (nTimeTx : Nat) (proof : StakeProof) {txout : CTxOut}
    (output : txPrev.vout[prevout.n]? = some txout) (range : MoneyRange txout.nValue = true) :
    ∃ result, CheckStakeKernelHashV2 crypto (some pindexPrev) nBits txPrev prevout nTimeTx proof = .ok result ∧
      (result.1 = true ↔ txPrev.nTime ≤ nTimeTx ∧
        UintToArith256 (crypto.Hash256 (kernelBytes pindexPrev txPrev prevout nTimeTx)) ≤
          (arith_uint256.SetCompact nBits).1.val * txout.nValue.toNat % 2 ^ 256) := by
  by_cases early : nTimeTx < txPrev.nTime
  · refine ⟨(false,proof),by rw [CheckStakeKernelHashV2,if_pos early],?_⟩
    simp only [Bool.false_eq_true,false_iff,not_and]
    intro late
    exact absurd late (Nat.not_le.mpr early)
  · refine ⟨_,by rw [CheckStakeKernelHashV2,if_neg early,output],?_⟩
    rw [val_weightedTarget nBits range,and_iff_right (Nat.not_lt.mp early)]
    simp only [gt_iff_lt,Bool.if_false_left,Bool.and_true,Bool.not_eq_eq_eq_not,Bool.not_true,
      decide_eq_false_iff_not,not_lt]

/-! ## CheckProofOfStake -/

/-- The disk reads of `CheckProofOfStake`: the transaction index, the
transaction at a position and the header of the block at a position. -/
structure BlockFiles where
  ReadTxIndex : uint256 → Option CDiskTxPos
  ReadTransaction : CDiskTxPos → Option CTransaction
  ReadBlockHeader : Int → Nat → Option CBlockHeader

/-- `ReadFromDisk(tx, txindex, txdb, prevout)`: the transaction and its
position, when the index has it and it has the output. -/
def ReadFromDisk (files : BlockFiles) (prevout : COutPoint) : Option (CTransaction × CDiskTxPos) := do
  let txindex ← files.ReadTxIndex prevout.hash
  let tx ← files.ReadTransaction txindex
  if prevout.n ≥ tx.vout.length then none else some (tx,txindex)

/-- `VerifySignature(txFrom, txTo, nIn, flags)` of `sign.cpp`: the input's
scripts against the output it spends, with no witness and an amount of 0. -/
def VerifySignature (crypto : Crypto) (checkerFor : CTransaction → Nat → CAmount → SignatureChecker)
    (txFrom txTo : CTransaction) (nIn flags : Nat) : Except Abort Bool :=
  let checker := checkerFor txTo nIn 0
  match txTo.vin[nIn]? with
  | none => .error .outOfRange
  | some txin =>
    match txFrom.vout[txin.prevout.n]? with
    | none => .ok false
    | some txout =>
      if txin.prevout.hash ≠ txFrom.GetHash then .ok false
      else Verification.result <$> VerifyScript crypto txin.scriptSig txout.scriptPubKey ⟨[]⟩ flags checker none

/-- `CheckProofOfStake(pindexPrev, state, tx, nBits, hashProofOfStake,
targetProofOfStake)`, with `pindexPrev` the chain back from it. It calls the
kernel through `CheckStakeKernelHash`, which passes the block time it reads
from the header on to be logged. -/
def CheckProofOfStake (crypto : Crypto) (checkerFor : CTransaction → Nat → CAmount → SignatureChecker)
    (files : BlockFiles) (pindexPrev : List CBlockIndex) (tx : CTransaction) (nBits : UInt32)
    (proof : StakeProof) : Validation StakeProof :=
  if !tx.IsCoinStake then .error .error
  else
    match tx.vin with
    | [] => .error (.abort .outOfRange)
    | txin :: _ =>
      match ReadFromDisk files txin.prevout with
      | none => DoS 1 0 "" false
      | some (txPrev,txindex) => do
        let signed ← liftAbort (VerifySignature crypto checkerFor txPrev tx 0 SCRIPT_VERIFY_NONE)
        if !signed then DoS 100 0 "" false
        else
          match files.ReadBlockHeader txindex.nFile txindex.nPos with
          | none => .error .error
          | some _ =>
            match IsConfirmedInNPrevBlocks txindex pindexPrev (nStakeMinConfirmations - 1) with
            | some _ => DoS 100 0 "" false
            | none => do
              let (kernel,proof) ←
                liftAbort (CheckStakeKernelHashV2 crypto pindexPrev.head? nBits txPrev txin.prevout tx.nTime proof)
              if !kernel then DoS 1 0 "" false else .ok proof

private theorem liftAbort_eq_ok {α : Type} {computation : Except Abort α} {value : α}
    (lifted : liftAbort computation = .ok value) : computation = .ok value := by
  cases computation with
  | error reason => cases lifted
  | ok result => cases lifted; rfl

/-- What a proof of stake that `CheckProofOfStake` accepts has passed: its
staked output was read from disk, the signature holds, the block header was
read, the block holding the output is not among the last
`nStakeMinConfirmations - 1` blocks, and the kernel meets its target. -/
theorem CheckProofOfStake_ok {crypto : Crypto} {checkerFor : CTransaction → Nat → CAmount → SignatureChecker}
    {files : BlockFiles} {pindexPrev : List CBlockIndex} {tx : CTransaction} {nBits : UInt32}
    {proof proof' : StakeProof} (ok : CheckProofOfStake crypto checkerFor files pindexPrev tx nBits proof = .ok proof') :
    ∃ txin txPrev txindex, tx.vin.head? = some txin ∧ ReadFromDisk files txin.prevout = some (txPrev,txindex) ∧
      VerifySignature crypto checkerFor txPrev tx 0 SCRIPT_VERIFY_NONE = .ok true ∧
      (files.ReadBlockHeader txindex.nFile txindex.nPos).isSome ∧
      IsConfirmedInNPrevBlocks txindex pindexPrev (nStakeMinConfirmations - 1) = none ∧
      CheckStakeKernelHashV2 crypto pindexPrev.head? nBits txPrev txin.prevout tx.nTime proof = .ok (true,proof') := by
  unfold CheckProofOfStake at ok
  split at ok
  · cases ok
  split at ok
  · cases ok
  rename_i txin rest vin
  split at ok
  · exact absurd ok DoS_ne_ok
  rename_i txPrev txindex read
  obtain ⟨signed,verified,ok⟩ := Abort.bind_ok ok
  split at ok
  · exact absurd ok DoS_ne_ok
  rename_i accepted
  split at ok
  · cases ok
  rename_i header found
  split at ok
  · exact absurd ok DoS_ne_ok
  rename_i shallow
  obtain ⟨⟨kernel,proof''⟩,checked,ok⟩ := Abort.bind_ok ok
  dsimp only at ok
  split at ok
  · exact absurd ok DoS_ne_ok
  rename_i passed
  cases ok
  refine ⟨txin,txPrev,txindex,by rw [vin]; rfl,read,?_,by rw [found]; rfl,shallow,?_⟩
  · rw [liftAbort_eq_ok verified]
    simpa using accepted
  · rw [liftAbort_eq_ok checked]
    simp only [Bool.not_eq_true',Bool.not_eq_false] at passed
    simp [passed]

/-- The kernel compares the hash with the weighted target modulo `2 ^ 256`,
and a proof of stake that `CheckProofOfStake` accepts on a chain read back
through `pprev` has its staked output in none of the last
`nStakeMinConfirmations - 1` blocks and a kernel that meets that target. -/
theorem CheckStakeKernelHashV2_wrapped_target :
    (∀ (crypto : Crypto) (pindexPrev : CBlockIndex) (nBits : UInt32) (txPrev : CTransaction) (prevout : COutPoint)
        (nTimeTx : Nat) (proof : StakeProof) (txout : CTxOut),
        txPrev.vout[prevout.n]? = some txout → MoneyRange txout.nValue = true →
        ∃ result, CheckStakeKernelHashV2 crypto (some pindexPrev) nBits txPrev prevout nTimeTx proof = .ok result ∧
          (result.1 = true ↔ txPrev.nTime ≤ nTimeTx ∧
            UintToArith256 (crypto.Hash256 (kernelBytes pindexPrev txPrev prevout nTimeTx)) ≤
              (arith_uint256.SetCompact nBits).1.val * txout.nValue.toNat % 2 ^ 256)) ∧
    (∀ (crypto : Crypto) (checkerFor : CTransaction → Nat → CAmount → SignatureChecker) (files : BlockFiles)
        (pindexPrev : List CBlockIndex) (tx : CTransaction) (nBits : UInt32) (proof proof' : StakeProof),
        Descending pindexPrev → CheckProofOfStake crypto checkerFor files pindexPrev tx nBits proof = .ok proof' →
        ∃ txin txPrev txindex, tx.vin.head? = some txin ∧ ReadFromDisk files txin.prevout = some (txPrev,txindex) ∧
          (∀ pindex ∈ pindexPrev.take (nStakeMinConfirmations - 1).toNat, holdsTx txindex pindex = false) ∧
          CheckStakeKernelHashV2 crypto pindexPrev.head? nBits txPrev txin.prevout tx.nTime proof =
            .ok (true,proof')) := by
  refine ⟨fun crypto pindexPrev nBits txPrev prevout nTimeTx proof _ output range =>
    CheckStakeKernelHashV2_accepts crypto pindexPrev nBits txPrev prevout nTimeTx proof output range,?_⟩
  intro crypto checkerFor files pindexPrev tx nBits proof proof' chain ok
  obtain ⟨txin,txPrev,txindex,first,read,-,-,shallow,kernel⟩ := CheckProofOfStake_ok ok
  refine ⟨txin,txPrev,txindex,first,read,?_,kernel⟩
  rw [IsConfirmedInNPrevBlocks_eq txindex pindexPrev _ chain,Option.map_eq_none_iff,List.findIdx?_eq_none_iff] at shallow
  exact shallow

/-- A hash function whose every value is the largest 256-bit number. -/
def saturatingCrypto : Crypto :=
  ⟨fun _ => Blob.null 20,fun _ => Blob.null 20,fun _ => ⟨List.replicate 32 0xff,rfl⟩,fun _ => true⟩

/-- A hash function whose every value is zero. -/
def stakeTip : CBlockIndex := ⟨0,0,0,Blob.null 32⟩

/-- A transaction whose one output holds `2 ^ 17` satoshis, spendable by anyone. -/
def stakedTx : CTransaction := ⟨Blob.null 32,1,[],[⟨2 ^ 17,[UInt8.ofNat Script.OP_1]⟩],[],0,0⟩

def stakedOutput : COutPoint := ⟨Blob.null 32,0⟩

def emptyProof : StakeProof := ⟨Blob.null 32,ofUInt64 0⟩

/-- A coinstake spending `stakedOutput`: an empty first output, then the stake. -/
def coinstake : CTransaction :=
  ⟨Blob.null 32,1,[⟨stakedOutput,[],SEQUENCE_FINAL⟩],[⟨0,[]⟩,⟨2 ^ 17,[UInt8.ofNat Script.OP_1]⟩],[],0,0⟩

def stakeHeader : CBlockHeader :=
  ⟨1,Blob.null 32,Blob.null 32,0,0x1f00ffff,0,[],false,COutPoint.null,0,Blob.null 32,Blob.null 32⟩

/-- Block files holding `stakedTx` at byte 1 of file 0. -/
def stakeFiles : BlockFiles := ⟨fun _ => some ⟨0,1⟩,fun _ => some stakedTx,fun _ _ => some stakeHeader⟩

/-- The target of compact `0x1f00ffff`, `0xffff * 2 ^ 224`, is below the limit
of main and test; weighted by `2 ^ 17` satoshis it passes `2 ^ 256`, and the
kernel rejects a hash that is below the exact product. -/
theorem CheckStakeKernelHashV2_mainnet_wraps :
    (arith_uint256.SetCompact 0x1f00ffff).1.val ≤ Pow.Network.main.consensus.posLimit.val ∧
      UintToArith256 (saturatingCrypto.Hash256 (kernelBytes stakeTip stakedTx stakedOutput 0)) ≤
        (arith_uint256.SetCompact 0x1f00ffff).1.val * 2 ^ 17 ∧
      (∃ result, CheckStakeKernelHashV2 saturatingCrypto (some stakeTip) 0x1f00ffff stakedTx stakedOutput 0 emptyProof =
        .ok result ∧ result.1 = false) ∧
      ∃ proof', CheckProofOfStake nullCrypto (fun _ _ _ => BaseSignatureChecker) stakeFiles [stakeTip] coinstake
        0x1f00ffff emptyProof = .ok proof' ∧ holdsTx ⟨0,1⟩ stakeTip = false := by
  have target : (arith_uint256.SetCompact 0x1f00ffff).1.val = 0xffff * 2 ^ 224 := by
    obtain ⟨value,-⟩ := SetCompact_spec 0x1f00ffff (m := 0xffff) (e := 31) (by norm_num) (by norm_num) rfl
    rw [value]
    norm_num
  have limit : Pow.Network.main.consensus.posLimit.val = 2 ^ 240 - 1 := by
    rw [Pow.Network.consensus,Pow.val_limitBelow]
    rfl
  have hash : UintToArith256 (saturatingCrypto.Hash256 (kernelBytes stakeTip stakedTx stakedOutput 0)) = 2 ^ 256 - 1 := by
    rfl
  obtain ⟨result,run,accepts⟩ := CheckStakeKernelHashV2_wrapped_target.1 saturatingCrypto stakeTip 0x1f00ffff
    stakedTx stakedOutput 0 emptyProof ⟨2 ^ 17,[UInt8.ofNat Script.OP_1]⟩ rfl (by decide)
  refine ⟨by rw [target,limit]; norm_num,by rw [hash,target]; norm_num,⟨result,run,?_⟩,?_⟩
  · rw [hash,target] at accepts
    -- the product wraps to 0x7fff * 2 ^ 241, below the hash
    have wrapped : 0xffff * 2 ^ 224 * (2 ^ 17 : Int).toNat % 2 ^ 256 < 2 ^ 256 - 1 := by decide
    cases kernel : result.1 with
    | false => rfl
    | true => exact absurd (accepts.mp kernel).2 (Nat.not_le.mpr wrapped)
  · -- a hash of zero meets any target, and the stake's block is not the tip
    obtain ⟨proof',accepted⟩ : ∃ proof', CheckProofOfStake nullCrypto (fun _ _ _ => BaseSignatureChecker) stakeFiles
        [stakeTip] coinstake 0x1f00ffff emptyProof = .ok proof' := ⟨_,rfl⟩
    obtain ⟨txin,txPrev,txindex,first,read,outside,-⟩ := CheckStakeKernelHashV2_wrapped_target.2 nullCrypto
      (fun _ _ _ => BaseSignatureChecker) stakeFiles [stakeTip] coinstake 0x1f00ffff emptyProof proof'
      (List.IsChain.singleton stakeTip) accepted
    cases first
    cases read
    exact ⟨proof',accepted,outside stakeTip (by rw [show (nStakeMinConfirmations - 1).toNat = 24 from rfl]; simp)⟩

end Qtum.Pos
