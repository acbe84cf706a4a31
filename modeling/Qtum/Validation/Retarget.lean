import Qtum.Arith.Compact
import Qtum.Primitives.Blob

/-! The target of the next block, `GetLastBlockIndex` and
`GetNextTargetRequired` of `pow.cpp`. A proof-of-stake block takes the target
of the last proof-of-stake block and moves it toward the target spacing:
`bnNew *= (nInterval - 1) * nTargetSpacing + 2 * nActualSpacing`, then
`bnNew /= (nInterval + 1) * nTargetSpacing`, in the 256-bit arithmetic of
`base_uint`. The multiplier goes to `operator*=(uint32_t)`, whose product is
taken modulo `2 ^ 256`. Below the limit of main and test, `2 ^ 240 - 1`, the
product never reaches `2 ^ 256`; below the limit of regtest, `2 ^ 255 - 1`, it
does after a slow block, and the retarget then gives the wrapped quotient. -/
namespace Qtum.Pow

open base_uint

/-- What the retarget reads of `CBlockIndex`; `pprev` is the next entry of the
list the index heads. -/
structure CBlockIndex where
  nTime : UInt32
  nBits : UInt32
  nFlags : UInt32
  deriving DecidableEq, Repr

namespace CBlockIndex

def BLOCK_PROOF_OF_STAKE : UInt32 := (1 : UInt32) <<< 0

def GetBlockTime (index : CBlockIndex) : Int := index.nTime.toNat

def IsProofOfStake (index : CBlockIndex) : Bool := index.nFlags &&& BLOCK_PROOF_OF_STAKE != 0

end CBlockIndex

/-- `GetLastBlockIndex`: back from `pindex` to the first block of the kind
asked for, or to the genesis block. -/
def GetLastBlockIndex : List CBlockIndex → Bool → List CBlockIndex
  | [], _ => []
  | [index], _ => [index]
  | index :: pprev :: rest, fProofOfStake =>
    if index.IsProofOfStake != fProofOfStake then GetLastBlockIndex (pprev :: rest) fProofOfStake
    else index :: pprev :: rest

/-- `GetLastBlockIndex` stops at an entry of the chain it walks: it returns the
chain from some depth on, short of its end where the chain is not empty. -/
theorem GetLastBlockIndex_drop (fProofOfStake : Bool) : ∀ chain : List CBlockIndex,
    ∃ steps, GetLastBlockIndex chain fProofOfStake = chain.drop steps ∧ (chain ≠ [] → steps < chain.length)
  | [] => ⟨0,rfl,fun nonempty => absurd rfl nonempty⟩
  | [_] => ⟨0,rfl,fun _ => Nat.one_pos⟩
  | index :: pprev :: rest => by
    by_cases other : (index.IsProofOfStake != fProofOfStake) = true
    · obtain ⟨steps,found,within⟩ := GetLastBlockIndex_drop fProofOfStake (pprev :: rest)
      have shorter := within (List.cons_ne_nil _ _)
      refine ⟨steps + 1,?_,fun _ => ?_⟩
      · rw [GetLastBlockIndex,if_pos other,found,List.drop_succ_cons]
      · simp only [List.length_cons] at shorter ⊢
        omega
    · refine ⟨0,?_,fun _ => by simp⟩
      rw [GetLastBlockIndex,if_neg other,List.drop_zero]

/-- Where `GetLastBlockIndex` stops above the last entry, it stops at an entry
of the kind asked for. -/
theorem GetLastBlockIndex_kind {fProofOfStake : Bool} : ∀ {chain : List CBlockIndex} {last next : CBlockIndex}
    {rest : List CBlockIndex}, GetLastBlockIndex chain fProofOfStake = last :: next :: rest →
      last.IsProofOfStake = fProofOfStake
  | [], _, _, _, found => by cases found
  | [_], _, _, _, found => by cases found
  | index :: pprev :: more, _, _, _, found => by
    rw [GetLastBlockIndex] at found
    split_ifs at found with other
    · exact GetLastBlockIndex_kind found
    · cases found
      simpa using other

theorem ne_nil_of_GetLastBlockIndex {fProofOfStake : Bool} {chain : List CBlockIndex} {last : CBlockIndex}
    {rest : List CBlockIndex} (found : GetLastBlockIndex chain fProofOfStake = last :: rest) : chain ≠ [] := by
  rintro rfl
  cases found

/-- What `GetNextTargetRequired` reads of `Consensus::Params`, the limits as
`UintToArith256` gives them. -/
structure RetargetParams where
  powLimit : arith_uint256
  posLimit : arith_uint256
  fPowAllowMinDifficultyBlocks : Bool
  fPowNoRetargeting : Bool
  nTargetSpacing : Int
  nTargetTimespan : Int

/-- The result of an `int64_t` operation, undefined where the type cannot hold it. -/
def checkedInt64 (value : Int) : Except Abort Int :=
  if FitsInt64 value then .ok value else .error .overflow

/-- `a / b` on `int64_t`: rounded toward zero, undefined for a zero divisor. -/
def divInt64 (a b : Int) : Except Abort Int :=
  if b = 0 then .error .overflow else checkedInt64 (a.tdiv b)

/-- `nActualSpacing`: the spacing of the last two blocks of the kind, a
negative one replaced by the target spacing and any held to ten times it. -/
def actualSpacing (nTargetSpacing : Int) (pindexPrev pindexPrevPrev : CBlockIndex) : Except Abort Int := do
  -- two `uint32_t` times: the difference fits
  let nActualSpacing := pindexPrev.GetBlockTime - pindexPrevPrev.GetBlockTime
  let nActualSpacing := if nActualSpacing < 0 then nTargetSpacing else nActualSpacing
  let tenSpacings ← checkedInt64 (nTargetSpacing * 10)
  pure (if nActualSpacing > tenSpacings then tenSpacings else nActualSpacing)

/-- The `int64_t` factor `bnNew` is multiplied by and the divisor it is then
divided by. -/
def retargetFactors (nTargetSpacing nTargetTimespan nActualSpacing : Int) : Except Abort (Int × Int) := do
  let nInterval ← divInt64 nTargetTimespan nTargetSpacing
  let below ← checkedInt64 (nInterval - 1)
  let weighted ← checkedInt64 (below * nTargetSpacing)
  let weighted ← checkedInt64 (weighted + nActualSpacing)
  let multiplier ← checkedInt64 (weighted + nActualSpacing)
  let above ← checkedInt64 (nInterval + 1)
  let divisor ← checkedInt64 (above * nTargetSpacing)
  pure (multiplier,divisor)

/-- The 256-bit part of the retarget: `bnNew *= multiplier`, where an
`int64_t` argument selects `operator*=(uint32_t)` by a standard conversion;
`bnNew /= divisor` through `base_uint(uint64_t)`; then the limit in place of
a zero target or one above it. -/
def scaleTarget (bnNew bnTargetLimit : arith_uint256) (multiplier divisor : Int) : Except Abort UInt32 := do
  let bnNew := bnNew.mulWord (UInt32.ofInt multiplier)
  let bnNew ← match bnNew.divide (ofUInt64 (UInt64.ofInt divisor)) with
    | .ok quotient => pure quotient
    | .error _ => throw .exception
  let bnNew := if bnNew.CompareTo (ofUInt64 0) ≤ 0 || bnNew.CompareTo bnTargetLimit > 0 then bnTargetLimit else bnNew
  bnNew.GetCompact false

/-- The retarget of `GetNextTargetRequired` once the last two blocks of the
kind are found. -/
def nextTarget (consensusParams : RetargetParams) (bnTargetLimit : arith_uint256)
    (pindexPrev pindexPrevPrev : CBlockIndex) : Except Abort UInt32 := do
  let nActualSpacing ← actualSpacing consensusParams.nTargetSpacing pindexPrev pindexPrevPrev
  let (multiplier,divisor) ←
    retargetFactors consensusParams.nTargetSpacing consensusParams.nTargetTimespan nActualSpacing
  scaleTarget (arith_uint256.SetCompact pindexPrev.nBits).1 bnTargetLimit multiplier divisor

/-- `GetNextTargetRequired(pindexLast, fProofOfStake)` with
`Params().GetConsensus()` the given parameters. -/
def GetNextTargetRequired (consensusParams : RetargetParams) (pindexLast : List CBlockIndex) (fProofOfStake : Bool) :
    Except Abort UInt32 :=
  let bnTargetLimit := if fProofOfStake then consensusParams.posLimit else consensusParams.powLimit
  if consensusParams.fPowNoRetargeting && !fProofOfStake then
    match pindexLast with
    | [] => .error .nullDereference
    | last :: _ => .ok last.nBits
  else if consensusParams.fPowAllowMinDifficultyBlocks && !fProofOfStake then bnTargetLimit.GetCompact false
  else match pindexLast with
    -- genesis block
    | [] => bnTargetLimit.GetCompact false
    | _ :: _ =>
      match GetLastBlockIndex pindexLast fProofOfStake with
      | [] => .error .nullDereference
      -- first block
      | [_] => bnTargetLimit.GetCompact false
      | pindexPrev :: pprev@(_ :: _) =>
        match GetLastBlockIndex pprev fProofOfStake with
        | [] => .error .nullDereference
        -- second block
        | [_] => bnTargetLimit.GetCompact false
        | pindexPrevPrev :: _ :: _ => nextTarget consensusParams bnTargetLimit pindexPrev pindexPrevPrev

/-! ## The networks -/

/-- `UintToArith256(uint256S(...))` of a limit with `top` in its top 32 bits
and every bit below them set. -/
def limitBelow (top : UInt32) : arith_uint256 := ⟨List.replicate 7 0xffffffff ++ [top],rfl⟩

inductive Network
  | main
  | testnet
  | regtest
  deriving DecidableEq, Repr

/-- The consensus parameters of `CMainParams`, `CTestNetParams` and
`CRegTestParams`: `0000ffff...` and `7fff...` as limits, 64 s between blocks
and 16 minutes as the timespan. -/
def Network.consensus : Network → RetargetParams
  | .main => ⟨limitBelow 0x0000ffff,limitBelow 0x0000ffff,false,true,64,16 * 60⟩
  | .testnet => ⟨limitBelow 0x0000ffff,limitBelow 0x0000ffff,true,true,64,16 * 60⟩
  | .regtest => ⟨limitBelow 0x7fffffff,limitBelow 0x7fffffff,true,true,64,16 * 60⟩

theorem val_limitBelow (top : UInt32) : (limitBelow top).val = 2 ^ 224 * (top.toNat + 1) - 1 := by
  have ones : Limbs.value (List.replicate 7 0xffffffff) = 2 ^ 224 - 1 := by
    simp [List.replicate_succ]
  rw [val,limitBelow,Limbs.value_append,ones,List.length_replicate]
  simp only [Limbs.value_cons,Limbs.value_nil]
  omega

/-! ## The retarget -/

/-- The spacing the retarget is meant to use: a negative one replaced by the
target spacing, and any held to ten times it. -/
def clampedSpacing (nTargetSpacing spacing : Int) : Int :=
  if spacing < 0 then nTargetSpacing else min spacing (10 * nTargetSpacing)

/-- The target the retarget keeps: the quotient, or the limit in place of a
zero quotient or one above the limit. -/
def selectLimit (limit quotient : Nat) : Nat := if quotient = 0 ∨ limit < quotient then limit else quotient

/-- `(nInterval - 1) * nTargetSpacing + 2 * nActualSpacing` with the 64 s
spacing and the interval of 15 blocks that every network sets. -/
def networkFactor (pindexPrev pindexPrevPrev : CBlockIndex) : Nat :=
  (15 - 1) * 64 + 2 * (clampedSpacing 64 (pindexPrev.GetBlockTime - pindexPrevPrev.GetBlockTime)).toNat

theorem clampedSpacing_range (spacing : Int) : 0 ≤ clampedSpacing 64 spacing ∧ clampedSpacing 64 spacing ≤ 640 := by
  unfold clampedSpacing
  split_ifs <;> omega

theorem networkFactor_le (pindexPrev pindexPrevPrev : CBlockIndex) : networkFactor pindexPrev pindexPrevPrev ≤ 2176 := by
  have range := clampedSpacing_range (pindexPrev.GetBlockTime - pindexPrevPrev.GetBlockTime)
  unfold networkFactor
  omega

theorem checkedInt64_ok {value : Int} (fits : FitsInt64 value) : checkedInt64 value = .ok value := if_pos fits

theorem actualSpacing_eq (nTargetSpacing : Int) (positive : 0 ≤ nTargetSpacing) (fits : FitsInt64 (nTargetSpacing * 10))
    (pindexPrev pindexPrevPrev : CBlockIndex) :
    actualSpacing nTargetSpacing pindexPrev pindexPrevPrev =
      .ok (clampedSpacing nTargetSpacing (pindexPrev.GetBlockTime - pindexPrevPrev.GetBlockTime)) := by
  simp only [actualSpacing,checkedInt64_ok fits,clampedSpacing,Abort.ok_bind]
  congr 1
  generalize pindexPrev.GetBlockTime - pindexPrevPrev.GetBlockTime = spacing
  split_ifs <;> omega

/-- With the spacing and timespan of every network, the factors are
`14 * 64 + 2 * nActualSpacing` and `16 * 64`, and nothing overflows. -/
theorem retargetFactors_eq {nActualSpacing : Int} (range : 0 ≤ nActualSpacing ∧ nActualSpacing ≤ 640) :
    retargetFactors 64 (16 * 60) nActualSpacing = .ok ((15 - 1) * 64 + 2 * nActualSpacing,(15 + 1) * 64) := by
  have interval : divInt64 (16 * 60) 64 = .ok 15 := by decide
  have small : ∀ value : Int, -2 ^ 62 ≤ value → value ≤ 2 ^ 62 → checkedInt64 value = .ok value :=
    fun value lower upper => checkedInt64_ok ⟨by unfold INT64_MIN; omega,by unfold INT64_MAX; omega⟩
  -- each intermediate value is far inside `int64_t`
  simp (disch := omega) only [retargetFactors,interval,small,Abort.ok_bind]
  congr 2
  omega

private theorem toNat_ofInt32 {x : Int} (range : 0 ≤ x ∧ x < 2 ^ 32) : (UInt32.ofInt x).toNat = x.toNat := by
  rw [UInt32.ofInt,UInt32.toNat_ofNat',Int.emod_eq_of_lt range.1 range.2]
  omega

theorem toNat_ofInt64 {x : Int} (range : 0 ≤ x ∧ x < 2 ^ 64) : (UInt64.ofInt x).toNat = x.toNat := by
  rw [UInt64.ofInt,UInt64.toNat_ofNat',Int.emod_eq_of_lt range.1 range.2]
  omega

/-- The 256-bit part computes the wrapped product, divides it exactly and
keeps the limit in place of a zero or too large quotient. -/
theorem scaleTarget_eq (bnNew bnTargetLimit : arith_uint256) (multiplier divisor : Int)
    (factor : 0 ≤ multiplier ∧ multiplier < 2 ^ 32) (positive : 0 < divisor ∧ divisor < 2 ^ 64) :
    ∃ nCompact, scaleTarget bnNew bnTargetLimit multiplier divisor = .ok nCompact ∧
      nCompact.toNat =
        compactForm (selectLimit bnTargetLimit.val (bnNew.val * multiplier.toNat % 2 ^ 256 / divisor.toNat)) := by
  have product : (bnNew.mulWord (UInt32.ofInt multiplier)).val = bnNew.val * multiplier.toNat % 2 ^ 256 := by
    rw [val_mulWord,toNat_ofInt32 factor]
  have divisorVal : (ofUInt64 (UInt64.ofInt divisor) : arith_uint256).val = divisor.toNat := by
    rw [val_ofUInt64 _ (by decide),toNat_ofInt64 ⟨by omega,positive.2⟩]
  obtain ⟨quotient,divided,quotientVal⟩ : ∃ quotient,
      (bnNew.mulWord (UInt32.ofInt multiplier)).divide (ofUInt64 (UInt64.ofInt divisor)) = .ok quotient ∧
        quotient.val = bnNew.val * multiplier.toNat % 2 ^ 256 / divisor.toNat := by
    have exact := val_divide (bnNew.mulWord (UInt32.ofInt multiplier)) (ofUInt64 (UInt64.ofInt divisor))
    rw [divisorVal,if_neg (by omega),product] at exact
    cases result : (bnNew.mulWord (UInt32.ofInt multiplier)).divide (ofUInt64 (UInt64.ofInt divisor)) with
    | error failure => rw [result] at exact; cases exact
    | ok quotient =>
      rw [result] at exact
      exact ⟨quotient,rfl,Except.ok.inj exact⟩
  -- the comparisons with zero and with the limit read the numbers
  have kept : (if quotient.CompareTo (ofUInt64 0) ≤ 0 || quotient.CompareTo bnTargetLimit > 0 then bnTargetLimit
      else quotient).val = selectLimit bnTargetLimit.val quotient.val := by
    simp only [CompareTo_eq,val_zero,selectLimit]
    split_ifs <;> simp_all <;> omega
  obtain ⟨nCompact,compact,value⟩ := GetCompact_false
    (if quotient.CompareTo (ofUInt64 0) ≤ 0 || quotient.CompareTo bnTargetLimit > 0 then bnTargetLimit else quotient)
  refine ⟨nCompact,?_,?_⟩
  · simp only [scaleTarget,divided]
    exact compact
  · rw [value,kept,quotientVal]

/-- With the parameters of any network, the retarget is the compact form of the
quotient of the product wrapped modulo `2 ^ 256`, or of the limit. -/
theorem nextTarget_eq (network : Network) (bnTargetLimit : arith_uint256) (pindexPrev pindexPrevPrev : CBlockIndex) :
    ∃ nCompact, nextTarget network.consensus bnTargetLimit pindexPrev pindexPrevPrev = .ok nCompact ∧
      nCompact.toNat = compactForm (selectLimit bnTargetLimit.val
        ((arith_uint256.SetCompact pindexPrev.nBits).1.val * networkFactor pindexPrev pindexPrevPrev % 2 ^ 256 /
          ((15 + 1) * 64))) := by
  have spacing : network.consensus.nTargetSpacing = 64 := by cases network <;> rfl
  have timespan : network.consensus.nTargetTimespan = 16 * 60 := by cases network <;> rfl
  set a := clampedSpacing 64 (pindexPrev.GetBlockTime - pindexPrevPrev.GetBlockTime) with a_def
  have range : 0 ≤ a ∧ a ≤ 640 := clampedSpacing_range _
  have spaced := actualSpacing_eq 64 (by decide) ⟨by unfold INT64_MIN; omega,by unfold INT64_MAX; omega⟩
    pindexPrev pindexPrevPrev
  obtain ⟨nCompact,scaled,value⟩ := scaleTarget_eq (arith_uint256.SetCompact pindexPrev.nBits).1 bnTargetLimit
    ((15 - 1) * 64 + 2 * a) ((15 + 1) * 64) ⟨by omega,by omega⟩ ⟨by omega,by omega⟩
  have factor : ((15 - 1) * 64 + 2 * a).toNat = (15 - 1) * 64 + 2 * a.toNat := by omega
  refine ⟨nCompact,?_,?_⟩
  · rw [nextTarget,spacing,timespan,spaced,Abort.ok_bind,retargetFactors_eq range,Abort.ok_bind]
    exact scaled
  · rw [value,factor]
    rfl

/-- At the first block of its kind, where the walk back finds only the genesis
block, a proof-of-stake block's target is the compact form of `posLimit`. -/
theorem GetNextTargetRequired_first (consensusParams : RetargetParams) (pindexLast : List CBlockIndex)
    {pindexPrev : CBlockIndex} (prev : GetLastBlockIndex pindexLast true = [pindexPrev]) :
    GetNextTargetRequired consensusParams pindexLast true = consensusParams.posLimit.GetCompact false := by
  obtain ⟨last,earlier,rfl⟩ := List.exists_cons_of_ne_nil (ne_nil_of_GetLastBlockIndex prev)
  simp only [GetNextTargetRequired,prev,Bool.not_true,Bool.and_false]
  rfl

/-- At the second block of its kind the target is again the compact form of
`posLimit`. -/
theorem GetNextTargetRequired_second (consensusParams : RetargetParams) (pindexLast : List CBlockIndex)
    {pindexPrev pindexPrevPrev : CBlockIndex} {pprev : List CBlockIndex}
    (prev : GetLastBlockIndex pindexLast true = pindexPrev :: pprev) (first : pprev ≠ [])
    (prevPrev : GetLastBlockIndex pprev true = [pindexPrevPrev]) :
    GetNextTargetRequired consensusParams pindexLast true = consensusParams.posLimit.GetCompact false := by
  obtain ⟨last,earlier,rfl⟩ := List.exists_cons_of_ne_nil (ne_nil_of_GetLastBlockIndex prev)
  obtain ⟨next,pprev,rfl⟩ := List.exists_cons_of_ne_nil first
  simp only [GetNextTargetRequired,prev,prevPrev,Bool.not_true,Bool.and_false]
  rfl

/-- Past the second block of its kind, a proof-of-stake block's target is the
retarget of the last one, under `posLimit`. -/
theorem GetNextTargetRequired_retarget (consensusParams : RetargetParams) (pindexLast : List CBlockIndex)
    {pindexPrev pindexPrevPrev : CBlockIndex} {pprev rest : List CBlockIndex}
    (prev : GetLastBlockIndex pindexLast true = pindexPrev :: pprev) (first : pprev ≠ [])
    (prevPrev : GetLastBlockIndex pprev true = pindexPrevPrev :: rest) (second : rest ≠ []) :
    GetNextTargetRequired consensusParams pindexLast true =
      nextTarget consensusParams consensusParams.posLimit pindexPrev pindexPrevPrev := by
  obtain ⟨last,earlier,rfl⟩ := List.exists_cons_of_ne_nil (ne_nil_of_GetLastBlockIndex prev)
  obtain ⟨next,pprev,rfl⟩ := List.exists_cons_of_ne_nil first
  obtain ⟨genesis,rest,rfl⟩ := List.exists_cons_of_ne_nil second
  simp only [GetNextTargetRequired,prev,prevPrev,Bool.not_true,Bool.and_false]
  rfl

/-- The proof-of-stake target of every network past the second block of its
kind: the compact form of the quotient of `T * networkFactor`, taken modulo
`2 ^ 256`, or of `posLimit` in place of a zero quotient or one above it. Below
the limit of main and test, `2 ^ 240 - 1`, the product stays below `2 ^ 256`. -/
theorem GetNextTargetRequired_proofOfStake (network : Network) (pindexLast : List CBlockIndex)
    {pindexPrev pindexPrevPrev : CBlockIndex} {pprev rest : List CBlockIndex}
    (prev : GetLastBlockIndex pindexLast true = pindexPrev :: pprev) (first : pprev ≠ [])
    (prevPrev : GetLastBlockIndex pprev true = pindexPrevPrev :: rest) (second : rest ≠ [])
    (target : (arith_uint256.SetCompact pindexPrev.nBits).1.val ≤ network.consensus.posLimit.val) :
    ∃ nCompact, GetNextTargetRequired network.consensus pindexLast true = .ok nCompact ∧
      nCompact.toNat = compactForm (selectLimit network.consensus.posLimit.val
        ((arith_uint256.SetCompact pindexPrev.nBits).1.val * networkFactor pindexPrev pindexPrevPrev % 2 ^ 256 /
          ((15 + 1) * 64))) ∧
      (network ≠ .regtest →
        (arith_uint256.SetCompact pindexPrev.nBits).1.val * networkFactor pindexPrev pindexPrevPrev < 2 ^ 256) := by
  obtain ⟨nCompact,retarget,value⟩ := nextTarget_eq network network.consensus.posLimit pindexPrev pindexPrevPrev
  refine ⟨nCompact,?_,value,?_⟩
  · rw [GetNextTargetRequired_retarget network.consensus pindexLast prev first prevPrev second]
    exact retarget
  · intro notRegtest
    -- main and test share the limit `2 ^ 240 - 1`, and the factor is at most `2176 < 2 ^ 16`
    have limit : network.consensus.posLimit.val = 2 ^ 240 - 1 := by
      cases network with
      | main => rw [Network.consensus,val_limitBelow]; rfl
      | testnet => rw [Network.consensus,val_limitBelow]; rfl
      | regtest => exact absurd rfl notRegtest
    rw [limit] at target
    calc (arith_uint256.SetCompact pindexPrev.nBits).1.val * networkFactor pindexPrev pindexPrevPrev
        ≤ (2 ^ 240 - 1) * 2176 := Nat.mul_le_mul target (networkFactor_le pindexPrev pindexPrevPrev)
      _ < 2 ^ 256 := by norm_num

/-- Two proof-of-stake blocks 640 s apart at regtest's easiest target
`0x207fffff`, above a proof-of-work genesis block. -/
def slowRegtestChain : List CBlockIndex := [⟨640,0x207fffff,1⟩,⟨0,0x207fffff,1⟩,⟨0,0x207fffff,0⟩]

private theorem compactExponent_of_length {x k : Nat} (long : 4 ≤ k) (lower : 256 ^ (k - 1) ≤ x)
    (upper : x < 256 ^ k) (top : x / 256 ^ (k - 3) < 2 ^ 23) : compactExponent x = k := by
  have length := byteLength_eq (by omega) lower upper
  have bytes : topBytes x = x / 256 ^ (k - 3) := by rw [topBytes,length,if_neg (by omega)]
  rw [compactExponent,bytes,length,if_neg (by omega)]

theorem GetNextTargetRequired_regtest_wraps :
    (arith_uint256.SetCompact 0x207fffff).1.val ≤ Network.regtest.consensus.posLimit.val ∧
      2 ^ 256 ≤ (arith_uint256.SetCompact 0x207fffff).1.val * 2176 ∧
      ∃ nCompact, GetNextTargetRequired Network.regtest.consensus slowRegtestChain true = .ok nCompact ∧
        nCompact.toNat ≠ compactForm (selectLimit Network.regtest.consensus.posLimit.val
          ((arith_uint256.SetCompact 0x207fffff).1.val * 2176 / ((15 + 1) * 64))) := by
  have target : (arith_uint256.SetCompact 0x207fffff).1.val = 0x7fffff * 2 ^ 232 := by
    obtain ⟨value,-⟩ := SetCompact_spec 0x207fffff (m := 0x7fffff) (e := 32) (by norm_num) (by norm_num) rfl
    rw [value]
    norm_num
  have limit : Network.regtest.consensus.posLimit.val = 2 ^ 255 - 1 := by
    rw [Network.consensus,val_limitBelow]
    rfl
  have below : (arith_uint256.SetCompact 0x207fffff).1.val ≤ Network.regtest.consensus.posLimit.val := by
    rw [target,limit]
    norm_num
  have factor : networkFactor ⟨640,0x207fffff,1⟩ ⟨0,0x207fffff,1⟩ = 2176 := by decide
  obtain ⟨nCompact,result,value,-⟩ :=
    GetNextTargetRequired_proofOfStake .regtest slowRegtestChain rfl (by decide) rfl (by decide) below
  refine ⟨below,by rw [target]; norm_num,nCompact,result,?_⟩
  rw [value,factor,target,limit]
  -- the wrapped quotient has 31 bytes; the exact one is above the limit, whose form has 32
  have wrapped : 0x7fffff * 2 ^ 232 * 2176 % 2 ^ 256 / ((15 + 1) * 64) = 131055 * 2 ^ 229 := by norm_num
  have exact : 2 ^ 255 - 1 < 0x7fffff * 2 ^ 232 * 2176 / ((15 + 1) * 64) := by norm_num
  rw [wrapped,selectLimit,if_neg (by norm_num),selectLimit,if_pos (Or.inr exact)]
  intro same
  have exponents := congrArg (· / 2 ^ 24) same
  simp only [compactForm_div] at exponents
  rw [compactExponent_of_length (k := 31) (by norm_num) (by norm_num) (by norm_num) (by norm_num),
    compactExponent_of_length (k := 32) (by norm_num) (by norm_num) (by norm_num) (by norm_num)] at exponents
  omega

end Qtum.Pow
