import Mathlib.Data.Nat.Bitwise
import Qtum.Chain.VersionBits

/-! The BIP9 deployments: `VersionBitsConditionChecker` and `VersionBitsState`
of `versionbits.cpp`, with one cache a deployment, and `ComputeBlockVersion`
of `main.cpp`, the version a new block is mined with. On a chain that keeps
the time rule, with each deployment's start time no later than its timeout
and with distinct bits below the top three, the version it computes meets
the condition of exactly those deployments that are started or locked in. -/
namespace Qtum.VersionBits
open Qtum.Tree CBlockIndex ThresholdState ThresholdConditionChecker

def VERSIONBITS_TOP_BITS : Nat := 0x20000000

def VERSIONBITS_TOP_MASK : Nat := 0xE0000000

def VERSIONBITS_NUM_BITS : Nat := 29

inductive DeploymentPos
  | DEPLOYMENT_TESTDUMMY
  | DEPLOYMENT_CSV
  | DEPLOYMENT_SEGWIT
deriving DecidableEq, Repr

open DeploymentPos

structure BIP9Deployment where
  bit : Nat
  nStartTime : Int
  nTimeout : Int

/-- What the threshold logic reads of `Consensus::Params`; the confirmation
window has a block at least. -/
structure Params where
  nRuleChangeActivationThreshold : Nat
  nMinerConfirmationWindow : Nat
  vDeployments : DeploymentPos → BIP9Deployment
  window_pos : 0 < nMinerConfirmationWindow

/-- `Mask`: `((uint32_t)1) << bit`. -/
def VersionBitsMask (params : Params) (pos : DeploymentPos) : Nat :=
  (1 <<< (params.vDeployments pos).bit) % 2 ^ 32

/-- The `int32_t` version is compared through its bits, as `uint32_t`. -/
def VersionBitsConditionChecker (params : Params) (id : DeploymentPos) : ThresholdConditionChecker where
  Period := params.nMinerConfirmationWindow
  Threshold := params.nRuleChangeActivationThreshold
  BeginTime := (params.vDeployments id).nStartTime
  EndTime := (params.vDeployments id).nTimeout
  Condition pindex :=
    (toUnsigned 32 pindex.nVersion &&& VERSIONBITS_TOP_MASK == VERSIONBITS_TOP_BITS) &&
      (toUnsigned 32 pindex.nVersion &&& VersionBitsMask params id != 0)
  period_pos := params.window_pos

structure VersionBitsCache where
  caches : DeploymentPos → ThresholdConditionCache

def VersionBitsCache.Clear (_ : VersionBitsCache) : VersionBitsCache := ⟨fun _ _ => none⟩

def VersionBitsState (pindexPrev : Option CBlockIndex) (params : Params) (pos : DeploymentPos)
    (cache : VersionBitsCache) : Except Abort (ThresholdState × VersionBitsCache) := do
  let (state,caches) ← (VersionBitsConditionChecker params pos).GetStateFor pindexPrev (cache.caches pos)
  pure (state,⟨Function.update cache.caches pos caches⟩)

/-- One round of `ComputeBlockVersion`'s loop: the deployment's bit is set when
it is started or locked in. -/
def versionStep (pindexPrev : Option CBlockIndex) (params : Params) :
    Nat × VersionBitsCache → DeploymentPos → Except Abort (Nat × VersionBitsCache)
  | (nVersion,cache), i => do
    let (state,cache) ← VersionBitsState pindexPrev params i cache
    pure (if state = THRESHOLD_LOCKED_IN ∨ state = THRESHOLD_STARTED then nVersion ||| VersionBitsMask params i
      else nVersion,cache)

/-- The loop runs over the deployments in their order; `nVersion` is kept as
the bits of the `int32_t`. -/
def ComputeBlockVersion (pindexPrev : Option CBlockIndex) (params : Params) (cache : VersionBitsCache) :
    Except Abort (Int × VersionBitsCache) := do
  let (nVersion,cache) ←
    [DEPLOYMENT_TESTDUMMY,DEPLOYMENT_CSV,DEPLOYMENT_SEGWIT].foldlM (versionStep pindexPrev params)
      (VERSIONBITS_TOP_BITS,cache)
  pure (toSigned 32 nVersion,cache)

/-! ### The states behind the version -/

/-- Every deployment's cache is consistent with its state. -/
def VersionBitsCache.Consistent (params : Params) (cache : VersionBitsCache) : Prop :=
  ∀ pos, (VersionBitsConditionChecker params pos).Consistent (cache.caches pos)

/-- Whether a deployment asks blocks after `pindexPrev` to signal: started or
locked in. -/
def signals (params : Params) (pindexPrev : Option CBlockIndex) (pos : DeploymentPos) : Bool :=
  match (VersionBitsConditionChecker params pos).bip9State pindexPrev with
  | THRESHOLD_STARTED | THRESHOLD_LOCKED_IN => true
  | _ => false

section

variable {params : Params} {pindexPrev : Option CBlockIndex}

theorem VersionBitsState_bip9State (ordered : ∀ index, pindexPrev = some index → index.TimeOrdered)
    {pos : DeploymentPos} (timely : (params.vDeployments pos).nStartTime ≤ (params.vDeployments pos).nTimeout)
    {cache : VersionBitsCache} (consistent : cache.Consistent params) :
    ∃ cache', VersionBitsState pindexPrev params pos cache =
      .ok ((VersionBitsConditionChecker params pos).bip9State pindexPrev,cache') ∧ cache'.Consistent params := by
  obtain ⟨caches,answered,updated⟩ := GetStateFor_bip9State timely pindexPrev ordered (consistent pos)
  refine ⟨⟨Function.update cache.caches pos caches⟩,?_,?_⟩
  · rw [VersionBitsState,answered,Abort.ok_bind]
    rfl
  · intro other
    by_cases same : other = pos
    · subst same
      simpa only [Function.update_self] using updated
    · simpa only [Function.update_of_ne same] using consistent other

theorem foldlM_versionStep (ordered : ∀ index, pindexPrev = some index → index.TimeOrdered)
    (timely : ∀ pos, (params.vDeployments pos).nStartTime ≤ (params.vDeployments pos).nTimeout) :
    ∀ (positions : List DeploymentPos) (nVersion : Nat) {cache : VersionBitsCache}, cache.Consistent params →
      ∃ cache', positions.foldlM (versionStep pindexPrev params) (nVersion,cache) =
        .ok (positions.foldl (fun nVersion i =>
          if signals params pindexPrev i then nVersion ||| VersionBitsMask params i else nVersion) nVersion,cache') ∧
        cache'.Consistent params
  | [], nVersion, cache, consistent => ⟨cache,rfl,consistent⟩
  | i :: positions, nVersion, cache, consistent => by
    obtain ⟨cache',answered,consistent'⟩ := VersionBitsState_bip9State ordered (timely i) consistent
    have step : versionStep pindexPrev params (nVersion,cache) i =
        .ok (if signals params pindexPrev i then nVersion ||| VersionBitsMask params i else nVersion,cache') := by
      rw [versionStep,answered,Abort.ok_bind]
      unfold signals
      cases (VersionBitsConditionChecker params i).bip9State pindexPrev <;> rfl
    rw [List.foldlM_cons,step,Abort.ok_bind,List.foldl_cons]
    exact foldlM_versionStep ordered timely positions _ consistent'

end

/-! ### The bits of the version -/

theorem VersionBitsMask_eq {params : Params} {pos : DeploymentPos} (small : (params.vDeployments pos).bit < 32) :
    VersionBitsMask params pos = 2 ^ (params.vDeployments pos).bit := by
  rw [VersionBitsMask,Nat.one_shiftLeft,Nat.mod_eq_of_lt (Nat.pow_lt_pow_right (by decide) small)]

theorem testBit_foldl_masks (params : Params) (pindexPrev : Option CBlockIndex)
    (small : ∀ pos, (params.vDeployments pos).bit < 32) :
    ∀ (positions : List DeploymentPos) (nVersion k : Nat),
      (positions.foldl (fun nVersion i =>
        if signals params pindexPrev i then nVersion ||| VersionBitsMask params i else nVersion) nVersion).testBit k =
      (nVersion.testBit k || positions.any fun i => signals params pindexPrev i && decide ((params.vDeployments i).bit = k))
  | [], nVersion, k => by simp
  | i :: positions, nVersion, k => by
    rw [List.foldl_cons,testBit_foldl_masks params pindexPrev small positions,List.any_cons]
    by_cases signalling : signals params pindexPrev i
    · rw [if_pos signalling,Nat.testBit_or,VersionBitsMask_eq (small i),Nat.testBit_two_pow,signalling]
      simp only [Bool.true_and,Bool.or_assoc]
    · rw [if_neg signalling]
      simp [signalling]

theorem testBit_VERSIONBITS_TOP_MASK (k : Nat) :
    VERSIONBITS_TOP_MASK.testBit k = (decide (k = 29) || decide (k = 30) || decide (k = 31)) := by
  rw [show VERSIONBITS_TOP_MASK = 2 ^ 29 ||| 2 ^ 30 ||| 2 ^ 31 by decide,Nat.testBit_or,Nat.testBit_or,
    Nat.testBit_two_pow,Nat.testBit_two_pow,Nat.testBit_two_pow]
  simp only [eq_comm]

/-- A version whose bits from `29` up are the top bits is in the versionbits
scheme, and carries a deployment's mask exactly when it has its bit. -/
theorem Condition_of_testBit {params : Params} {version : Nat} (pos : DeploymentPos)
    (low : (params.vDeployments pos).bit < VERSIONBITS_NUM_BITS)
    (top : ∀ k, VERSIONBITS_NUM_BITS ≤ k → version.testBit k = decide (29 = k))
    {block : CBlockIndex} (read : toUnsigned 32 block.nVersion = version) :
    (VersionBitsConditionChecker params pos).Condition block = version.testBit (params.vDeployments pos).bit := by
  have masked : version &&& VERSIONBITS_TOP_MASK = VERSIONBITS_TOP_BITS := by
    apply Nat.eq_of_testBit_eq
    intro k
    rw [Nat.testBit_and,testBit_VERSIONBITS_TOP_MASK,show VERSIONBITS_TOP_BITS = 2 ^ 29 from rfl,Nat.testBit_two_pow]
    by_cases below : k < 29
    · simp only [show ¬ k = 29 by omega,show ¬ k = 30 by omega,show ¬ k = 31 by omega,show ¬ 29 = k by omega,
        decide_false,Bool.or_false,Bool.and_false]
    · rw [top k (by simp only [VERSIONBITS_NUM_BITS]; omega)]
      by_cases at29 : k = 29
      · subst at29
        rfl
      · simp only [Ne.symm at29,at29,decide_false,Bool.false_and]
  have small : (params.vDeployments pos).bit < 32 := by
    have := low
    simp only [VERSIONBITS_NUM_BITS] at this
    omega
  simp only [VersionBitsConditionChecker,read,masked,beq_self_eq_true,Bool.true_and,VersionBitsMask_eq small,
    Nat.and_two_pow]
  cases version.testBit (params.vDeployments pos).bit <;> simp

/-- The version `ComputeBlockVersion` mines a block with meets the condition of
exactly the deployments that are started or locked in for the blocks after
`pindexPrev`, when the deployments have distinct bits below the top three and
the chain keeps the time rule; the caches stay consistent. -/
theorem ComputeBlockVersion_signals (params : Params) (pindexPrev : Option CBlockIndex)
    (ordered : ∀ index, pindexPrev = some index → index.TimeOrdered)
    (timely : ∀ pos, (params.vDeployments pos).nStartTime ≤ (params.vDeployments pos).nTimeout)
    (distinct : ∀ i j, (params.vDeployments i).bit = (params.vDeployments j).bit → i = j)
    (low : ∀ pos, (params.vDeployments pos).bit < VERSIONBITS_NUM_BITS)
    {cache : VersionBitsCache} (consistent : cache.Consistent params) :
    ∃ nVersion cache', ComputeBlockVersion pindexPrev params cache = .ok (nVersion,cache') ∧
      cache'.Consistent params ∧ ∀ pos (block : CBlockIndex), block.nVersion = nVersion →
        (VersionBitsConditionChecker params pos).Condition block = signals params pindexPrev pos := by
  have small : ∀ pos, (params.vDeployments pos).bit < 32 := by
    intro pos
    have := low pos
    simp only [VERSIONBITS_NUM_BITS] at this
    omega
  obtain ⟨cache',looped,consistent'⟩ := foldlM_versionStep ordered timely
    [DEPLOYMENT_TESTDUMMY,DEPLOYMENT_CSV,DEPLOYMENT_SEGWIT] VERSIONBITS_TOP_BITS consistent
  set version := [DEPLOYMENT_TESTDUMMY,DEPLOYMENT_CSV,DEPLOYMENT_SEGWIT].foldl (fun nVersion i =>
    if signals params pindexPrev i then nVersion ||| VersionBitsMask params i else nVersion) VERSIONBITS_TOP_BITS
    with versionDef
  have bits : ∀ k, version.testBit k = (decide (29 = k) || [DEPLOYMENT_TESTDUMMY,DEPLOYMENT_CSV,DEPLOYMENT_SEGWIT].any
      fun i => signals params pindexPrev i && decide ((params.vDeployments i).bit = k)) := by
    intro k
    rw [versionDef,testBit_foldl_masks params pindexPrev small,show VERSIONBITS_TOP_BITS = 2 ^ 29 from rfl,
      Nat.testBit_two_pow]
  -- above the deployments' bits only the top bit is set
  have top : ∀ k, VERSIONBITS_NUM_BITS ≤ k → version.testBit k = decide (29 = k) := by
    intro k above
    have unsignalled : ([DEPLOYMENT_TESTDUMMY,DEPLOYMENT_CSV,DEPLOYMENT_SEGWIT].any
        fun i => signals params pindexPrev i && decide ((params.vDeployments i).bit = k)) = false := by
      rw [List.any_eq_false]
      intro i _
      have := low i
      simp only [VERSIONBITS_NUM_BITS] at this above
      simp only [Bool.and_eq_true,decide_eq_true_eq,not_and]
      intro _
      omega
    rw [bits k,unsignalled,Bool.or_false]
  have fits : version < 2 ^ 32 := by
    apply Nat.lt_pow_two_of_testBit version
    intro k above
    rw [top k (by simp only [VERSIONBITS_NUM_BITS]; omega)]
    simp only [decide_eq_false_iff_not]
    omega
  refine ⟨toSigned 32 version,cache',?_,consistent',?_⟩
  · rw [ComputeBlockVersion,looped,Abort.ok_bind]
    rfl
  · intro pos block same
    have read : toUnsigned 32 block.nVersion = version := by rw [same,toUnsigned_toSigned fits]
    have notTop : decide (29 = (params.vDeployments pos).bit) = false := by
      have := low pos
      simp only [VERSIONBITS_NUM_BITS] at this
      simp only [decide_eq_false_iff_not]
      omega
    have sameBit : ∀ i, decide ((params.vDeployments i).bit = (params.vDeployments pos).bit) = decide (i = pos) :=
      fun i => decide_eq_decide.mpr ⟨distinct i pos,fun equal => equal ▸ rfl⟩
    rw [Condition_of_testBit pos (low pos) top read,bits,notTop,Bool.false_or]
    simp only [sameBit]
    cases pos <;> simp


/-- Periods of one block; the test deployment running, the CSV one timed out
at once, the SegWit one not yet started. -/
def exampleParams : Params where
  nRuleChangeActivationThreshold := 1
  nMinerConfirmationWindow := 1
  vDeployments
    | DEPLOYMENT_TESTDUMMY => ⟨28,0,10⟩
    | DEPLOYMENT_CSV => ⟨0,0,0⟩
    | DEPLOYMENT_SEGWIT => ⟨1,100,200⟩
  window_pos := Nat.one_pos

theorem ComputeBlockVersion_signals_exampleParams :
    signals exampleParams (some (.genesis (Blob.null 32) 0 1)) DEPLOYMENT_TESTDUMMY = true ∧
      signals exampleParams (some (.genesis (Blob.null 32) 0 1)) DEPLOYMENT_CSV = false ∧
      ∃ nVersion cache', ComputeBlockVersion (some (.genesis (Blob.null 32) 0 1)) exampleParams ⟨fun _ _ => none⟩ = .ok (nVersion,cache') ∧
        cache'.Consistent exampleParams ∧ ∀ pos (block : CBlockIndex), block.nVersion = nVersion →
          (VersionBitsConditionChecker exampleParams pos).Condition block = signals exampleParams (some (.genesis (Blob.null 32) 0 1)) pos :=
  ⟨by decide,by decide,ComputeBlockVersion_signals exampleParams _ (fun _ found => by cases found; trivial)
    (fun pos => by cases pos <;> decide) (fun i j => by cases i <;> cases j <;> decide)
    (fun pos => by cases pos <;> decide) (fun _ _ _ held => nomatch held)⟩

end Qtum.VersionBits
