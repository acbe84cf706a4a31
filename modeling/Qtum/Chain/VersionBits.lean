import Qtum.Library.Abort
import Qtum.Chain.Tree

/-! `GetStateFor` of `versionbits.cpp`: the BIP9 state of a deployment for
the blocks after `pindexPrev`. It walks back in steps of a period to a block
whose state the cache holds, or that lies before the start time, and then
forward through the rule of each period, recording every state it finds.
A block index is a term holding its parent; the cache maps blocks, and the
absence of one, to states. On chains that keep the header time rule and for
a start time no later than the timeout, every answer is the state that the
rule gives going forward from the genesis block, whatever the cache held
from earlier queries. -/
namespace Qtum.VersionBits
open Qtum.Tree

inductive ThresholdState
  | THRESHOLD_DEFINED
  | THRESHOLD_STARTED
  | THRESHOLD_LOCKED_IN
  | THRESHOLD_ACTIVE
  | THRESHOLD_FAILED
deriving DecidableEq, Repr

open ThresholdState CBlockIndex

/-- `ThresholdConditionCache`: states by block, `NULL` included. -/
abbrev ThresholdConditionCache := Option CBlockIndex → Option ThresholdState

/-- An `AbstractThresholdConditionChecker` by what its virtual methods return
for the chain's parameters; a period has at least one block. -/
structure ThresholdConditionChecker where
  Period : Nat
  Threshold : Int
  BeginTime : Int
  EndTime : Int
  Condition : CBlockIndex → Bool
  period_pos : 0 < Period

namespace ThresholdConditionChecker

variable (checker : ThresholdConditionChecker)

/-- The counting loop of a started period: `nPeriod` entries along `pprev`
from `pindexCount`, and how many of them meet the condition. -/
def countCondition : Nat → Option CBlockIndex → Int → Except Abort Int
  | 0, _, count => .ok count
  | _ + 1, none, _ => .error .nullDereference
  | i + 1, some pindexCount, count =>
    countCondition i pindexCount.pprev (if checker.Condition pindexCount then count + 1 else count)

/-- The body of the forward loop: the state of the next period from that of
the period ending at `pindexPrev`. -/
def nextState (state : ThresholdState) (pindexPrev : CBlockIndex) : Except Abort ThresholdState :=
  match state with
  | THRESHOLD_DEFINED =>
    .ok (if pindexPrev.GetMedianTimePast ≥ checker.EndTime then THRESHOLD_FAILED
      else if pindexPrev.GetMedianTimePast ≥ checker.BeginTime then THRESHOLD_STARTED
      else THRESHOLD_DEFINED)
  | THRESHOLD_STARTED =>
    if pindexPrev.GetMedianTimePast ≥ checker.EndTime then .ok THRESHOLD_FAILED
    else do
      let count ← checker.countCondition checker.Period (some pindexPrev) 0
      pure (if count ≥ checker.Threshold then THRESHOLD_LOCKED_IN else THRESHOLD_STARTED)
  | THRESHOLD_LOCKED_IN => .ok THRESHOLD_ACTIVE
  | THRESHOLD_FAILED => .ok THRESHOLD_FAILED
  | THRESHOLD_ACTIVE => .ok THRESHOLD_ACTIVE

/-- `pindexPrev->GetAncestor(pindexPrev->nHeight - nPeriod)`: the last block
of the period before. -/
def previousPeriod (pindexPrev : CBlockIndex) : Option CBlockIndex :=
  pindexPrev.GetAncestor (pindexPrev.nHeight - checker.Period)

end ThresholdConditionChecker


namespace ThresholdConditionChecker

variable (checker : ThresholdConditionChecker)

theorem depth_previousPeriod_lt (index : CBlockIndex) :
    depth (checker.previousPeriod index) < depth (some index) := by
  unfold previousPeriod GetAncestor
  split
  · simp [depth]
  · cases reached : index.back (index.nHeight - (((index.nHeight : Int) - checker.Period).toNat)) with
    | none => simp [depth]
    | some ancestor =>
      have heights := back_nHeight reached
      have positive := checker.period_pos
      simp only [depth]
      omega

/-- The walk back from `pindexPrev` to an entry whose state is known: in the
cache, `NULL`, or a block before the start time; `vToCompute` holds the
blocks passed. -/
def walkBack (cache : ThresholdConditionCache) (pindexPrev : Option CBlockIndex) (vToCompute : List CBlockIndex) :
    Option CBlockIndex × ThresholdConditionCache × List CBlockIndex :=
  match cache pindexPrev, pindexPrev with
  | some _, _ => (pindexPrev,cache,vToCompute)
  | none, none => (none,Function.update cache none (some THRESHOLD_DEFINED),vToCompute)
  | none, some index =>
    -- don't recompute down further: every earlier block is before the start time
    if index.GetMedianTimePast < checker.BeginTime then
      (some index,Function.update cache (some index) (some THRESHOLD_DEFINED),vToCompute)
    else walkBack cache (checker.previousPeriod index) (vToCompute ++ [index])
termination_by depth pindexPrev
decreasing_by exact checker.depth_previousPeriod_lt index

/-- The walk forward, taking `vToCompute` from its back: each block's state,
recorded in the cache. -/
def walkForward :
    ThresholdState → ThresholdConditionCache → List CBlockIndex → Except Abort (ThresholdState × ThresholdConditionCache)
  | state, cache, [] => .ok (state,cache)
  | state, cache, pindexPrev :: vToCompute => do
    let stateNext ← checker.nextState state pindexPrev
    walkForward stateNext (Function.update cache (some pindexPrev) (some stateNext)) vToCompute

/-- `pindexPrev->GetAncestor(pindexPrev->nHeight - ((pindexPrev->nHeight + 1) % nPeriod))`:
a block's state is that of the first block of its period. -/
def lastOfPeriod (pindexPrev : Option CBlockIndex) : Option CBlockIndex :=
  pindexPrev.bind fun index => index.GetAncestor (index.nHeight - ((index.nHeight + 1) % checker.Period : Nat))

def GetStateFor (pindexPrev : Option CBlockIndex) (cache : ThresholdConditionCache) :
    Except Abort (ThresholdState × ThresholdConditionCache) :=
  let (pindexPrev,cache,vToCompute) := checker.walkBack cache (checker.lastOfPeriod pindexPrev) []
  match cache pindexPrev with
  | none => .error .assertion
  | some state => checker.walkForward state cache vToCompute.reverse

end ThresholdConditionChecker


/-! ### The state going forward from the genesis block -/

theorem mod_add_one_cases (m : Nat) {P : Nat} (positive : 0 < P) :
    (m + 1) % P = m % P + 1 ∨ ((m + 1) % P = 0 ∧ m % P + 1 = P) := by
  have below := Nat.mod_lt m positive
  rw [← Nat.mod_add_mod]
  rcases Nat.lt_or_ge (m % P + 1) P with inside | full
  · exact Or.inl (Nat.mod_eq_of_lt inside)
  · have wraps : m % P + 1 = P := by omega
    rw [wraps,Nat.mod_self]
    exact Or.inr ⟨rfl,rfl⟩

namespace ThresholdConditionChecker

variable (checker : ThresholdConditionChecker)

/-- The last block of a period: the cache holds states for these and `NULL`. -/
def PeriodEnd (index : CBlockIndex) : Prop := (index.nHeight + 1) % checker.Period = 0

instance : DecidablePred checker.PeriodEnd := fun _ => inferInstanceAs (Decidable (_ = _))

/-- The rule of one period, as BIP9 gives it: the state of the next period
from `state`, that of the period ending at `pindexPrev`, with the signalling
blocks counted among the period's. -/
def transition (state : ThresholdState) (pindexPrev : CBlockIndex) : ThresholdState :=
  match state with
  | THRESHOLD_DEFINED =>
    if pindexPrev.GetMedianTimePast ≥ checker.EndTime then THRESHOLD_FAILED
    else if pindexPrev.GetMedianTimePast ≥ checker.BeginTime then THRESHOLD_STARTED
    else THRESHOLD_DEFINED
  | THRESHOLD_STARTED =>
    if pindexPrev.GetMedianTimePast ≥ checker.EndTime then THRESHOLD_FAILED
    else if checker.Threshold ≤ ((pindexPrev.chain.take checker.Period).countP checker.Condition : Int)
    then THRESHOLD_LOCKED_IN
    else THRESHOLD_STARTED
  | THRESHOLD_LOCKED_IN => THRESHOLD_ACTIVE
  | THRESHOLD_FAILED => THRESHOLD_FAILED
  | THRESHOLD_ACTIVE => THRESHOLD_ACTIVE

/-- The state after `index` from the state before it: the rule applies after
the last block of a period. -/
def atBlock (state : ThresholdState) (index : CBlockIndex) : ThresholdState :=
  if checker.PeriodEnd index then checker.transition state index else state

/-- The state for the blocks after `index`, going forward from the genesis
block. -/
def stateAfter : CBlockIndex → ThresholdState
  | genesis phashBlock nVersion nTime => checker.atBlock THRESHOLD_DEFINED (genesis phashBlock nVersion nTime)
  | .mk pprev phashBlock nVersion nTime => checker.atBlock (stateAfter pprev) (.mk pprev phashBlock nVersion nTime)

/-- The state for the blocks after `pindexPrev`: the genesis block's is
`THRESHOLD_DEFINED`. -/
def bip9State : Option CBlockIndex → ThresholdState
  | none => THRESHOLD_DEFINED
  | some index => checker.stateAfter index

theorem periodEnd_long {index : CBlockIndex} (atEnd : checker.PeriodEnd index) :
    checker.Period ≤ index.nHeight + 1 :=
  Nat.le_of_dvd (Nat.succ_pos _) (Nat.dvd_of_mod_eq_zero atEnd)

theorem lastOfPeriod_periodEnd {index : CBlockIndex} (atEnd : checker.PeriodEnd index) :
    checker.lastOfPeriod (some index) = some index := by
  rw [lastOfPeriod,Option.bind_some,show (index.nHeight + 1) % checker.Period = 0 from atEnd,show ((0 : Nat) : Int) = 0 from rfl,
    Int.sub_zero,GetAncestor_eq _ le_rfl,Nat.sub_self,back_zero]

theorem lastOfPeriod_genesis {phashBlock : uint256} {nVersion nTime : Int} (notEnd : ¬ checker.PeriodEnd (genesis phashBlock nVersion nTime)) :
    checker.lastOfPeriod (some (genesis phashBlock nVersion nTime)) = none := by
  have one : (0 + 1) % checker.Period = 1 := by
    rcases mod_add_one_cases 0 checker.period_pos with next | ⟨wraps,_⟩
    · rw [next,Nat.zero_mod]
    · exact absurd wraps notEnd
  rw [lastOfPeriod,Option.bind_some,GetAncestor_negative]
  rw [show (genesis phashBlock nVersion nTime).nHeight = 0 from rfl,one]
  decide

theorem lastOfPeriod_mk {pprev : CBlockIndex} {phashBlock : uint256} {nVersion nTime : Int} (notEnd : ¬ checker.PeriodEnd (.mk pprev phashBlock nVersion nTime)) :
    checker.lastOfPeriod (some (.mk pprev phashBlock nVersion nTime)) = checker.lastOfPeriod (some pprev) := by
  have next : (pprev.nHeight + 1 + 1) % checker.Period = (pprev.nHeight + 1) % checker.Period + 1 := by
    rcases mod_add_one_cases (pprev.nHeight + 1) checker.period_pos with next | ⟨wraps,_⟩
    · exact next
    · exact absurd wraps notEnd
  simp only [lastOfPeriod,Option.bind_some,nHeight_mk,next]
  rw [GetAncestor_mk _ _ _ _ (by omega)]
  congr 1
  omega

theorem previousPeriod_mk {pprev : CBlockIndex} {phashBlock : uint256} {nVersion nTime : Int} (atEnd : checker.PeriodEnd (.mk pprev phashBlock nVersion nTime)) :
    checker.previousPeriod (.mk pprev phashBlock nVersion nTime) = checker.lastOfPeriod (some pprev) := by
  have full : (pprev.nHeight + 1) % checker.Period + 1 = checker.Period := by
    rcases mod_add_one_cases (pprev.nHeight + 1) checker.period_pos with next | ⟨_,full⟩
    · exact absurd (next.symm.trans atEnd) (Nat.succ_ne_zero _)
    · exact full
  have positive := checker.period_pos
  simp only [previousPeriod,lastOfPeriod,Option.bind_some,nHeight_mk]
  rw [GetAncestor_mk _ _ _ _ (by omega)]
  congr 1
  omega

theorem previousPeriod_genesis (phashBlock : uint256) (nVersion nTime : Int) : checker.previousPeriod (genesis phashBlock nVersion nTime) = none :=
  GetAncestor_negative _ (by have := checker.period_pos; simp only [nHeight]; omega)

/-- A block's state is that of the last block of the period before it. -/
theorem bip9State_lastOfPeriod (key : Option CBlockIndex) :
    checker.bip9State (checker.lastOfPeriod key) = checker.bip9State key := by
  cases key with
  | none => rfl
  | some index =>
    induction index with
    | genesis phashBlock nVersion nTime =>
      by_cases atEnd : checker.PeriodEnd (genesis phashBlock nVersion nTime)
      · rw [lastOfPeriod_periodEnd _ atEnd]
      · rw [lastOfPeriod_genesis _ atEnd]
        simp only [bip9State,stateAfter,atBlock,if_neg atEnd]
    | mk pprev phashBlock nVersion nTime ih =>
      by_cases atEnd : checker.PeriodEnd (.mk pprev phashBlock nVersion nTime)
      · rw [lastOfPeriod_periodEnd _ atEnd]
      · rw [lastOfPeriod_mk _ atEnd,ih]
        simp only [bip9State,stateAfter,atBlock,if_neg atEnd]

/-- The state after the last block of a period follows from the state after
the last block of the period before, by the rule. -/
theorem stateAfter_periodEnd {index : CBlockIndex} (atEnd : checker.PeriodEnd index) :
    checker.stateAfter index = checker.transition (checker.bip9State (checker.previousPeriod index)) index := by
  cases index with
  | genesis phashBlock nVersion nTime =>
    rw [previousPeriod_genesis]
    simp only [stateAfter,atBlock,if_pos atEnd,bip9State]
  | mk pprev phashBlock nVersion nTime =>
    rw [previousPeriod_mk _ atEnd,bip9State_lastOfPeriod]
    simp only [stateAfter,atBlock,if_pos atEnd,bip9State]

/-- Whatever a period ending before the start time began with, it ends
`THRESHOLD_DEFINED`: the walk back stops there. -/
theorem stateAfter_early (timely : checker.BeginTime ≤ checker.EndTime) :
    ∀ {index : CBlockIndex}, index.TimeOrdered → index.GetMedianTimePast < checker.BeginTime →
      checker.stateAfter index = THRESHOLD_DEFINED := by
  have defined : ∀ index : CBlockIndex, index.GetMedianTimePast < checker.BeginTime →
      checker.atBlock THRESHOLD_DEFINED index = THRESHOLD_DEFINED := by
    intro index early
    have notFailed : ¬ index.GetMedianTimePast ≥ checker.EndTime := by omega
    have notStarted : ¬ index.GetMedianTimePast ≥ checker.BeginTime := by omega
    simp only [atBlock,transition,if_neg notFailed,if_neg notStarted,ite_self]
  intro index
  induction index with
  | genesis phashBlock nVersion nTime => exact fun _ early => defined _ early
  | mk pprev phashBlock nVersion nTime ih =>
    intro ordered early
    have before := ih ordered.2 (lt_of_le_of_lt (GetMedianTimePast_le_mk pprev phashBlock nVersion ordered.1) early)
    rw [stateAfter,before]
    exact defined _ early

theorem countCondition_eq : ∀ (steps : Nat) (index : CBlockIndex) (count : Int), steps ≤ index.nHeight + 1 →
    checker.countCondition steps (some index) count = .ok (count + ((index.chain.take steps).countP checker.Condition : Nat))
  | 0, _, count, _ => by simp [countCondition]
  | steps + 1, genesis phashBlock nVersion nTime, count, short => by
    obtain rfl : steps = 0 := by simp only [nHeight] at short; omega
    by_cases meets : checker.Condition (genesis phashBlock nVersion nTime) <;> simp [countCondition,chain,meets]
  | steps + 1, .mk pprev phashBlock nVersion nTime, count, short => by
    rw [countCondition,CBlockIndex.pprev,countCondition_eq steps pprev _ (by simp only [nHeight_mk] at short; omega)]
    by_cases meets : checker.Condition (.mk pprev phashBlock nVersion nTime)
    · simp only [chain,List.take_succ_cons,List.countP_cons,meets,if_true]
      push_cast
      congr 1
      omega
    · simp [chain,meets]

theorem nextState_eq (state : ThresholdState) {index : CBlockIndex} (long : checker.Period ≤ index.nHeight + 1) :
    checker.nextState state index = .ok (checker.transition state index) := by
  cases state
  case THRESHOLD_STARTED =>
    simp only [nextState,transition]
    split
    · rfl
    · rw [countCondition_eq _ _ _ _ long,Abort.ok_bind,Int.zero_add]
      rfl
  all_goals rfl

end ThresholdConditionChecker

/-! ### The cached walk -/

namespace ThresholdConditionChecker

variable (checker : ThresholdConditionChecker)

/-- Every state the cache holds is the state `bip9State` gives its entry. -/
def Consistent (cache : ThresholdConditionCache) : Prop :=
  ∀ key state, cache key = some state → checker.bip9State key = state

theorem consistent_empty : checker.Consistent fun _ => none := fun _ _ held => nomatch held

/-- `Climb start blocks top`: from `start`, each of `blocks` is the last block
of the period after the one before it, and `top` is where they end; the walk
forward takes `vToCompute` this way. -/
inductive Climb : Option CBlockIndex → List CBlockIndex → Option CBlockIndex → Prop
  | nil (key : Option CBlockIndex) : Climb key [] key
  | cons {start top : Option CBlockIndex} {index : CBlockIndex} {blocks : List CBlockIndex} :
    checker.previousPeriod index = start → Climb (some index) blocks top → Climb start (index :: blocks) top

theorem lastOfPeriod_back (index : CBlockIndex) {last : CBlockIndex} (found : checker.lastOfPeriod (some index) = some last) :
    (∃ steps, index.back steps = some last) ∧ checker.PeriodEnd last := by
  by_cases atEnd : checker.PeriodEnd index
  · rw [lastOfPeriod_periodEnd _ atEnd] at found
    cases found
    exact ⟨⟨0,back_zero _⟩,atEnd⟩
  induction index with
  | genesis phashBlock nVersion nTime =>
    rw [lastOfPeriod_genesis _ atEnd] at found
    cases found
  | mk pprev phashBlock nVersion nTime ih =>
    rw [lastOfPeriod_mk _ atEnd] at found
    by_cases pprevEnd : checker.PeriodEnd pprev
    · rw [lastOfPeriod_periodEnd _ pprevEnd] at found
      cases found
      exact ⟨⟨1,back_zero _⟩,pprevEnd⟩
    · obtain ⟨⟨steps,reached⟩,lastEnd⟩ := ih found pprevEnd
      exact ⟨⟨steps + 1,reached⟩,lastEnd⟩

theorem previousPeriod_back {index last : CBlockIndex} (atEnd : checker.PeriodEnd index)
    (found : checker.previousPeriod index = some last) : (∃ steps, index.back steps = some last) ∧ checker.PeriodEnd last := by
  cases index with
  | genesis phashBlock nVersion nTime =>
    rw [previousPeriod_genesis] at found
    cases found
  | mk pprev phashBlock nVersion nTime =>
    rw [previousPeriod_mk _ atEnd] at found
    obtain ⟨⟨steps,reached⟩,lastEnd⟩ := lastOfPeriod_back checker pprev found
    exact ⟨⟨steps + 1,reached⟩,lastEnd⟩

variable {checker}

theorem Consistent.update {cache : ThresholdConditionCache} (consistent : checker.Consistent cache)
    {key : Option CBlockIndex} {state : ThresholdState} (right : checker.bip9State key = state) :
    checker.Consistent (Function.update cache key (some state)) := by
  intro other found held
  by_cases same : other = key
  · subst same
    rw [Function.update_self] at held
    cases held
    exact right
  · rw [Function.update_of_ne same] at held
    exact consistent other found held

theorem Climb.snoc {start middle : Option CBlockIndex} {blocks : List CBlockIndex}
    (climb : checker.Climb start blocks middle) {index : CBlockIndex} (next : checker.previousPeriod index = middle) :
    checker.Climb start (blocks ++ [index]) (some index) := by
  induction climb with
  | nil key => exact .cons next (.nil _)
  | cons previous _ ih => exact .cons previous (ih next)

theorem walkBack_spec (timely : checker.BeginTime ≤ checker.EndTime) (cache : ThresholdConditionCache)
    (key : Option CBlockIndex) (vToCompute : List CBlockIndex) (consistent : checker.Consistent cache)
    (keyed : ∀ index, key = some index → index.TimeOrdered ∧ checker.PeriodEnd index) :
    ∃ start cache' pushed, checker.walkBack cache key vToCompute = (start,cache',vToCompute ++ pushed) ∧
      cache' start = some (checker.bip9State start) ∧ checker.Consistent cache' ∧
      checker.Climb start pushed.reverse key ∧ ∀ index ∈ pushed, checker.PeriodEnd index := by
  fun_induction checker.walkBack cache key vToCompute with
  | case1 key vToCompute state found =>
    -- a cache hit: nothing pushed
    refine ⟨key,cache,[],?_,?_,consistent,.nil key,by simp⟩
    · simp only [found,List.append_nil]
    · rw [found,consistent key state found]
  | case2 vToCompute missing =>
    refine ⟨none,Function.update cache none (some THRESHOLD_DEFINED),[],?_,?_,consistent.update rfl,.nil none,by simp⟩
    · simp only [missing,List.append_nil]
    · rw [Function.update_self]
      rfl
  | case3 vToCompute index early missing =>
    -- the early exit, sound because the median time past never falls
    have defined : checker.bip9State (some index) = THRESHOLD_DEFINED :=
      checker.stateAfter_early timely (keyed index rfl).1 early
    refine ⟨some index,Function.update cache (some index) (some THRESHOLD_DEFINED),[],?_,?_,
      consistent.update defined,.nil _,by simp⟩
    · simp only [missing,if_pos early,List.append_nil]
    · rw [Function.update_self,defined]
  | case4 vToCompute index late missing ih =>
    obtain ⟨ordered,atEnd⟩ := keyed index rfl
    have lower : ∀ last, checker.previousPeriod index = some last → last.TimeOrdered ∧ checker.PeriodEnd last := by
      intro last found
      obtain ⟨⟨steps,reached⟩,lastEnd⟩ := checker.previousPeriod_back atEnd found
      exact ⟨TimeOrdered_back ordered reached,lastEnd⟩
    obtain ⟨start,cache',pushed,walked,known,consistent',climb,ends⟩ := ih lower
    refine ⟨start,cache',index :: pushed,?_,known,consistent',?_,?_⟩
    · simp only [missing,if_neg late,walked,List.append_assoc,List.singleton_append]
    · rw [List.reverse_cons]
      exact climb.snoc rfl
    · intro block member
      rcases List.mem_cons.mp member with rfl | later
      · exact atEnd
      · exact ends block later


theorem walkForward_climb {start top : Option CBlockIndex} {blocks : List CBlockIndex}
    (climb : checker.Climb start blocks top) (ends : ∀ index ∈ blocks, checker.PeriodEnd index)
    {cache : ThresholdConditionCache} (consistent : checker.Consistent cache) :
    ∃ cache', checker.walkForward (checker.bip9State start) cache blocks = .ok (checker.bip9State top,cache') ∧
      checker.Consistent cache' := by
  induction climb generalizing cache with
  | nil key => exact ⟨cache,rfl,consistent⟩
  | @cons start top index blocks previous _ ih =>
    have atEnd := ends index List.mem_cons_self
    have step : checker.nextState (checker.bip9State start) index = .ok (checker.bip9State (some index)) := by
      rw [nextState_eq _ _ (checker.periodEnd_long atEnd),bip9State,stateAfter_periodEnd _ atEnd,previous]
    rw [walkForward,step,Abort.ok_bind]
    exact ih (fun block member => ends block (List.mem_cons_of_mem _ member)) (consistent.update rfl)

/-- On a chain that keeps the time rule, for a start time no later than the
timeout, `GetStateFor` answers the state going forward from the genesis block,
leaves the cache consistent, and never aborts. -/
theorem GetStateFor_bip9State (timely : checker.BeginTime ≤ checker.EndTime) (pindexPrev : Option CBlockIndex)
    (ordered : ∀ index, pindexPrev = some index → index.TimeOrdered) {cache : ThresholdConditionCache}
    (consistent : checker.Consistent cache) :
    ∃ cache', checker.GetStateFor pindexPrev cache = .ok (checker.bip9State pindexPrev,cache') ∧ checker.Consistent cache' := by
  have keyed : ∀ last, checker.lastOfPeriod pindexPrev = some last → last.TimeOrdered ∧ checker.PeriodEnd last := by
    intro last found
    cases pindexPrev with
    | none => cases found
    | some index =>
      obtain ⟨⟨steps,reached⟩,lastEnd⟩ := checker.lastOfPeriod_back index found
      exact ⟨TimeOrdered_back (ordered index rfl) reached,lastEnd⟩
  obtain ⟨start,cache',pushed,walked,known,consistent',climb,ends⟩ :=
    walkBack_spec timely cache (checker.lastOfPeriod pindexPrev) [] consistent keyed
  rw [← bip9State_lastOfPeriod]
  simp only [GetStateFor,walked,known,List.nil_append]
  exact walkForward_climb climb (fun index member => ends index (List.mem_reverse.mp member)) consistent'

variable (checker)

/-- Queries answered one after another on one cache, as the node's
`versionbitscache` answers its callers. -/
def queryStates : List (Option CBlockIndex) → ThresholdConditionCache → Except Abort (List ThresholdState)
  | [], _ => .ok []
  | pindexPrev :: queries, cache => do
    let (state,cache) ← checker.GetStateFor pindexPrev cache
    let states ← queryStates queries cache
    pure (state :: states)

variable {checker}

/-- Any sequence of queries on one cache, from an empty one or any other
consistent one, on chains that keep the time rule and for a start time no
later than the timeout: each is answered with the state going forward from
the genesis block, and none aborts. The cache and its early exit change no
answer. -/
theorem queryStates_eq_bip9State (timely : checker.BeginTime ≤ checker.EndTime) :
    ∀ (queries : List (Option CBlockIndex)), (∀ pindexPrev ∈ queries, ∀ index, pindexPrev = some index → index.TimeOrdered) →
      ∀ {cache : ThresholdConditionCache}, checker.Consistent cache →
        checker.queryStates queries cache = .ok (queries.map checker.bip9State)
  | [], _, _, _ => rfl
  | pindexPrev :: queries, ordered, cache, consistent => by
    -- each answer leaves the cache consistent for the queries after it
    obtain ⟨cache',answered,consistent'⟩ :=
      GetStateFor_bip9State timely pindexPrev (ordered pindexPrev List.mem_cons_self) consistent
    have rest := queryStates_eq_bip9State timely queries
      (fun query member => ordered query (List.mem_cons_of_mem _ member)) consistent'
    rw [queryStates,answered,Abort.ok_bind]
    simp only [rest,Abort.ok_bind,List.map_cons]
    rfl

/-- Three blocks one second apart, each with `nVersion = 1`. -/
def signallingChain : CBlockIndex :=
  .mk (.mk (.genesis (Blob.replicate 32 0) 1 1) (Blob.replicate 32 1) 1 2) (Blob.replicate 32 2) 1 3

/-- Periods of one block, from time `0` to `10`, a block signalling with `nVersion = 1`. -/
def everyBlock : ThresholdConditionChecker := ⟨1,1,0,10,fun index => index.nVersion == 1,Nat.one_pos⟩

theorem queryStates_eq_bip9State_signallingChain :
    everyBlock.BeginTime ≤ everyBlock.EndTime ∧ signallingChain.TimeOrdered ∧
      everyBlock.queryStates [some signallingChain,none,signallingChain.pprev] (fun _ => none) =
        .ok [THRESHOLD_ACTIVE,THRESHOLD_DEFINED,THRESHOLD_LOCKED_IN] := by
  have ordered : ∀ pindexPrev ∈ [some signallingChain,none,signallingChain.pprev], ∀ index,
      pindexPrev = some index → index.TimeOrdered := by
    intro pindexPrev member index found
    simp only [List.mem_cons,List.not_mem_nil,or_false] at member
    rcases member with rfl | rfl | rfl <;> cases found <;> decide
  exact ⟨by decide,by decide,(queryStates_eq_bip9State (by decide) _ ordered (consistent_empty everyBlock)).trans
    (by decide)⟩

/-! ### What the states say about the chain -/

variable (checker)

/-- The period ending at `signal` lies inside the deployment's time window, and
at least the threshold of its blocks signal. -/
def SignalledPeriod (signal : CBlockIndex) : Prop :=
  checker.PeriodEnd signal ∧ checker.BeginTime ≤ signal.GetMedianTimePast ∧
    signal.GetMedianTimePast < checker.EndTime ∧
    checker.Threshold ≤ ((signal.chain.take checker.Period).countP checker.Condition : Int)

variable {checker}

theorem transition_started {state : ThresholdState} {index : CBlockIndex}
    (started : checker.transition state index = THRESHOLD_STARTED) :
    (state = THRESHOLD_DEFINED ∧ checker.BeginTime ≤ index.GetMedianTimePast) ∨ state = THRESHOLD_STARTED := by
  cases state
  case THRESHOLD_DEFINED =>
    simp only [transition] at started
    split_ifs at started with failed begun
    exact Or.inl ⟨rfl,begun⟩
  case THRESHOLD_STARTED => exact Or.inr rfl
  all_goals simp only [transition,reduceCtorEq] at started

theorem transition_locked_in {state : ThresholdState} {index : CBlockIndex}
    (locked : checker.transition state index = THRESHOLD_LOCKED_IN) :
    state = THRESHOLD_STARTED ∧ index.GetMedianTimePast < checker.EndTime ∧
      checker.Threshold ≤ ((index.chain.take checker.Period).countP checker.Condition : Int) := by
  cases state
  case THRESHOLD_STARTED =>
    simp only [transition] at locked
    split_ifs at locked with failed counted
    exact ⟨rfl,not_le.mp failed,counted⟩
  case THRESHOLD_DEFINED =>
    simp only [transition] at locked
    split_ifs at locked
  all_goals simp only [transition,reduceCtorEq] at locked

theorem transition_active {state : ThresholdState} {index : CBlockIndex}
    (active : checker.transition state index = THRESHOLD_ACTIVE) :
    state = THRESHOLD_LOCKED_IN ∨ state = THRESHOLD_ACTIVE := by
  cases state
  case THRESHOLD_LOCKED_IN => exact Or.inl rfl
  case THRESHOLD_ACTIVE => exact Or.inr rfl
  case THRESHOLD_DEFINED | THRESHOLD_STARTED =>
    simp only [transition] at active
    split_ifs at active
  case THRESHOLD_FAILED => simp only [transition,reduceCtorEq] at active

/-- A started deployment started at or after its start time. -/
theorem stateAfter_started_begin : ∀ {index : CBlockIndex}, index.TimeOrdered →
    checker.stateAfter index = THRESHOLD_STARTED → checker.BeginTime ≤ index.GetMedianTimePast
  | genesis phashBlock nVersion nTime, _, started => by
    by_cases atEnd : checker.PeriodEnd (genesis phashBlock nVersion nTime)
    · rw [stateAfter,atBlock,if_pos atEnd] at started
      rcases transition_started started with ⟨_,begun⟩ | defined
      · exact begun
      · cases defined
    · rw [stateAfter,atBlock,if_neg atEnd] at started
      cases started
  | .mk pprev phashBlock nVersion nTime, ordered, started => by
    have carried : checker.BeginTime ≤ pprev.GetMedianTimePast → checker.BeginTime ≤ (CBlockIndex.mk pprev phashBlock nVersion nTime).GetMedianTimePast :=
      fun begun => le_trans begun (GetMedianTimePast_le_mk pprev phashBlock nVersion ordered.1)
    by_cases atEnd : checker.PeriodEnd (.mk pprev phashBlock nVersion nTime)
    · rw [stateAfter,atBlock,if_pos atEnd] at started
      rcases transition_started started with ⟨_,begun⟩ | before
      · exact begun
      · exact carried (stateAfter_started_begin ordered.2 before)
    · rw [stateAfter,atBlock,if_neg atEnd] at started
      exact carried (stateAfter_started_begin ordered.2 started)

/-- A deployment locks in only after a period inside its time window in which
at least the threshold of blocks signalled, and stays locked in or active only
after one. -/
theorem stateAfter_signalled : ∀ {index : CBlockIndex}, index.TimeOrdered →
    (checker.stateAfter index = THRESHOLD_LOCKED_IN ∨ checker.stateAfter index = THRESHOLD_ACTIVE) →
      ∃ steps signal, index.back steps = some signal ∧ checker.SignalledPeriod signal
  | genesis phashBlock nVersion nTime, _, locked => by
    -- the genesis block's period begins `THRESHOLD_DEFINED`, which cannot lock in at once
    by_cases atEnd : checker.PeriodEnd (genesis phashBlock nVersion nTime)
    · rw [stateAfter,atBlock,if_pos atEnd] at locked
      rcases locked with locked | active
      · cases (transition_locked_in locked).1
      · rcases transition_active active with defined | defined <;> cases defined
    · rw [stateAfter,atBlock,if_neg atEnd] at locked
      rcases locked with defined | defined <;> cases defined
  | .mk pprev phashBlock nVersion nTime, ordered, locked => by
    have lifted : (∃ steps signal, pprev.back steps = some signal ∧ checker.SignalledPeriod signal) →
        ∃ steps signal, (CBlockIndex.mk pprev phashBlock nVersion nTime).back steps = some signal ∧ checker.SignalledPeriod signal :=
      fun ⟨steps,signal,reached,signalled⟩ => ⟨steps + 1,signal,reached,signalled⟩
    by_cases atEnd : checker.PeriodEnd (.mk pprev phashBlock nVersion nTime)
    · rw [stateAfter,atBlock,if_pos atEnd] at locked
      rcases locked with locked | active
      · -- the period that locks it in is the signalling one
        obtain ⟨started,timely,counted⟩ := transition_locked_in locked
        have begun := le_trans (stateAfter_started_begin ordered.2 started)
          (GetMedianTimePast_le_mk pprev phashBlock nVersion ordered.1)
        exact ⟨0,_,back_zero _,atEnd,begun,timely,counted⟩
      · exact lifted (stateAfter_signalled ordered.2 (transition_active active))
    · rw [stateAfter,atBlock,if_neg atEnd] at locked
      exact lifted (stateAfter_signalled ordered.2 locked)

/-- `THRESHOLD_ACTIVE` and `THRESHOLD_FAILED` are final: every descendant keeps them. -/
theorem stateAfter_final {state : ThresholdState} (final : state = THRESHOLD_ACTIVE ∨ state = THRESHOLD_FAILED) :
    ∀ {index ancestor : CBlockIndex} {steps : Nat}, index.back steps = some ancestor →
      checker.stateAfter ancestor = state → checker.stateAfter index = state
  | index, ancestor, 0, reached, held => by
    rw [back_zero] at reached
    cases reached
    exact held
  | .mk pprev phashBlock nVersion nTime, ancestor, steps + 1, reached, held => by
    have carried : checker.stateAfter pprev = state :=
      stateAfter_final final (show pprev.back steps = some ancestor from reached) held
    rw [stateAfter,carried]
    rcases final with rfl | rfl <;> simp only [atBlock,transition,ite_self]

theorem GetStateFor_eq_bip9State (timely : checker.BeginTime ≤ checker.EndTime) {pindexPrev : CBlockIndex}
    (ordered : pindexPrev.TimeOrdered) {cache after : ThresholdConditionCache} {state : ThresholdState}
    (consistent : checker.Consistent cache) (answered : checker.GetStateFor (some pindexPrev) cache = .ok (state,after)) :
    state = checker.stateAfter pindexPrev ∧ checker.Consistent after := by
  obtain ⟨cache',plain,consistent'⟩ := GetStateFor_bip9State timely (some pindexPrev)
    (fun _ found => by cases found; exact ordered) consistent
  rw [plain] at answered
  simp only [Except.ok.injEq,Prod.mk.injEq] at answered
  obtain ⟨rfl,rfl⟩ := answered
  exact ⟨rfl,consistent'⟩

/-- When `GetStateFor` answers `THRESHOLD_LOCKED_IN` or `THRESHOLD_ACTIVE`,
some period of the chain, ending at or before `pindexPrev` and inside the
deployment's time window, had at least the threshold of signalling blocks. -/
theorem GetStateFor_signalled (timely : checker.BeginTime ≤ checker.EndTime) {pindexPrev : CBlockIndex}
    (ordered : pindexPrev.TimeOrdered) {cache after : ThresholdConditionCache} (consistent : checker.Consistent cache)
    {state : ThresholdState} (answered : checker.GetStateFor (some pindexPrev) cache = .ok (state,after))
    (locked : state = THRESHOLD_LOCKED_IN ∨ state = THRESHOLD_ACTIVE) :
    ∃ steps signal, pindexPrev.back steps = some signal ∧ checker.SignalledPeriod signal := by
  obtain ⟨rfl,_⟩ := GetStateFor_eq_bip9State timely ordered consistent answered
  exact stateAfter_signalled ordered locked

theorem GetStateFor_signalled_signallingChain :
    ∃ steps signal, signallingChain.back steps = some signal ∧ everyBlock.SignalledPeriod signal := by
  obtain ⟨after,answered,_⟩ := GetStateFor_bip9State (by decide : everyBlock.BeginTime ≤ everyBlock.EndTime) (some signallingChain)
    (fun _ found => by cases found; decide) (consistent_empty everyBlock)
  rw [show everyBlock.bip9State (some signallingChain) = THRESHOLD_ACTIVE by decide] at answered
  exact GetStateFor_signalled (by decide) (by decide) (consistent_empty everyBlock) answered (Or.inr rfl)

/-- Once `GetStateFor` answers `THRESHOLD_ACTIVE` or `THRESHOLD_FAILED` for the
blocks after `pindexPrev`, it answers the same for those after every
descendant, on the cache the first query left. -/
theorem GetStateFor_final (timely : checker.BeginTime ≤ checker.EndTime) {pindexPrev descendant : CBlockIndex}
    {steps : Nat} (reached : descendant.back steps = some pindexPrev) (ordered : descendant.TimeOrdered)
    {cache after after' : ThresholdConditionCache} (consistent : checker.Consistent cache) {state state' : ThresholdState}
    (earlier : checker.GetStateFor (some pindexPrev) cache = .ok (state,after))
    (later : checker.GetStateFor (some descendant) after = .ok (state',after'))
    (final : state = THRESHOLD_ACTIVE ∨ state = THRESHOLD_FAILED) : state' = state := by
  obtain ⟨rfl,consistent'⟩ := GetStateFor_eq_bip9State timely (TimeOrdered_back ordered reached) consistent earlier
  obtain ⟨rfl,_⟩ := GetStateFor_eq_bip9State timely ordered consistent' later
  exact stateAfter_final final reached rfl

theorem GetStateFor_final_signallingChain :
    ∃ after after', everyBlock.GetStateFor (some signallingChain) (fun _ => none) = .ok (THRESHOLD_ACTIVE,after) ∧
      everyBlock.GetStateFor (some (.mk signallingChain (Blob.replicate 32 3) 0 4)) after = .ok (THRESHOLD_ACTIVE,after') := by
  obtain ⟨after,earlier,consistent⟩ := GetStateFor_bip9State (by decide : everyBlock.BeginTime ≤ everyBlock.EndTime) (some signallingChain)
    (fun _ found => by cases found; decide) (consistent_empty everyBlock)
  obtain ⟨after',later,_⟩ := GetStateFor_bip9State (by decide : everyBlock.BeginTime ≤ everyBlock.EndTime) (some (.mk signallingChain (Blob.replicate 32 3) 0 4))
    (fun _ found => by cases found; decide) consistent
  rw [show everyBlock.bip9State (some signallingChain) = THRESHOLD_ACTIVE by decide] at earlier
  have same := GetStateFor_final (by decide) (show (CBlockIndex.mk signallingChain (Blob.replicate 32 3) 0 4).back 1 = some signallingChain from rfl)
    (by decide) (consistent_empty everyBlock) earlier later (Or.inl rfl)
  rw [same] at later
  exact ⟨after,after',earlier,later⟩

end ThresholdConditionChecker

end Qtum.VersionBits
