import Qtum.Library.OrderStatistic
import Qtum.Primitives.Blob

/-! The block tree of `chain.h`: an entry points to its parent, and every
entry has its hash, version and time. An entry is a term holding the entries
before it, so that its height and its ancestors are read off the term; the
node keeps one entry a hash, so two entries with equal terms are one block.
On a chain that keeps the `time-too-old` rule of `ContextualCheckBlockHeader`,
the median time past of `GetMedianTimePast` never falls. -/
namespace Qtum.Tree
open OrderStatistic

/-- What is read of a `CBlockIndex` here: the parent, `*phashBlock`,
`nVersion` and the block time. The genesis entry is the one whose `pprev` is
`NULL`. -/
inductive CBlockIndex
  | genesis (phashBlock : uint256) (nVersion nTime : Int)
  | mk (pprev : CBlockIndex) (phashBlock : uint256) (nVersion nTime : Int)
deriving DecidableEq

namespace CBlockIndex

def pprev : CBlockIndex → Option CBlockIndex
  | genesis _ _ _ => none
  | mk pprev _ _ _ => some pprev

def GetBlockHash : CBlockIndex → uint256
  | genesis phashBlock _ _ | mk _ phashBlock _ _ => phashBlock

def nVersion : CBlockIndex → Int
  | genesis _ nVersion _ | mk _ _ nVersion _ => nVersion

def GetBlockTime : CBlockIndex → Int
  | genesis _ _ nTime | mk _ _ _ nTime => nTime

def nHeight : CBlockIndex → Nat
  | genesis _ _ _ => 0
  | mk pprev _ _ _ => pprev.nHeight + 1

/-- The entry `steps` steps back along `pprev`. -/
def back : CBlockIndex → Nat → Option CBlockIndex
  | index, 0 => some index
  | mk pprev _ _ _, steps + 1 => pprev.back steps
  | genesis _ _ _, _ + 1 => none

/-- `GetAncestor(height)`: the ancestor at `height`, and `NULL` outside
`0 ..= nHeight`. The walk through `pskip` that finds it is the one of
`Qtum.Chain.walkAncestor`. -/
def GetAncestor (index : CBlockIndex) (height : Int) : Option CBlockIndex :=
  if height > index.nHeight ∨ height < 0 then none else index.back (index.nHeight - height.toNat)

/-- The entry and its ancestors, along `pprev`. -/
def chain (index : CBlockIndex) : List CBlockIndex :=
  index :: match index with
    | genesis _ _ _ => []
    | mk pprev _ _ _ => pprev.chain

def nMedianTimeSpan : Nat := 11

/-- `GetMedianTimePast`: the middle one of the times of the entry and the ten
before it, sorted. -/
def GetMedianTimePast (index : CBlockIndex) : Int :=
  let pmedian := sorted ((index.chain.take nMedianTimeSpan).map GetBlockTime)
  pmedian.getD (pmedian.length / 2) 0

@[simp] theorem back_zero (index : CBlockIndex) : index.back 0 = some index := by
  cases index <;> rfl

@[simp] theorem back_mk (pprev : CBlockIndex) (phashBlock : uint256) (nVersion nTime : Int) (steps : Nat) :
    (mk pprev phashBlock nVersion nTime).back (steps + 1) = pprev.back steps := rfl

@[simp] theorem nHeight_mk (pprev : CBlockIndex) (phashBlock : uint256) (nVersion nTime : Int) :
    (mk pprev phashBlock nVersion nTime).nHeight = pprev.nHeight + 1 := rfl

theorem back_nHeight : ∀ {index ancestor : CBlockIndex} {steps : Nat}, index.back steps = some ancestor →
    ancestor.nHeight + steps = index.nHeight
  | index, ancestor, 0, reached => by
    rw [back_zero] at reached
    cases reached
    rfl
  | mk pprev _ _ _, ancestor, steps + 1, reached => by
    rw [nHeight_mk,← back_nHeight (show pprev.back steps = some ancestor from reached)]
    omega

theorem back_exists : ∀ (index : CBlockIndex) {steps : Nat}, steps ≤ index.nHeight →
    ∃ ancestor, index.back steps = some ancestor
  | index, 0, _ => ⟨index,back_zero index⟩
  | mk pprev _ _ _, steps + 1, short => back_exists pprev (by simp only [nHeight_mk] at short; omega)

theorem back_add {index ancestor : CBlockIndex} {first : Nat} (reached : index.back first = some ancestor)
    (second : Nat) : index.back (first + second) = ancestor.back second := by
  induction first generalizing index with
  | zero =>
    rw [back_zero] at reached
    cases reached
    rw [Nat.zero_add]
  | succ first ih =>
    match index, reached with
    | mk pprev _ _ _, reached =>
      rw [Nat.add_right_comm,back_mk]
      exact ih reached

theorem GetAncestor_eq (index : CBlockIndex) {height : Nat} (below : height ≤ index.nHeight) :
    index.GetAncestor height = index.back (index.nHeight - height) := by
  rw [GetAncestor,if_neg (by omega),Int.toNat_natCast]

theorem GetAncestor_negative (index : CBlockIndex) {height : Int} (negative : height < 0) :
    index.GetAncestor height = none := by
  rw [GetAncestor,if_pos (Or.inr negative)]

theorem GetAncestor_mk (pprev : CBlockIndex) (phashBlock : uint256) (nVersion nTime : Int) {height : Int}
    (below : height ≤ pprev.nHeight) :
    (mk pprev phashBlock nVersion nTime).GetAncestor height = pprev.GetAncestor height := by
  rcases Int.lt_or_le height 0 with negative | natural
  · rw [GetAncestor_negative _ negative,GetAncestor_negative _ negative]
  · obtain ⟨height,rfl⟩ := Int.eq_ofNat_of_zero_le natural
    have fits : height ≤ pprev.nHeight := by exact_mod_cast below
    rw [GetAncestor_eq _ (by simp only [nHeight_mk]; omega),GetAncestor_eq _ fits,nHeight_mk,
      show pprev.nHeight + 1 - height = (pprev.nHeight - height) + 1 by omega,back_mk]

theorem length_chain (index : CBlockIndex) : index.chain.length = index.nHeight + 1 := by
  induction index with
  | genesis => rfl
  | mk pprev _ _ _ ih => simp only [chain,List.length_cons,ih,nHeight_mk]

theorem GetMedianTimePast_eq_median (index : CBlockIndex) :
    index.GetMedianTimePast = median ((index.chain.take nMedianTimeSpan).map GetBlockTime) 0 := rfl

/-! ### The median time past along a chain -/

/-- Every block after the genesis block is later than the median time past of
its parent: the `time-too-old` rule of `ContextualCheckBlockHeader`, down the
whole chain. -/
def TimeOrdered : CBlockIndex → Prop
  | genesis _ _ _ => True
  | mk pprev _ _ nTime => pprev.GetMedianTimePast < nTime ∧ pprev.TimeOrdered

def decideTimeOrdered : (index : CBlockIndex) → Decidable index.TimeOrdered
  | genesis _ _ _ => isTrue trivial
  | mk pprev _ _ _ => @instDecidableAnd _ _ _ (decideTimeOrdered pprev)

instance : DecidablePred TimeOrdered := decideTimeOrdered

/-- A block later than the median time past of its parent does not lower it. -/
theorem GetMedianTimePast_le_mk (pprev : CBlockIndex) (phashBlock : uint256) (nVersion : Int) {nTime : Int}
    (later : pprev.GetMedianTimePast < nTime) :
    pprev.GetMedianTimePast ≤ (mk pprev phashBlock nVersion nTime).GetMedianTimePast := by
  have window : ((mk pprev phashBlock nVersion nTime).chain.take nMedianTimeSpan).map GetBlockTime =
      (nTime :: (pprev.chain.take nMedianTimeSpan).map GetBlockTime).take nMedianTimeSpan := by
    simp [chain,nMedianTimeSpan,GetBlockTime,List.take_take]
  have nonempty : 0 < ((pprev.chain.take nMedianTimeSpan).map GetBlockTime).length := by
    simp [length_chain,nMedianTimeSpan]
  rw [GetMedianTimePast_eq_median] at later ⊢
  rw [GetMedianTimePast_eq_median,window]
  exact median_le_slide nonempty (by simp) later

theorem TimeOrdered_back : ∀ {index ancestor : CBlockIndex} {steps : Nat}, index.TimeOrdered →
    index.back steps = some ancestor → ancestor.TimeOrdered
  | index, ancestor, 0, ordered, reached => by
    rw [back_zero] at reached
    cases reached
    exact ordered
  | mk _ _ _ _, _, _ + 1, ordered, reached => TimeOrdered_back ordered.2 reached

/-- On a chain that keeps the time rule, the median time past never falls. -/
theorem GetMedianTimePast_back_le : ∀ {index ancestor : CBlockIndex} {steps : Nat}, index.TimeOrdered →
    index.back steps = some ancestor → ancestor.GetMedianTimePast ≤ index.GetMedianTimePast
  | index, ancestor, 0, _, reached => by
    rw [back_zero] at reached
    cases reached
    exact le_refl _
  | mk pprev phashBlock _ _, _, _ + 1, ordered, reached =>
    le_trans (GetMedianTimePast_back_le ordered.2 reached) (GetMedianTimePast_le_mk pprev phashBlock _ ordered.1)

/-! ### Ancestors -/

/-- `ancestor` is `index` or lies before it along `pprev`. -/
def IsAncestor (ancestor index : CBlockIndex) : Prop := ∃ steps, index.back steps = some ancestor

theorem IsAncestor.refl (index : CBlockIndex) : IsAncestor index index := ⟨0,back_zero index⟩

theorem IsAncestor.trans {first second third : CBlockIndex} (lower : IsAncestor first second)
    (upper : IsAncestor second third) : IsAncestor first third := by
  obtain ⟨down,reached⟩ := upper
  obtain ⟨further,found⟩ := lower
  exact ⟨down + further,(back_add reached further).trans found⟩

theorem IsAncestor.nHeight_le {ancestor index : CBlockIndex} (below : IsAncestor ancestor index) :
    ancestor.nHeight ≤ index.nHeight := by
  obtain ⟨steps,reached⟩ := below
  have heights := back_nHeight reached
  omega

/-- Of two ancestors of one entry, the lower one is an ancestor of the higher. -/
theorem IsAncestor.of_nHeight_le {first second index : CBlockIndex} (firstBelow : IsAncestor first index)
    (secondBelow : IsAncestor second index) (lower : first.nHeight ≤ second.nHeight) : IsAncestor first second := by
  obtain ⟨down,reachedFirst⟩ := firstBelow
  obtain ⟨up,reachedSecond⟩ := secondBelow
  have heightsFirst := back_nHeight reachedFirst
  have heightsSecond := back_nHeight reachedSecond
  refine ⟨down - up,?_⟩
  rw [← back_add reachedSecond,show up + (down - up) = down by omega,reachedFirst]

/-- An entry has one ancestor at each height. -/
theorem IsAncestor.eq_of_nHeight {first second index : CBlockIndex} (firstBelow : IsAncestor first index)
    (secondBelow : IsAncestor second index) (same : first.nHeight = second.nHeight) : first = second := by
  obtain ⟨down,reachedFirst⟩ := firstBelow
  obtain ⟨up,reachedSecond⟩ := secondBelow
  have steps : down = up := by
    have := back_nHeight reachedFirst
    have := back_nHeight reachedSecond
    omega
  rw [steps,reachedSecond] at reachedFirst
  exact (Option.some.inj reachedFirst).symm

theorem isAncestor_mk {ancestor pprev : CBlockIndex} {phashBlock : uint256} {nVersion nTime : Int} :
    IsAncestor ancestor (mk pprev phashBlock nVersion nTime) ↔
      ancestor = mk pprev phashBlock nVersion nTime ∨ IsAncestor ancestor pprev := by
  constructor
  · rintro ⟨_ | steps,reached⟩
    · exact Or.inl (Option.some.inj reached).symm
    · exact Or.inr ⟨steps,reached⟩
  · rintro (rfl | ⟨steps,reached⟩)
    · exact IsAncestor.refl _
    · exact ⟨steps + 1,reached⟩

theorem isAncestor_genesis {ancestor : CBlockIndex} {phashBlock : uint256} {nVersion nTime : Int} :
    IsAncestor ancestor (genesis phashBlock nVersion nTime) ↔ ancestor = genesis phashBlock nVersion nTime := by
  constructor
  · rintro ⟨_ | steps,reached⟩
    · exact (Option.some.inj reached).symm
    · cases reached
  · rintro rfl
    exact IsAncestor.refl _

theorem GetAncestor_eq_some {index ancestor : CBlockIndex} {height : Int}
    (found : index.GetAncestor height = some ancestor) : IsAncestor ancestor index ∧ (ancestor.nHeight : Int) = height := by
  unfold GetAncestor at found
  split_ifs at found with outside
  have heights := back_nHeight found
  exact ⟨⟨_,found⟩,by omega⟩

theorem GetAncestor_of_isAncestor {ancestor index : CBlockIndex} (below : IsAncestor ancestor index) :
    index.GetAncestor ancestor.nHeight = some ancestor := by
  obtain ⟨steps,reached⟩ := below
  have heights := back_nHeight reached
  rw [GetAncestor_eq _ (by omega),show index.nHeight - ancestor.nHeight = steps by omega,reached]

theorem GetAncestor_exists (index : CBlockIndex) {height : Nat} (below : height ≤ index.nHeight) :
    ∃ ancestor, index.GetAncestor height = some ancestor := by
  rw [GetAncestor_eq index below]
  exact back_exists index (Nat.sub_le _ _)

/-- An ancestor answers `GetAncestor` below its height as the entry above it does. -/
theorem GetAncestor_of_ancestor {ancestor index : CBlockIndex} (below : IsAncestor ancestor index) {height : Nat}
    (lower : height ≤ ancestor.nHeight) : ancestor.GetAncestor height = index.GetAncestor height := by
  obtain ⟨found,foundBelow⟩ := GetAncestor_exists ancestor lower
  obtain ⟨reached,atHeight⟩ := GetAncestor_eq_some foundBelow
  rw [foundBelow,← GetAncestor_of_isAncestor (reached.trans below),show found.nHeight = height by omega]

/-- Going down from `index` to the height of `other` loses no common ancestor
of the two. -/
theorem common_iff_GetAncestor {index other start ancestor : CBlockIndex}
    (found : index.GetAncestor other.nHeight = some start) :
    (IsAncestor ancestor index ∧ IsAncestor ancestor other) ↔ (IsAncestor ancestor start ∧ IsAncestor ancestor other) := by
  obtain ⟨startBelow,atHeight⟩ := GetAncestor_eq_some found
  constructor
  · rintro ⟨below,onOther⟩
    exact ⟨below.of_nHeight_le startBelow (by have := onOther.nHeight_le; omega),onOther⟩
  · rintro ⟨below,onOther⟩
    exact ⟨below.trans startBelow,onOther⟩

end CBlockIndex

/-- The number of entries up to a pointer; the walks back go down it. -/
def depth : Option CBlockIndex → Nat
  | none => 0
  | some index => index.nHeight + 1

theorem depth_pprev_lt (index : CBlockIndex) : depth index.pprev < depth (some index) := by
  cases index with
  | genesis => simp [CBlockIndex.pprev,depth]
  | mk pprev => simp [CBlockIndex.pprev,depth]

end Qtum.Tree
