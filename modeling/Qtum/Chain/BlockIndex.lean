import Mathlib.Data.Nat.Bitwise
import Qtum.Library.Abort

/-! The skip list of the block index, `GetSkipHeight`, `GetAncestor` and
`BuildSkip` of `chain.cpp`. Each entry points to its parent and, through
`pskip`, to one ancestor further back, set when the entry is added.
`GetAncestor` walks back by `pskip` where that does not overshoot and by
`pprev` otherwise. Entries are terms holding the entries they point to, which
were built before them. For every entry the node builds, the skip of each
entry is its ancestor at `GetSkipHeight`, and `GetAncestor` returns the
ancestor `nHeight - height` steps back along `pprev`, never reaching its
assertion. -/
namespace Qtum.Chain

/-- What the skip list reads of `CBlockIndex`. -/
inductive CBlockIndex
  | mk (pprev pskip : Option CBlockIndex) (nHeight : Nat)

namespace CBlockIndex

def pprev : CBlockIndex → Option CBlockIndex
  | mk pprev _ _ => pprev

def pskip : CBlockIndex → Option CBlockIndex
  | mk _ pskip _ => pskip

def nHeight : CBlockIndex → Nat
  | mk _ _ nHeight => nHeight

@[simp] theorem nHeight_mk (pprev pskip : Option CBlockIndex) (nHeight : Nat) :
    (mk pprev pskip nHeight).nHeight = nHeight := rfl

/-- The entry `steps` steps back along `pprev`. -/
def back : CBlockIndex → Nat → Option CBlockIndex
  | index, 0 => some index
  | mk (some pprev) _ _, steps + 1 => back pprev steps
  | mk none _ _, _ + 1 => none

@[simp] theorem back_zero (index : CBlockIndex) : index.back 0 = some index := by
  cases index
  rfl

@[simp] theorem back_succ (pprev : CBlockIndex) (pskip : Option CBlockIndex) (nHeight steps : Nat) :
    (mk (some pprev) pskip nHeight).back (steps + 1) = pprev.back steps := rfl

/-- Going back in two legs goes back their sum. -/
theorem back_add {index ancestor : CBlockIndex} {first : Nat} (reached : index.back first = some ancestor)
    (second : Nat) : index.back (first + second) = ancestor.back second := by
  induction first generalizing index with
  | zero =>
    rw [back_zero] at reached
    cases reached
    rw [Nat.zero_add]
  | succ first ih =>
    match index, reached with
    | mk (some pprev) _ _, reached =>
      rw [Nat.add_right_comm,back_succ]
      exact ih reached

end CBlockIndex

open CBlockIndex

/-- `InvertLowestOne`: the lowest set bit cleared. -/
def InvertLowestOne (n : Nat) : Nat := n &&& (n - 1)

/-- `GetSkipHeight`. -/
def GetSkipHeight (height : Nat) : Nat :=
  if height < 2 then 0
  else if height &&& 1 != 0 then InvertLowestOne (InvertLowestOne (height - 1)) + 1
  else InvertLowestOne height

/-- The loop of `GetAncestor` from `pindexWalk` at `heightWalk` down to `height`:
along `pskip` where its target is `height`, or above it and not worse than
going through `pprev`'s skip; else one step along `pprev`, which is asserted. -/
def walkAncestor (height : Nat) : CBlockIndex → Nat → Except Abort CBlockIndex
  | mk pprev pskip nHeight, heightWalk =>
    if heightWalk > height then
      let heightSkip := GetSkipHeight heightWalk
      let heightSkipPrev := GetSkipHeight (heightWalk - 1)
      match pskip with
      | some skip =>
        if heightSkip = height ∨ (heightSkip > height ∧ ¬(heightSkipPrev + 2 < heightSkip ∧ heightSkipPrev ≥ height))
        then walkAncestor height skip heightSkip
        else match pprev with
          | none => .error .assertion
          | some pprev => walkAncestor height pprev (heightWalk - 1)
      | none =>
        match pprev with
        | none => .error .assertion
        | some pprev => walkAncestor height pprev (heightWalk - 1)
    else .ok (mk pprev pskip nHeight)

/-- `GetAncestor(height)`: `NULL` outside `0 ..= nHeight`. -/
def CBlockIndex.GetAncestor (index : CBlockIndex) (height : Int) : Except Abort (Option CBlockIndex) :=
  if height > index.nHeight ∨ height < 0 then .ok none
  else (walkAncestor height.toNat index index.nHeight).map some

/-- `BuildSkip`: the entry with `pskip` set from its parent. -/
def CBlockIndex.BuildSkip (index : CBlockIndex) : Except Abort CBlockIndex :=
  match index.pprev with
  | some pprev => do
    let pskip ← pprev.GetAncestor (GetSkipHeight index.nHeight)
    pure (mk index.pprev pskip index.nHeight)
  | none => pure index

/-- The entry `AddToBlockIndex` makes for a block on `pprev`: one higher, with
no skip, then `BuildSkip`. -/
def AddToBlockIndex (pprev : CBlockIndex) : Except Abort CBlockIndex :=
  (mk (some pprev) none (pprev.nHeight + 1)).BuildSkip

/-- The genesis entry: no parent, no skip, height 0. -/
def genesis : CBlockIndex := mk none none 0

/-- The entries the node builds: the genesis entry, and the entry
`AddToBlockIndex` makes on one already built. -/
inductive Built : CBlockIndex → Prop
  | genesis : Built genesis
  | add {pprev index : CBlockIndex} : Built pprev → AddToBlockIndex pprev = .ok index → Built index

/-! ## The skips -/

theorem GetSkipHeight_lt {height : Nat} (positive : 1 ≤ height) : GetSkipHeight height < height := by
  unfold GetSkipHeight InvertLowestOne
  split_ifs with small odd
  · omega
  · -- clearing bits only lowers a number, and `height - 1` loses its lowest
    have inner : (height - 1) &&& (height - 1 - 1) ≤ height - 1 - 1 := Nat.and_le_right
    generalize (height - 1) &&& (height - 1 - 1) = cleared at inner ⊢
    have outer : cleared &&& (cleared - 1) ≤ cleared := Nat.and_le_left
    omega
  · have cleared : height &&& (height - 1) ≤ height - 1 := Nat.and_le_right
    omega

/-- Heights rise by one along `pprev` from a root at height 0, and the skip of
every entry above the root is its ancestor at `GetSkipHeight`. -/
inductive SkipsCorrect : CBlockIndex → Prop
  | root (pskip : Option CBlockIndex) : SkipsCorrect (mk none pskip 0)
  | node {pprev : CBlockIndex} {pskip : Option CBlockIndex} : SkipsCorrect pprev →
      pskip = pprev.back (pprev.nHeight - GetSkipHeight (pprev.nHeight + 1)) →
      SkipsCorrect (mk (some pprev) pskip (pprev.nHeight + 1))

/-- Every ancestor down to the root exists and keeps the invariant. -/
theorem SkipsCorrect.back_exists {index : CBlockIndex} (correct : SkipsCorrect index) {steps : Nat}
    (within : steps ≤ index.nHeight) :
    ∃ ancestor, index.back steps = some ancestor ∧ SkipsCorrect ancestor ∧ ancestor.nHeight = index.nHeight - steps := by
  induction correct generalizing steps with
  | root pskip =>
    obtain rfl : steps = 0 := by simpa using within
    exact ⟨_,back_zero _,.root pskip,rfl⟩
  | @node pprev pskip parent skip ih =>
    cases steps with
    | zero => exact ⟨_,back_zero _,.node parent skip,rfl⟩
    | succ steps =>
      obtain ⟨ancestor,reached,correct,height⟩ := ih (show steps ≤ pprev.nHeight by simp at within; omega)
      refine ⟨ancestor,?_,correct,?_⟩
      · rw [back_succ]
        exact reached
      · simp only [nHeight_mk]
        omega

/-! ## The walk -/

/-- Where its entries keep the invariant, the loop of `GetAncestor` reaches
the ancestor `heightWalk - height` steps back: a skip lands on the ancestor at
its height, and a step back on the parent. -/
theorem walkAncestor_eq (height : Nat) :
    ∀ (heightWalk : Nat) (index : CBlockIndex), index.nHeight = heightWalk → SkipsCorrect index →
      height ≤ heightWalk →
      ∃ ancestor, index.back (heightWalk - height) = some ancestor ∧
        walkAncestor height index heightWalk = .ok ancestor := by
  intro heightWalk
  induction heightWalk using Nat.strongRecOn with
  | ind heightWalk ih =>
    intro index atHeight correct above
    by_cases arrived : heightWalk = height
    · subst arrived
      cases index
      refine ⟨_,by rw [Nat.sub_self,back_zero],?_⟩
      unfold walkAncestor
      rw [if_neg (Nat.lt_irrefl _)]
    cases correct with
    | root pskip =>
      simp only [nHeight_mk] at atHeight
      omega
    | @node pprev pskip parent skip =>
      simp only [nHeight_mk] at atHeight
      subst atHeight
      -- the skip's target is the ancestor at `GetSkipHeight`, strictly lower
      have lower := GetSkipHeight_lt (show 1 ≤ pprev.nHeight + 1 by omega)
      obtain ⟨target,reached,targetCorrect,targetHeight⟩ :=
        parent.back_exists (show pprev.nHeight - GetSkipHeight (pprev.nHeight + 1) ≤ pprev.nHeight by omega)
      rw [reached] at skip
      subst skip
      have stepped : (mk (some pprev) (some target) (pprev.nHeight + 1)).back (pprev.nHeight + 1 - height) =
          pprev.back (pprev.nHeight - height) := by
        rw [show pprev.nHeight + 1 - height = pprev.nHeight - height + 1 by omega,back_succ]
      rw [stepped]
      unfold walkAncestor
      rw [if_pos (by omega)]
      dsimp only
      split_ifs with follow
      · obtain ⟨ancestor,found,walked⟩ :=
          ih _ lower target (by omega) targetCorrect (by omega)
        refine ⟨ancestor,?_,walked⟩
        rw [show pprev.nHeight - height =
            pprev.nHeight - GetSkipHeight (pprev.nHeight + 1) + (GetSkipHeight (pprev.nHeight + 1) - height) by omega,
          back_add reached]
        exact found
      · exact ih pprev.nHeight (Nat.lt_succ_self _) pprev rfl parent (by omega)

/-- On an entry that keeps the invariant, `GetAncestor` returns the ancestor
`nHeight - height` steps back, and `NULL` outside `0 ..= nHeight`. -/
theorem GetAncestor_of_correct {index : CBlockIndex} (correct : SkipsCorrect index) (height : Int) :
    index.GetAncestor height =
      .ok (if 0 ≤ height ∧ height ≤ index.nHeight then index.back (index.nHeight - height.toNat) else none) := by
  unfold CBlockIndex.GetAncestor
  split_ifs with outside inside inside
  · omega
  · rfl
  · obtain ⟨ancestor,found,walked⟩ := walkAncestor_eq height.toNat index.nHeight index rfl correct (by omega)
    rw [walked,found]
    rfl
  · omega

/-- Every entry the node builds keeps the invariant: `BuildSkip` asks its
parent, which keeps it, for the ancestor at `GetSkipHeight`. -/
theorem Built.skipsCorrect {index : CBlockIndex} (built : Built index) : SkipsCorrect index := by
  induction built with
  | genesis => exact .root none
  | @add pprev index _ added parent =>
    have below := GetSkipHeight_lt (show 1 ≤ pprev.nHeight + 1 by omega)
    have found := GetAncestor_of_correct parent (GetSkipHeight (pprev.nHeight + 1))
    rw [if_pos (by omega),Int.toNat_natCast] at found
    unfold AddToBlockIndex CBlockIndex.BuildSkip at added
    simp only [CBlockIndex.pprev,nHeight_mk,found,Abort.ok_bind] at added
    cases added
    exact .node parent rfl

/-- For every entry the node builds, `GetAncestor(height)` returns, for every
`height` in `0 ..= nHeight`, the entry at that height reached by following
`pprev` `nHeight - height` times, and `NULL` for every other height, and
never fails its assertion. The skip of every entry above the genesis entry
is its ancestor at `GetSkipHeight`, which is strictly lower. -/
theorem GetAncestor_skip_list (index : CBlockIndex) (built : Built index) (height : Int) :
    (0 ≤ height ∧ height ≤ index.nHeight →
      ∃ ancestor, index.back (index.nHeight - height.toNat) = some ancestor ∧ (ancestor.nHeight : Int) = height ∧
        index.GetAncestor height = .ok (some ancestor)) ∧
    (¬(0 ≤ height ∧ height ≤ index.nHeight) → index.GetAncestor height = .ok none) ∧
    (1 ≤ index.nHeight → GetSkipHeight index.nHeight < index.nHeight ∧
      index.pskip = index.back (index.nHeight - GetSkipHeight index.nHeight)) := by
  have correct := built.skipsCorrect
  refine ⟨fun inside => ?_,fun outside => ?_,fun above => ?_⟩
  · obtain ⟨ancestor,reached,_,atHeight⟩ := correct.back_exists (show index.nHeight - height.toNat ≤ index.nHeight by omega)
    refine ⟨ancestor,reached,by omega,?_⟩
    rw [GetAncestor_of_correct correct,if_pos inside,reached]
  · rw [GetAncestor_of_correct correct,if_neg outside]
  · refine ⟨GetSkipHeight_lt above,?_⟩
    cases correct with
    | root pskip => simp at above
    | @node pprev pskip parent skip =>
      have lower := GetSkipHeight_lt above
      simp only [nHeight_mk] at lower ⊢
      rw [show pprev.nHeight + 1 - GetSkipHeight (pprev.nHeight + 1) =
          pprev.nHeight - GetSkipHeight (pprev.nHeight + 1) + 1 by omega,back_succ,← skip]
      rfl

/-- The third entry the node builds: its parent on the genesis entry, and both
skipping to the genesis entry. -/
def thirdEntry : CBlockIndex := mk (some (mk (some genesis) (some genesis) 1)) (some genesis) 2

theorem GetAncestor_skip_list_third :
    Built thirdEntry ∧ thirdEntry.GetAncestor 0 = .ok (some genesis) := by
  have built : Built thirdEntry := .add (.add .genesis rfl) rfl
  obtain ⟨ancestor,reached,_,result⟩ := (GetAncestor_skip_list thirdEntry built 0).1 ⟨Int.le_refl 0,by decide⟩
  cases reached
  exact ⟨built,result⟩

end Qtum.Chain
