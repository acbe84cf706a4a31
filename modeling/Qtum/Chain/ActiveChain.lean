import Qtum.Chain.Tree
import Qtum.Library.Abort

/-! `CChain` of `chain.h` and `chain.cpp`: the active chain, a vector of
entries by height. `SetTip` writes the new tip and its ancestors from the top
down and stops at the first one the vector already holds at its height;
`FindFork` walks back from an entry to the chain, and `GetLocator` walks back
in steps that double after the first ten. After every sequence of `SetTip`
from the empty vector, the vector holds exactly the ancestors of the last tip,
each at its height. On such a chain `operator[]` agrees with `GetAncestor` of
the tip, `FindFork` returns the last common block, and a locator lists
ancestors of its entry at falling heights down to the genesis block. -/
namespace Qtum.Tree
open CBlockIndex

/-- An entry of the vector stands at its own height. -/
def Heights (vChain : List (Option CBlockIndex)) : Prop :=
  ∀ nHeight (entry : CBlockIndex), vChain[nHeight]? = some (some entry) → entry.nHeight = nHeight

/-- `vChain.resize(n)`: cut to `n` slots, or grown by `NULL` slots. -/
def resize (vChain : List (Option CBlockIndex)) (n : Nat) : List (Option CBlockIndex) :=
  vChain.take n ++ List.replicate (n - vChain.length) none

/-- The loop of `SetTip`: from `pindex` back along `pprev`, each entry written
at its height until the vector holds it there already. -/
def setAncestors (vChain : List (Option CBlockIndex)) (pindex : CBlockIndex) :
    Except Abort (List (Option CBlockIndex)) :=
  match vChain[pindex.nHeight]? with
  | none => .error .outOfRange
  | some held =>
    if held = some pindex then .ok vChain
    else
      let written := vChain.set pindex.nHeight (some pindex)
      match pindex with
      | genesis _ _ _ => .ok written
      | .mk pprev _ _ _ => setAncestors written pprev

theorem getElem?_resize (vChain : List (Option CBlockIndex)) (n nHeight : Nat) :
    (resize vChain n)[nHeight]? = if nHeight < n then some vChain[nHeight]?.join else none := by
  simp only [resize,List.getElem?_append,List.length_take,List.getElem?_take,List.getElem?_replicate]
  by_cases inside : nHeight < vChain.length
  · rw [List.getElem?_eq_getElem inside]
    split_ifs <;> first | rfl | omega
  · rw [List.getElem?_eq_none (by omega)]
    split_ifs <;> first | rfl | omega

theorem length_resize (vChain : List (Option CBlockIndex)) (n : Nat) : (resize vChain n).length = n := by
  simp only [resize,List.length_append,List.length_take,List.length_replicate]
  omega

theorem Heights.resize {vChain : List (Option CBlockIndex)} (heights : Heights vChain) (n : Nat) :
    Heights (Tree.resize vChain n) := by
  intro nHeight entry held
  rw [getElem?_resize] at held
  split_ifs at held
  apply heights nHeight entry
  cases found : vChain[nHeight]? with
  | none => simp [found] at held
  | some slot => simp_all

theorem Heights.set {vChain : List (Option CBlockIndex)} (heights : Heights vChain) (pindex : CBlockIndex) :
    Heights (vChain.set pindex.nHeight (some pindex)) := by
  intro nHeight entry held
  rw [List.getElem?_set] at held
  split_ifs at held with written
  · cases held
    exact written
  · exact heights nHeight entry held

theorem setAncestors_heights : ∀ {vChain : List (Option CBlockIndex)} {pindex : CBlockIndex}
    {written : List (Option CBlockIndex)}, Heights vChain → setAncestors vChain pindex = .ok written →
      Heights written
  | vChain, pindex, written, heights, done => by
    unfold setAncestors at done
    split at done
    · cases done
    · split_ifs at done
      · cases done
        exact heights
      · split at done
        · cases done
          exact heights.set _
        · exact setAncestors_heights (heights.set _) done

/-- `CChain`, by its vector `vChain`; a slot that `resize` added holds `NULL`. -/
@[ext] structure CChain where
  vChain : List (Option CBlockIndex)
  heights : Heights vChain

namespace CChain

def empty : CChain := ⟨[],fun _ _ held => by simp at held⟩

def Genesis (chain : CChain) : Option CBlockIndex := chain.vChain.head?.join

def Tip (chain : CChain) : Option CBlockIndex := chain.vChain.getLast?.join

/-- `operator[]`. -/
def get (chain : CChain) (nHeight : Int) : Option CBlockIndex :=
  if nHeight < 0 ∨ nHeight ≥ chain.vChain.length then none else chain.vChain.getD nHeight.toNat none

def Contains (chain : CChain) (pindex : CBlockIndex) : Bool := decide (chain.get pindex.nHeight = some pindex)

def Next (chain : CChain) (pindex : CBlockIndex) : Option CBlockIndex :=
  if chain.Contains pindex then chain.get (pindex.nHeight + 1) else none

def Height (chain : CChain) : Int := chain.vChain.length - 1

/-- `operator==`: the sizes, then the last slots. For two empty vectors it
reads the slot before the first. -/
def equals (a b : CChain) : Except Abort Bool :=
  if a.vChain.length = b.vChain.length then
    match a.vChain.getLast?, b.vChain.getLast? with
    | some last, some last' => .ok (decide (last = last'))
    | _, _ => .error .outOfRange
  else .ok false

def SetTip (chain : CChain) : Option CBlockIndex → Except Abort CChain
  | none => .ok empty
  | some pindex =>
    match written : setAncestors (resize chain.vChain (pindex.nHeight + 1)) pindex with
    | .ok vChain => .ok ⟨vChain,setAncestors_heights (chain.heights.resize _) written⟩
    | .error failure => .error failure

/-- The loop of `FindFork`: back along `pprev` to the first entry the chain contains. -/
def descend (chain : CChain) (pindex : CBlockIndex) : Option CBlockIndex :=
  if chain.Contains pindex then some pindex
  else match pindex with
    | genesis _ _ _ => none
    | .mk pprev _ _ _ => chain.descend pprev

def FindFork (chain : CChain) : Option CBlockIndex → Option CBlockIndex
  | none => none
  | some pindex =>
    match (if pindex.nHeight > chain.Height then pindex.GetAncestor chain.Height else some pindex) with
    | none => none
    | some pindex => chain.descend pindex

theorem get_eq (chain : CChain) (nHeight : Nat) : chain.get nHeight = chain.vChain[nHeight]?.join := by
  unfold get
  split_ifs with outside
  · rw [List.getElem?_eq_none (by omega)]
    rfl
  · rw [List.getD_eq_getElem?_getD,Int.toNat_natCast]
    cases chain.vChain[nHeight]? <;> rfl

theorem get_eq_some {chain : CChain} {nHeight : Int} {entry : CBlockIndex} (found : chain.get nHeight = some entry) :
    (entry.nHeight : Int) = nHeight := by
  rcases Int.lt_or_le nHeight 0 with negative | natural
  · simp only [get,if_pos (Or.inl negative)] at found
    cases found
  · obtain ⟨nHeight,rfl⟩ := Int.eq_ofNat_of_zero_le natural
    rw [get_eq] at found
    have held : chain.vChain[nHeight]? = some (some entry) := by
      cases slot : chain.vChain[nHeight]? with
      | none => simp [slot] at found
      | some slot' => simp_all
    exact congrArg Nat.cast (chain.heights nHeight entry held)

/-- The step of `GetLocator`: by the chain's vector where it contains the
entry, and by `GetAncestor` where it does not. -/
def stepBack (chain : CChain) (pindex : CBlockIndex) (nHeight : Int) : Option CBlockIndex :=
  if chain.Contains pindex then chain.get nHeight else pindex.GetAncestor nHeight

theorem depth_stepBack_lt (chain : CChain) (pindex : CBlockIndex) {nHeight : Int} (lower : nHeight < pindex.nHeight) :
    depth (chain.stepBack pindex nHeight) < depth (some pindex) := by
  unfold stepBack
  split
  · cases found : chain.get nHeight with
    | none => simp [depth]
    | some entry =>
      have atHeight := get_eq_some found
      simp only [depth]
      omega
  · cases found : pindex.GetAncestor nHeight with
    | none => simp [depth]
    | some entry =>
      have atHeight := (GetAncestor_eq_some found).2
      simp only [depth]
      omega

/-- The loop of `GetLocator` with `nStep = 2 ^ doublings` and the hashes
`vHave` so far. -/
def locatorFrom (chain : CChain) (doublings : Nat) (vHave : List uint256) : Option CBlockIndex → List uint256
  | none => vHave
  | some pindex =>
    let vHave := vHave ++ [pindex.GetBlockHash]
    if heightZero : pindex.nHeight = 0 then vHave
    else
      let nHeight := max ((pindex.nHeight : Int) - 2 ^ doublings) 0
      chain.locatorFrom (if vHave.length > 10 then doublings + 1 else doublings) vHave
        (chain.stepBack pindex nHeight)
termination_by pindex => depth pindex
decreasing_by
  apply depth_stepBack_lt
  have positive : (0 : Int) < 2 ^ doublings := Int.pow_pos (by decide)
  omega

def GetLocator (chain : CChain) (pindex : Option CBlockIndex) : List uint256 :=
  chain.locatorFrom 0 [] (match pindex with | none => chain.Tip | some pindex => some pindex)

end CChain

/-! ### The vector of a tip -/

/-- The vector of the chain that ends at `tip`: at each height the ancestor of
`tip` there; empty without a tip. -/
def ancestry : Option CBlockIndex → List (Option CBlockIndex)
  | none => []
  | some tip => (List.range (tip.nHeight + 1)).map fun nHeight => tip.back (tip.nHeight - nHeight)

theorem getElem?_ancestry (tip : CBlockIndex) (nHeight : Nat) :
    (ancestry (some tip))[nHeight]? =
      if nHeight ≤ tip.nHeight then some (tip.back (tip.nHeight - nHeight)) else none := by
  simp only [ancestry,List.getElem?_map]
  split_ifs with below
  · rw [List.getElem?_range (by omega)]
    rfl
  · rw [List.getElem?_eq_none (by simp only [List.length_range]; omega)]
    rfl

theorem length_ancestry (tip : CBlockIndex) : (ancestry (some tip)).length = tip.nHeight + 1 := by
  simp only [ancestry,List.length_map,List.length_range]

theorem getLast?_ancestry (tip : CBlockIndex) : (ancestry (some tip)).getLast? = some (some tip) := by
  rw [ancestry,List.getLast?_map,List.getLast?_range,if_neg (by omega)]
  simp

theorem join_getElem?_ancestry (tip : CBlockIndex) (nHeight : Nat) :
    (ancestry (some tip))[nHeight]?.join = tip.GetAncestor nHeight := by
  rw [getElem?_ancestry]
  split_ifs with below
  · rw [GetAncestor_eq tip below]
    rfl
  · rw [GetAncestor,if_pos (Or.inl (by omega))]
    rfl

theorem heights_ancestry (tip : Option CBlockIndex) : Heights (ancestry tip) := by
  intro nHeight entry held
  cases tip with
  | none => simp [ancestry] at held
  | some tip =>
    rw [getElem?_ancestry] at held
    split_ifs at held with inside
    have heights := back_nHeight (Option.some.inj held)
    omega

/-- The chain of `tip`, the one that `SetTip` builds for it. -/
def CChain.ofTip (tip : Option CBlockIndex) : CChain := ⟨ancestry tip,heights_ancestry tip⟩

/-- Each entry at most `top` high comes with its ancestors in the slots below it. -/
def ClosedBelow (vChain : List (Option CBlockIndex)) (top : Nat) : Prop :=
  ∀ nHeight ≤ top, ∀ entry, vChain[nHeight]? = some (some entry) →
    ∀ lower ≤ nHeight, vChain[lower]? = some (entry.back (nHeight - lower))

theorem closedBelow_ancestry (start : Option CBlockIndex) (top : Nat) : ClosedBelow (ancestry start) top := by
  intro nHeight _ entry held lower below
  cases start with
  | none => simp [ancestry] at held
  | some tip =>
    rw [getElem?_ancestry] at held ⊢
    split_ifs at held with inside
    have reached : tip.back (tip.nHeight - nHeight) = some entry := Option.some.inj held
    rw [if_pos (by omega),← back_add reached,show tip.nHeight - nHeight + (nHeight - lower) = tip.nHeight - lower by omega]

theorem closedBelow_zero (vChain : List (Option CBlockIndex)) : ClosedBelow vChain 0 := by
  intro nHeight below entry held lower lowerBelow
  obtain rfl : nHeight = 0 := by omega
  obtain rfl : lower = 0 := by omega
  rw [held,back_zero]

theorem ClosedBelow.resize {vChain : List (Option CBlockIndex)} {top : Nat} (closed : ClosedBelow vChain top)
    (n : Nat) : ClosedBelow (Tree.resize vChain n) top := by
  intro nHeight below entry held lower lowerBelow
  rw [getElem?_resize] at held ⊢
  split_ifs at held with inside
  have slot := Option.join_eq_some_iff.mp (Option.some.inj held)
  rw [if_pos (by omega),closed nHeight below entry slot lower lowerBelow]
  rfl

/-- Writing the slot above `top` keeps the slots up to `top`. -/
theorem ClosedBelow.set {vChain : List (Option CBlockIndex)} {top : Nat} (closed : ClosedBelow vChain (top + 1))
    (slot : Option CBlockIndex) : ClosedBelow (vChain.set (top + 1) slot) top := by
  intro nHeight below entry held lower lowerBelow
  rw [List.getElem?_set_ne (by omega)] at held ⊢
  exact closed nHeight (by omega) entry held lower lowerBelow

/-- A vector that holds `pindex` at its height, the ancestors of `pindex`
below it and the slots of `tip` above it is the vector of `tip`. -/
theorem eq_ancestry_of_closed {tip pindex : CBlockIndex} {vChain : List (Option CBlockIndex)}
    (reached : tip.back (tip.nHeight - pindex.nHeight) = some pindex)
    (above : ∀ nHeight, pindex.nHeight < nHeight → vChain[nHeight]? = (ancestry (some tip))[nHeight]?)
    (closed : ClosedBelow vChain pindex.nHeight) (held : vChain[pindex.nHeight]? = some (some pindex)) :
    vChain = ancestry (some tip) := by
  have heights := back_nHeight reached
  apply List.ext_getElem?
  intro nHeight
  by_cases lower : nHeight ≤ pindex.nHeight
  · rw [closed pindex.nHeight le_rfl pindex held nHeight lower,getElem?_ancestry,if_pos (by omega),← back_add reached,
      show tip.nHeight - pindex.nHeight + (pindex.nHeight - nHeight) = tip.nHeight - nHeight by omega]
  · exact above nHeight (by omega)

/-- The loop of `SetTip` ends with the vector of the tip when the vector holds
the tip's slots above `pindex` and is closed below it. -/
theorem setAncestors_ancestry (tip : CBlockIndex) : ∀ (pindex : CBlockIndex) {vChain : List (Option CBlockIndex)},
    tip.back (tip.nHeight - pindex.nHeight) = some pindex →
    (∀ nHeight, pindex.nHeight < nHeight → vChain[nHeight]? = (ancestry (some tip))[nHeight]?) →
    ClosedBelow vChain pindex.nHeight → pindex.nHeight < vChain.length →
    setAncestors vChain pindex = .ok (ancestry (some tip)) := by
  intro pindex
  induction pindex with
  | genesis phashBlock nVersion nTime =>
    intro vChain reached above closed inside
    unfold setAncestors
    rw [List.getElem?_eq_getElem inside]
    dsimp only
    split_ifs with same
    · rw [eq_ancestry_of_closed reached above closed (by rw [List.getElem?_eq_getElem inside,same])]
    · rw [eq_ancestry_of_closed reached (by
          intro nHeight higher
          rw [List.getElem?_set_ne (by omega)]
          exact above nHeight higher) (closedBelow_zero _) (List.getElem?_set_self inside)]
  | mk pprev phashBlock nVersion nTime ih =>
    intro vChain reached above closed inside
    unfold setAncestors
    rw [List.getElem?_eq_getElem inside]
    dsimp only
    split_ifs with same
    · rw [eq_ancestry_of_closed reached above closed (by rw [List.getElem?_eq_getElem inside,same])]
    · have heights := back_nHeight reached
      apply ih
      · rw [nHeight_mk] at reached heights
        rw [show tip.nHeight - pprev.nHeight = (tip.nHeight - (pprev.nHeight + 1)) + 1 by omega,back_add reached,
          back_mk,back_zero]
      · -- the slot just written holds the entry, the slots above are as before
        intro nHeight higher
        rw [List.getElem?_set]
        split_ifs with written
        · rw [← written,getElem?_ancestry,if_pos (by omega),reached]
        · exact above nHeight (by simp only [nHeight_mk] at written ⊢; omega)
      · exact closed.set _
      · rw [List.length_set]
        simp only [nHeight_mk] at inside
        omega

namespace CChain

theorem Tip_eq {chain : CChain} {tip : Option CBlockIndex} (follows : chain.vChain = ancestry tip) :
    chain.Tip = tip := by
  cases tip with
  | none => rw [Tip,follows]; rfl
  | some tip => rw [Tip,follows,getLast?_ancestry]; rfl

/-- `SetTip` from the vector of any tip returns the chain of the new tip. -/
theorem SetTip_ancestry {chain : CChain} {start : Option CBlockIndex} (follows : chain.vChain = ancestry start)
    (pindex : Option CBlockIndex) : chain.SetTip pindex = .ok (ofTip pindex) := by
  cases pindex with
  | none => rfl
  | some tip =>
    have written : setAncestors (resize chain.vChain (tip.nHeight + 1)) tip = .ok (ancestry (some tip)) := by
      apply setAncestors_ancestry tip tip
      · rw [Nat.sub_self,back_zero]
      · intro nHeight above
        rw [getElem?_resize,getElem?_ancestry,if_neg (by omega),if_neg (by omega)]
      · rw [follows]
        exact (closedBelow_ancestry start _).resize _
      · rw [length_resize]
        omega
    simp only [SetTip]
    split
    · next vChain done =>
      rw [written] at done
      cases done
      rfl
    · next failure failed =>
      rw [written] at failed
      cases failed

theorem SetTip_foldlM : ∀ (tips : List (Option CBlockIndex)) {chain : CChain} {start : Option CBlockIndex},
    chain.vChain = ancestry start → tips.foldlM SetTip chain = .ok (ofTip (tips.getLast?.getD start))
  | [], chain, start, follows => by
    rw [List.foldlM_nil,List.getLast?_nil,Option.getD_none]
    exact congrArg Except.ok (CChain.ext follows)
  | tip :: tips, chain, start, follows => by
    rw [List.foldlM_cons,SetTip_ancestry follows tip,List.getLast?_cons,Option.getD_some]
    exact SetTip_foldlM tips rfl

/-- Every sequence of `SetTip` from the empty chain returns the chain of the
last tip set: writing only down to the first entry already in place leaves
the vector that writing all ancestors of the tip would. -/
theorem SetTip_run (tips : List (Option CBlockIndex)) :
    tips.foldlM SetTip empty = .ok (ofTip (tips.getLast?.getD none)) :=
  SetTip_foldlM tips rfl

theorem Tip_ofTip (tip : Option CBlockIndex) : (ofTip tip).Tip = tip := Tip_eq rfl

/-- On two chains that `SetTip` built, not both empty, comparing the sizes and
the last slots says whether the tips are the same. -/
theorem equals_ofTip {start start' : Option CBlockIndex} (nonempty : start ≠ none ∨ start' ≠ none) :
    (ofTip start).equals (ofTip start') = .ok (decide (start = start')) := by
  cases start with
  | none =>
    cases start' with
    | none => simp at nonempty
    | some tip' =>
      rw [equals,if_neg (by simp [ofTip,ancestry])]
      rfl
  | some tip =>
    cases start' with
    | none =>
      rw [equals,if_neg (by simp [ofTip,ancestry])]
      rfl
    | some tip' =>
      simp only [equals,ofTip,getLast?_ancestry,length_ancestry,Nat.add_right_cancel_iff]
      split_ifs with sameHeight
      · rfl
      · -- entries at different heights are different
        have different : tip ≠ tip' := fun same => sameHeight (congrArg nHeight same)
        simp [different]

/-! ### Reading a chain that `SetTip` built -/

section Follows

variable {chain : CChain}

/-- On the vector of `tip`, `operator[]` answers as `GetAncestor` of the tip. -/
theorem get_ancestry {tip : CBlockIndex} (follows : chain.vChain = ancestry (some tip)) (nHeight : Int) :
    chain.get nHeight = tip.GetAncestor nHeight := by
  rcases Int.lt_or_le nHeight 0 with negative | natural
  · rw [GetAncestor_negative tip negative,get,if_pos (Or.inl negative)]
  · obtain ⟨nHeight,rfl⟩ := Int.eq_ofNat_of_zero_le natural
    rw [get_eq,follows,join_getElem?_ancestry]

theorem Contains_iff {tip : CBlockIndex} (follows : chain.vChain = ancestry (some tip)) (pindex : CBlockIndex) :
    chain.Contains pindex = true ↔ IsAncestor pindex tip := by
  rw [Contains,decide_eq_true_iff,get_ancestry follows]
  exact ⟨fun found => (GetAncestor_eq_some found).1,GetAncestor_of_isAncestor⟩

theorem Contains_empty (follows : chain.vChain = ancestry none) (pindex : CBlockIndex) :
    chain.Contains pindex = false := by
  rw [Contains,decide_eq_false_iff_not,get_eq,follows]
  simp [ancestry]

/-- Where the chain contains the entry, the step through its vector lands
where `GetAncestor` of the entry does. -/
theorem stepBack_eq {start : Option CBlockIndex} (follows : chain.vChain = ancestry start) (pindex : CBlockIndex)
    {nHeight : Nat} (lower : nHeight ≤ pindex.nHeight) :
    chain.stepBack pindex nHeight = pindex.GetAncestor nHeight := by
  unfold stepBack
  split_ifs with contained
  · cases start with
    | none =>
      rw [Contains_empty follows] at contained
      cases contained
    | some tip =>
      rw [get_ancestry follows,GetAncestor_of_ancestor ((Contains_iff follows pindex).mp contained) lower]
  · rfl

/-- `Next` of an entry of the chain is its child toward the tip. -/
theorem Next_pprev {tip pindex child : CBlockIndex} (follows : chain.vChain = ancestry (some tip))
    (found : chain.Next pindex = some child) : child.pprev = some pindex ∧ IsAncestor child tip := by
  unfold Next at found
  split_ifs at found with contained
  rw [get_ancestry follows] at found
  obtain ⟨onChain,atHeight⟩ := GetAncestor_eq_some found
  have parent : IsAncestor pindex child :=
    ((Contains_iff follows pindex).mp contained).of_nHeight_le onChain (by omega)
  obtain ⟨steps,reached⟩ := parent
  have heights := back_nHeight reached
  cases child with
  | genesis => simp only [nHeight] at atHeight; omega
  | mk pprev phashBlock nVersion nTime =>
    obtain rfl : steps = 1 := by simp only [nHeight_mk] at atHeight heights; omega
    rw [back_mk,back_zero] at reached
    exact ⟨reached,onChain⟩

/-! #### `FindFork` -/

section FindFork

variable {tip : CBlockIndex} (follows : chain.vChain = ancestry (some tip))
include follows

theorem common_iff_of_contains {pindex : CBlockIndex} (contained : chain.Contains pindex = true)
    (ancestor : CBlockIndex) : (IsAncestor ancestor pindex ∧ IsAncestor ancestor tip) ↔
      ∃ fork, some pindex = some fork ∧ IsAncestor ancestor fork := by
  have onChain := (Contains_iff follows pindex).mp contained
  simp only [Option.some.injEq,exists_eq_left']
  exact ⟨And.left,fun below => ⟨below,below.trans onChain⟩⟩

/-- The loop of `FindFork` keeps the common ancestors of the entry and the tip. -/
theorem descend_common (pindex ancestor : CBlockIndex) :
    (IsAncestor ancestor pindex ∧ IsAncestor ancestor tip) ↔
      ∃ fork, chain.descend pindex = some fork ∧ IsAncestor ancestor fork := by
  induction pindex with
  | genesis phashBlock nVersion nTime =>
    unfold descend
    split_ifs with contained
    · exact common_iff_of_contains follows contained ancestor
    · constructor
      · rintro ⟨below,onChain⟩
        rw [isAncestor_genesis] at below
        subst below
        exact absurd ((Contains_iff follows _).mpr onChain) contained
      · rintro ⟨fork,found,_⟩
        cases found
  | mk pprev phashBlock nVersion nTime ih =>
    unfold descend
    split_ifs with contained
    · exact common_iff_of_contains follows contained ancestor
    · -- an entry the chain does not contain is no common ancestor
      rw [← ih,isAncestor_mk]
      constructor
      · rintro ⟨rfl | below,onChain⟩
        · exact absurd ((Contains_iff follows _).mpr onChain) contained
        · exact ⟨below,onChain⟩
      · rintro ⟨below,onChain⟩
        exact ⟨Or.inr below,onChain⟩

end FindFork

/-- `FindFork` finds the last common block: on the chain of `tip`, a block
lies below both the entry and the tip exactly when it lies below what
`FindFork` returns, and `NULL` means that no block does. -/
theorem FindFork_common (tip pindex ancestor : CBlockIndex) :
    (IsAncestor ancestor pindex ∧ IsAncestor ancestor tip) ↔
      ∃ fork, (ofTip (some tip)).FindFork (some pindex) = some fork ∧ IsAncestor ancestor fork := by
  have follows : (ofTip (some tip)).vChain = ancestry (some tip) := rfl
  have height : (ofTip (some tip)).Height = tip.nHeight := by
    rw [Height,follows,length_ancestry]
    omega
  simp only [FindFork,height]
  split_ifs with higher
  · -- first down to the height of the tip, where no common ancestor is lost
    obtain ⟨start,found⟩ := GetAncestor_exists pindex (show tip.nHeight ≤ pindex.nHeight by omega)
    rw [found,common_iff_GetAncestor found]
    exact descend_common follows start ancestor
  · exact descend_common follows pindex ancestor

/-- A genesis block, a chain of two blocks on it, and a side block on it. -/
def genesisEntry : CBlockIndex := .genesis (Blob.replicate 32 0) 1 0

def mainTip : CBlockIndex := .mk (.mk genesisEntry (Blob.replicate 32 1) 1 1) (Blob.replicate 32 2) 1 2

def sideTip : CBlockIndex := .mk genesisEntry (Blob.replicate 32 3) 1 1

example : (ofTip (some mainTip)).FindFork (some sideTip) = some genesisEntry := by decide

/-! #### `GetLocator` -/

/-- What a locator of `pindex` lists: ancestors of `pindex` from `pindex`
itself, at strictly falling heights, down to height zero. -/
structure Locates (pindex : CBlockIndex) (entries : List CBlockIndex) : Prop where
  head : entries.head? = some pindex
  ancestors : ∀ entry ∈ entries, IsAncestor entry pindex
  falling : entries.Pairwise fun higher lower => lower.nHeight < higher.nHeight
  genesis : ∃ last, entries.getLast? = some last ∧ last.nHeight = 0

theorem Locates.single {pindex : CBlockIndex} (heightZero : pindex.nHeight = 0) : Locates pindex [pindex] where
  head := rfl
  ancestors := by
    intro entry member
    rw [List.mem_singleton.mp member]
    exact IsAncestor.refl pindex
  falling := List.pairwise_singleton _ _
  genesis := ⟨pindex,rfl,heightZero⟩

theorem Locates.cons {pindex next : CBlockIndex} {entries : List CBlockIndex} (rest : Locates next entries)
    (below : IsAncestor next pindex) (lower : next.nHeight < pindex.nHeight) : Locates pindex (pindex :: entries) where
  head := rfl
  ancestors := by
    intro entry member
    rcases List.mem_cons.mp member with rfl | later
    · exact IsAncestor.refl entry
    · exact (rest.ancestors entry later).trans below
  falling := by
    refine List.pairwise_cons.mpr ⟨?_,rest.falling⟩
    intro entry member
    have := (rest.ancestors entry member).nHeight_le
    omega
  genesis := by
    obtain ⟨last,found,heightZero⟩ := rest.genesis
    refine ⟨last,?_,heightZero⟩
    rw [List.getLast?_cons,found,Option.getD_some]

/-- The step of a locator run that starts with `doublings` doublings after
`pushed` hashes: doubled once there are more than ten hashes. -/
def Gaps (doublings pushed : Nat) (entries : List CBlockIndex) : Prop :=
  ∀ i higher lower, entries[i]? = some higher → entries[i + 1]? = some lower →
    lower.nHeight = higher.nHeight - 2 ^ (doublings + (pushed + i - 10) - (pushed - 10))

theorem Gaps.single (doublings pushed : Nat) (pindex : CBlockIndex) : Gaps doublings pushed [pindex] := by
  intro i higher lower _ found
  simp at found

theorem Gaps.cons {doublings pushed : Nat} {pindex next : CBlockIndex} {entries : List CBlockIndex}
    (rest : Gaps (if pushed + 1 > 10 then doublings + 1 else doublings) (pushed + 1) entries)
    (first : entries.head? = some next) (step : next.nHeight = pindex.nHeight - 2 ^ doublings) :
    Gaps doublings pushed (pindex :: entries) := by
  intro i higher lower higherAt lowerAt
  cases i with
  | zero =>
    cases higherAt
    rw [List.getElem?_cons_succ,← List.head?_eq_getElem?,first] at lowerAt
    cases lowerAt
    rw [step,show doublings + (pushed + 0 - 10) - (pushed - 10) = doublings by omega]
  | succ i =>
    rw [List.getElem?_cons_succ] at higherAt lowerAt
    rw [rest i higher lower higherAt lowerAt]
    -- the exponents agree: one doubling more once ten hashes are in
    have exponent : (if pushed + 1 > 10 then doublings + 1 else doublings) + (pushed + 1 + i - 10) - (pushed + 1 - 10) =
        doublings + (pushed + (i + 1) - 10) - (pushed - 10) := by
      split_ifs <;> omega
    rw [exponent]

/-- The loop of `GetLocator` from an entry appends the hashes of a locator of
the entry, whatever its step. -/
theorem locatorFrom_locates {start : Option CBlockIndex} (follows : chain.vChain = ancestry start) :
    ∀ (n : Nat) (pindex : CBlockIndex), pindex.nHeight = n → ∀ (doublings : Nat) (vHave : List uint256),
      ∃ entries, chain.locatorFrom doublings vHave (some pindex) = vHave ++ entries.map GetBlockHash ∧
        Locates pindex entries ∧ Gaps doublings vHave.length entries := by
  intro n
  induction n using Nat.strong_induction_on with
  | _ n ih =>
    intro pindex atHeight doublings vHave
    rw [locatorFrom]
    by_cases heightZero : pindex.nHeight = 0
    · rw [dif_pos heightZero]
      exact ⟨[pindex],rfl,Locates.single heightZero,Gaps.single _ _ _⟩
    · -- the next entry is the ancestor at the height one step down
      rw [dif_neg heightZero]
      have power : ((2 ^ doublings : Nat) : Int) = 2 ^ doublings := Int.natCast_pow 2 doublings
      have target : max ((pindex.nHeight : Int) - 2 ^ doublings) 0 = ((pindex.nHeight - 2 ^ doublings : Nat) : Int) := by
        omega
      have lower : pindex.nHeight - 2 ^ doublings < pindex.nHeight := Nat.sub_lt (by omega) (Nat.two_pow_pos _)
      obtain ⟨next,found⟩ := GetAncestor_exists pindex lower.le
      obtain ⟨below,nextHeight⟩ := GetAncestor_eq_some found
      dsimp only
      rw [target,stepBack_eq follows pindex lower.le,found]
      obtain ⟨entries,run,locates,gaps⟩ := ih next.nHeight (by omega) next rfl
        (if (vHave ++ [pindex.GetBlockHash]).length > 10 then doublings + 1 else doublings) (vHave ++ [pindex.GetBlockHash])
      rw [List.length_append,List.length_singleton] at gaps
      refine ⟨pindex :: entries,?_,locates.cons below (by omega),gaps.cons locates.head (by omega)⟩
      rw [run,List.map_cons,List.append_assoc,List.singleton_append]

theorem Gaps.start {entries : List CBlockIndex} (gaps : Gaps 0 0 entries) :
    ∀ i higher lower, entries[i]? = some higher → entries[i + 1]? = some lower →
      lower.nHeight = higher.nHeight - 2 ^ (i - 10) := by
  intro i higher lower higherAt lowerAt
  rw [gaps i higher lower higherAt lowerAt,show 0 + (0 + i - 10) - (0 - 10) = i - 10 by omega]

theorem locator_ofTip (start : Option CBlockIndex) (pindex : CBlockIndex) :
    ∃ entries, (ofTip start).GetLocator (some pindex) = entries.map GetBlockHash ∧ Locates pindex entries ∧
      Gaps 0 0 entries :=
  locatorFrom_locates (show (ofTip start).vChain = ancestry start from rfl) pindex.nHeight pindex rfl 0 []

/-- On a chain that `SetTip` built, the locator of an entry lists the hashes of
ancestors of the entry, from the entry itself, at strictly falling heights
down to height zero: eleven heights one apart, then a gap that doubles at
each entry. -/
theorem GetLocator_locates (start : Option CBlockIndex) (pindex : CBlockIndex) :
    ∃ entries, (ofTip start).GetLocator (some pindex) = entries.map GetBlockHash ∧ Locates pindex entries ∧
      ∀ i higher lower, entries[i]? = some higher → entries[i + 1]? = some lower →
        lower.nHeight = higher.nHeight - 2 ^ (i - 10) := by
  obtain ⟨entries,run,locates,gaps⟩ := locator_ofTip start pindex
  exact ⟨entries,run,locates,gaps.start⟩

/-- How far below the entry the `i`-th entry of its locator lies, while above
height zero: one per entry for the first ten, then a gap that doubles. -/
def locatorDrop (i : Nat) : Nat := if i ≤ 10 then i else 9 + 2 ^ (i - 10)

theorem locatorDrop_succ (i : Nat) : locatorDrop (i + 1) = locatorDrop i + 2 ^ (i - 10) := by
  unfold locatorDrop
  by_cases early : i ≤ 9
  · rw [if_pos (show i + 1 ≤ 10 by omega),if_pos (show i ≤ 10 by omega),show i - 10 = 0 by omega,Nat.pow_zero]
  · rw [if_neg (by omega),show i + 1 - 10 = (i - 10) + 1 by omega,Nat.pow_succ]
    split_ifs with ten
    · rw [show i = 10 by omega]
      rfl
    · omega

theorem locator_drop {pindex : CBlockIndex} {entries : List CBlockIndex} (locates : Locates pindex entries)
    (gaps : ∀ i higher lower, entries[i]? = some higher → entries[i + 1]? = some lower →
      lower.nHeight = higher.nHeight - 2 ^ (i - 10)) :
    ∀ i entry, entries[i]? = some entry → 0 < entry.nHeight → entry.nHeight + locatorDrop i = pindex.nHeight
  | 0, entry, found, _ => by
    rw [← List.head?_eq_getElem?,locates.head] at found
    cases found
    rfl
  | i + 1, entry, found, positive => by
    have inside : i + 1 < entries.length := (List.getElem?_eq_some_iff.mp found).1
    obtain ⟨higher,higherAt⟩ : ∃ higher, entries[i]? = some higher := ⟨_,List.getElem?_eq_getElem (by omega)⟩
    have step := gaps i higher entry higherAt found
    have power := Nat.two_pow_pos (i - 10)
    have previous := locator_drop locates gaps i higher higherAt (by omega)
    rw [locatorDrop_succ]
    omega

/-- A locator is short: at most `12 + log₂ (nHeight + 1)` hashes for an entry
at height `nHeight`. -/
theorem GetLocator_length (start : Option CBlockIndex) (pindex : CBlockIndex) :
    2 ^ ((ofTip start).GetLocator (some pindex)).length ≤ 4096 * (pindex.nHeight + 1) := by
  obtain ⟨entries,run,locates,gaps⟩ := locator_ofTip start pindex
  replace gaps := gaps.start
  rw [run,List.length_map]
  by_cases short : entries.length ≤ 12
  · have bounded := Nat.pow_le_pow_right (show 2 > 0 by decide) short
    omega
  · -- the entry before the last still lies above height zero
    obtain ⟨last,lastAt,heightZero⟩ := locates.genesis
    rw [List.getLast?_eq_getElem?] at lastAt
    obtain ⟨lastInside,lastEq⟩ := List.getElem?_eq_some_iff.mp lastAt
    have falling := List.pairwise_iff_getElem.mp locates.falling (entries.length - 2) (entries.length - 1)
      (by omega) lastInside (by omega)
    rw [lastEq,heightZero] at falling
    have dropped := locator_drop locates gaps (entries.length - 2) _ (List.getElem?_eq_getElem (by omega)) falling
    rw [locatorDrop,if_neg (by omega),show entries.length - 2 - 10 = entries.length - 12 by omega] at dropped
    rw [show entries.length = (entries.length - 12) + 12 by omega,Nat.pow_add]
    omega

end Follows

/-! #### `FindForkInGlobalIndex` of `main.cpp` -/

/-- `FindForkInGlobalIndex`: the first block of a locator that the chain
contains, or its tip where a block of the locator descends from the tip, or
else the genesis block; `mapBlockIndex` looks up the entry of a hash. -/
def FindForkInGlobalIndex (mapBlockIndex : uint256 → Option CBlockIndex) (chain : CChain) :
    List uint256 → Option CBlockIndex
  | [] => chain.Genesis
  | hash :: vHave =>
    match mapBlockIndex hash with
    | none => FindForkInGlobalIndex mapBlockIndex chain vHave
    | some pindex =>
      if chain.Contains pindex then some pindex
      else if pindex.GetAncestor chain.Height = chain.Tip then chain.Tip
      else FindForkInGlobalIndex mapBlockIndex chain vHave

theorem Genesis_ofTip (tip : CBlockIndex) :
    ∃ root, (ofTip (some tip)).Genesis = some root ∧ IsAncestor root tip ∧ root.nHeight = 0 := by
  obtain ⟨root,found⟩ := GetAncestor_exists tip (Nat.zero_le tip.nHeight)
  obtain ⟨below,atHeight⟩ := GetAncestor_eq_some found
  refine ⟨root,?_,below,by omega⟩
  rw [Genesis,List.head?_eq_getElem?,← found]
  exact join_getElem?_ancestry tip 0

/-- The answer to a locator whose known hashes are of blocks below `pindex`:
a block of the chain that lies below `pindex` too, or the genesis block. -/
theorem FindForkInGlobalIndex_below (mapBlockIndex : uint256 → Option CBlockIndex) (tip pindex : CBlockIndex) :
    ∀ vHave : List uint256, (∀ hash ∈ vHave, ∀ found, mapBlockIndex hash = some found → IsAncestor found pindex) →
      ∃ fork, FindForkInGlobalIndex mapBlockIndex (ofTip (some tip)) vHave = some fork ∧ IsAncestor fork tip ∧
        (IsAncestor fork pindex ∨ fork.nHeight = 0)
  | [], _ => by
    obtain ⟨root,found,below,atHeight⟩ := Genesis_ofTip tip
    exact ⟨root,found,below,Or.inr atHeight⟩
  | hash :: vHave, known => by
    have rest := FindForkInGlobalIndex_below mapBlockIndex tip pindex vHave
      (fun other member => known other (List.mem_cons_of_mem hash member))
    have follows : (ofTip (some tip)).vChain = ancestry (some tip) := rfl
    rw [FindForkInGlobalIndex]
    split
    · exact rest
    · next found lookup =>
      have belowPindex := known hash List.mem_cons_self found lookup
      split_ifs with contained descends
      · exact ⟨found,rfl,(Contains_iff follows found).mp contained,Or.inl belowPindex⟩
      · -- the tip lies below the block of the locator
        rw [Tip_ofTip] at descends ⊢
        have height : (ofTip (some tip)).Height = tip.nHeight := by
          rw [Height,follows,length_ancestry]
          omega
        rw [height] at descends
        have tipBelow := (GetAncestor_eq_some descends).1
        exact ⟨tip,rfl,IsAncestor.refl tip,Or.inl (tipBelow.trans belowPindex)⟩
      · exact rest

/-- A locator that one node builds for `pindex` on its chain, answered by a
node on the chain of `tip` whose block index maps a hash it knows to the block
of that hash: the answer is a block of the answering chain below `pindex`, or
its genesis block. -/
theorem FindForkInGlobalIndex_GetLocator (mapBlockIndex : uint256 → Option CBlockIndex) (start : Option CBlockIndex)
    (tip pindex : CBlockIndex)
    (known : ∀ entry found, IsAncestor entry pindex → mapBlockIndex entry.GetBlockHash = some found → found = entry) :
    ∃ fork, FindForkInGlobalIndex mapBlockIndex (ofTip (some tip)) ((ofTip start).GetLocator (some pindex)) = some fork ∧
      IsAncestor fork tip ∧ (IsAncestor fork pindex ∨ fork.nHeight = 0) := by
  obtain ⟨entries,run,locates,_⟩ := locator_ofTip start pindex
  rw [run]
  apply FindForkInGlobalIndex_below
  intro hash member found lookup
  obtain ⟨entry,onLocator,rfl⟩ := List.mem_map.mp member
  have below := locates.ancestors entry onLocator
  rw [known entry found below lookup]
  exact below

/-- The parent of `mainTip`, and a side block on it. -/
def middleEntry : CBlockIndex := .mk genesisEntry (Blob.replicate 32 1) 1 1

def forkTip : CBlockIndex := .mk middleEntry (Blob.replicate 32 4) 1 2

/-- The block index of a node that knows the four blocks: the entry of a
hash, where it has one. -/
def knownBlocks (hash : uint256) : Option CBlockIndex :=
  [genesisEntry,middleEntry,mainTip,forkTip].find? (·.GetBlockHash == hash)

/-- The locator of `forkTip`: itself, then one back, then the genesis block. -/
theorem locator_forkTip :
    (ofTip (some forkTip)).GetLocator (some forkTip) = [Blob.replicate 32 4,Blob.replicate 32 1,Blob.replicate 32 0] := by
  have toMiddle : (ofTip (some forkTip)).stepBack forkTip (max ((forkTip.nHeight : Int) - 2 ^ 0) 0) =
      some middleEntry := by
    decide
  have toGenesis : (ofTip (some forkTip)).stepBack middleEntry (max ((middleEntry.nHeight : Int) - 2 ^ 0) 0) =
      some genesisEntry := by
    decide
  rw [GetLocator,locatorFrom,dif_neg (by decide)]
  dsimp only
  rw [toMiddle,if_neg (by decide),locatorFrom,dif_neg (by decide)]
  dsimp only
  rw [toGenesis,if_neg (by decide),locatorFrom,dif_pos (by decide)]
  rfl

/-- The chain of `mainTip` answers the locator of `forkTip` with the block
they share, `middleEntry`, which the node knows. -/
theorem FindForkInGlobalIndex_GetLocator_forkTip :
    (∀ entry found, IsAncestor entry forkTip → knownBlocks entry.GetBlockHash = some found → found = entry) ∧
    FindForkInGlobalIndex knownBlocks (ofTip (some mainTip)) ((ofTip (some forkTip)).GetLocator (some forkTip)) =
      some middleEntry ∧
    ∃ fork, FindForkInGlobalIndex knownBlocks (ofTip (some mainTip)) ((ofTip (some forkTip)).GetLocator (some forkTip)) =
      some fork ∧ IsAncestor fork mainTip ∧ (IsAncestor fork forkTip ∨ fork.nHeight = 0) := by
  have known : ∀ entry found, IsAncestor entry forkTip → knownBlocks entry.GetBlockHash = some found → found = entry := by
    rintro entry found ⟨steps,reached⟩ lookup
    have table : ∀ entry ∈ [forkTip,middleEntry,genesisEntry], knownBlocks entry.GetBlockHash = some entry := by
      decide
    -- the ancestors of `forkTip` are the three blocks below it
    have onChain : entry ∈ [forkTip,middleEntry,genesisEntry] := by
      match steps, reached with
      | 0, reached =>
        cases reached
        exact List.mem_cons_self
      | 1, reached =>
        cases reached
        exact List.mem_cons_of_mem _ List.mem_cons_self
      | 2, reached =>
        cases reached
        exact List.mem_cons_of_mem _ (List.mem_cons_of_mem _ List.mem_cons_self)
      | _ + 3, reached => cases reached
    rw [table entry onChain] at lookup
    exact (Option.some.inj lookup).symm
  refine ⟨known,?_,FindForkInGlobalIndex_GetLocator knownBlocks (some forkTip) mainTip forkTip known⟩
  rw [locator_forkTip]
  decide

end CChain

/-! ### `LastCommonAncestor` of `main.cpp` -/

/-- The loop of `LastCommonAncestor`: both back along `pprev` in step until
they meet or one is `NULL`. -/
def walkBoth (pa pb : Option CBlockIndex) : Option CBlockIndex × Option CBlockIndex :=
  match pa, pb with
  | some pa, some pb => if pa = pb then (some pa, some pb) else walkBoth pa.pprev pb.pprev
  | pa, pb => (pa, pb)
termination_by depth pa
decreasing_by exact depth_pprev_lt _

/-- `LastCommonAncestor(pa, pb)`, for two entries that are not `NULL`. -/
def LastCommonAncestor (pa pb : CBlockIndex) : Except Abort (Option CBlockIndex) :=
  let (pa, pb) :=
    if pa.nHeight > pb.nHeight then (pa.GetAncestor pb.nHeight, some pb)
    else if pb.nHeight > pa.nHeight then (some pa, pb.GetAncestor pa.nHeight)
    else (some pa, some pb)
  let (pa, pb) := walkBoth pa pb
  if pa = pb then .ok pa else .error .assertion

/-- Two different entries at one height have the common ancestors of their parents. -/
theorem common_mk {pa pb ancestor : CBlockIndex} {phashBlock phashBlock' : uint256} {nVersion nVersion' nTime nTime' : Int}
    (level : pa.nHeight = pb.nHeight) (different : mk pa phashBlock nVersion nTime ≠ mk pb phashBlock' nVersion' nTime') :
    (IsAncestor ancestor (mk pa phashBlock nVersion nTime) ∧ IsAncestor ancestor (mk pb phashBlock' nVersion' nTime')) ↔
      (IsAncestor ancestor pa ∧ IsAncestor ancestor pb) := by
  rw [isAncestor_mk,isAncestor_mk]
  constructor
  · rintro ⟨isA | belowA,isB | belowB⟩
    · exact absurd (isA.symm.trans isB) different
    · have lower := belowB.nHeight_le
      rw [isA,nHeight_mk] at lower
      omega
    · have lower := belowA.nHeight_le
      rw [isB,nHeight_mk] at lower
      omega
    · exact ⟨belowA,belowB⟩
  · rintro ⟨belowA,belowB⟩
    exact ⟨Or.inr belowA,Or.inr belowB⟩

/-- From two entries at one height the loop ends with one pointer twice: the
last common block of the two, or `NULL` when they share none. -/
theorem walkBoth_common : ∀ (pa pb : CBlockIndex), pa.nHeight = pb.nHeight →
    ∃ fork, walkBoth (some pa) (some pb) = (fork,fork) ∧
      ∀ ancestor, (IsAncestor ancestor pa ∧ IsAncestor ancestor pb) ↔ ∃ last, fork = some last ∧ IsAncestor ancestor last := by
  intro pa
  induction pa with
  | genesis phashBlock nVersion nTime =>
    intro pb level
    rw [walkBoth]
    split_ifs with same
    · subst same
      refine ⟨_,rfl,fun ancestor => ?_⟩
      simp
    · -- two genesis entries share no block
      cases pb with
      | mk pprev => simp only [nHeight] at level; omega
      | genesis phashBlock' nVersion' nTime' =>
        refine ⟨none,by rw [walkBoth.eq_def]; rfl,fun ancestor => ?_⟩
        simp only [isAncestor_genesis,reduceCtorEq,false_and,exists_false,iff_false,not_and]
        intro isA isB
        exact same (isA.symm.trans isB)
  | mk pa phashBlock nVersion nTime ih =>
    intro pb level
    rw [walkBoth]
    split_ifs with same
    · subst same
      refine ⟨_,rfl,fun ancestor => ?_⟩
      simp
    · cases pb with
      | genesis => simp only [nHeight] at level; omega
      | mk pb phashBlock' nVersion' nTime' =>
        simp only [nHeight_mk,Nat.add_right_cancel_iff] at level
        obtain ⟨fork,walked,common⟩ := ih pb level
        refine ⟨fork,walked,fun ancestor => ?_⟩
        rw [common_mk level same]
        exact common ancestor

/-- `LastCommonAncestor` never fails its assertion, and it returns the last
common block of the two entries: a block lies below both exactly when it lies
below the result, and `NULL` means that they share no block. -/
theorem LastCommonAncestor_common (pa pb : CBlockIndex) :
    ∃ fork, LastCommonAncestor pa pb = .ok fork ∧
      ∀ ancestor, (IsAncestor ancestor pa ∧ IsAncestor ancestor pb) ↔ ∃ last, fork = some last ∧ IsAncestor ancestor last := by
  rcases Nat.lt_trichotomy pb.nHeight pa.nHeight with higher | level | lower
  · -- `pa` first goes down to the height of `pb`
    obtain ⟨start,found⟩ := GetAncestor_exists pa higher.le
    obtain ⟨_,atHeight⟩ := GetAncestor_eq_some found
    obtain ⟨fork,walked,common⟩ := walkBoth_common start pb (by omega)
    refine ⟨fork,?_,fun ancestor => (common_iff_GetAncestor found).trans (common ancestor)⟩
    simp only [LastCommonAncestor,if_pos higher,found,walked,if_true]
  · obtain ⟨fork,walked,common⟩ := walkBoth_common pa pb level.symm
    refine ⟨fork,?_,common⟩
    simp only [LastCommonAncestor,level,lt_irrefl,if_false,walked,if_true]
  · obtain ⟨start,found⟩ := GetAncestor_exists pb lower.le
    obtain ⟨_,atHeight⟩ := GetAncestor_eq_some found
    obtain ⟨fork,walked,common⟩ := walkBoth_common pa start (by omega)
    refine ⟨fork,?_,fun ancestor => ?_⟩
    · simp only [LastCommonAncestor,if_neg (Nat.not_lt.mpr lower.le),if_pos lower,found,walked,if_true]
    · rw [and_comm,common_iff_GetAncestor found,and_comm]
      exact common ancestor

end Qtum.Tree
