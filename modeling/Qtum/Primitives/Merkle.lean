import Qtum.Library.MerkleTree
import Qtum.Primitives.Block

/-! `MerkleComputation` of `consensus/merkle.cpp`, with `ComputeMerkleBranch` and
`ComputeMerkleRootFromBranch`.

The computation keeps, for the 32-bit count of leaves read so far, one pending
subtree per set bit of the count in `inner[32]`. The first loop reads the leaves and
pairs a new subtree with the pending ones below its lowest clear bit; the final
sweep pairs the top of the last level with itself and climbs until the count is a
power of two. `matchlevel` is the level of the pending subtree that holds the leaf
at `branchpos`, and `matchh` says that the subtree in `h` holds it. The branch is
always recorded here: `pbranch` only decides whether the caller sees it, and
`ComputeMerkleRoot` passes the position `(uint32_t)-1`, which no leaf has.

The results are about `MerkleTree.level` with the pairing `hashPair crypto`: for
up to `2^31` leaves the computation returns the root, the flag of two equal
complete siblings and the branch of the level-by-level tree; above `2^31` leaves
the count reaches `2^32` in the sweep, wraps to zero, and the climb shifts by 32. -/

namespace Qtum

open Script MerkleTree

/-- `CHash256().Write(left).Write(right).Finalize(...)`, also `Hash(left, right)`. -/
def hashPair (crypto : Crypto) (left right : uint256) : uint256 :=
  crypto.Hash256 (left.bytes ++ right.bytes)

/-- The variables of a pairing loop. -/
structure Pairing where
  level : Nat
  h : uint256
  matchh : Bool
  mutated : Bool
  branch : List uint256

/-- One round of a pairing loop: the branch receives the sibling of the tracked
subtree, two equal halves mark the list as mutated, and `h` goes up one level. -/
def Pairing.next (crypto : Crypto) (inner : Nat → uint256) (matchlevel : Option Nat) (s : Pairing) : Pairing where
  level := s.level + 1
  h := hashPair crypto (inner s.level) s.h
  matchh := s.matchh || decide (matchlevel = some s.level)
  mutated := s.mutated || decide (inner s.level = s.h)
  branch :=
    if s.matchh then s.branch ++ [inner s.level]
    else if matchlevel = some s.level then s.branch ++ [s.h]
    else s.branch

@[simp] theorem Pairing.next_level (crypto : Crypto) (inner : Nat → uint256) (matchlevel : Option Nat) (s : Pairing) :
    (s.next crypto inner matchlevel).level = s.level + 1 := rfl

/-- `while (!(count & (((uint32_t)1) << level)))`: `h` is paired behind
`inner[level]` while the bit of `count` at `level` is clear. The shift is undefined
from `level = 32` on. -/
def mergeUp (crypto : Crypto) (inner : Nat → uint256) (matchlevel : Option Nat) (count : Nat)
    (s : Pairing) : Except Abort Pairing :=
  if s.level < 32 then
    if count &&& (1 <<< s.level) = 0 then mergeUp crypto inner matchlevel count (s.next crypto inner matchlevel)
    else .ok s
  else .error .overflow
termination_by 32 - s.level
decreasing_by
  simp only [Pairing.next]
  omega

theorem mergeUp_level_le {crypto : Crypto} {inner : Nat → uint256} {matchlevel : Option Nat} {count : Nat}
    {s t : Pairing} (paired : mergeUp crypto inner matchlevel count s = .ok t) : s.level ≤ t.level := by
  fun_induction mergeUp crypto inner matchlevel count s with
  | case1 s _ _ ih =>
    have := ih paired
    rw [Pairing.next_level] at this
    omega
  | case2 s _ _ => cases paired; rfl
  | case3 s _ => cases paired

/-- The variables kept between two leaves. -/
structure MerkleState where
  count : Nat
  inner : Nat → uint256
  matchlevel : Option Nat
  mutated : Bool
  branch : List uint256

/-- The start: no leaf read, `inner` zeroed by the `uint256` constructor. -/
def MerkleState.init : MerkleState := ⟨0,fun _ => Blob.null 32,none,false,[]⟩

/-- One round of the loop over the leaves: `count++` on the 32-bit count, the
pairing loop, and `inner[level] = h`. -/
def MerkleState.push (crypto : Crypto) (branchpos : Nat) (state : MerkleState) (leaf : uint256) :
    Except Abort MerkleState := do
  let count := (state.count + 1) % 2 ^ 32
  let paired ← mergeUp crypto state.inner state.matchlevel count
    ⟨0,leaf,decide (state.count = branchpos),state.mutated,state.branch⟩
  pure
    { count := count
      inner := setInner state.inner paired.level paired.h
      matchlevel := if paired.matchh then some paired.level else state.matchlevel
      mutated := paired.mutated
      branch := paired.branch }

/-- `while (!(count & (((uint32_t)1) << level))) level++`. -/
def lowestSetLevel (count level : Nat) : Except Abort Nat :=
  if level < 32 then
    if count &&& (1 <<< level) = 0 then lowestSetLevel count (level + 1) else .ok level
  else .error .overflow
termination_by 32 - level

/-- The subtree in `h` has no partner: it is paired with itself, and it is its own
sibling in the branch. -/
def Pairing.doubled (crypto : Crypto) (s : Pairing) : Pairing :=
  { s with
    level := s.level + 1
    h := hashPair crypto s.h s.h
    branch := if s.matchh then s.branch ++ [s.h] else s.branch }

@[simp] theorem Pairing.doubled_level (crypto : Crypto) (s : Pairing) : (s.doubled crypto).level = s.level + 1 :=
  rfl

@[simp] theorem Pairing.doubled_matchh (crypto : Crypto) (s : Pairing) : (s.doubled crypto).matchh = s.matchh :=
  rfl

/-- The final sweep, `while (count != (((uint32_t)1) << level))`: the subtree in `h`
is paired with itself, the count grows by the leaves that pairing stands for, and
the pairing loop climbs over the clear bits. That inner loop makes no comparison:
the flag `mergeUp` computes there is dropped. -/
def sweep (crypto : Crypto) (inner : Nat → uint256) (matchlevel : Option Nat) (count : Nat) (s : Pairing) :
    Except Abort Pairing :=
  if s.level < 32 then
    if count = 1 <<< s.level then .ok s
    else
      match climbed : mergeUp crypto inner matchlevel ((count + (1 <<< s.level)) % 2 ^ 32) (s.doubled crypto) with
      | .ok next => sweep crypto inner matchlevel ((count + (1 <<< s.level)) % 2 ^ 32) next
      | .error failure => .error failure
  else .error .overflow
termination_by 32 - s.level
decreasing_by
  have := mergeUp_level_le climbed
  simp only [Pairing.doubled] at this
  omega

/-- `MerkleComputation(leaves, proot, pmutated, branchpos, pbranch)`: the root, the
mutation flag and the branch of the leaf at `branchpos`. -/
def MerkleComputation (crypto : Crypto) (leaves : List uint256) (branchpos : Nat) :
    Except Abort (uint256 × Bool × List uint256) :=
  if leaves.length = 0 then .ok (Blob.null 32,false,[])
  else do
    let state ← leaves.foldlM (MerkleState.push crypto branchpos) MerkleState.init
    let level ← lowestSetLevel state.count 0
    let last ← sweep crypto state.inner state.matchlevel state.count
      ⟨level,state.inner level,decide (state.matchlevel = some level),false,state.branch⟩
    pure (last.h,state.mutated,last.branch)

/-- `ComputeMerkleBranch(leaves, position)`. -/
def ComputeMerkleBranch (crypto : Crypto) (leaves : List uint256) (position : Nat) :
    Except Abort (List uint256) := do
  let (_,_,branch) ← MerkleComputation crypto leaves position
  pure branch

/-- `ComputeMerkleRootFromBranch(leaf, vMerkleBranch, nIndex)`, with `hash` the running value. -/
def ComputeMerkleRootFromBranch (crypto : Crypto) (hash : uint256) : List uint256 → Nat → uint256
  | [], _ => hash
  | node :: rest, nIndex =>
    ComputeMerkleRootFromBranch crypto
      (if nIndex &&& 1 ≠ 0 then hashPair crypto node hash else hashPair crypto hash node) rest (nIndex >>> 1)

/-! ### The pairing loops -/

section Pairing

variable {crypto : Crypto} {leaves : List uint256} {p c : Nat}

/-- The leaf at `p` is in the subtree stored at level `l` after `c` leaves, and
`collected` holds its siblings below that level. -/
def StoredAt (crypto : Crypto) (leaves : List uint256) (p c l : Nat) (collected : List uint256) : Prop :=
  c / 2 ^ l % 2 = 1 ∧ p / 2 ^ l = c / 2 ^ l - 1 ∧ collected = (branch (hashPair crypto) leaves p).take l

theorem StoredAt.lt {l : Nat} {collected : List uint256} (stored : StoredAt crypto leaves p c l collected) :
    p < c := by
  obtain ⟨odd,index,_⟩ := stored
  apply Nat.lt_of_div_lt_div (c := 2 ^ l)
  -- omega reads `c / 2 ^ l` as a signed quotient: name the quotients first
  generalize c / 2 ^ l = quotient at odd index ⊢
  omega

/-- The leaf at `p` in a pairing loop whose `h` is the last node of `count` leaves at
`s.level`: `h` holds it, or it is still in the subtree stored at `matchlevel` after
the first `c` leaves, or it is `unread`. -/
structure Tracking (crypto : Crypto) (leaves : List uint256) (p c bound : Nat) (unread : Prop)
    (matchlevel : Option Nat) (count : Nat) (s : Pairing) : Prop where
  node : (level (hashPair crypto) s.level leaves)[count / 2 ^ s.level - 1]? = some s.h
  matched : s.matchh = true → p < bound ∧ p / 2 ^ s.level = count / 2 ^ s.level - 1 ∧
    s.branch = (branch (hashPair crypto) leaves p).take s.level
  unmatched : s.matchh = false → (matchlevel = none ∧ s.branch = [] ∧ unread) ∨
    ∃ l, s.level ≤ l ∧ matchlevel = some l ∧ StoredAt crypto leaves p c l s.branch

/-- The levels below one that holds node `index > 0` have at least two nodes. -/
theorem wide_of_getElem? {j index : Nat} {node : uint256}
    (present : (level (hashPair crypto) j leaves)[index]? = some node) (second : 1 ≤ index) :
    ∀ i ≤ j, 2 ≤ (level (hashPair crypto) i leaves).length := by
  have inside := (List.getElem?_eq_some_iff.mp present).1
  intro i below
  have := length_level_antitone (hashPair crypto) leaves below
  omega

/-- One round of a pairing loop at a clear bit of `count`: `h` is the right half of a
pair whose left half is the subtree stored after `c` leaves. The round pushes the
tracked leaf's sibling, and a tracked subtree stored at this level moves into `h`. -/
theorem Tracking.step {bound count : Nat} {unread : Prop} {inner : Nat → uint256} {matchlevel : Option Nat}
    {s : Pairing} (tracking : Tracking crypto leaves p c bound unread matchlevel count s)
    (isLeft : (level (hashPair crypto) s.level leaves)[count / 2 ^ s.level - 2]? = some (inner s.level))
    (clear : count / 2 ^ s.level % 2 = 0) (two : 2 ≤ count / 2 ^ s.level)
    (quotient : c / 2 ^ s.level = count / 2 ^ s.level - 1) (read : c ≤ bound) :
    Tracking crypto leaves p c bound unread matchlevel count (s.next crypto inner matchlevel) := by
  have half := div_two_pow_succ p s.level
  have halfCount := div_two_pow_succ count s.level
  have wide := wide_of_getElem? tracking.node (by omega)
  have inside := (List.getElem?_eq_some_iff.mp tracking.node).1
  have node : (level (hashPair crypto) (s.level + 1) leaves)[count / 2 ^ (s.level + 1) - 1]? =
      some (hashPair crypto (inner s.level) s.h) := by
    rw [level_succ]
    apply getElem?_pairUp_pair
    · rw [show 2 * (count / 2 ^ (s.level + 1) - 1) = count / 2 ^ s.level - 2 by omega]
      exact isLeft
    · rw [show 2 * (count / 2 ^ (s.level + 1) - 1) + 1 = count / 2 ^ s.level - 1 by omega]
      exact tracking.node
  cases matching : s.matchh with
  | true =>
    -- `h` holds the leaf, as the right half: its sibling is the stored subtree
    obtain ⟨below,index,collected⟩ := tracking.matched matching
    have atSibling : (level (hashPair crypto) s.level leaves)[min (sibling (p / 2 ^ s.level))
        ((level (hashPair crypto) s.level leaves).length - 1)]? = some (inner s.level) := by
      rw [index, sibling_of_odd (by omega), show min (count / 2 ^ s.level - 1 - 1)
        ((level (hashPair crypto) s.level leaves).length - 1) = count / 2 ^ s.level - 2 by omega]
      exact isLeft
    refine ⟨node,fun _ => ⟨below,by rw [Pairing.next_level]; omega,?_⟩,
      fun stays => by simp [Pairing.next,matching] at stays⟩
    simp only [Pairing.next,matching,if_true]
    rw [take_branch_succ (hashPair crypto) wide atSibling,collected]
  | false =>
    rcases tracking.unmatched matching with ⟨none,empty,waiting⟩ | ⟨l,above,stored,storedAt⟩
    · refine ⟨node,fun moved => by simp [Pairing.next,matching,none] at moved,
        fun _ => .inl ⟨none,?_,waiting⟩⟩
      simp [Pairing.next,matching,none,empty]
    · have before := storedAt.lt
      obtain ⟨odd,index,collected⟩ := storedAt
      by_cases here : l = s.level
      · -- the stored subtree is the left half: its sibling is `h`
        subst here
        have atSibling : (level (hashPair crypto) s.level leaves)[min (sibling (p / 2 ^ s.level))
            ((level (hashPair crypto) s.level leaves).length - 1)]? = some s.h := by
          rw [index, sibling_of_even (by omega), show min (c / 2 ^ s.level - 1 + 1)
            ((level (hashPair crypto) s.level leaves).length - 1) = count / 2 ^ s.level - 1 by omega]
          exact tracking.node
        refine ⟨node,fun _ => ⟨by omega,by rw [Pairing.next_level]; omega,?_⟩,
          fun stays => by simp [Pairing.next,matching,stored] at stays⟩
        simp only [Pairing.next,matching,stored,if_true,Bool.false_eq_true,if_false]
        rw [take_branch_succ (hashPair crypto) wide atSibling,collected]
      · have other : matchlevel ≠ some s.level := by
          rw [stored]
          simpa using here
        refine ⟨node,fun moved => by simp [Pairing.next,matching,other] at moved,
          fun _ => .inr ⟨l,by rw [Pairing.next_level]; omega,stored,odd,index,?_⟩⟩
        simp [Pairing.next,matching,other,collected]

end Pairing

/-! ### The loop over the leaves -/

section Leaves

variable {crypto : Crypto} {leaves : List uint256} {p c : Nat}

/-- The variables after the first `c` leaves: the subtree of each set bit of `c`,
the flag of the twins among them, and, once the leaf at `p` is read, where its
subtree is stored. -/
structure Filled (crypto : Crypto) (leaves : List uint256) (p c : Nat) (state : MerkleState) : Prop where
  count : state.count = c
  inner : ∀ j, c / 2 ^ j % 2 = 1 → (level (hashPair crypto) j leaves)[c / 2 ^ j - 1]? = some (state.inner j)
  mutated : state.mutated = true ↔ TwinsWithin (hashPair crypto) leaves c
  unmatched : c ≤ p → state.matchlevel = none ∧ state.branch = []
  matched : p < c → ∃ l, state.matchlevel = some l ∧ StoredAt crypto leaves p c l state.branch

/-- The pairing loop of the leaf at `c`: `h` is the last node of `c + 1` leaves at
`s.level`, and the flag has seen the twins of the pairs completed so far. -/
structure Merging (crypto : Crypto) (leaves : List uint256) (p c : Nat) (matchlevel : Option Nat)
    (s : Pairing) : Prop where
  aligned : 2 ^ s.level ∣ c + 1
  mutated : s.mutated = true ↔ TwinsWithin (hashPair crypto) leaves c ∨
    ∃ j < s.level, ∃ i node, 2 * i + 2 = (c + 1) / 2 ^ j ∧
      (level (hashPair crypto) j leaves)[2 * i]? = some node ∧
      (level (hashPair crypto) j leaves)[2 * i + 1]? = some node
  tracking : Tracking crypto leaves p c (c + 1) (c < p) matchlevel (c + 1) s

/-- Two equal halves of the pair completed at `q` leaves of a level. -/
theorem pair_eq_iff_twins {nodes : List uint256} {q : Nat} {left right : uint256} (even : q % 2 = 0)
    (two : 2 ≤ q) (isLeft : nodes[q - 2]? = some left) (isRight : nodes[q - 1]? = some right) :
    left = right ↔ ∃ i node, 2 * i + 2 = q ∧ nodes[2 * i]? = some node ∧ nodes[2 * i + 1]? = some node := by
  constructor
  · intro same
    refine ⟨q / 2 - 1,left,by omega,?_,?_⟩
    · rw [show 2 * (q / 2 - 1) = q - 2 by omega]
      exact isLeft
    · rw [show 2 * (q / 2 - 1) + 1 = q - 1 by omega, same]
      exact isRight
  · rintro ⟨i,node,rfl,atLeft,atRight⟩
    rw [show 2 * i + 2 - 2 = 2 * i by omega] at isLeft
    rw [show 2 * i + 2 - 1 = 2 * i + 1 by omega] at isRight
    rw [isLeft] at atLeft
    rw [isRight] at atRight
    cases atLeft
    cases atRight
    rfl

section Step

variable {state : MerkleState} {s : Pairing}

/-- At a clear bit, `h` completes a pair: at least two nodes of `c + 1` leaves. -/
theorem Merging.two_le (merging : Merging crypto leaves p c state.matchlevel s)
    (clear : (c + 1) / 2 ^ s.level % 2 = 0) : 2 ≤ (c + 1) / 2 ^ s.level := by
  have := one_le_div_of_dvd merging.aligned (Nat.succ_pos c)
  omega

/-- At a clear bit, the left half of the pair is the subtree stored at that level. -/
theorem Merging.left (filled : Filled crypto leaves p c state)
    (merging : Merging crypto leaves p c state.matchlevel s) (clear : (c + 1) / 2 ^ s.level % 2 = 0) :
    (level (hashPair crypto) s.level leaves)[(c + 1) / 2 ^ s.level - 2]? = some (state.inner s.level) := by
  have before := div_of_dvd_succ merging.aligned
  have two := merging.two_le clear
  rw [show (c + 1) / 2 ^ s.level - 2 = c / 2 ^ s.level - 1 by omega]
  exact filled.inner s.level (by omega)

/-- The comparison of a round adds the twins of the pair it completes. -/
theorem Merging.mutated_next (filled : Filled crypto leaves p c state)
    (merging : Merging crypto leaves p c state.matchlevel s) (clear : (c + 1) / 2 ^ s.level % 2 = 0) :
    (s.mutated || decide (state.inner s.level = s.h)) = true ↔ TwinsWithin (hashPair crypto) leaves c ∨
      ∃ j < s.level + 1, ∃ i node, 2 * i + 2 = (c + 1) / 2 ^ j ∧
        (level (hashPair crypto) j leaves)[2 * i]? = some node ∧
        (level (hashPair crypto) j leaves)[2 * i + 1]? = some node := by
  rw [Bool.or_eq_true, merging.mutated, decide_eq_true_iff,
    pair_eq_iff_twins clear (merging.two_le clear) (merging.left filled clear) merging.tracking.node]
  constructor
  · rintro ((old | ⟨j,below,twin⟩) | twin)
    · exact .inl old
    · exact .inr ⟨j,by omega,twin⟩
    · exact .inr ⟨s.level,by omega,twin⟩
  · rintro (old | ⟨j,below,twin⟩)
    · exact .inl (.inl old)
    · rcases Nat.lt_succ_iff_lt_or_eq.mp below with below | rfl
      · exact .inl (.inr ⟨j,below,twin⟩)
      · exact .inr twin

/-- One round of the pairing loop keeps `Merging`. -/
theorem Merging.step (filled : Filled crypto leaves p c state)
    (merging : Merging crypto leaves p c state.matchlevel s) (clear : (c + 1) / 2 ^ s.level % 2 = 0) :
    Merging crypto leaves p c state.matchlevel (s.next crypto state.inner state.matchlevel) where
  aligned := dvd_two_pow_succ merging.aligned clear
  mutated := merging.mutated_next filled clear
  tracking := merging.tracking.step (merging.left filled clear) clear (merging.two_le clear)
    (div_of_dvd_succ merging.aligned) (Nat.le_succ c)

/-- The pairing loop of a leaf ends at the lowest set bit of the new count. -/
theorem mergeUp_merging (filled : Filled crypto leaves p c state)
    (merging : Merging crypto leaves p c state.matchlevel s) (fits : c + 1 < 2 ^ 32) :
    ∃ t, mergeUp crypto state.inner state.matchlevel (c + 1) s = .ok t ∧
      Merging crypto leaves p c state.matchlevel t ∧ (c + 1) / 2 ^ t.level % 2 = 1 := by
  fun_induction mergeUp crypto state.inner state.matchlevel (c + 1) s with
  | case1 s _ clear ih =>
    exact ih (merging.step filled ((and_shiftLeft_eq_zero _ _).mp clear))
  | case2 s _ set =>
    have odd : (c + 1) / 2 ^ s.level % 2 = 1 := by
      have := (and_shiftLeft_eq_zero _ _).not.mp set
      omega
    exact ⟨s,rfl,merging,odd⟩
  | case3 s beyond =>
    -- `2 ^ level` divides the count, so the level stays below 32
    have := Nat.le_of_dvd (Nat.succ_pos c) merging.aligned
    have := Nat.pow_le_pow_right (show 0 < 2 by omega) (show 32 ≤ s.level by omega)
    omega

/-- The subtree of the leaf at `p` stays stored at a level above the new lowest set bit. -/
theorem StoredAt.succ {l t : Nat} {collected : List uint256} (stored : StoredAt crypto leaves p c l collected)
    (odd : (c + 1) / 2 ^ t % 2 = 1) (above : t < l) : StoredAt crypto leaves p (c + 1) l collected := by
  obtain ⟨oddAt,index,taken⟩ := stored
  rw [StoredAt,succ_div_of_odd odd above]
  exact ⟨oddAt,index,taken⟩

/-- `inner[level] = h` after the pairing loop of the leaf at `c`. -/
theorem Merging.filled (filled : Filled crypto leaves p c state)
    (merging : Merging crypto leaves p c state.matchlevel s) (odd : (c + 1) / 2 ^ s.level % 2 = 1) :
    Filled crypto leaves p (c + 1)
      { count := c + 1
        inner := setInner state.inner s.level s.h
        matchlevel := if s.matchh then some s.level else state.matchlevel
        mutated := s.mutated
        branch := s.branch } := by
  have before := div_of_dvd_succ merging.aligned
  constructor
  · rfl
  · intro j oddAt
    rcases Nat.lt_trichotomy j s.level with below | rfl | above
    · have := even_below merging.aligned below
      omega
    · simpa [setInner] using merging.tracking.node
    · rw [succ_div_of_odd odd above] at oddAt ⊢
      simpa [setInner,Nat.ne_of_gt above] using filled.inner j oddAt
  · rw [twinsWithin_succ (hashPair crypto) merging.aligned odd]
    exact merging.mutated
  · intro notYet
    cases matching : s.matchh with
    | true => exact absurd (merging.tracking.matched matching).1 (by omega)
    | false =>
      rcases merging.tracking.unmatched matching with ⟨none,empty,_⟩ | ⟨_,_,_,storedAt⟩
      · exact ⟨by simp [none],empty⟩
      · exact absurd storedAt.lt (by omega)
  · intro read
    cases matching : s.matchh with
    | true =>
      obtain ⟨_,index,collected⟩ := merging.tracking.matched matching
      exact ⟨s.level,by simp,odd,index,collected⟩
    | false =>
      rcases merging.tracking.unmatched matching with ⟨_,_,later⟩ | ⟨l,atOrAbove,stored,storedAt⟩
      · omega
      · have above : s.level < l := by
          rcases Nat.lt_or_eq_of_le atOrAbove with above | rfl
          · exact above
          · have := storedAt.1
            omega
        exact ⟨l,by simpa using stored,storedAt.succ odd above⟩

end Step

/-- The pairing loop of the leaf at `c` starts with `h` the leaf and `matchh` whether it
is the tracked one. -/
theorem Merging.start {state : MerkleState} {leaf : uint256} (filled : Filled crypto leaves p c state)
    (isLeaf : leaves[c]? = some leaf) :
    Merging crypto leaves p c state.matchlevel ⟨0,leaf,decide (state.count = p),state.mutated,state.branch⟩ where
  aligned := by simp
  mutated := by simpa using filled.mutated
  tracking :=
    { node := by simpa using isLeaf
      matched := by
        intro matching
        have same : c = p := by simpa [filled.count] using matching
        exact ⟨by omega,by simp [same],by simpa using (filled.unmatched (by omega)).2⟩
      unmatched := by
        intro matching
        have other : c ≠ p := by simpa [filled.count] using matching
        rcases Nat.lt_or_gt_of_ne other with later | earlier
        · obtain ⟨none,empty⟩ := filled.unmatched (by omega)
          exact .inl ⟨none,empty,later⟩
        · obtain ⟨l,stored,storedAt⟩ := filled.matched earlier
          exact .inr ⟨l,Nat.zero_le l,stored,storedAt⟩ }

/-- One round of the loop over the leaves keeps `Filled`. -/
theorem push_filled {state : MerkleState} {leaf : uint256} (filled : Filled crypto leaves p c state)
    (isLeaf : leaves[c]? = some leaf) (fits : c + 1 < 2 ^ 32) :
    ∃ next, state.push crypto p leaf = .ok next ∧ Filled crypto leaves p (c + 1) next := by
  obtain ⟨t,paired,merging,odd⟩ := mergeUp_merging filled (Merging.start filled isLeaf) fits
  have counted : (state.count + 1) % 2 ^ 32 = c + 1 := by rw [filled.count,Nat.mod_eq_of_lt fits]
  refine ⟨_,?_,merging.filled filled odd⟩
  simp only [MerkleState.push,counted,paired]
  rfl

theorem Filled.init : Filled crypto leaves p 0 MerkleState.init where
  count := rfl
  inner := by simp
  mutated := by simp [MerkleState.init,TwinsWithin]
  unmatched := fun _ => ⟨rfl,rfl⟩
  matched := fun before => absurd before (Nat.not_lt_zero p)

/-- The loop over fewer than `2^32` leaves ends with `Filled` for all of them. -/
theorem foldlM_push_filled (fits : leaves.length < 2 ^ 32) (rest : List uint256) :
    ∀ c state, Filled crypto leaves p c state → leaves.drop c = rest → c ≤ leaves.length →
      ∃ final, rest.foldlM (MerkleState.push crypto p) state = .ok final ∧
        Filled crypto leaves p leaves.length final := by
  induction rest with
  | nil =>
    intro c state filled dropped within
    have : leaves.length - c = 0 := by simpa using congrArg List.length dropped
    exact ⟨state,rfl,by rwa [show leaves.length = c by omega]⟩
  | cons leaf rest ih =>
    intro c state filled dropped within
    have isLeaf : leaves[c]? = some leaf := by
      rw [← Nat.add_zero c, ← List.getElem?_drop, dropped]
      rfl
    have inside := (List.getElem?_eq_some_iff.mp isLeaf).1
    obtain ⟨next,pushed,filledNext⟩ := push_filled filled isLeaf (by omega)
    have droppedNext : leaves.drop (c + 1) = rest := by
      rw [← List.drop_drop, dropped]
      rfl
    obtain ⟨final,folded,filledFinal⟩ := ih (c + 1) next filledNext droppedNext (by omega)
    exact ⟨final,by rw [List.foldlM_cons,pushed]; exact folded,filledFinal⟩

end Leaves

/-! ### The final sweep -/

section Sweep

variable {crypto : Crypto} {leaves : List uint256} {p : Nat} {inner : Nat → uint256}
  {matchlevel : Option Nat}

/-- A pairing loop climbs out of a zero count only by shifting by 32. -/
theorem mergeUp_zero (s : Pairing) : mergeUp crypto inner matchlevel 0 s = .error .overflow := by
  fun_induction mergeUp crypto inner matchlevel 0 s with
  | case1 s _ _ ih => exact ih
  | case2 s _ set => simp at set
  | case3 s _ => rfl

theorem sweep_of_eq {count : Nat} {s : Pairing} (below : s.level < 32) (top : count = 1 <<< s.level) :
    sweep crypto inner matchlevel count s = .ok s := by
  rw [sweep,if_pos below,if_pos top]

theorem sweep_of_ne {count : Nat} {s : Pairing} (below : s.level < 32) (notTop : count ≠ 1 <<< s.level) :
    sweep crypto inner matchlevel count s =
      (mergeUp crypto inner matchlevel ((count + (1 <<< s.level)) % 2 ^ 32) (s.doubled crypto)).bind
        (sweep crypto inner matchlevel ((count + (1 <<< s.level)) % 2 ^ 32)) := by
  rw [sweep,if_pos below,if_neg notTop]
  split <;> simp_all [Except.bind]

/-- The sweep at `s.level` with the count `count`, before any wrap: the count rounds
the leaves up to whole nodes of the level, `h` is the level's last node, and the
levels below pair at least two nodes. -/
structure Sweeping (crypto : Crypto) (leaves : List uint256) (p : Nat) (matchlevel : Option Nat)
    (count : Nat) (s : Pairing) : Prop where
  aligned : 2 ^ s.level ∣ count
  covers : leaves.length ≤ count
  near : count < leaves.length + 2 ^ s.level
  length : (level (hashPair crypto) s.level leaves).length = count / 2 ^ s.level
  wide : ∀ i < s.level, 2 ≤ (level (hashPair crypto) i leaves).length
  tracking : Tracking crypto leaves p leaves.length leaves.length (leaves.length ≤ p) matchlevel count s

/-- The subtrees the loop over the leaves leaves in `inner`. -/
def StoredSubtrees (crypto : Crypto) (leaves : List uint256) (inner : Nat → uint256) : Prop :=
  ∀ j, leaves.length / 2 ^ j % 2 = 1 →
    (level (hashPair crypto) j leaves)[leaves.length / 2 ^ j - 1]? = some (inner j)

/-- One round of the climb at a clear bit of a count past the leaves. -/
theorem Sweeping.step {count : Nat} {s : Pairing} (stored : StoredSubtrees crypto leaves inner)
    (sweeping : Sweeping crypto leaves p matchlevel count s) (beyond : leaves.length < count)
    (clear : count / 2 ^ s.level % 2 = 0) :
    Sweeping crypto leaves p matchlevel count (s.next crypto inner matchlevel) := by
  have one := one_le_div_of_dvd sweeping.aligned (by omega)
  have quotient := div_of_between sweeping.aligned beyond sweeping.near
  have isLeft : (level (hashPair crypto) s.level leaves)[count / 2 ^ s.level - 2]? = some (inner s.level) := by
    rw [show count / 2 ^ s.level - 2 = leaves.length / 2 ^ s.level - 1 by omega]
    exact stored s.level (by omega)
  have half := div_two_pow_succ count s.level
  have double := Nat.pow_succ 2 s.level
  refine ⟨?_,sweeping.covers,?_,?_,?_,?_⟩
  · exact dvd_two_pow_succ sweeping.aligned clear
  · rw [Pairing.next_level]
    have := sweeping.near
    omega
  · rw [Pairing.next_level,length_level_succ,sweeping.length]
    omega
  · intro i below
    rw [Pairing.next_level] at below
    rcases Nat.lt_succ_iff_lt_or_eq.mp below with below | rfl
    · exact sweeping.wide i below
    · rw [sweeping.length]
      omega
  · exact sweeping.tracking.step isLeft clear (by omega) quotient (Nat.le_refl _)

/-- The climb of the sweep ends at the next set bit of a count past the leaves, and
the leaf at `p` is not left behind at that level. -/
theorem mergeUp_sweeping {count : Nat} {s : Pairing} (stored : StoredSubtrees crypto leaves inner)
    (sweeping : Sweeping crypto leaves p matchlevel count s) (beyond : leaves.length < count)
    (fits : count < 2 ^ 32) :
    ∃ t, mergeUp crypto inner matchlevel count s = .ok t ∧ Sweeping crypto leaves p matchlevel count t ∧
      count / 2 ^ t.level % 2 = 1 ∧ (t.matchh = false → matchlevel ≠ some t.level) := by
  fun_induction mergeUp crypto inner matchlevel count s with
  | case1 s _ clear ih =>
    exact ih (sweeping.step stored beyond ((and_shiftLeft_eq_zero _ _).mp clear))
  | case2 s _ set =>
    have odd : count / 2 ^ s.level % 2 = 1 := by
      have := (and_shiftLeft_eq_zero _ _).not.mp set
      omega
    refine ⟨s,rfl,sweeping,odd,fun matching stays => ?_⟩
    -- a subtree stored at a set bit of the count would be a set bit of the leaves
    have quotient := div_of_between sweeping.aligned beyond sweeping.near
    rcases sweeping.tracking.unmatched matching with ⟨none,_,_⟩ | ⟨l,_,stored,storedAt⟩
    · simp [none] at stays
    · rw [stays,Option.some.injEq] at stored
      subst stored
      have := storedAt.1
      omega
  | case3 s beyond =>
    have := Nat.le_of_dvd (by omega) sweeping.aligned
    have := Nat.pow_le_pow_right (show 0 < 2 by omega) (show 32 ≤ s.level by omega)
    omega

/-- A head below the top has at least three nodes: an odd number other than one. -/
theorem Sweeping.three_le {count : Nat} {s : Pairing} (sweeping : Sweeping crypto leaves p matchlevel count s)
    (odd : count / 2 ^ s.level % 2 = 1) (notTop : count ≠ 2 ^ s.level) : 3 ≤ count / 2 ^ s.level := by
  have := Nat.zero_le (count / 2 ^ s.level)
  have whole : count / 2 ^ s.level * 2 ^ s.level = count := Nat.div_mul_cancel sweeping.aligned
  by_contra small
  have one : count / 2 ^ s.level = 1 := by omega
  rw [one,Nat.one_mul] at whole
  exact notTop whole.symm

/-- The head of the sweep at a set bit of the count below the top: the pairing of
`h` with itself keeps `Sweeping` with the count of a whole node more. -/
theorem Sweeping.doubled {count : Nat} {s : Pairing} (sweeping : Sweeping crypto leaves p matchlevel count s)
    (odd : count / 2 ^ s.level % 2 = 1) (notTop : count ≠ 2 ^ s.level)
    (fresh : s.matchh = false → matchlevel ≠ some s.level) :
    Sweeping crypto leaves p matchlevel (count + 2 ^ s.level) (s.doubled crypto) := by
  -- omega takes `count / 2 ^ level` apart as a signed quotient: it needs the sign
  have := Nat.zero_le (count / 2 ^ s.level)
  have := Nat.zero_le (p / 2 ^ s.level)
  have three := sweeping.three_le odd notTop
  have more := Nat.add_div_right count (Nat.two_pow_pos s.level)
  have half := div_two_pow_succ (count + 2 ^ s.level) s.level
  have halfP := div_two_pow_succ p s.level
  have double := Nat.pow_succ 2 s.level
  have inside := (List.getElem?_eq_some_iff.mp sweeping.tracking.node).1
  have covers := sweeping.covers
  have near := sweeping.near
  have node : (level (hashPair crypto) (s.level + 1) leaves)[(count + 2 ^ s.level) / 2 ^ (s.level + 1) - 1]? =
      some (hashPair crypto s.h s.h) := by
    rw [level_succ]
    apply getElem?_pairUp_last
    · rw [show 2 * ((count + 2 ^ s.level) / 2 ^ (s.level + 1) - 1) = count / 2 ^ s.level - 1 by omega]
      exact sweeping.tracking.node
    · rw [sweeping.length]
      omega
  refine ⟨?_,by omega,by rw [Pairing.doubled_level]; omega,?_,?_,?_⟩
  · exact dvd_two_pow_succ (Nat.dvd_add sweeping.aligned (Nat.dvd_refl _)) (by omega)
  · rw [Pairing.doubled_level,length_level_succ,sweeping.length]
    omega
  · intro i below
    rw [Pairing.doubled_level] at below
    rcases Nat.lt_succ_iff_lt_or_eq.mp below with below | rfl
    · exact sweeping.wide i below
    · rw [sweeping.length]
      omega
  · refine ⟨node,fun matching => ?_,fun matching => ?_⟩
    all_goals rw [Pairing.doubled_matchh] at matching
    · -- the node without a partner is its own sibling
      obtain ⟨read,index,collected⟩ := sweeping.tracking.matched matching
      have wide := wide_of_getElem? sweeping.tracking.node (by omega)
      have atSibling : (level (hashPair crypto) s.level leaves)[min (sibling (p / 2 ^ s.level))
          ((level (hashPair crypto) s.level leaves).length - 1)]? = some s.h := by
        rw [index,sibling_of_even (by omega),sweeping.length,
          show min (count / 2 ^ s.level - 1 + 1) (count / 2 ^ s.level - 1) = count / 2 ^ s.level - 1 by omega]
        exact sweeping.tracking.node
      refine ⟨read,by rw [Pairing.doubled_level]; omega,?_⟩
      simp only [Pairing.doubled,matching,if_true]
      rw [take_branch_succ (hashPair crypto) wide atSibling,collected]
    · rcases sweeping.tracking.unmatched matching with ⟨none,empty,waiting⟩ | ⟨l,atOrAbove,stored,storedAt⟩
      · exact .inl ⟨none,by simp [Pairing.doubled,matching,empty],waiting⟩
      · have above : s.level < l := by
          rcases Nat.lt_or_eq_of_le atOrAbove with above | rfl
          · exact above
          · exact absurd stored (fresh matching)
        exact .inr ⟨l,above,stored,by simpa [Pairing.doubled,matching] using storedAt⟩

/-- What the sweep returns: for at most `2^31` leaves the root and the branch of the
level-by-level tree, and above that the overflow of the 32-bit count. -/
def SweepOutcome (crypto : Crypto) (leaves : List uint256) (p : Nat) (result : Except Abort Pairing) : Prop :=
  (leaves.length ≤ 2 ^ 31 → ∃ last, result = .ok last ∧ root (hashPair crypto) leaves = some last.h ∧
    last.branch = if p < leaves.length then branch (hashPair crypto) leaves p else []) ∧
  (2 ^ 31 < leaves.length → result = .error .overflow)

/-- The sweep stops when the count is `2 ^ level`: one node is left, the root. -/
theorem Sweeping.finish {s : Pairing} (sweeping : Sweeping crypto leaves p matchlevel (2 ^ s.level) s)
    (below : s.level < 32) (fresh : s.matchh = false → matchlevel ≠ some s.level) :
    SweepOutcome crypto leaves p (.ok s) := by
  have one : (level (hashPair crypto) s.level leaves).length = 1 := by
    rw [sweeping.length,Nat.div_self (Nat.two_pow_pos s.level)]
  have first := sweeping.tracking.node
  rw [Nat.div_self (Nat.two_pow_pos s.level)] at first
  have small : 2 ^ s.level ≤ 2 ^ 31 := Nat.pow_le_pow_right (by omega) (by omega)
  have covers := sweeping.covers
  refine ⟨fun _ => ⟨s,rfl,?_,?_⟩,fun large => by omega⟩
  · rw [root_level (hashPair crypto) leaves s.level sweeping.wide]
    exact root_of_length_one (hashPair crypto) one first
  · have complete := length_branch_le (hashPair crypto) leaves p s.level (by omega)
    cases matching : s.matchh with
    | true =>
      obtain ⟨read,_,collected⟩ := sweeping.tracking.matched matching
      rw [if_pos read,collected,List.take_of_length_le complete]
    | false =>
      rcases sweeping.tracking.unmatched matching with ⟨_,empty,waiting⟩ | ⟨l,atOrAbove,stored,storedAt⟩
      · rw [if_neg (by omega),empty]
      · -- a set bit of the leaves at `l ≥ level` would need `2 ^ l` leaves
        have above : s.level < l := by
          rcases Nat.lt_or_eq_of_le atOrAbove with above | rfl
          · exact above
          · exact absurd stored (fresh matching)
        have := Nat.pow_lt_pow_right (show 1 < 2 by omega) above
        have zero : leaves.length / 2 ^ l = 0 := Nat.div_eq_of_lt (by omega)
        have := storedAt.1
        omega

/-- The sweep from a set bit of the count: every head pairs `h` with itself and
climbs, until the count is a power of two or wraps past `2^32`. The induction is on
the levels left below 32. -/
theorem sweep_outcome (stored : StoredSubtrees crypto leaves inner) (fits : leaves.length < 2 ^ 32) (k : Nat) :
    ∀ count s, 32 - s.level = k → Sweeping crypto leaves p matchlevel count s → count / 2 ^ s.level % 2 = 1 →
      count < 2 ^ 32 → (s.matchh = false → matchlevel ≠ some s.level) →
      SweepOutcome crypto leaves p (sweep crypto inner matchlevel count s) := by
  induction k using Nat.strong_induction_on with
  | _ k ih =>
  intro count s measure sweeping odd small fresh
  have := Nat.zero_le (count / 2 ^ s.level)
  have atLeast : 2 ^ s.level ≤ count := Nat.le_of_dvd (Nat.pos_of_ne_zero (by rintro rfl; simp at odd))
    sweeping.aligned
  have below : s.level < 32 := by
    by_contra high
    have := Nat.pow_le_pow_right (show 0 < 2 by omega) (show 32 ≤ s.level by omega)
    omega
  by_cases top : count = 2 ^ s.level
  · rw [sweep_of_eq below (by rw [Nat.one_shiftLeft]; exact top)]
    rw [top] at sweeping
    exact sweeping.finish below fresh
  · rw [sweep_of_ne below (by rw [Nat.one_shiftLeft]; exact top),Nat.one_shiftLeft]
    have doubled := sweeping.doubled odd top fresh
    have beyond : leaves.length < count + 2 ^ s.level := by
      have := sweeping.covers
      have := Nat.two_pow_pos s.level
      omega
    by_cases wraps : count + 2 ^ s.level < 2 ^ 32
    · rw [Nat.mod_eq_of_lt wraps]
      obtain ⟨t,climbed,sweepingT,oddT,freshT⟩ := mergeUp_sweeping stored doubled beyond wraps
      have higher := mergeUp_level_le climbed
      rw [Pairing.doubled_level] at higher
      rw [climbed]
      exact ih (32 - t.level) (by omega) (count + 2 ^ s.level) t rfl sweepingT oddT wraps freshT
    · -- the count reaches `2^32`: it wraps to zero and the climb shifts by 32
      have lowHead : s.level + 1 ≤ 31 := by
        have three := Nat.mul_le_mul_right (2 ^ s.level) (sweeping.three_le odd top)
        rw [Nat.div_mul_cancel sweeping.aligned] at three
        by_contra high
        have := Nat.pow_le_pow_right (show 0 < 2 by omega) (show 31 ≤ s.level by omega)
        omega
      have whole : count + 2 ^ s.level = 2 ^ 32 := by
        have near := doubled.near
        have aligned := doubled.aligned
        rw [Pairing.doubled_level] at near aligned
        have := le_of_dvd_of_lt aligned (Nat.pow_dvd_pow 2 (show s.level + 1 ≤ 32 by omega)) (by omega)
        omega
      rw [whole,Nat.mod_self,mergeUp_zero]
      have near := doubled.near
      rw [Pairing.doubled_level,whole] at near
      have := Nat.pow_le_pow_right (show 0 < 2 by omega) lowHead
      exact ⟨fun small => absurd small (by omega),fun _ => rfl⟩

/-- `while (!(count & (1 << level))) level++` from level 0 finds the lowest set bit. -/
theorem lowestSetLevel_spec {m : Nat} (positive : 0 < m) (fits : m < 2 ^ 32) (level : Nat)
    (clear : ∀ i < level, m / 2 ^ i % 2 = 0) :
    ∃ t, lowestSetLevel m level = .ok t ∧ (∀ i < t, m / 2 ^ i % 2 = 0) ∧ m / 2 ^ t % 2 = 1 := by
  fun_induction lowestSetLevel m level with
  | case1 level _ clearBit ih =>
    apply ih
    intro i below
    rcases Nat.lt_succ_iff_lt_or_eq.mp below with below | rfl
    · exact clear i below
    · exact (and_shiftLeft_eq_zero _ _).mp clearBit
  | case2 level _ set =>
    have odd : m / 2 ^ level % 2 = 1 := by
      have := (and_shiftLeft_eq_zero _ _).not.mp set
      omega
    exact ⟨level,rfl,clear,odd⟩
  | case3 level beyond =>
    -- the bits below 32 are clear, so `2 ^ 32` divides the count
    have := Nat.le_of_dvd positive (dvd_of_even_below clear)
    have := Nat.pow_le_pow_right (show 0 < 2 by omega) (show 32 ≤ level by omega)
    omega

/-- The sweep starts at the lowest set bit of the number of leaves, with `h` the
subtree stored there. -/
theorem Filled.sweeping {state : MerkleState} {t : Nat} (filled : Filled crypto leaves p leaves.length state)
    (clear : ∀ i < t, leaves.length / 2 ^ i % 2 = 0) (odd : leaves.length / 2 ^ t % 2 = 1) :
    Sweeping crypto leaves p state.matchlevel leaves.length
      ⟨t,state.inner t,decide (state.matchlevel = some t),false,state.branch⟩ := by
  have aligned := dvd_of_even_below clear
  refine ⟨aligned,Nat.le_refl _,by show leaves.length < leaves.length + 2 ^ t; have := Nat.two_pow_pos t; omega,
    length_level_of_dvd (hashPair crypto) leaves aligned,?_,⟨filled.inner t odd,?_,?_⟩⟩
  · intro i below
    dsimp only at below
    rw [length_level_of_dvd (hashPair crypto) leaves (dvd_of_even_below fun j lower => clear j (by omega))]
    have := Nat.div_le_div_left (show 2 ^ i ≤ 2 ^ t from Nat.pow_le_pow_right (by omega) (by omega))
      (Nat.two_pow_pos i) (a := leaves.length)
    have := clear i below
    have := Nat.zero_le (leaves.length / 2 ^ t)
    have := Nat.zero_le (leaves.length / 2 ^ i)
    omega
  · intro matching
    have stored : state.matchlevel = some t := by simpa using matching
    have read : p < leaves.length := by
      by_contra unread
      have := (filled.unmatched (by omega)).1
      simp [this] at stored
    obtain ⟨l,storedL,storedAt⟩ := filled.matched read
    rw [stored,Option.some.injEq] at storedL
    subst storedL
    exact ⟨read,storedAt.2.1,storedAt.2.2⟩
  · intro matching
    have other : state.matchlevel ≠ some t := by simpa using matching
    by_cases read : p < leaves.length
    · obtain ⟨l,storedL,storedAt⟩ := filled.matched read
      have atOrAbove : t ≤ l := by
        by_contra below
        have := clear l (by omega)
        have := storedAt.1
        omega
      exact .inr ⟨l,atOrAbove,storedL,storedAt⟩
    · obtain ⟨none,empty⟩ := filled.unmatched (by omega)
      exact .inl ⟨none,empty,by omega⟩

end Sweep

/-! ### The computation -/

/-- What `MerkleComputation` returns for fewer than `2^32` leaves. -/
theorem MerkleComputation_outcome (crypto : Crypto) (leaves : List uint256) (p : Nat)
    (nonempty : leaves ≠ []) (fits : leaves.length < 2 ^ 32) :
    (leaves.length ≤ 2 ^ 31 → ∃ rootHash mutated,
      MerkleComputation crypto leaves p =
        .ok (rootHash,mutated,if p < leaves.length then branch (hashPair crypto) leaves p else []) ∧
      root (hashPair crypto) leaves = some rootHash ∧
      (mutated = true ↔ TwinsWithin (hashPair crypto) leaves leaves.length)) ∧
    (2 ^ 31 < leaves.length → MerkleComputation crypto leaves p = .error .overflow) := by
  have positive : 0 < leaves.length := List.length_pos_iff.mpr nonempty
  obtain ⟨final,folded,filled⟩ : ∃ final, leaves.foldlM (MerkleState.push crypto p) MerkleState.init = .ok final ∧
      Filled crypto leaves p leaves.length final :=
    foldlM_push_filled fits leaves 0 MerkleState.init Filled.init List.drop_zero (Nat.zero_le _)
  obtain ⟨t,lowest,clear,odd⟩ := lowestSetLevel_spec positive fits 0 (fun _ below => absurd below (Nat.not_lt_zero _))
  rw [← filled.count] at lowest
  have sweeping := filled.sweeping clear odd
  rw [← filled.count] at sweeping
  have outcome := @sweep_outcome crypto leaves p final.inner final.matchlevel filled.inner fits _ final.count _ rfl
    sweeping
    (by rwa [filled.count]) (by rw [filled.count]; exact fits) (fun matching => by simpa using matching)
  rw [MerkleComputation,if_neg (by omega),folded,Abort.ok_bind,lowest,Abort.ok_bind]
  constructor
  · intro small
    obtain ⟨last,swept,rootIs,branchIs⟩ := outcome.1 small
    rw [swept]
    exact ⟨last.h,final.mutated,by rw [← branchIs]; rfl,rootIs,filled.mutated⟩
  · intro large
    rw [outcome.2 large]
    rfl

theorem ComputeMerkleRootFromBranch_eq (crypto : Crypto) (hash : uint256) (vMerkleBranch : List uint256)
    (nIndex : Nat) :
    ComputeMerkleRootFromBranch crypto hash vMerkleBranch nIndex =
      rootFromBranch (hashPair crypto) hash vMerkleBranch nIndex := by
  induction vMerkleBranch generalizing hash nIndex with
  | nil => rfl
  | cons node rest ih =>
    have odd : (nIndex &&& 1 ≠ 0) ↔ nIndex % 2 = 1 := by
      rw [Nat.and_one_is_mod]
      omega
    rw [ComputeMerkleRootFromBranch,rootFromBranch,ih,Nat.shiftRight_one]
    simp only [odd]

/-- For at most `2^31` leaves, `ComputeMerkleRoot` (the position `(uint32_t)-1`)
returns the root of the level-by-level tree and flags exactly the lists with two
equal complete siblings, and for every leaf `ComputeMerkleBranch` returns the
sibling path, which `ComputeMerkleRootFromBranch` folds back into the root. -/
theorem merkle_computation_agrees_with_levels (crypto : Crypto) (leaves : List uint256)
    (nonempty : leaves ≠ []) (small : leaves.length ≤ 2 ^ 31) :
    ∃ rootHash mutated, MerkleComputation crypto leaves (2 ^ 32 - 1) = .ok (rootHash,mutated,[]) ∧
      root (hashPair crypto) leaves = some rootHash ∧
      (mutated = true ↔ TwinsWithin (hashPair crypto) leaves leaves.length) ∧
      ∀ position leaf, leaves[position]? = some leaf →
        ComputeMerkleBranch crypto leaves position = .ok (branch (hashPair crypto) leaves position) ∧
        ComputeMerkleRootFromBranch crypto leaf (branch (hashPair crypto) leaves position) position = rootHash := by
  have fits : leaves.length < 2 ^ 32 := by omega
  obtain ⟨rootHash,mutated,computed,rootIs,flagged⟩ :=
    (MerkleComputation_outcome crypto leaves (2 ^ 32 - 1) nonempty fits).1 small
  rw [if_neg (by omega)] at computed
  refine ⟨rootHash,mutated,computed,rootIs,flagged,fun position leaf isLeaf => ⟨?_,?_⟩⟩
  · have inside := (List.getElem?_eq_some_iff.mp isLeaf).1
    obtain ⟨_,_,computedAt,_,_⟩ := (MerkleComputation_outcome crypto leaves position nonempty fits).1 small
    rw [if_pos inside] at computedAt
    rw [ComputeMerkleBranch,computedAt]
    rfl
  · rw [ComputeMerkleRootFromBranch_eq]
    have folded := root_eq_rootFromBranch (hashPair crypto) isLeaf
    rw [rootIs,Option.some.injEq] at folded
    exact folded.symm

/-- Three leaves whose first two differ. -/
def threeLeaves : List uint256 := [Blob.null 32,Blob.replicate 32 1,Blob.replicate 32 2]

/-- Three leaves under the chunk-sum hash: the odd level pairs the third leaf
with itself, and each leaf has a path of two siblings. -/
theorem merkle_computation_agrees_with_levels_three :
    threeLeaves ≠ [] ∧ threeLeaves.length ≤ 2 ^ 31 ∧
    ∃ rootHash mutated, MerkleComputation sumCrypto threeLeaves (2 ^ 32 - 1) = .ok (rootHash,mutated,[]) ∧
      root (hashPair sumCrypto) threeLeaves = some rootHash ∧
      (mutated = true ↔ TwinsWithin (hashPair sumCrypto) threeLeaves threeLeaves.length) ∧
      ∀ position leaf, threeLeaves[position]? = some leaf →
        ComputeMerkleBranch sumCrypto threeLeaves position = .ok (branch (hashPair sumCrypto) threeLeaves position) ∧
        ComputeMerkleRootFromBranch sumCrypto leaf (branch (hashPair sumCrypto) threeLeaves position) position =
          rootHash :=
  have nonempty : threeLeaves ≠ [] := by decide
  have small : threeLeaves.length ≤ 2 ^ 31 := by decide
  ⟨nonempty,small,merkle_computation_agrees_with_levels sumCrypto threeLeaves nonempty small⟩

/-- Past `2^31` leaves the sweep's count reaches `2^32`, which the 32-bit count
holds as zero; the climb then shifts `1` by 32 bits. -/
theorem MerkleComputation_overflows_past_2_pow_31 (crypto : Crypto) (leaves : List uint256) (branchpos : Nat)
    (large : 2 ^ 31 < leaves.length) (fits : leaves.length < 2 ^ 32) :
    MerkleComputation crypto leaves branchpos = .error .overflow :=
  (MerkleComputation_outcome crypto leaves branchpos (List.ne_nil_of_length_pos (by omega)) fits).2 large

theorem MerkleComputation_overflows_past_2_pow_31_replicate :
    2 ^ 31 < (List.replicate (2 ^ 31 + 1) (Blob.null 32)).length ∧
      (List.replicate (2 ^ 31 + 1) (Blob.null 32)).length < 2 ^ 32 ∧
      MerkleComputation nullCrypto (List.replicate (2 ^ 31 + 1) (Blob.null 32)) 0 = .error .overflow := by
  have size : (List.replicate (2 ^ 31 + 1) (Blob.null 32)).length = 2 ^ 31 + 1 := List.length_replicate
  exact ⟨by omega,by omega,MerkleComputation_overflows_past_2_pow_31 nullCrypto _ 0 (by omega) (by omega)⟩

/-- The flag compares complete pairs only. Above `threeLeaves` the level pairs
`H(a, b)` with `H(c, c)`, two nodes that are both there and equal under a hash that
maps everything to zero, and the computation still reports no mutation. -/
theorem MerkleComputation_ignores_built_twins :
    (level (hashPair nullCrypto) 1 threeLeaves)[0]? = some (Blob.null 32) ∧
      (level (hashPair nullCrypto) 1 threeLeaves)[1]? = some (Blob.null 32) ∧
      ∃ rootHash, MerkleComputation nullCrypto threeLeaves (2 ^ 32 - 1) = .ok (rootHash,false,[]) := by
  have noTwins : ¬TwinsWithin (hashPair nullCrypto) threeLeaves 3 := by
    rintro ⟨j,i,node,within,left,right⟩
    cases j with
    | zero =>
      have zero : i = 0 := by simp at within; omega
      subst zero
      simp only [level_zero,threeLeaves,Nat.mul_zero,Nat.zero_add,List.getElem?_cons_zero,
        List.getElem?_cons_succ,Option.some.injEq] at left right
      rw [← right] at left
      exact absurd left (by decide)
    | succ j =>
      have : 3 / 2 ^ (j + 1) ≤ 1 := by
        rw [div_two_pow_succ]
        have := Nat.div_le_self 3 (2 ^ j)
        omega
      omega
  obtain ⟨rootHash,mutated,computed,_,flagged⟩ :=
    (MerkleComputation_outcome nullCrypto threeLeaves (2 ^ 32 - 1) (by simp [threeLeaves])
      (by simp [threeLeaves])).1 (by simp [threeLeaves])
  have unflagged : mutated = false := by
    cases mutated with
    | false => rfl
    | true => exact absurd (flagged.mp rfl) noTwins
  rw [unflagged,if_neg (by simp [threeLeaves])] at computed
  exact ⟨rfl,rfl,rootHash,computed⟩

end Qtum
