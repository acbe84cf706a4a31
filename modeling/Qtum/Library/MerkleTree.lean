import Mathlib.Data.Nat.Bitwise
import Mathlib.Data.List.Basic

/-! Merkle trees whose odd levels pair their last node with itself.

`level H j leaves` lists the nodes `j` levels above the leaves: a level pairs
adjacent nodes with `H`, and a last node without a partner is paired with itself.
Node `i` of level `j` stands over the leaves from `i * 2 ^ j` on. `root` pairs
levels until one node is left, `branch` collects the siblings met on the way up
from a leaf, and `rootFromBranch` folds a branch back into a root.
`TwinsWithin` says that two equal sibling nodes stand over leaves only, with no
node of the self-pairing rule below them.

The last part is the arithmetic of the binary digits of a counter, read as
`count / 2 ^ j % 2`: a computation that keeps one pending node per set bit of
its count finds with it which node is stored at which level. -/

namespace MerkleTree

variable {α : Type} (H : α → α → α)

/-- One level up. -/
def pairUp : List α → List α
  | [] => []
  | [a] => [H a a]
  | a :: b :: rest => H a b :: pairUp rest

/-- The nodes `j` levels above the leaves. -/
def level (j : Nat) (leaves : List α) : List α := (pairUp H)^[j] leaves

/-- The index of a node's sibling in its level. -/
def sibling (index : Nat) : Nat := if index % 2 = 0 then index + 1 else index - 1

theorem length_pairUp (nodes : List α) : (pairUp H nodes).length = (nodes.length + 1) / 2 := by
  fun_induction pairUp H nodes with
  | case1 => simp
  | case2 a => simp
  | case3 a b rest ih =>
    simp only [List.length_cons, ih]
    omega

/-- The single node left after pairing levels, `none` for no leaves. -/
def root : List α → Option α
  | [] => none
  | [a] => some a
  | a :: b :: rest => root (pairUp H (a :: b :: rest))
termination_by nodes => nodes.length
decreasing_by
  simp only [length_pairUp, List.length_cons]
  omega

/-- The siblings on the way up from the leaf at `index`: where a level ends in a
node without a partner, that node is its own sibling. -/
def branch : List α → Nat → List α
  | [], _ => []
  | [_], _ => []
  | a :: b :: rest, index =>
    (a :: b :: rest).getD (min (sibling index) (rest.length + 1)) a ::
      branch (pairUp H (a :: b :: rest)) (index / 2)
termination_by nodes => nodes.length
decreasing_by
  simp only [length_pairUp, List.length_cons]
  omega

/-- A leaf hashed up through its branch: an odd index is a right child. -/
def rootFromBranch : α → List α → Nat → α
  | hash, [], _ => hash
  | hash, node :: rest, index =>
    rootFromBranch (if index % 2 = 1 then H node hash else H hash node) rest (index / 2)

/-- Two equal siblings at some level, both standing over the first `count` leaves
only. -/
def TwinsWithin (leaves : List α) (count : Nat) : Prop :=
  ∃ j i node, 2 * i + 2 ≤ count / 2 ^ j ∧
    (level H j leaves)[2 * i]? = some node ∧ (level H j leaves)[2 * i + 1]? = some node

/-! ### Binary digits of a counter -/

theorem div_two_pow_succ (m j : Nat) : m / 2 ^ (j + 1) = m / 2 ^ j / 2 := by
  rw [Nat.pow_succ, Nat.div_div_eq_div_mul]

theorem div_two_pow_add (m j k : Nat) : m / 2 ^ (j + k) = m / 2 ^ j / 2 ^ k := by
  rw [Nat.pow_add, Nat.div_div_eq_div_mul]

/-- The quotient of a count whose increment is aligned at `j`. -/
theorem div_of_dvd_succ {c j : Nat} (aligned : 2 ^ j ∣ c + 1) : c / 2 ^ j = (c + 1) / 2 ^ j - 1 := by
  rw [Nat.succ_div_of_dvd aligned, Nat.add_sub_cancel]

theorem dvd_two_pow_succ {m j : Nat} (aligned : 2 ^ j ∣ m) (even : m / 2 ^ j % 2 = 0) : 2 ^ (j + 1) ∣ m := by
  rw [Nat.dvd_iff_mod_eq_zero, Nat.mod_pow_succ, Nat.mod_eq_zero_of_dvd aligned, even]
  simp

theorem even_of_dvd_two_pow_succ {m j : Nat} (aligned : 2 ^ (j + 1) ∣ m) : m / 2 ^ j % 2 = 0 := by
  obtain ⟨q,rfl⟩ := aligned
  rw [Nat.pow_succ, Nat.mul_assoc, Nat.mul_div_cancel_left _ (Nat.two_pow_pos j)]
  simp

/-- An odd quotient at `j` stops the divisibility by higher powers. -/
theorem not_dvd_of_odd {m j l : Nat} (odd : m / 2 ^ j % 2 = 1) (above : j < l) :
    ¬2 ^ l ∣ m := by
  intro divides
  have even := even_of_dvd_two_pow_succ (Nat.dvd_trans (Nat.pow_dvd_pow 2 (show j + 1 ≤ l by omega)) divides)
  omega

/-- Above its lowest set bit, an incremented count has the quotients of the count before. -/
theorem succ_div_of_odd {c t l : Nat} (odd : (c + 1) / 2 ^ t % 2 = 1) (above : t < l) :
    (c + 1) / 2 ^ l = c / 2 ^ l :=
  Nat.succ_div_of_not_dvd (not_dvd_of_odd odd above)

/-- Below the lowest set bit of an aligned count the quotients are even. -/
theorem even_below {m t j : Nat} (aligned : 2 ^ t ∣ m) (below : j < t) : m / 2 ^ j % 2 = 0 :=
  even_of_dvd_two_pow_succ (Nat.dvd_trans (Nat.pow_dvd_pow 2 (show j + 1 ≤ t by omega)) aligned)

theorem one_le_div_of_dvd {m j : Nat} (aligned : 2 ^ j ∣ m) (pos : 0 < m) : 1 ≤ m / 2 ^ j :=
  (Nat.one_le_div_iff (Nat.two_pow_pos j)).mpr (Nat.le_of_dvd pos aligned)

/-- A count `n` short of an aligned `count` by less than `2 ^ j` leaves. -/
theorem div_of_between {n count j : Nat} (aligned : 2 ^ j ∣ count) (short : n < count)
    (near : count < n + 2 ^ j) : n / 2 ^ j = count / 2 ^ j - 1 := by
  obtain ⟨q,rfl⟩ := aligned
  have positive := Nat.two_pow_pos j
  rw [Nat.mul_div_cancel_left _ positive]
  have one : 1 ≤ q := by
    rcases q with _ | q
    · simp at short
    · omega
  apply Nat.div_eq_of_lt_le
  · rw [Nat.sub_one_mul, Nat.mul_comm]
    omega
  · rw [Nat.sub_add_cancel one, Nat.mul_comm]
    exact short

/-- Two multiples of `2 ^ k` less than `2 ^ k` apart in this order are ordered. -/
theorem le_of_dvd_of_lt {a b k : Nat} (dividesA : 2 ^ k ∣ a) (dividesB : 2 ^ k ∣ b) (near : a < b + 2 ^ k) :
    a ≤ b := by
  obtain ⟨x,rfl⟩ := dividesA
  obtain ⟨y,rfl⟩ := dividesB
  have : x < y + 1 := by
    apply Nat.lt_of_mul_lt_mul_left (a := 2 ^ k)
    rw [Nat.mul_add, Nat.mul_one]
    exact near
  exact Nat.mul_le_mul_left _ (by omega)

/-- A count whose bits below `t` are clear is a multiple of `2 ^ t`. -/
theorem dvd_of_even_below {m t : Nat} (clear : ∀ i < t, m / 2 ^ i % 2 = 0) : 2 ^ t ∣ m := by
  induction t with
  | zero => simp
  | succ t ih => exact dvd_two_pow_succ (ih fun i below => clear i (by omega)) (clear t (by omega))

/-- The test `count & (1 << j)` of a counter's bit. -/
theorem and_shiftLeft_eq_zero (m j : Nat) : m &&& (1 <<< j) = 0 ↔ m / 2 ^ j % 2 = 0 := by
  rw [Nat.one_shiftLeft, Nat.and_two_pow, Nat.testBit_eq_decide_div_mod_eq]
  by_cases bit : m / 2 ^ j % 2 = 1
  · simp [bit]
  · simp [bit]
    omega

/-! ### Levels -/

@[simp] theorem level_zero (leaves : List α) : level H 0 leaves = leaves := rfl

theorem level_succ (j : Nat) (leaves : List α) : level H (j + 1) leaves = pairUp H (level H j leaves) :=
  Function.iterate_succ_apply' _ _ _

/-- The levels of a list seen from the level above its leaves. -/
theorem level_succ_pairUp (j : Nat) (leaves : List α) :
    level H (j + 1) leaves = level H j (pairUp H leaves) :=
  Function.iterate_succ_apply _ _ _

theorem length_level_succ (j : Nat) (leaves : List α) :
    (level H (j + 1) leaves).length = ((level H j leaves).length + 1) / 2 := by
  rw [level_succ, length_pairUp]

theorem length_level_antitone (leaves : List α) {i j : Nat} (le : i ≤ j) :
    (level H j leaves).length ≤ (level H i leaves).length := by
  induction j, le using Nat.le_induction with
  | base => exact Nat.le_refl _
  | succ j _ ih =>
    rw [length_level_succ]
    omega

/-- Two neighbours that start a pair give the node above them. -/
theorem getElem?_pairUp_pair {nodes : List α} {i : Nat} {left right : α}
    (isLeft : nodes[2 * i]? = some left) (isRight : nodes[2 * i + 1]? = some right) :
    (pairUp H nodes)[i]? = some (H left right) := by
  fun_induction pairUp H nodes generalizing i with
  | case1 => simp at isLeft
  | case2 a => simp at isRight
  | case3 a b rest ih =>
    cases i with
    | zero =>
      simp only [Nat.mul_zero, Nat.zero_add, List.getElem?_cons_succ, List.getElem?_cons_zero,
        Option.some.injEq] at isLeft isRight
      simp [isLeft, isRight]
    | succ i =>
      have left' : rest[2 * i]? = some left := by simpa [Nat.mul_succ] using isLeft
      have right' : rest[2 * i + 1]? = some right := by simpa [Nat.mul_succ] using isRight
      simpa using ih left' right'

/-- The last node of an odd level is paired with itself. -/
theorem getElem?_pairUp_last {nodes : List α} {i : Nat} {last : α}
    (isLast : nodes[2 * i]? = some last) (odd : nodes.length = 2 * i + 1) :
    (pairUp H nodes)[i]? = some (H last last) := by
  fun_induction pairUp H nodes generalizing i with
  | case1 => simp at isLast
  | case2 a =>
    have zero : i = 0 := by simp at odd; omega
    subst zero
    simp only [Nat.mul_zero, List.getElem?_cons_zero, Option.some.injEq] at isLast
    simp [isLast]
  | case3 a b rest ih =>
    cases i with
    | zero => simp at odd
    | succ i =>
      have last' : rest[2 * i]? = some last := by simpa [Nat.mul_succ] using isLast
      have odd' : rest.length = 2 * i + 1 := by simp at odd; omega
      simpa using ih last' odd'

/-- At a level whose width divides the leaves, the nodes are the whole subtrees. -/
theorem length_level_of_dvd (leaves : List α) {j : Nat} (aligned : 2 ^ j ∣ leaves.length) :
    (level H j leaves).length = leaves.length / 2 ^ j := by
  induction j with
  | zero => simp
  | succ j ih =>
    have even := even_of_dvd_two_pow_succ aligned
    rw [length_level_succ,ih (Nat.dvd_trans (Nat.pow_dvd_pow 2 (Nat.le_succ j)) aligned),div_two_pow_succ]
    omega

/-- A level holds one node per `2 ^ j` leaves, the last over what is left. -/
theorem length_level (leaves : List α) (j : Nat) :
    (level H j leaves).length = (leaves.length + 2 ^ j - 1) / 2 ^ j := by
  induction j with
  | zero => simp
  | succ j ih =>
    have positive := Nat.two_pow_pos j
    rw [length_level_succ,ih,Nat.pow_succ,← Nat.div_div_eq_div_mul,
      show leaves.length + 2 ^ j * 2 - 1 = (leaves.length + 2 ^ j - 1) + 2 ^ j by omega,Nat.add_div_right _ positive]

/-- A node is its two children paired, or its one child paired with itself. -/
theorem getElem?_level_succ {leaves : List α} {j i : Nat} {left : α} (isLeft : (level H j leaves)[2 * i]? = some left) :
    (level H (j + 1) leaves)[i]? = some (H left ((level H j leaves)[2 * i + 1]?.getD left)) := by
  rw [level_succ]
  cases isRight : (level H j leaves)[2 * i + 1]? with
  | some right => exact getElem?_pairUp_pair H isLeft isRight
  | none =>
    have inside := (List.getElem?_eq_some_iff.mp isLeft).1
    have outside := List.getElem?_eq_none_iff.mp isRight
    exact getElem?_pairUp_last H isLeft (by omega)

/-- No two sibling nodes, at any level, are equal. -/
def DistinctSiblings (leaves : List α) : Prop :=
  ∀ j i left right, (level H j leaves)[2 * i]? = some left → (level H j leaves)[2 * i + 1]? = some right →
    left ≠ right

/-- A single leaf has no sibling at any level. -/
theorem distinctSiblings_single (a : α) : DistinctSiblings H [a] := by
  intro j i left right _ isRight
  have one : (level H j [a]).length = 1 := by
    rw [length_level,List.length_singleton,Nat.add_sub_cancel_left,Nat.div_self (Nat.two_pow_pos j)]
  have := (List.getElem?_eq_some_iff.mp isRight).1
  omega

/-- Siblings stand only below the level of the root, which lies within as many
levels as there are leaves: checking those levels decides `DistinctSiblings`. -/
theorem distinctSiblings_of_levels (leaves : List α)
    (checked : ∀ j < leaves.length, ∀ i < (level H j leaves).length / 2,
      (level H j leaves)[2 * i]? ≠ (level H j leaves)[2 * i + 1]?) : DistinctSiblings H leaves := by
  intro j i left right isLeft isRight
  have inside := (List.getElem?_eq_some_iff.mp isRight).1
  have low : j < leaves.length := by
    by_contra high
    have wide : leaves.length ≤ 2 ^ j := le_trans (Nat.not_lt.mp high) Nat.lt_two_pow_self.le
    have positive := Nat.two_pow_pos j
    have single : (level H j leaves).length < 2 := by
      rw [length_level,Nat.div_lt_iff_lt_mul positive]
      omega
    omega
  have different := checked j low i (by omega)
  rw [isLeft,isRight] at different
  intro same
  exact different (by rw [same])

/-! ### The root and the branches -/

theorem root_pairUp {nodes : List α} (wide : 2 ≤ nodes.length) : root H nodes = root H (pairUp H nodes) := by
  match nodes, wide with
  | a :: b :: rest, _ => rw [root]

theorem root_single (a : α) : root H [a] = some a := by
  rw [root]

theorem root_of_length_one {nodes : List α} {a : α} (one : nodes.length = 1) (first : nodes[0]? = some a) :
    root H nodes = some a := by
  match nodes, one with
  | [b], _ =>
    simp only [List.getElem?_cons_zero, Option.some.injEq] at first
    rw [first,root_single]

/-- Pairing levels while more than one node is left does not change the root. -/
theorem root_level (leaves : List α) (j : Nat) (wide : ∀ i < j, 2 ≤ (level H i leaves).length) :
    root H leaves = root H (level H j leaves) := by
  induction j with
  | zero => rfl
  | succ j ih =>
    rw [ih (fun i below => wide i (by omega)), level_succ]
    exact root_pairUp H (wide j (by omega))

/-- The entry of a branch at a level where nodes are still paired. -/
theorem getElem?_branch (leaves : List α) (index j : Nat)
    (wide : ∀ i ≤ j, 2 ≤ (level H i leaves).length) :
    (branch H leaves index)[j]? =
      (level H j leaves)[min (sibling (index / 2 ^ j)) ((level H j leaves).length - 1)]? := by
  induction j generalizing leaves index with
  | zero =>
    match leaves, wide 0 (Nat.le_refl 0) with
    | a :: b :: rest, _ =>
      have inside : min (sibling index) (rest.length + 1) < (a :: b :: rest).length := by
        simp only [List.length_cons]
        omega
      rw [branch, List.getD_eq_getElem?_getD, List.getElem?_eq_getElem inside]
      simp
  | succ j ih =>
    match leaves, wide 0 (Nat.zero_le _) with
    | a :: b :: rest, _ =>
      have above : ∀ i ≤ j, 2 ≤ (level H i (pairUp H (a :: b :: rest))).length := by
        intro i below
        rw [← level_succ_pairUp]
        exact wide (i + 1) (by omega)
      rw [branch, List.getElem?_cons_succ, ih _ _ above, level_succ_pairUp, Nat.pow_succ',
        ← Nat.div_div_eq_div_mul]

theorem sibling_of_odd {index : Nat} (odd : index % 2 = 1) : sibling index = index - 1 := by
  rw [sibling, if_neg (by omega)]

theorem sibling_of_even {index : Nat} (even : index % 2 = 0) : sibling index = index + 1 := by
  rw [sibling, if_pos even]

/-- A branch up to level `j + 1` is the branch up to `j` and the sibling at `j`. -/
theorem take_branch_succ {leaves : List α} {index j : Nat} {node : α}
    (wide : ∀ i ≤ j, 2 ≤ (level H i leaves).length)
    (atSibling : (level H j leaves)[min (sibling (index / 2 ^ j)) ((level H j leaves).length - 1)]? = some node) :
    (branch H leaves index).take (j + 1) = (branch H leaves index).take j ++ [node] := by
  rw [List.take_add_one, getElem?_branch H leaves index j wide, atSibling]
  rfl

/-- A branch has one entry for each level with more than one node. -/
theorem length_branch_le (leaves : List α) (index j : Nat) (narrow : (level H j leaves).length ≤ 1) :
    (branch H leaves index).length ≤ j := by
  induction j generalizing leaves index with
  | zero =>
    match leaves, narrow with
    | [], _ => simp [branch]
    | [_], _ => simp [branch]
  | succ j ih =>
    match leaves with
    | [] => simp [branch]
    | [_] => simp [branch]
    | a :: b :: rest =>
      rw [level_succ_pairUp] at narrow
      rw [branch, List.length_cons]
      exact Nat.succ_le_succ (ih _ _ narrow)

/-- The node above a leaf and its sibling from the branch. -/
theorem getElem?_pairUp_half {nodes : List α} {index : Nat} {leaf : α} (default : α)
    (isLeaf : nodes[index]? = some leaf) :
    (pairUp H nodes)[index / 2]? =
      some (let node := nodes.getD (min (sibling index) (nodes.length - 1)) default
        if index % 2 = 1 then H node leaf else H leaf node) := by
  have inside : index < nodes.length := (List.getElem?_eq_some_iff.mp isLeaf).1
  by_cases odd : index % 2 = 1
  · -- a right child: its sibling is the node before it
    have clamp : min (sibling index) (nodes.length - 1) = index - 1 := by
      rw [sibling, if_neg (by omega)]
      omega
    have isLeft : nodes[2 * (index / 2)]? = some (nodes.getD (index - 1) default) := by
      rw [List.getD_eq_getElem?_getD, List.getElem?_eq_getElem (by omega),
        List.getElem?_eq_getElem (by omega)]
      congr 2
      omega
    have isRight : nodes[2 * (index / 2) + 1]? = some leaf := by
      rw [← isLeaf]
      congr 1
      omega
    rw [getElem?_pairUp_pair H isLeft isRight, clamp]
    simp only [odd, ↓reduceIte]
  · have isLeft : nodes[2 * (index / 2)]? = some leaf := by
      rw [← isLeaf]
      congr 1
      omega
    by_cases last : index + 1 = nodes.length
    · -- the last node of an odd level is its own sibling
      have clamp : min (sibling index) (nodes.length - 1) = index := by
        rw [sibling, if_pos (by omega)]
        omega
      rw [getElem?_pairUp_last H isLeft (by omega), clamp, List.getD_eq_getElem?_getD, isLeaf]
      simp only [odd, ↓reduceIte, Option.getD_some]
    · have clamp : min (sibling index) (nodes.length - 1) = index + 1 := by
        rw [sibling, if_pos (by omega)]
        omega
      have isRight : nodes[2 * (index / 2) + 1]? = some (nodes.getD (index + 1) default) := by
        rw [List.getD_eq_getElem?_getD, List.getElem?_eq_getElem (by omega),
          List.getElem?_eq_getElem (by omega)]
        congr 2
        omega
      rw [getElem?_pairUp_pair H isLeft isRight, clamp]
      simp only [odd, ↓reduceIte]

/-- Folding a leaf's branch gives the root. -/
theorem root_eq_rootFromBranch {leaves : List α} {index : Nat} {leaf : α}
    (isLeaf : leaves[index]? = some leaf) :
    root H leaves = some (rootFromBranch H leaf (branch H leaves index) index) := by
  induction leaves, index using branch.induct H generalizing leaf with
  | case1 index => simp at isLeaf
  | case2 a index =>
    have zero : index = 0 := by
      have := (List.getElem?_eq_some_iff.mp isLeaf).1
      simp at this
      omega
    subst zero
    simp only [List.getElem?_cons_zero, Option.some.injEq] at isLeaf
    rw [root_single, branch, isLeaf, rootFromBranch]
  | case3 a b rest index ih =>
    have above := getElem?_pairUp_half H a isLeaf
    rw [root_pairUp H (by simp), ih above, branch, rootFromBranch]
    simp

/-! ### Twins -/

/-- The twins among `c + 1` leaves: those among `c` and those of the pairs the
last leaf completes, one at each level below the lowest set bit of `c + 1`. -/
theorem twinsWithin_succ {leaves : List α} {c t : Nat} (aligned : 2 ^ t ∣ c + 1) (odd : (c + 1) / 2 ^ t % 2 = 1) :
    TwinsWithin H leaves (c + 1) ↔ TwinsWithin H leaves c ∨
      ∃ j < t, ∃ i node, 2 * i + 2 = (c + 1) / 2 ^ j ∧
        (level H j leaves)[2 * i]? = some node ∧ (level H j leaves)[2 * i + 1]? = some node := by
  constructor
  · rintro ⟨j,i,node,within,twin⟩
    by_cases old : 2 * i + 2 ≤ c / 2 ^ j
    · exact .inl ⟨j,i,node,old,twin⟩
    · -- a pair completed by the last leaf: its level divides `c + 1` and lies below `t`
      have below : j ≤ t := by
        by_contra above
        rw [succ_div_of_odd odd (by omega)] at within
        exact old within
      have divides : 2 ^ j ∣ c + 1 := Nat.dvd_trans (Nat.pow_dvd_pow 2 below) aligned
      have step := Nat.succ_div_of_dvd divides
      refine .inr ⟨j,?_,i,node,by omega,twin⟩
      rcases Nat.lt_or_eq_of_le below with below | rfl
      · exact below
      · omega
  · rintro (⟨j,i,node,within,twin⟩ | ⟨j,_,i,node,completed,twin⟩)
    · exact ⟨j,i,node,Nat.le_trans within (Nat.div_le_div_right (Nat.le_succ c)),twin⟩
    · exact ⟨j,i,node,by omega,twin⟩

end MerkleTree
