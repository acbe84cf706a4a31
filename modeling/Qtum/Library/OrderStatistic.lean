import Mathlib.Data.List.Sort
import Mathlib.Data.List.GetD

/-! Order statistics of a list: the element at a position of the list
sorted, compared with a bound by counting the elements below it. A sliding
median then never falls when the element that enters lies above it. -/
namespace OrderStatistic

variable {α : Type*} [LinearOrder α]

/-- The list sorted in increasing order. -/
abbrev sorted (l : List α) : List α := l.insertionSort (· ≤ ·)

theorem length_sorted (l : List α) : (sorted l).length = l.length := List.length_insertionSort _ l

theorem sorted_le {l : List α} {i j : Nat} (hi : i < (sorted l).length) (hj : j < (sorted l).length)
    (order : i ≤ j) : (sorted l)[i] ≤ (sorted l)[j] := by
  rcases Nat.eq_or_lt_of_le order with rfl | less
  · exact le_refl _
  · exact List.pairwise_iff_getElem.mp (List.pairwise_insertionSort (· ≤ ·) l) i j hi hj less

theorem countP_sorted (p : α → Bool) (l : List α) : (sorted l).countP p = l.countP p :=
  (List.perm_insertionSort _ l).countP_eq p

/-- The `i`-th smallest element is at least `m` when at most `i` elements lie
below `m`. -/
theorem le_sorted_of_countP {l : List α} {m : α} {i : Nat} (hi : i < (sorted l).length)
    (few : l.countP (fun x => decide (x < m)) ≤ i) : m ≤ (sorted l)[i] := by
  by_contra above
  -- the first `i + 1` sorted elements would all lie below `m`
  have below : ∀ x ∈ (sorted l).take (i + 1), decide (x < m) = true := by
    intro x member
    obtain ⟨j,hj,rfl⟩ := List.getElem_of_mem member
    rw [List.length_take] at hj
    rw [List.getElem_take]
    exact decide_eq_true (lt_of_le_of_lt (sorted_le _ hi (by omega)) (not_le.mp above))
  have counted := (List.take_sublist (i + 1) (sorted l)).countP_le (p := fun x => decide (x < m))
  rw [List.countP_eq_length.mpr below,List.length_take,countP_sorted] at counted
  omega

/-- At most `i` elements lie below the `i`-th smallest. -/
theorem countP_lt_sorted (l : List α) {i : Nat} (hi : i < (sorted l).length) :
    l.countP (fun x => decide (x < (sorted l)[i])) ≤ i := by
  have above : ∀ x ∈ (sorted l).drop i, ¬ x < (sorted l)[i] := by
    intro x member
    obtain ⟨j,hj,rfl⟩ := List.getElem_of_mem member
    rw [List.length_drop] at hj
    rw [List.getElem_drop]
    exact not_lt.mpr (sorted_le hi (by omega) (by omega))
  rw [← countP_sorted]
  generalize (sorted l)[i] = m at above
  have dropped : ((sorted l).drop i).countP (fun x => decide (x < m)) = 0 :=
    List.countP_eq_zero.mpr (by simpa using above)
  rw [← List.take_append_drop i (sorted l),List.countP_append,dropped]
  have taken := ((sorted l).take i).countP_le_length (p := fun x => decide (x < m))
  rw [List.length_take] at taken
  omega

/-- The element in the middle of `l` sorted, the upper of the two middles for
an even length, and `d` for the empty list. -/
def median (l : List α) (d : α) : α := (sorted l).getD ((sorted l).length / 2) d

theorem median_eq {l : List α} (d : α) (hi : (sorted l).length / 2 < (sorted l).length) :
    median l d = (sorted l)[(sorted l).length / 2] :=
  List.getD_eq_getElem _ _ hi

/-- The median of a window after the element `t` enters at the front and, at
`span` elements, the oldest leaves: no lower when `t` lies above it. -/
theorem median_le_slide {w : List α} {t d : α} {span : Nat} (nonempty : 0 < w.length) (full : w.length ≤ span)
    (enters : median w d < t) : median w d ≤ median ((t :: w).take span) d := by
  have hw : (sorted w).length / 2 < (sorted w).length := by
    rw [length_sorted]
    omega
  have hs : (sorted ((t :: w).take span)).length / 2 < (sorted ((t :: w).take span)).length := by
    rw [length_sorted]
    simp only [List.length_take,List.length_cons]
    omega
  rw [median_eq d hw] at enters ⊢
  rw [median_eq d hs]
  apply le_sorted_of_countP
  have counted := countP_lt_sorted w hw
  generalize (sorted w)[(sorted w).length / 2] = m at enters counted ⊢
  -- the entering element lies above the old median, and the leaving one can only lower the count
  have dropped : ((t :: w).take span).countP (fun x => decide (x < m)) ≤ w.countP (fun x => decide (x < m)) := by
    refine le_trans ((List.take_sublist span (t :: w)).countP_le) ?_
    rw [List.countP_cons_of_neg (by simpa using le_of_lt enters)]
  simp only [length_sorted,List.length_take,List.length_cons] at counted ⊢
  omega

end OrderStatistic
