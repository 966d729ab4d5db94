import Mathlib.Data.List.Sort

/-!
# The upper median of a list

The element in the middle of a list once it is sorted, the upper of the two
middle ones when the list has evenly many.  Whether the upper median is at
least `m` depends only on how many elements are at least `m`, and that count
does not depend on the order: from this, the median cannot drop when one
element leaves the list and one above the old median comes in.
-/

namespace Qbitcoin

variable {α : Type} [LinearOrder α]

/-- The middle element of the sorted list, the upper one of two middles. -/
def upperMedian [Inhabited α] (l : List α) : α :=
  let sorted := l.insertionSort (· ≤ ·)
  sorted.getD (sorted.length / 2) default

section Sorted

variable {sorted : List α} (ordered : sorted.Pairwise (· ≤ ·))
include ordered

/-- From position `i` on, a sorted list is at least its `i`-th element. -/
theorem length_sub_le_countP_of_pairwise {i : Nat} (inside : i < sorted.length) :
    sorted.length - i ≤ sorted.countP fun x => decide (sorted[i] ≤ x) := by
  have above : ∀ x ∈ sorted.drop i, sorted[i] ≤ x := by
    intro x member
    obtain ⟨j, within, rfl⟩ := List.getElem_of_mem member
    rw [List.getElem_drop]
    rcases Nat.eq_zero_or_pos j with first | later
    · simp [first]
    · exact List.pairwise_iff_getElem.mp ordered i (i + j) inside (by simp at within; omega) (by omega)
  have counted : (sorted.drop i).countP (fun x => decide (sorted[i] ≤ x)) = sorted.length - i := by
    rw [List.countP_eq_length.mpr (fun x member => decide_eq_true (above x member)), List.length_drop]
  calc sorted.length - i = (sorted.drop i).countP (fun x => decide (sorted[i] ≤ x)) := counted.symm
    _ ≤ (sorted.take i).countP (fun x => decide (sorted[i] ≤ x)) +
          (sorted.drop i).countP (fun x => decide (sorted[i] ≤ x)) := Nat.le_add_left _ _
    _ = sorted.countP fun x => decide (sorted[i] ≤ x) := by rw [← List.countP_append, List.take_append_drop]

/-- If enough elements of a sorted list are at least `m`, so is its `i`-th. -/
theorem le_getElem_of_countP_of_pairwise {i : Nat} (inside : i < sorted.length) {m : α}
    (enough : sorted.length - i ≤ sorted.countP fun x => decide (m ≤ x)) : m ≤ sorted[i] := by
  by_contra below
  have none : (sorted.take (i + 1)).countP (fun x => decide (m ≤ x)) = 0 := by
    apply List.countP_eq_zero.mpr
    intro x member atLeast
    obtain ⟨j, within, rfl⟩ := List.getElem_of_mem member
    rw [List.getElem_take] at atLeast
    have early : j ≤ i := by simp at within; omega
    have ordered_ji : sorted[j] ≤ sorted[i] := by
      rcases Nat.lt_or_eq_of_le early with before | same
      · exact List.pairwise_iff_getElem.mp ordered j i (by omega) inside before
      · simp [same]
    exact below (le_trans (of_decide_eq_true atLeast) ordered_ji)
  have rest := List.countP_le_length (p := fun x => decide (m ≤ x)) (l := sorted.drop (i + 1))
  rw [← List.take_append_drop (i + 1) sorted, List.countP_append, none] at enough
  simp only [List.length_append, List.length_take, List.length_drop] at enough rest
  omega

end Sorted

variable [Inhabited α]

/-- The upper median is the middle element of a sorted permutation of the list. -/
theorem upperMedian_spec {l : List α} (nonempty : l ≠ []) :
    ∃ (sorted : List α) (inside : sorted.length / 2 < sorted.length), sorted.Pairwise (· ≤ ·) ∧
      sorted.length = l.length ∧ (∀ p : α → Bool, sorted.countP p = l.countP p) ∧
      upperMedian l = sorted[sorted.length / 2] := by
  have permuted := List.perm_insertionSort (· ≤ ·) l
  have inside : (l.insertionSort (· ≤ ·)).length / 2 < (l.insertionSort (· ≤ ·)).length := by
    rw [permuted.length_eq]
    exact Nat.div_lt_self (List.length_pos_iff.mpr nonempty) (by decide)
  refine ⟨l.insertionSort (· ≤ ·), inside, List.pairwise_insertionSort _ l, permuted.length_eq,
    fun p => permuted.countP_eq p, ?_⟩
  unfold upperMedian
  rw [List.getD_eq_getElem?_getD, List.getElem?_eq_getElem inside, Option.getD_some]

/-- The upper median is at least `m` when enough elements are. -/
theorem le_upperMedian_of_countP {l : List α} (nonempty : l ≠ []) {m : α}
    (enough : l.length - l.length / 2 ≤ l.countP fun x => decide (m ≤ x)) : m ≤ upperMedian l := by
  obtain ⟨sorted, inside, ordered, sameLength, sameCount, median⟩ := upperMedian_spec nonempty
  rw [median]
  apply le_getElem_of_countP_of_pairwise ordered inside
  rw [sameLength, sameCount]
  exact enough

/-- At least half of the elements, rounded up, are at least the upper median. -/
theorem countP_upperMedian {l : List α} (nonempty : l ≠ []) :
    l.length - l.length / 2 ≤ l.countP fun x => decide (upperMedian l ≤ x) := by
  obtain ⟨sorted, inside, ordered, sameLength, sameCount, median⟩ := upperMedian_spec nonempty
  have counted := length_sub_le_countP_of_pairwise ordered inside
  rw [median, ← sameLength, ← sameCount]
  exact counted

/-- The window moves on: its oldest element, if any, leaves and a newer one
above the old median comes in; the median does not drop. -/
theorem upperMedian_le_cons {l extra : List α} (nonempty : l ++ extra ≠ []) (short : extra.length ≤ 1) {t : α}
    (newer : upperMedian (l ++ extra) < t) : upperMedian (l ++ extra) ≤ upperMedian (t :: l) := by
  apply le_upperMedian_of_countP (List.cons_ne_nil t l)
  have before := countP_upperMedian nonempty
  have leaving := List.countP_le_length (p := fun x => decide (upperMedian (l ++ extra) ≤ x)) (l := extra)
  rw [List.countP_append, List.length_append] at before
  have entering : (t :: l).countP (fun x => decide (upperMedian (l ++ extra) ≤ x)) =
      l.countP (fun x => decide (upperMedian (l ++ extra) ≤ x)) + 1 := by
    simp [newer.le]
  rw [entering, List.length_cons]
  omega

end Qbitcoin
