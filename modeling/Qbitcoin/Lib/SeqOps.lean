import Mathlib.Data.List.Basic

/-!
# What sequence containers do to their contents

The contents of a `std::vector` or a `std::deque` is a list, and the
operations of the C++ library that are not plain list operations are stated
here on lists: `resize(n)` keeps the first `n` elements and appends
value-initialized ones up to `n`, an insert at position `p` puts the new
elements before the element at `p`, and `erase(first, last)` removes the
elements from `first` up to `last`.  A container's `operator==` compares the
elements position by position, which for lists of one length is `==`
(`beq_eq_all_range`).
-/

namespace SeqOps

variable {α : Type}

/-- `resize(n)`, with `x` the value a new element is initialized to. -/
def resize (l : List α) (n : Nat) (x : α) : List α :=
  l.take n ++ List.replicate (n - l.length) x

variable {l : List α} {n : Nat} {x : α}

@[simp] theorem length_resize : (resize l n x).length = n := by
  simp only [resize, List.length_append, List.length_take, List.length_replicate]
  omega

theorem resize_of_le (within : n ≤ l.length) : resize l n x = l.take n := by
  simp [resize, Nat.sub_eq_zero_of_le within]

theorem resize_of_ge (beyond : l.length ≤ n) : resize l n x = l ++ List.replicate (n - l.length) x := by
  simp [resize, List.take_of_length_le beyond]

theorem getElem?_resize (k : Nat) :
    (resize l n x)[k]? = if k < n then (if k < l.length then l[k]? else some x) else none := by
  unfold resize
  by_cases kept : k < min n l.length
  · rw [List.getElem?_append_left (by simpa using kept), List.getElem?_take_of_lt (by omega),
      if_pos (by omega), if_pos (by omega)]
  · rw [List.getElem?_append_right (by simp; omega), List.getElem?_replicate]
    simp only [List.length_take]
    split_ifs <;> first | rfl | omega

/-- `insert(begin() + p, first, last)`, with `xs` the elements of the range. -/
def insertAt (l : List α) (p : Nat) (xs : List α) : List α :=
  l.take p ++ xs ++ l.drop p

/-- `erase(begin() + first, begin() + last)`. -/
def eraseRange (l : List α) (first last : Nat) : List α :=
  l.take first ++ l.drop last

variable {xs : List α} {p first last : Nat}

theorem length_insertAt (within : p ≤ l.length) : (insertAt l p xs).length = l.length + xs.length := by
  simp only [insertAt, List.length_append, List.length_take, List.length_drop]
  omega

theorem getElem?_insertAt (within : p ≤ l.length) (k : Nat) :
    (insertAt l p xs)[k]? = if k < p then l[k]? else if k < p + xs.length then xs[k - p]? else l[k - xs.length]? := by
  unfold insertAt
  have taken : (l.take p).length = p := by simp; omega
  split_ifs with before inside
  · rw [List.getElem?_append_left (by simp; omega), List.getElem?_append_left (by omega),
      List.getElem?_take_of_lt before]
  · rw [List.getElem?_append_left (by simp; omega), List.getElem?_append_right (by omega), taken]
  · rw [List.getElem?_append_right (by simp; omega), List.getElem?_drop, List.length_append, taken]
    congr 1
    omega

theorem length_eraseRange (valid : first ≤ last) (within : last ≤ l.length) :
    (eraseRange l first last).length = l.length - (last - first) := by
  simp only [eraseRange, List.length_append, List.length_take, List.length_drop]
  omega

theorem getElem?_eraseRange (valid : first ≤ last) (within : last ≤ l.length) (k : Nat) :
    (eraseRange l first last)[k]? = if k < first then l[k]? else l[k + (last - first)]? := by
  unfold eraseRange
  have taken : (l.take first).length = first := by simp; omega
  split_ifs with before
  · rw [List.getElem?_append_left (by omega), List.getElem?_take_of_lt before]
  · rw [List.getElem?_append_right (by omega), List.getElem?_drop, taken]
    congr 1
    omega

theorem all_range_congr {n : Nat} {p q : Nat → Bool} (same : ∀ i < n, p i = q i) :
    (List.range n).all p = (List.range n).all q := by
  rw [Bool.eq_iff_iff, List.all_eq_true, List.all_eq_true]
  constructor
  · intro holds i listed
    rw [← same i (List.mem_range.mp listed)]
    exact holds i listed
  · intro holds i listed
    rw [same i (List.mem_range.mp listed)]
    exact holds i listed

/-- Two lists of one length are `==` when the elements at each position are. -/
theorem beq_eq_all_range [BEq α] : ∀ {l m : List α}, l.length = m.length →
    (l == m) = (List.range l.length).all fun i => l[i]? == m[i]?
  | [], [], _ => rfl
  | a :: l, b :: m, same => by
    rw [List.cons_beq_cons, beq_eq_all_range (by simpa using same), List.length_cons, List.range_succ_eq_map,
      List.all_cons, List.all_map]
    simp only [List.getElem?_cons_zero, Option.some_beq_some, Function.comp_def, Nat.succ_eq_add_one,
      List.getElem?_cons_succ]

end SeqOps
