import Mathlib.Logic.Function.Basic

/-!
# Blocks of memory

The storage a container allocates, as a block of slots each holding an object
(`some x`) or none: freshly allocated memory holds none, and a container
writes a slot (`std::construct_at`, `std::destroy_at`), copies a range
(`memcpy`, `memmove`) and fills a range (`std::fill_n`).  A copy reads the
source as it was before the copy, so a copy within one block is a `memmove`.
A block is unbounded; the container keeps its own bound and only touches the
slots below it.
-/

namespace Memory

variable {α : Type}

/-- Freshly allocated memory: no slot holds an object. -/
def alloc : Nat → Option α := fun _ => none

/-- Slot `i` of `b` set to `x`: `std::construct_at(b + i, ..)` for `some`, `std::destroy_at(b + i)` for
`none`. -/
def write (b : Nat → Option α) (i : Nat) (x : Option α) : Nat → Option α :=
  fun k => if k = i then x else b k

/-- `memcpy(dst + d, src + s, n)`, or `memmove` when `src` is `dst`. -/
def copy (dst : Nat → Option α) (d : Nat) (src : Nat → Option α) (s n : Nat) : Nat → Option α :=
  fun k => if d ≤ k ∧ k < d + n then src (s + (k - d)) else dst k

/-- The objects of an input range, as a block to copy from. -/
def ofList (xs : List α) : Nat → Option α := fun k => xs[k]?

/-- `std::fill_n(dst + d, n, x)`. -/
def fill (dst : Nat → Option α) (d n : Nat) (x : α) : Nat → Option α :=
  fun k => if d ≤ k ∧ k < d + n then some x else dst k

variable {b dst src : Nat → Option α} {i k d s n : Nat} {x : Option α}

@[simp] theorem alloc_apply : (alloc : Nat → Option α) k = none := rfl

@[simp] theorem ofList_apply (xs : List α) : ofList xs k = xs[k]? := rfl

@[simp] theorem write_same : write b i x i = x := if_pos rfl

theorem write_of_ne (other : k ≠ i) : write b i x k = b k := if_neg other

theorem copy_of_mem (inside : d ≤ k ∧ k < d + n) : copy dst d src s n k = src (s + (k - d)) := if_pos inside

/-- A copy between the starts of two blocks, `memcpy(dst, src, n)`, read below `n`. -/
theorem copy_start (inside : k < n) : copy dst 0 src 0 n k = src k := by
  rw [copy_of_mem ⟨Nat.zero_le k, by omega⟩, Nat.zero_add, Nat.sub_zero]

theorem copy_of_lt (below : k < d) : copy dst d src s n k = dst k := if_neg fun inside => by omega

theorem copy_of_le (above : d + n ≤ k) : copy dst d src s n k = dst k := if_neg fun inside => by omega

@[simp] theorem copy_zero : copy dst d src s 0 = dst := by
  funext k
  exact if_neg fun inside => by omega

/-- A copy the code makes only when there is something to copy. -/
theorem ite_copy {c : Prop} [Decidable c] (nothing : ¬c → n = 0) :
    (if c then copy dst d src s n else dst) = copy dst d src s n := by
  by_cases going : c
  · rw [if_pos going]
  · rw [if_neg going, nothing going, copy_zero]

theorem fill_of_mem {y : α} (inside : d ≤ k ∧ k < d + n) : fill dst d n y k = some y := if_pos inside

theorem fill_of_not_mem {y : α} (outside : ¬(d ≤ k ∧ k < d + n)) : fill dst d n y k = dst k := if_neg outside

end Memory
