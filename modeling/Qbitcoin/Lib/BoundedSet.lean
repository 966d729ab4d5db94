import Mathlib.Data.Finset.Max
import Mathlib.Data.Finset.SymmDiff

/-!
# Sets of naturals below a bound

The operations of a bitset as plain data, and what it means for them to
implement the finite sets of naturals below `size`: each value stands for a
set of such naturals, and every operation acts on those sets as the
corresponding set operation.  The compound assignments give the value of the
binary operations, the tests are the set relations, and a traversal lists the
set once, in increasing order.

A traversal that stops on the empty set, and otherwise emits the least element
and goes on from a state standing for the others, is such a listing
(`visit_of_min`); it is the run lemma of both bitset iterators.
-/

namespace BoundedSet

open Finset
open scoped symmDiff

/-- The operations of a bitset over values of type `β`, as plain data. -/
structure Ops (β : Type) where
  /-- The number of positions, `Size()`. -/
  size : Nat
  /-- The set a value stands for. -/
  elems : β → Finset Nat
  set : β → Nat → β
  setTo : β → Nat → Bool → β
  reset : β → Nat → β
  get : β → Nat → Bool
  singleton : Nat → β
  fill : Nat → β
  count : β → Nat
  none : β → Bool
  any : β → Bool
  first : β → Nat
  last : β → Nat
  union : β → β → β
  inter : β → β → β
  diff : β → β → β
  symmDiff : β → β → β
  unionAssign : β → β → β
  interAssign : β → β → β
  diffAssign : β → β → β
  symmDiffAssign : β → β → β
  overlaps : β → β → Bool
  isSubsetOf : β → β → Bool
  isSupersetOf : β → β → Bool
  beq : β → β → Bool
  /-- The positions an iteration from `begin()` to `end()` reports. -/
  visit : β → List Nat

/-- The operations implement the finite sets of naturals below `size`.  The operations on one position hold for
positions below `size`, the source's precondition; `first` and `last` for a nonempty set. -/
structure Ops.Refines {β : Type} (ops : Ops β) : Prop where
  elems_subset : ∀ s, ops.elems s ⊆ range ops.size
  elems_set : ∀ s i, i < ops.size → ops.elems (ops.set s i) = insert i (ops.elems s)
  elems_setTo : ∀ s i b, i < ops.size →
    ops.elems (ops.setTo s i b) = if b then insert i (ops.elems s) else (ops.elems s).erase i
  elems_reset : ∀ s i, i < ops.size → ops.elems (ops.reset s i) = (ops.elems s).erase i
  get_iff : ∀ s i, i < ops.size → (ops.get s i = true ↔ i ∈ ops.elems s)
  elems_singleton : ∀ i, i < ops.size → ops.elems (ops.singleton i) = {i}
  elems_fill : ∀ c, c ≤ ops.size → ops.elems (ops.fill c) = range c
  count_eq : ∀ s, ops.count s = (ops.elems s).card
  none_iff : ∀ s, ops.none s = true ↔ ops.elems s = ∅
  any_iff : ∀ s, ops.any s = true ↔ (ops.elems s).Nonempty
  first_eq : ∀ s (nonempty : (ops.elems s).Nonempty), ops.first s = (ops.elems s).min' nonempty
  last_eq : ∀ s (nonempty : (ops.elems s).Nonempty), ops.last s = (ops.elems s).max' nonempty
  elems_union : ∀ s t, ops.elems (ops.union s t) = ops.elems s ∪ ops.elems t
  elems_inter : ∀ s t, ops.elems (ops.inter s t) = ops.elems s ∩ ops.elems t
  elems_diff : ∀ s t, ops.elems (ops.diff s t) = ops.elems s \ ops.elems t
  elems_symmDiff : ∀ s t, ops.elems (ops.symmDiff s t) = ops.elems s ∆ ops.elems t
  unionAssign_eq : ∀ s t, ops.unionAssign s t = ops.union s t
  interAssign_eq : ∀ s t, ops.interAssign s t = ops.inter s t
  diffAssign_eq : ∀ s t, ops.diffAssign s t = ops.diff s t
  symmDiffAssign_eq : ∀ s t, ops.symmDiffAssign s t = ops.symmDiff s t
  overlaps_iff : ∀ s t, ops.overlaps s t = true ↔ ¬Disjoint (ops.elems s) (ops.elems t)
  isSubsetOf_iff : ∀ s t, ops.isSubsetOf s t = true ↔ ops.elems s ⊆ ops.elems t
  isSupersetOf_iff : ∀ s t, ops.isSupersetOf s t = true ↔ ops.elems t ⊆ ops.elems s
  beq_iff : ∀ s t, ops.beq s t = true ↔ ops.elems s = ops.elems t
  visit_sorted : ∀ s, (ops.visit s).Pairwise (· < ·)
  mem_visit : ∀ s i, i ∈ ops.visit s ↔ i ∈ ops.elems s

/-! ## Traversals -/

section Traversal

variable {σ : Type} (remaining : σ → Finset Nat) (visit : σ → List Nat) (valid : σ → Prop)

/-- A traversal that stops on the empty set, and otherwise emits the least element and goes on from a valid state
standing for the others, lists each element once, in increasing order.  The induction is on the number of
elements left. -/
theorem visit_of_min (stop : ∀ st, valid st → remaining st = ∅ → visit st = [])
    (step : ∀ st, valid st → ∀ nonempty : (remaining st).Nonempty, ∃ next, valid next ∧
      remaining next = (remaining st).erase ((remaining st).min' nonempty) ∧
      visit st = (remaining st).min' nonempty :: visit next)
    (st : σ) (start : valid st) :
    (visit st).Pairwise (· < ·) ∧ ∀ i, i ∈ visit st ↔ i ∈ remaining st := by
  induction left : (remaining st).card generalizing st with
  | zero =>
    have empty := card_eq_zero.mp left
    rw [stop st start empty, empty]
    simp
  | succ n inductionHypothesis =>
    have nonempty : (remaining st).Nonempty := card_pos.mp (by omega)
    obtain ⟨next, nextValid, rest, emits⟩ := step st start nonempty
    have fewer : (remaining next).card = n := by
      rw [rest, card_erase_of_mem (min'_mem _ nonempty), left, Nat.add_sub_cancel]
    obtain ⟨sorted, members⟩ := inductionHypothesis next nextValid fewer
    rw [emits]
    refine ⟨List.pairwise_cons.mpr ⟨fun j later => ?_, sorted⟩, fun i => ?_⟩
    · rw [members, rest] at later
      exact min'_lt_of_mem_erase_min' _ nonempty later
    · rw [List.mem_cons, members, rest, mem_erase]
      constructor
      · rintro (least | ⟨_, mem⟩)
        · exact least ▸ min'_mem _ nonempty
        · exact mem
      · intro mem
        by_cases least : i = (remaining st).min' nonempty
        · exact Or.inl least
        · exact Or.inr ⟨least, mem⟩

end Traversal

end BoundedSet
