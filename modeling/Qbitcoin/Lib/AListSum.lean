import Mathlib.Data.List.AList
import Mathlib.Algebra.BigOperators.Group.List.Basic

/-!
# Sums over the values of an association list

The total of a weight over the values of an `AList`, and what `erase` and
`insert` do to it: erasing a present key takes the weight of its value away,
erasing an absent key changes nothing, and inserting adds the new value's
weight to the total of the list without the key.
-/

namespace AList

variable {α β M : Type} [DecidableEq α] [AddCommMonoid M]

/-- The sum of `weight` over the values of `s`. -/
def sumValues (weight : β → M) (s : AList fun _ : α => β) : M :=
  (s.entries.map fun entry => weight entry.2).sum

variable {weight : β → M} {s : AList fun _ : α => β} {a : α}

theorem erase_entries : (s.erase a).entries = s.entries.kerase a := rfl

theorem sumValues_erase_of_lookup_none (missing : s.lookup a = none) :
    sumValues weight (s.erase a) = sumValues weight s := by
  have absent : a ∉ s.entries.keys := List.dlookup_eq_none.mp missing
  simp only [sumValues, erase_entries, List.kerase_of_notMem_keys absent]

theorem sumValues_erase_add {b : β} (found : s.lookup a = some b) :
    sumValues weight (s.erase a) + weight b = sumValues weight s := by
  have present : a ∈ s.entries.keys := List.dlookup_isSome.mp (by rw [← lookup, found]; rfl)
  obtain ⟨stored, before, after, fresh, split, erased⟩ := List.exists_of_kerase present
  have same : stored = b := by
    have looked : s.entries.dlookup a = some b := found
    rw [split, List.dlookup_append, List.dlookup_eq_none.mpr fresh, List.dlookup_cons_eq] at looked
    simpa using looked
  subst same
  simp only [sumValues, erase_entries]
  rw [erased, split]
  simp only [List.map_append, List.map_cons, List.sum_append, List.sum_cons]
  rw [add_assoc, add_comm _ (weight stored)]

theorem sumValues_insert (b : β) :
    sumValues weight (s.insert a b) = weight b + sumValues weight (s.erase a) := by
  simp only [sumValues, entries_insert, erase_entries, List.map_cons, List.sum_cons]

/-- Lists that look up alike have one total: their entries are a permutation
of each other. -/
theorem sumValues_eq_of_lookup_eq {t : AList fun _ : α => β} (same : ∀ a, s.lookup a = t.lookup a) :
    sumValues weight s = sumValues weight t := by
  have perm : s.entries.Perm t.entries :=
    List.lookup_ext s.nodupKeys t.nodupKeys fun a b => by
      have looked : s.entries.dlookup a = t.entries.dlookup a := same a
      rw [looked]
  exact (perm.map _).sum_eq

end AList
