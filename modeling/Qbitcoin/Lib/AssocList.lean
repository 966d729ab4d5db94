import Mathlib.Data.List.Basic

/-!
# Association lists as ordered maps

A `std::map` whose only operations are `find` and `emplace` is modelled as a
list of pairs: `find` is `List.lookup`, which returns the first entry of a key,
and `emplace` appends an entry only for a key not yet present, so that the
first entry of every key is the one `find` returns.
-/

namespace List

variable {α β : Type} [BEq α]

/-- `std::map::emplace`: insert unless the key is present. -/
def emplace (map : List (α × β)) (key : α) (value : β) : List (α × β) :=
  if (map.lookup key).isSome then map else map ++ [(key, value)]

/-- `std::map::emplace` on a map kept in the order `before`: insert at the
key's place unless the key is present. -/
def emplaceBy (before : α → α → Bool) (map : List (α × β)) (key : α) (value : β) : List (α × β) :=
  match map with
  | [] => [(key, value)]
  | (key', value') :: rest =>
      if key == key' then map
      else if before key key' then (key, value) :: map
      else (key', value') :: emplaceBy before rest key value

theorem mem_emplace {map : List (α × β)} {key : α} {value : β} {entry : α × β}
    (mem : entry ∈ map.emplace key value) : entry ∈ map ∨ entry = (key, value) := by
  unfold emplace at mem
  split_ifs at mem
  · exact Or.inl mem
  · simpa using mem

theorem mem_emplaceBy {before : α → α → Bool} {map : List (α × β)} {key : α} {value : β} {entry : α × β}
    (mem : entry ∈ map.emplaceBy before key value) : entry ∈ map ∨ entry = (key, value) := by
  induction map with
  | nil => exact Or.inr (mem_singleton.mp mem)
  | cons head rest inRest =>
      obtain ⟨key', value'⟩ := head
      unfold emplaceBy at mem
      split_ifs at mem
      · exact Or.inl mem
      · rcases mem_cons.mp mem with rfl | kept
        · exact Or.inr rfl
        · exact Or.inl kept
      · rcases mem_cons.mp mem with rfl | later
        · exact Or.inl mem_cons_self
        · exact (inRest later).imp (mem_cons_of_mem _) id

/-- `std::map::insert` of a range: every entry of the result was in the map or
in the range. -/
theorem mem_foldl_emplaceBy {before : α → α → Bool} {entries map : List (α × β)} {entry : α × β}
    (mem : entry ∈ entries.foldl (fun map added => map.emplaceBy before added.1 added.2) map) :
    entry ∈ map ∨ entry ∈ entries := by
  induction entries generalizing map with
  | nil => exact Or.inl mem
  | cons added rest inRest =>
      rcases inRest mem with inserted | later
      · rcases mem_emplaceBy inserted with kept | rfl
        · exact Or.inl kept
        · exact Or.inr mem_cons_self
      · exact Or.inr (mem_cons_of_mem _ later)

variable [LawfulBEq α]

theorem mem_of_lookup_eq_some {map : List (α × β)} {key : α} {value : β}
    (found : map.lookup key = some value) : (key, value) ∈ map := by
  induction map with
  | nil => cases found
  | cons entry rest inRest =>
      obtain ⟨key', value'⟩ := entry
      by_cases sameKey : key = key'
      · subst sameKey
        simp only [lookup_cons_self, Option.some.injEq] at found
        subst found
        exact mem_cons_self
      · have skipped : (key == key') = false := beq_false_of_ne sameKey
        simp only [lookup_cons, skipped] at found
        exact mem_cons_of_mem _ (inRest found)

end List
