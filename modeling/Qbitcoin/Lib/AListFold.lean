import Mathlib.Data.List.AList

/-!
# Walking the entries of an association list

A map walked entry by entry, where each visit changes some state only at the
visited key, ends in a state described key by key: at a key with an entry, the
change that entry makes to what the state held there; elsewhere, nothing.  The
keys of an `AList` are distinct, so each key is changed at most once, and the
order of the walk does not matter.

`look_foldl` is the pure walk; `foldlM_of_changesAt` the walk in `Except`,
whose visits may fail, and which succeeds when no entry meets the state it
would fail on.
-/

namespace AList

variable {α β γ M ε : Type} [DecidableEq α]

/-- A visit `step m key value` changes what `look` reads only at `key`, where
it makes `change key value` of the old reading. -/
def ChangesAt (look : M → α → γ) (step : M → α → β → M) (change : α → β → γ → γ) : Prop :=
  ∀ m key value a, look (step m key value) a = if key = a then change a value (look m a) else look m a

/-- What a walk over entries leaves at `a`: the change of `a`'s entry, if any. -/
def changedAt (change : α → β → γ → γ) (entry : Option β) (a : α) (old : γ) : γ :=
  match entry with
  | some value => change a value old
  | none => old

theorem lookup_insert_eq_ite (s : AList fun _ : α => β) (key a : α) (value : β) :
    (s.insert key value).lookup a = if key = a then some value else s.lookup a := by
  split
  · rename_i here
    subst here
    exact lookup_insert s
  · rename_i other
    exact lookup_insert_ne (Ne.symm other)

theorem lookup_erase_eq_ite (s : AList fun _ : α => β) (key a : α) :
    (s.erase key).lookup a = if key = a then none else s.lookup a := by
  split
  · rename_i here
    subst here
    exact lookup_erase _ s
  · rename_i other
    exact lookup_erase_ne (Ne.symm other)

section

variable {look : M → α → γ} {change : α → β → γ → γ}

theorem look_foldl_of_nodupKeys {step : M → α → β → M} (changes : ChangesAt look step change)
    {entries : List (Sigma fun _ : α => β)} (nodup : entries.NodupKeys) (m : M) (a : α) :
    look (entries.foldl (fun m entry => step m entry.1 entry.2) m) a =
      changedAt change (entries.dlookup a) a (look m a) := by
  induction entries generalizing m with
  | nil => rfl
  | cons entry entries inTail =>
      obtain ⟨fresh, nodupTail⟩ := List.nodupKeys_cons.mp nodup
      rw [List.foldl_cons, inTail nodupTail, changes]
      by_cases here : entry.1 = a
      · subst here
        rw [List.dlookup_eq_none.mpr fresh, List.dlookup_cons_eq]
        simp [changedAt]
      · rw [List.dlookup_cons_ne _ _ (Ne.symm here), if_neg here]

/-- The pure walk over all entries of `s`. -/
theorem look_foldl {step : M → α → β → M} (changes : ChangesAt look step change)
    (s : AList fun _ : α => β) (m : M) (a : α) :
    look (s.entries.foldl (fun m entry => step m entry.1 entry.2) m) a =
      changedAt change (s.lookup a) a (look m a) :=
  look_foldl_of_nodupKeys changes s.nodupKeys m a

/-- A visit `step m key value` fails only where `fails key value` holds of the
old reading at `key`, and otherwise changes what `look` reads only at `key`. -/
def ChangesAtOrFails (look : M → α → γ) (step : M → α → β → Except ε M) (change : α → β → γ → γ)
    (fails : α → β → γ → Prop) : Prop :=
  ∀ m key value, ¬ fails key value (look m key) →
    ∃ m', step m key value = .ok m' ∧
      ∀ a, look m' a = if key = a then change a value (look m a) else look m a

theorem foldlM_of_nodupKeys {step : M → α → β → Except ε M} {fails : α → β → γ → Prop}
    (changes : ChangesAtOrFails look step change fails) {entries : List (Sigma fun _ : α => β)}
    (nodup : entries.NodupKeys) (m : M)
    (noFailure : ∀ entry ∈ entries, ¬ fails entry.1 entry.2 (look m entry.1)) :
    ∃ m', entries.foldlM (fun m entry => step m entry.1 entry.2) m = .ok m' ∧
      ∀ a, look m' a = changedAt change (entries.dlookup a) a (look m a) := by
  induction entries generalizing m with
  | nil => exact ⟨m, rfl, fun _ => rfl⟩
  | cons entry entries inTail =>
      obtain ⟨fresh, nodupTail⟩ := List.nodupKeys_cons.mp nodup
      obtain ⟨m₁, visited, atKeys⟩ := changes m entry.1 entry.2 (noFailure entry List.mem_cons_self)
      have laterKeys : ∀ later ∈ entries, look m₁ later.1 = look m later.1 := by
        intro later mem
        have other : entry.1 ≠ later.1 := fun same => fresh (same ▸ List.mem_keys_of_mem mem)
        rw [atKeys, if_neg other]
      obtain ⟨m', rest, final⟩ := inTail nodupTail m₁ fun later mem => by
        rw [laterKeys later mem]
        exact noFailure later (List.mem_cons_of_mem _ mem)
      refine ⟨m', by rw [List.foldlM_cons, visited]; exact rest, fun a => ?_⟩
      rw [final, atKeys]
      by_cases here : entry.1 = a
      · subst here
        rw [List.dlookup_eq_none.mpr fresh, List.dlookup_cons_eq, if_pos rfl]
        rfl
      · rw [List.dlookup_cons_ne _ _ (Ne.symm here), if_neg here]

/-- The walk in `Except` over all entries of `s` succeeds when no entry meets
the state it fails on. -/
theorem foldlM_of_changesAt {step : M → α → β → Except ε M} {fails : α → β → γ → Prop}
    (changes : ChangesAtOrFails look step change fails) (s : AList fun _ : α => β) (m : M)
    (noFailure : ∀ key value, s.lookup key = some value → ¬ fails key value (look m key)) :
    ∃ m', s.entries.foldlM (fun m entry => step m entry.1 entry.2) m = .ok m' ∧
      ∀ a, look m' a = changedAt change (s.lookup a) a (look m a) :=
  foldlM_of_nodupKeys changes s.nodupKeys m fun entry mem =>
    noFailure entry.1 entry.2 (List.mem_dlookup s.nodupKeys mem)

end

end AList
