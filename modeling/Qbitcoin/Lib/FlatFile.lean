import Mathlib.Data.List.Basic

/-!
Flat files and growable vectors as lists.

A file is the list of its bytes: `writeAt` overwrites a range, filling a gap
before it, and `readAt` reads a range when the file holds it.  Writing leaves
every range that ends before the written one as it was (`readAt_writeAt_of_le`)
and is read back itself (`readAt_writeAt_self`); together they are the frame
rule a store of records appended at growing offsets rests on.

`modifyGrow` is `v.resize(i + 1)` when `v` is too short, then an update of
entry `i`, read through `getD` with the fill as default.
-/

namespace List

variable {α : Type}

/-- Overwrite `data` at `offset`, with `fill` between the end of the file and `offset`. -/
def writeAt (file : List α) (offset : Nat) (fill : α) (data : List α) : List α :=
  file.take offset ++ replicate (offset - file.length) fill ++ data ++ file.drop (offset + data.length)

/-- The `count` items at `offset`, if the file reaches that far. -/
def readAt (file : List α) (offset count : Nat) : Option (List α) :=
  if offset + count ≤ file.length then some ((file.drop offset).take count) else none

/-- `std::vector::resize(size)` for a vector shorter than `size`. -/
def grow (l : List α) (size : Nat) (fill : α) : List α :=
  l ++ replicate (size - l.length) fill

/-- Entry `i` updated by `f`, after growing the vector to hold it. -/
def modifyGrow (l : List α) (i : Nat) (fill : α) (f : α → α) : List α :=
  (l.grow (i + 1) fill).modify i f

theorem length_writeAt (file : List α) (offset : Nat) (fill : α) (data : List α) :
    (file.writeAt offset fill data).length = max file.length (offset + data.length) := by
  simp only [writeAt, length_append, length_take, length_replicate, length_drop]
  omega

theorem readAt_eq_some {file : List α} {offset count : Nat} {items : List α} :
    file.readAt offset count = some items ↔
      offset + count ≤ file.length ∧ (file.drop offset).take count = items := by
  unfold readAt
  split_ifs with fits <;> simp [fits]

/-- What is written is read back. -/
theorem readAt_writeAt_self (file : List α) (offset : Nat) (fill : α) (data : List α) :
    (file.writeAt offset fill data).readAt offset data.length = some data := by
  have prefixLength : (file.take offset ++ replicate (offset - file.length) fill).length = offset := by
    simp only [length_append, length_take, length_replicate]
    omega
  rw [readAt_eq_some, length_writeAt]
  refine ⟨by omega, ?_⟩
  rw [writeAt, append_assoc, append_assoc, ← append_assoc (file.take offset), drop_left' prefixLength,
    take_left' rfl]

/-- A range that ends before the write is unchanged by it. -/
theorem readAt_writeAt_of_le {file : List α} {offset : Nat} (fill : α) (data : List α)
    {start count : Nat} {items : List α} (read : file.readAt start count = some items)
    (before : start + count ≤ offset) :
    (file.writeAt offset fill data).readAt start count = some items := by
  obtain ⟨fits, taken⟩ := readAt_eq_some.mp read
  rw [readAt_eq_some, length_writeAt]
  refine ⟨by omega, ?_⟩
  have kept : (file.writeAt offset fill data).take (start + count) = file.take (start + count) := by
    have prefixKept : (file.take offset).take (start + count) = file.take (start + count) := by
      rw [take_take, Nat.min_eq_left before]
    have prefixLength : (file.take offset).length ≥ start + count := by
      rw [length_take]
      omega
    rw [writeAt, append_assoc, append_assoc, take_append_of_le_length prefixLength, prefixKept]
  have withinPrefix : ∀ whole : List α, (whole.drop start).take count = (whole.take (start + count)).drop start := by
    intro whole
    rw [drop_take, Nat.add_sub_cancel_left]
  rw [← taken, withinPrefix, withinPrefix, kept]

/-- A range read as two parts reads as each part. -/
theorem readAt_append {file : List α} {offset : Nat} {first second : List α}
    (read : file.readAt offset (first.length + second.length) = some (first ++ second)) :
    file.readAt offset first.length = some first ∧
      file.readAt (offset + first.length) second.length = some second := by
  obtain ⟨fits, taken⟩ := readAt_eq_some.mp read
  have firstPart : (file.drop offset).take first.length = first := by
    have prefixOfRead := congrArg (take first.length) taken
    rwa [take_take, Nat.min_eq_left (Nat.le_add_right _ _), take_left' rfl] at prefixOfRead
  have secondPart : (file.drop (offset + first.length)).take second.length = second := by
    have suffixOfRead := congrArg (drop first.length) taken
    rwa [drop_take, Nat.add_sub_cancel_left, drop_left' rfl, drop_drop] at suffixOfRead
  exact ⟨readAt_eq_some.mpr ⟨by omega, firstPart⟩, readAt_eq_some.mpr ⟨by omega, secondPart⟩⟩

theorem getD_grow (l : List α) (size : Nat) (fill : α) (i : Nat) :
    (l.grow size fill).getD i fill = l.getD i fill := by
  simp only [grow, getD_eq_getElem?_getD, getElem?_append]
  split_ifs with inside
  · rfl
  · have outside : l[i]? = none := getElem?_eq_none (by omega)
    rw [outside, getElem?_replicate]
    split_ifs <;> rfl

theorem getD_modifyGrow_self (l : List α) (i : Nat) (fill : α) (f : α → α) :
    (l.modifyGrow i fill f).getD i fill = f (l.getD i fill) := by
  have grown : i < (l.grow (i + 1) fill).length := by
    simp only [grow, length_append, length_replicate]
    omega
  have entry : (l.grow (i + 1) fill)[i]? = some (l.getD i fill) := by
    rw [getElem?_eq_getElem grown, ← getD_grow l (i + 1) fill i, getD_eq_getElem?_getD,
      getElem?_eq_getElem grown, Option.getD_some]
  simp [modifyGrow, getD_eq_getElem?_getD, entry]

theorem getD_modifyGrow_of_ne (l : List α) {i j : Nat} (fill : α) (f : α → α) (other : j ≠ i) :
    (l.modifyGrow i fill f).getD j fill = l.getD j fill := by
  have unchanged := getD_grow l (i + 1) fill j
  simp only [getD_eq_getElem?_getD] at unchanged
  simp [modifyGrow, getD_eq_getElem?_getD, Ne.symm other, unchanged]

end List
