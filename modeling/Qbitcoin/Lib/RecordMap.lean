import Mathlib.Data.List.Basic

/-!
# Maps of records read from a stream

A map is a sequence of records ended by a record with an empty key.  A reader
reads the key of each record and hands a non-empty key, with the rest of the
stream, to a handler that reads the record's value into a state.  Reading a
key consumes input and a handler never grows it, so the loop terminates.

What the loop does over a sequence of records follows from what it does on
each: `readMap_flatten` runs it across records that are each read
successfully, after which it ends at the empty key (`readMap_of_separator`)
or fails with the first record whose handler fails (`readMap_of_handle_error`).
-/

namespace RecordMap

/-- A reader of a map of records over an input of `α`s, into a state `σ`, with
errors `ε`; `missingSeparator` is the error of an input that ends before the
empty key. -/
structure Reader (α σ ε : Type) where
  readKey : List α → Except ε (List α × List α)
  handle : σ → List α → List α → Except ε (σ × List α)
  missingSeparator : ε
  readKey_shorter : ∀ {input key rest}, readKey input = .ok (key, rest) → rest.length < input.length
  handle_le : ∀ {state key input state' rest},
    handle state key input = .ok (state', rest) → rest.length ≤ input.length

variable {α σ ε : Type} (reader : Reader α σ ε)

namespace Reader

/-- The reading loop: records until the empty key, which is consumed. -/
def readMap (state : σ) (input : List α) : Except ε (σ × List α) :=
  if input.isEmpty then .error reader.missingSeparator
  else
    match keyRead : reader.readKey input with
    | .error e => .error e
    | .ok (key, afterKey) =>
        if key.isEmpty then .ok (state, afterKey)
        else
          match handled : reader.handle state key afterKey with
          | .error e => .error e
          | .ok (state', rest) => readMap state' rest
termination_by input.length
decreasing_by
  have consumed := reader.readKey_shorter keyRead
  have kept := reader.handle_le handled
  omega

/-- The records between `state` and `state'`: each is a key the reader reads
whole, and a value the handler reads whole, whatever follows it. -/
def ReadsRecord (state : σ) (record : List α) (state' : σ) : Prop :=
  ∀ tail, ∃ key afterKey, key ≠ [] ∧ reader.readKey (record ++ tail) = .ok (key, afterKey) ∧
    reader.handle state key afterKey = .ok (state', tail)

/-- A sequence of records read one after another. -/
inductive ReadsAll : σ → List (List α) → σ → Prop
  | nil (state : σ) : ReadsAll state [] state
  | cons {state middle final : σ} {record : List α} {records : List (List α)} :
      reader.ReadsRecord state record middle → ReadsAll middle records final →
      ReadsAll state (record :: records) final

theorem ne_nil_of_readKey {input key rest : List α} (read : reader.readKey input = .ok (key, rest)) :
    input ≠ [] := by
  rintro rfl
  have consumed := reader.readKey_shorter read
  simp at consumed

theorem readMap_of_separator {state : σ} {input rest : List α}
    (read : reader.readKey input = .ok ([], rest)) : reader.readMap state input = .ok (state, rest) := by
  have nonempty := reader.ne_nil_of_readKey read
  rw [readMap]
  simp only [List.isEmpty_iff, nonempty, if_false]
  split <;> simp_all

theorem readMap_of_record {state state' : σ} {input key afterKey rest : List α}
    (read : reader.readKey input = .ok (key, afterKey)) (nonempty : key ≠ [])
    (handled : reader.handle state key afterKey = .ok (state', rest)) :
    reader.readMap state input = reader.readMap state' rest := by
  have inputNonempty := reader.ne_nil_of_readKey read
  rw [readMap]
  simp only [List.isEmpty_iff, inputNonempty, if_false]
  split
  · simp_all
  · rename_i key' afterKey' keyRead
    rw [read, Except.ok.injEq, Prod.mk.injEq] at keyRead
    obtain ⟨rfl, rfl⟩ := keyRead
    simp only [nonempty, if_false]
    split <;> simp_all

theorem readMap_of_handle_error {state : σ} {input key afterKey : List α} {e : ε}
    (read : reader.readKey input = .ok (key, afterKey)) (nonempty : key ≠ [])
    (failed : reader.handle state key afterKey = .error e) : reader.readMap state input = .error e := by
  have inputNonempty := reader.ne_nil_of_readKey read
  rw [readMap]
  simp only [List.isEmpty_iff, inputNonempty, if_false]
  split
  · simp_all
  · rename_i key' afterKey' keyRead
    rw [read, Except.ok.injEq, Prod.mk.injEq] at keyRead
    obtain ⟨rfl, rfl⟩ := keyRead
    simp only [nonempty, if_false]
    split <;> simp_all

/-- The loop runs across one record read whole. -/
theorem readMap_of_readsRecord {state state' : σ} {record : List α} (reads : reader.ReadsRecord state record state')
    (input : List α) : reader.readMap state (record ++ input) = reader.readMap state' input := by
  obtain ⟨key, afterKey, nonempty, read, handled⟩ := reads input
  exact reader.readMap_of_record read nonempty handled

/-- The loop runs across records that are each read whole. -/
theorem readMap_flatten {state final : σ} {records : List (List α)} (reads : reader.ReadsAll state records final)
    (input : List α) : reader.readMap state (records.flatten ++ input) = reader.readMap final input := by
  induction reads with
  | nil => rfl
  | @cons state middle final record records first _ restRead =>
      rw [List.flatten_cons, List.append_assoc, reader.readMap_of_readsRecord first, restRead]

end Reader

end RecordMap
