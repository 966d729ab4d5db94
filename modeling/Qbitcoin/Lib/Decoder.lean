import Mathlib.Data.List.Basic
import Qbitcoin.Lib.Except

/-!
# Decoders over a stream of tokens

A decoder reads a value from the front of a list of tokens and returns it with
the rest of the list, or fails: a computation in `StateT (List τ) (Except ε)`.

Two properties relate a decoder `p` to an encoder `enc`.  `Encodes p enc x` is
the round trip at `x`: reading `enc x` followed by anything gives back `x` and
leaves the rest.  `ReadsEncoding p enc` is the converse, that every successful
read consumed an encoding, `enc x` for the value `x` it returned; a decoder with
both properties accepts exactly the encodings.  Both pass through counted
repetition (`readList`), and a structure's decoder combines its fields' through
`run_bind_of_ok` and `run_bind_eq_ok`.
-/

namespace Decoding

/-- A decoder of `α` from a stream of `τ`, failing with an `ε`. -/
abbrev Decoder (τ ε α : Type) := StateT (List τ) (Except ε) α

variable {τ ε α β : Type}

/-- Read `n` tokens, or fail with `err` when fewer remain. -/
def take (err : ε) (n : Nat) : Decoder τ ε (Vector τ n) := fun s =>
  if fits : n ≤ s.length then .ok (⟨(s.take n).toArray, by simp [fits]⟩, s.drop n)
  else .error err

/-- Read `n` values with `p`, one after another. -/
def readList (p : Decoder τ ε α) : Nat → Decoder τ ε (List α)
  | 0 => pure []
  | n + 1 => do
      let x ← p
      let xs ← readList p n
      pure (x :: xs)

/-- `p` reads `x` back from its encoding, whatever follows it. -/
def Encodes (p : Decoder τ ε α) (enc : α → List τ) (x : α) : Prop :=
  ∀ rest, p.run (enc x ++ rest) = .ok (x, rest)

/-- Every successful read of `p` consumed the encoding of the value it returned. -/
def ReadsEncoding (p : Decoder τ ε α) (enc : α → List τ) : Prop :=
  ∀ ⦃s : List τ⦄ ⦃x : α⦄ ⦃s' : List τ⦄, p.run s = .ok (x, s') → s = enc x ++ s'

/-! ## Running binds -/

@[simp]
theorem run_pure {a : α} {s : List τ} : (pure a : Decoder τ ε α).run s = .ok (a, s) := rfl

@[simp]
theorem run_throw {e : ε} {s : List τ} : (throw e : Decoder τ ε α).run s = .error e := rfl

theorem run_bind_of_ok {p : Decoder τ ε α} {s s' : List τ} {a : α} (read : p.run s = .ok (a, s'))
    (f : α → Decoder τ ε β) : (p >>= f).run s = (f a).run s' := by
  simp [read, Except.ok_bind]

theorem run_bind_of_error {p : Decoder τ ε α} {s : List τ} {e : ε} (failed : p.run s = .error e)
    (f : α → Decoder τ ε β) : (p >>= f).run s = .error e := by
  simp [failed, Except.error_bind]

theorem run_bind_eq_ok {p : Decoder τ ε α} {f : α → Decoder τ ε β} {s s'' : List τ} {b : β} :
    (p >>= f).run s = .ok (b, s'') ↔ ∃ a s', p.run s = .ok (a, s') ∧ (f a).run s' = .ok (b, s'') := by
  simp only [StateT.run_bind, Except.bind_eq_ok, Prod.exists]

/-- A test that fails with `e` when `c` holds passes only when `c` does not. -/
theorem run_ite_throw_eq_ok {c : Prop} [Decidable c] {e : ε} {q : Decoder τ ε α} {s s' : List τ}
    {a : α} : (if c then throw e else q).run s = .ok (a, s') ↔ ¬c ∧ q.run s = .ok (a, s') := by
  by_cases holds : c <;> simp [holds]

@[simp]
theorem run_ite_throw_pure {c : Prop} [Decidable c] {e : ε} {a : α} {s : List τ} :
    (if c then throw e else pure a : Decoder τ ε α).run s = if c then .error e else .ok (a, s) := by
  split <;> rfl

/-- A step that does not read the stream, lifted from `Except`. -/
theorem run_lift_of_ok {x : Except ε α} {a : α} (ok : x = .ok a) (s : List τ) :
    (liftM x : Decoder τ ε α).run s = .ok (a, s) := by
  subst ok
  rfl

theorem run_lift_of_error {x : Except ε α} {e : ε} (failed : x = .error e) (s : List τ) :
    (liftM x : Decoder τ ε α).run s = .error e := by
  subst failed
  rfl

theorem run_pure_eq_ok {a b : α} {s s' : List τ} :
    (pure a : Decoder τ ε α).run s = .ok (b, s') ↔ a = b ∧ s = s' := by
  simp

/-- Reading an encoding is the first step of a bind. -/
theorem run_bind_encodes {p : Decoder τ ε α} {enc : α → List τ} {x : α} (encodes : Encodes p enc x)
    (f : α → Decoder τ ε β) (rest : List τ) : (p >>= f).run (enc x ++ rest) = (f x).run rest :=
  run_bind_of_ok (encodes rest) f

/-! ## Reading tokens -/

theorem run_take_append {err : ε} {n : Nat} (v : Vector τ n) (rest : List τ) :
    (take err n).run (v.toList ++ rest) = .ok (v, rest) := by
  simp [take, StateT.run, Vector.toArray_toList]

theorem run_take_of_lt {err : ε} {n : Nat} {s : List τ} (short : s.length < n) :
    (take err n).run s = .error err := by
  simp [take, StateT.run]
  omega

theorem readsEncoding_take {err : ε} {n : Nat} : ReadsEncoding (take err n) (fun v : Vector τ n => v.toList) := by
  intro s v s' read
  simp only [take, StateT.run] at read
  split at read
  · simp only [Except.ok.injEq, Prod.mk.injEq] at read
    obtain ⟨rfl, rfl⟩ := read
    simp
  · cases read

/-! ## Counted repetition -/

theorem encodes_readList {p : Decoder τ ε α} {enc : α → List τ} {xs : List α}
    (each : ∀ x ∈ xs, Encodes p enc x) :
    Encodes (readList p xs.length) (fun xs => (xs.map enc).flatten) xs := by
  intro rest
  induction xs with
  | nil => rfl
  | cons x xs inTail =>
      have tail : (readList p xs.length).run ((xs.map enc).flatten ++ rest) = .ok (xs, rest) :=
        inTail fun y mem => each y (List.mem_cons_of_mem x mem)
      simp only [List.length_cons, readList, List.map_cons, List.flatten_cons, List.append_assoc]
      rw [run_bind_encodes (each x List.mem_cons_self), run_bind_of_ok tail]
      rfl

theorem readList_length {p : Decoder τ ε α} {n : Nat} {s s' : List τ} {xs : List α}
    (read : (readList p n).run s = .ok (xs, s')) : xs.length = n := by
  induction n generalizing s s' xs with
  | zero =>
      simp only [readList, run_pure, Except.ok.injEq, Prod.mk.injEq] at read
      simp [← read.1]
  | succ n inTail =>
      obtain ⟨x, s₁, -, readRest⟩ := run_bind_eq_ok.mp read
      obtain ⟨xs', s₂, readTail, built⟩ := run_bind_eq_ok.mp readRest
      simp only [run_pure, Except.ok.injEq, Prod.mk.injEq] at built
      rw [← built.1, List.length_cons, inTail readTail]

theorem readsEncoding_readList {p : Decoder τ ε α} {enc : α → List τ} (canonical : ReadsEncoding p enc)
    (n : Nat) : ReadsEncoding (readList p n) (fun xs => (xs.map enc).flatten) := by
  induction n with
  | zero =>
      intro s xs s' read
      simp only [readList, run_pure, Except.ok.injEq, Prod.mk.injEq] at read
      obtain ⟨rfl, rfl⟩ := read
      rfl
  | succ n inTail =>
      intro s xs s' read
      obtain ⟨x, s₁, readHead, readRest⟩ := run_bind_eq_ok.mp read
      obtain ⟨xs', s₂, readTail, built⟩ := run_bind_eq_ok.mp readRest
      simp only [run_pure, Except.ok.injEq, Prod.mk.injEq] at built
      obtain ⟨rfl, rfl⟩ := built
      have head := canonical readHead
      have tail := inTail readTail
      rw [head, tail]
      simp

/-- What every read of `p` returns holds of every value `readList p` returns. -/
theorem readList_forall {p : Decoder τ ε α} {P : α → Prop}
    (each : ∀ {s : List τ} {x : α} {s' : List τ}, p.run s = .ok (x, s') → P x) (n : Nat)
    {s s' : List τ} {xs : List α} (read : (readList p n).run s = .ok (xs, s')) : ∀ x ∈ xs, P x := by
  induction n generalizing s s' xs with
  | zero =>
      obtain ⟨rfl, rfl⟩ := run_pure_eq_ok.mp read
      simp
  | succ n inTail =>
      obtain ⟨x, s₁, readHead, readRest⟩ := run_bind_eq_ok.mp read
      obtain ⟨xs', s₂, readTail, built⟩ := run_bind_eq_ok.mp readRest
      obtain ⟨rfl, rfl⟩ := run_pure_eq_ok.mp built
      intro y mem
      rcases List.mem_cons.mp mem with rfl | inRest
      · exact each readHead
      · exact inTail readTail y inRest

/-! ## Consumption -/

/-- `p` never leaves more of the stream than it was given: what a loop that
reads records one after another needs to terminate. -/
def Shrinks (p : Decoder τ ε α) : Prop :=
  ∀ ⦃s : List τ⦄ ⦃x : α⦄ ⦃s' : List τ⦄, p.run s = .ok (x, s') → s'.length ≤ s.length

theorem shrinks_pure (a : α) : Shrinks (pure a : Decoder τ ε α) := by
  intro s x s' read
  obtain ⟨-, rfl⟩ := run_pure_eq_ok.mp read
  exact Nat.le_refl _

theorem shrinks_throw (e : ε) : Shrinks (throw e : Decoder τ ε α) := by
  intro s x s' read
  cases read

theorem shrinks_get : Shrinks (get : Decoder τ ε (List τ)) := by
  intro s x s' read
  cases read
  exact Nat.le_refl _

/-- A computation that does not read the stream. -/
theorem shrinks_lift (x : Except ε α) : Shrinks (liftM x : Decoder τ ε α) := by
  intro s a s' read
  cases x with
  | error e => cases read
  | ok value =>
      cases read
      exact Nat.le_refl _

theorem Shrinks.bind {p : Decoder τ ε α} {f : α → Decoder τ ε β} (first : Shrinks p)
    (rest : ∀ a, Shrinks (f a)) : Shrinks (p >>= f) := by
  intro s b s'' read
  obtain ⟨a, s', readFirst, readRest⟩ := run_bind_eq_ok.mp read
  exact Nat.le_trans (rest a readRest) (first readFirst)

theorem Shrinks.ite {c : Prop} [Decidable c] {p q : Decoder τ ε α} (ifTrue : Shrinks p)
    (ifFalse : Shrinks q) : Shrinks (if c then p else q) := by
  by_cases holds : c
  · rw [if_pos holds]
    exact ifTrue
  · rw [if_neg holds]
    exact ifFalse

theorem ReadsEncoding.shrinks {p : Decoder τ ε α} {enc : α → List τ} (canonical : ReadsEncoding p enc) :
    Shrinks p := by
  intro s x s' read
  rw [canonical read, List.length_append]
  exact Nat.le_add_left _ _

theorem shrinks_readList {p : Decoder τ ε α} (each : Shrinks p) (n : Nat) : Shrinks (readList p n) := by
  induction n with
  | zero => exact shrinks_pure []
  | succ n inTail => exact each.bind fun x => inTail.bind fun xs => shrinks_pure _

end Decoding
