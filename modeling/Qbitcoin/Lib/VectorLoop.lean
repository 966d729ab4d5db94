import Mathlib.Data.List.Range

/-!
# Loops that rewrite each slot of an array

`for (i = 0; i < n; ++i) v[i] = g(i, v[i]);` over a fixed-size array, as a
left fold over `List.range n`.  Each slot is written once, from its own old
value: slot `j` ends as `g j` of its old value when `j < n` and is kept
otherwise (`getElem_updateEach`).
-/

namespace VectorLoop

variable {α : Type} {N : Nat}

/-- `for (i = 0; i < n; ++i) v[i] = g(i, v[i]);` -/
def updateEach (g : Nat → α → α) (n : Nat) (v : Vector α N) : Vector α N :=
  (List.range n).foldl (fun v i => if h : i < N then v.set i (g i v[i]) h else v) v

theorem getElem_updateEach (g : Nat → α → α) (n : Nat) (v : Vector α N) {j : Nat} (inside : j < N) :
    (updateEach g n v)[j] = if j < n then g j v[j] else v[j] := by
  induction n with
  | zero => simp [updateEach]
  | succ n inductionHypothesis =>
    simp only [updateEach, List.range_succ, List.foldl_append, List.foldl_cons, List.foldl_nil] at inductionHypothesis ⊢
    split
    · rw [Vector.getElem_set]
      by_cases same : n = j
      · subst same
        rw [if_pos rfl, if_pos (Nat.lt_succ_self n), inductionHypothesis, if_neg (Nat.lt_irrefl n)]
      · rw [if_neg same, inductionHypothesis]
        by_cases below : j < n
        · simp [below, Nat.lt_succ_of_lt below]
        · simp [below, show ¬j < n + 1 by omega]
    · rw [inductionHypothesis]
      simp [show j < n by omega, show j < n + 1 by omega]

end VectorLoop
