import Mathlib.Logic.Relation

/-!
# Reachability under edge updates

A graph that is kept as the reflexive-transitive closure of its edges changes in
two ways: edges are added from a set of sources into one target node, and the
closure is restricted to a subset of the nodes.  For each, what the paths are
afterwards, in terms of the paths before.  A path from `a` to `b` is
`ReflTransGen r a b`.
-/

namespace Qbitcoin

open Relation

variable {α : Type*}

/-- The relation `r` with an edge added from each node of `sources` to `target`. -/
def addEdgesInto (r : α → α → Prop) (sources : Set α) (target : α) : α → α → Prop :=
  fun a b => r a b ∨ (a ∈ sources ∧ b = target)

/-- The paths of `r` between nodes of `keep`, each as one direct edge. -/
def restrictClosure (r : α → α → Prop) (keep : Set α) : α → α → Prop :=
  fun a b => a ∈ keep ∧ b ∈ keep ∧ ReflTransGen r a b

/-- A path after edges into `target` were added is an old path, or an old path
to a source, the new edge, and an old path on from `target`: a path that uses a
new edge twice comes back to `target`, so only its last use counts. -/
theorem reflTransGen_addEdgesInto_iff {r : α → α → Prop} {sources : Set α} {target a b : α} :
    ReflTransGen (addEdgesInto r sources target) a b ↔
      ReflTransGen r a b ∨ (∃ source ∈ sources, ReflTransGen r a source) ∧ ReflTransGen r target b := by
  constructor
  · intro path
    induction path with
    | refl => exact Or.inl ReflTransGen.refl
    | @tail middle last _ edge inductionHypothesis =>
      rcases edge with old | ⟨fromSource, rfl⟩
      · rcases inductionHypothesis with before | ⟨reachesSource, fromTarget⟩
        · exact Or.inl (before.tail old)
        · exact Or.inr ⟨reachesSource, fromTarget.tail old⟩
      · rcases inductionHypothesis with before | ⟨reachesSource, -⟩
        · exact Or.inr ⟨⟨middle, fromSource, before⟩, ReflTransGen.refl⟩
        · exact Or.inr ⟨reachesSource, ReflTransGen.refl⟩
  · have widen : ReflTransGen r ≤ ReflTransGen (addEdgesInto r sources target) :=
      ReflTransGen.mono fun _ _ old => Or.inl old
    rintro (old | ⟨⟨source, isSource, toSource⟩, fromTarget⟩)
    · exact widen _ _ old
    · exact ((widen _ _ toSource).tail (Or.inr ⟨isSource, rfl⟩)).trans (widen _ _ fromTarget)

/-- A restricted closure is transitive, so its own paths are its edges or empty. -/
theorem reflTransGen_restrictClosure_iff {r : α → α → Prop} {keep : Set α} {a b : α} :
    ReflTransGen (restrictClosure r keep) a b ↔ b = a ∨ restrictClosure r keep a b := by
  have : IsTrans α (restrictClosure r keep) :=
    ⟨fun _ _ _ ⟨keepFirst, _, first⟩ ⟨_, keepLast, second⟩ => ⟨keepFirst, keepLast, first.trans second⟩⟩
  rw [reflTransGen_eq_reflGen, reflGen_iff]

/-- Between two kept nodes, the restricted closure has the paths of `r`. -/
theorem reflTransGen_restrictClosure_of_mem {r : α → α → Prop} {keep : Set α} {a b : α} (keepA : a ∈ keep)
    (keepB : b ∈ keep) : ReflTransGen (restrictClosure r keep) a b ↔ ReflTransGen r a b := by
  rw [reflTransGen_restrictClosure_iff]
  constructor
  · rintro (rfl | ⟨-, -, path⟩)
    · exact ReflTransGen.refl
    · exact path
  · exact fun path => Or.inr ⟨keepA, keepB, path⟩

end Qbitcoin
