import Qbitcoin.Cluster.FeeFrac
import Qbitcoin.Lib.Reachability
import Mathlib.Data.Finset.Union

/-!
# The dependency graph of a cluster

`DepGraph` of `cluster_linearize.h`: per position, a transaction's fee and size
with the sets of all its ancestors and all its descendants, and the set of
positions in use.  The graph keeps no parent links: `AddDependencies` updates
the two closed sets directly, touching only the ancestors of the new parents
that are not yet ancestors of the child, and `RemoveTransactions` cuts the
removed positions out of every set.

The reference is the relation of the dependencies added so far (`Built`): the
ancestors of a position are the positions in use with a path to it, and its
descendants those it has a path to.  Every operation keeps this (`Closed`), and
from it the sets are reflexive, dual to each other and transitive.
-/

namespace Qbitcoin

open Relation

/-- `DepGraph::Entry`: a transaction's fee and size, and its ancestors and
descendants, each set including the transaction itself. -/
structure Entry where
  feerate : FeeFrac
  ancestors : Finset Nat
  descendants : Finset Nat
  deriving DecidableEq

/-- `Entry()`: no fee, no size, no ancestors and no descendants. -/
instance : Inhabited Entry := ⟨⟨0, ∅, ∅⟩⟩

/-- `DepGraph`: the vector `entries` and the set `m_used` of positions in use.
`SetType` is a bitset of positions; here it is a finite set with room for any
position, so `AddTransaction` always finds a free one. -/
structure DepGraph where
  entries : List Entry
  used : Finset Nat

namespace DepGraph

/-- The empty graph. -/
def empty : DepGraph := ⟨[], ∅⟩

/-- `Positions()`. -/
def positions (g : DepGraph) : Finset Nat := g.used

/-- `entries[i]`, the empty entry past the end of the vector. -/
def entry (g : DepGraph) (i : Nat) : Entry := g.entries[i]?.getD default

/-- `FeeRate(i)`. -/
def feeRate (g : DepGraph) (i : Nat) : FeeFrac := (g.entry i).feerate

/-- `Ancestors(i)`. -/
def ancestors (g : DepGraph) (i : Nat) : Finset Nat := (g.entry i).ancestors

/-- `Descendants(i)`. -/
def descendants (g : DepGraph) (i : Nat) : Finset Nat := (g.entry i).descendants

theorem exists_not_mem (used : Finset Nat) : ∃ position, position ∉ used := by
  obtain ⟨bound, within⟩ := used.exists_nat_subset_range
  exact ⟨bound, fun member => Finset.notMem_range_self (within member)⟩

/-- `(ALL_POSITIONS - m_used).First()`: the least position not in use. -/
def firstAvailable (used : Finset Nat) : Nat := Nat.find (exists_not_mem used)

/-- `AddTransaction(feefrac)`: the transaction takes the first free position, as
its own only ancestor and descendant, appended to the vector or overwriting a
freed entry; returns the graph and the position. -/
def addTransaction (g : DepGraph) (feefrac : FeeFrac) : DepGraph × Nat :=
  let newIdx := firstAvailable g.used
  let entry : Entry := ⟨feefrac, {newIdx}, {newIdx}⟩
  let entries := if newIdx = g.entries.length then g.entries ++ [entry] else g.entries.set newIdx entry
  (⟨entries, insert newIdx g.used⟩, newIdx)

/-- The loop of `RemoveTransactions` that pops the last entry while its position
is not in use. -/
def popUnused (used : Finset Nat) (entries : List Entry) : List Entry :=
  if unused : entries ≠ [] ∧ entries.length - 1 ∉ used then popUnused used entries.dropLast else entries
termination_by entries.length
decreasing_by
  have := List.length_pos_iff.mpr unused.1
  rw [List.length_dropLast]
  omega

/-- `RemoveTransactions(del)`: the positions leave `m_used`, trailing unused
entries are dropped, and every remaining entry's sets are cut to the positions
still in use. -/
def removeTransactions (g : DepGraph) (del : Finset Nat) : DepGraph :=
  let used := g.used \ del
  let entries := (popUnused used g.entries).map fun entry =>
    { entry with ancestors := entry.ancestors ∩ used, descendants := entry.descendants ∩ used }
  ⟨entries, used⟩

/-- A loop over positions that rewrites the entries it visits. -/
def updateEntries (g : DepGraph) (update : Nat → Entry → Entry) : DepGraph :=
  ⟨g.entries.mapIdx update, g.used⟩

/-- `par_anc` of `AddDependencies`: the ancestors of the parents that are not yet
ancestors of the child, collected over the parents that are not. -/
def parentAncestors (g : DepGraph) (parents : Finset Nat) (child : Nat) : Finset Nat :=
  (parents \ g.ancestors child).biUnion g.ancestors \ g.ancestors child

/-- `AddDependencies(parents, child)`: each ancestor in `par_anc` gets the
descendants of the child as descendants, and then each descendant of the
child gets those ancestors. -/
def addDependencies (g : DepGraph) (parents : Finset Nat) (child : Nat) : DepGraph :=
  let parAnc := g.parentAncestors parents child
  if parAnc = ∅ then g
  else
    let chlDes := g.descendants child
    let withDescendants := g.updateEntries fun i entry =>
      if i ∈ parAnc then { entry with descendants := entry.descendants ∪ chlDes } else entry
    withDescendants.updateEntries fun i entry =>
      if i ∈ withDescendants.descendants child then { entry with ancestors := entry.ancestors ∪ parAnc } else entry

/-! ## What each operation does to the entries -/

@[simp] theorem used_updateEntries (g : DepGraph) (update : Nat → Entry → Entry) :
    (g.updateEntries update).used = g.used := rfl

@[simp] theorem length_updateEntries (g : DepGraph) (update : Nat → Entry → Entry) :
    (g.updateEntries update).entries.length = g.entries.length := List.length_mapIdx

theorem entry_updateEntries {g : DepGraph} {update : Nat → Entry → Entry} {i : Nat}
    (inRange : i < g.entries.length) : (g.updateEntries update).entry i = update i (g.entry i) := by
  simp [updateEntries, entry, inRange]

theorem firstAvailable_not_mem (used : Finset Nat) : firstAvailable used ∉ used :=
  Nat.find_spec (exists_not_mem used)

theorem firstAvailable_range (n : Nat) : firstAvailable (Finset.range n) = n := by
  rw [firstAvailable, Nat.find_eq_iff]
  simp

/-- Past the positions in use there is a free one, so the first free position is
at most the length of the vector. -/
theorem firstAvailable_le {g : DepGraph} (usedInRange : ∀ i ∈ g.used, i < g.entries.length) :
    firstAvailable g.used ≤ g.entries.length :=
  Nat.find_min' _ fun member => lt_irrefl _ (usedInRange _ member)

@[simp] theorem used_addTransaction (g : DepGraph) (feefrac : FeeFrac) :
    (g.addTransaction feefrac).1.used = insert (firstAvailable g.used) g.used := rfl

theorem entry_addTransaction {g : DepGraph} (feefrac : FeeFrac) (atMost : firstAvailable g.used ≤ g.entries.length)
    (i : Nat) :
    (g.addTransaction feefrac).1.entry i =
      if i = firstAvailable g.used then ⟨feefrac, {firstAvailable g.used}, {firstAvailable g.used}⟩ else g.entry i := by
  simp only [addTransaction, entry]
  split_ifs with appended atEnd atFree
  · subst atEnd
    simp [appended]
  · rw [List.getElem?_append]
    split_ifs with inside
    · rfl
    · have beyond : i - g.entries.length ≠ 0 := by omega
      simp [beyond, List.getElem?_eq_none (Nat.le_of_not_lt inside)]
  · subst atFree
    simp [lt_of_le_of_ne atMost appended]
  · simp [Ne.symm atFree]

theorem length_addTransaction {g : DepGraph} (feefrac : FeeFrac) (atMost : firstAvailable g.used ≤ g.entries.length) :
    (g.addTransaction feefrac).1.entries.length = max g.entries.length (firstAvailable g.used + 1) := by
  simp only [addTransaction]
  split_ifs with appended
  · simp [appended]
  · simp only [List.length_set]
    omega

/-- The popped vector is a prefix that keeps every position in use. -/
theorem popUnused_prefix (used : Finset Nat) (entries : List Entry) :
    ∃ kept, popUnused used entries = entries.take kept ∧ ∀ i ∈ used, i < entries.length → i < kept := by
  fun_induction popUnused used entries with
  | case1 entries unused inductionHypothesis =>
    obtain ⟨kept, popped, keeps⟩ := inductionHypothesis
    refine ⟨min kept (entries.length - 1), ?_, fun i member inside => ?_⟩
    · rw [popped, List.dropLast_eq_take, List.take_take]
    · have notLast : i ≠ entries.length - 1 := fun last => unused.2 (last ▸ member)
      have := keeps i member (by rw [List.length_dropLast]; omega)
      omega
  | case2 entries _ => exact ⟨entries.length, List.take_length.symm, fun _ _ inside => inside⟩

@[simp] theorem used_removeTransactions (g : DepGraph) (del : Finset Nat) :
    (g.removeTransactions del).used = g.used \ del := rfl

theorem entry_removeTransactions {g : DepGraph} (del : Finset Nat)
    (usedInRange : ∀ i ∈ g.used, i < g.entries.length) {i : Nat} (remaining : i ∈ g.used \ del) :
    i < (g.removeTransactions del).entries.length ∧
      (g.removeTransactions del).entry i =
        { g.entry i with ancestors := g.ancestors i ∩ (g.used \ del),
                         descendants := g.descendants i ∩ (g.used \ del) } := by
  obtain ⟨kept, popped, keeps⟩ := popUnused_prefix (g.used \ del) g.entries
  have inRange := usedInRange i (Finset.mem_sdiff.mp remaining).1
  have withinKept := keeps i remaining inRange
  simp only [removeTransactions, entry, ancestors, descendants, popped, List.length_map, List.length_take,
    List.getElem?_map, List.getElem?_take, withinKept, if_true]
  refine ⟨by omega, ?_⟩
  simp [List.getElem?_eq_getElem inRange]

@[simp] theorem used_addDependencies (g : DepGraph) (parents : Finset Nat) (child : Nat) :
    (g.addDependencies parents child).used = g.used := by
  dsimp only [addDependencies]
  split_ifs <;> rfl

@[simp] theorem length_addDependencies (g : DepGraph) (parents : Finset Nat) (child : Nat) :
    (g.addDependencies parents child).entries.length = g.entries.length := by
  dsimp only [addDependencies]
  split_ifs <;> simp

/-- After `AddDependencies`, the descendants of the child have `par_anc` among
their ancestors and the positions of `par_anc` have the child's descendants
among theirs; the child is not in `par_anc`, so the second loop visits the
child's descendants as they were. -/
theorem sets_addDependencies {g : DepGraph} (parents : Finset Nat) {child : Nat}
    (childSelf : child ∈ g.ancestors child) (childInRange : child < g.entries.length) {i : Nat}
    (inRange : i < g.entries.length) :
    (g.addDependencies parents child).ancestors i =
        (if i ∈ g.descendants child then g.ancestors i ∪ g.parentAncestors parents child else g.ancestors i) ∧
      (g.addDependencies parents child).descendants i =
        (if i ∈ g.parentAncestors parents child then g.descendants i ∪ g.descendants child else g.descendants i) := by
  have childOutside : child ∉ g.parentAncestors parents child := fun member => (Finset.mem_sdiff.mp member).2 childSelf
  by_cases noAncestors : g.parentAncestors parents child = ∅
  · simp [addDependencies, noAncestors]
  · simp only [addDependencies, noAncestors, if_false, ancestors, descendants, entry_updateEntries childInRange,
      childOutside]
    rw [entry_updateEntries (by simpa using inRange), entry_updateEntries inRange]
    by_cases below : i ∈ (g.entry child).descendants <;>
      by_cases inParAnc : i ∈ g.parentAncestors parents child <;> simp [below, inParAnc]

theorem ancestors_addTransaction {g : DepGraph} (feefrac : FeeFrac) (atMost : firstAvailable g.used ≤ g.entries.length)
    (i : Nat) :
    (g.addTransaction feefrac).1.ancestors i = if i = firstAvailable g.used then {firstAvailable g.used} else g.ancestors i := by
  rw [ancestors, entry_addTransaction feefrac atMost]
  split_ifs <;> rfl

theorem descendants_addTransaction {g : DepGraph} (feefrac : FeeFrac) (atMost : firstAvailable g.used ≤ g.entries.length)
    (i : Nat) :
    (g.addTransaction feefrac).1.descendants i =
      if i = firstAvailable g.used then {firstAvailable g.used} else g.descendants i := by
  rw [descendants, entry_addTransaction feefrac atMost]
  split_ifs <;> rfl

/-! ## The invariant

The ancestor sets are the closure of the dependencies and the descendant sets
the closure of the dependencies reversed; `ClosureSets` says it once for both,
so that the steps that treat the two alike are proved once. -/

/-- For each position in `used`, `sets i` holds the positions in `used` with a
path of `r` to `i`. -/
def ClosureSets (used : Finset Nat) (sets : Nat → Finset Nat) (r : Nat → Nat → Prop) : Prop :=
  ∀ i ∈ used, ∀ j, j ∈ sets i ↔ j ∈ used ∧ ReflTransGen r j i

section ClosureSets

variable {used : Finset Nat} {sets : Nat → Finset Nat} {r : Nat → Nat → Prop}

/-- A new position with only itself in its set keeps the sets closed, when the
relation joins only positions already in use. -/
theorem ClosureSets.insert (closure : ClosureSets used sets r) (support : ∀ {a b}, r a b → a ∈ used ∧ b ∈ used)
    {new : Nat} (fresh : new ∉ used) {after : Nat → Finset Nat} (atNew : after new = {new})
    (others : ∀ i ∈ used, after i = sets i) : ClosureSets (insert new used) after r := by
  intro i member j
  rw [Finset.mem_insert]
  rcases Finset.mem_insert.mp member with rfl | old
  · rw [atNew, Finset.mem_singleton]
    constructor
    · rintro rfl
      exact ⟨Or.inl rfl, ReflTransGen.refl⟩
    · rintro ⟨-, path⟩
      rcases path.cases_tail with same | ⟨_, _, edge⟩
      · exact same.symm
      · exact absurd (support edge).2 fresh
  · rw [others i old, closure i old]
    constructor
    · rintro ⟨usedJ, path⟩
      exact ⟨Or.inr usedJ, path⟩
    · rintro ⟨rfl | usedJ, path⟩
      · rcases path.cases_head with same | ⟨_, edge, _⟩
        · exact absurd (same ▸ old) fresh
        · exact absurd (support edge).1 fresh
      · exact ⟨usedJ, path⟩

/-- Cutting every set to the positions kept, under a relation with the same
paths between kept positions, keeps the sets closed. -/
theorem ClosureSets.restrict (closure : ClosureSets used sets r) {keep : Finset Nat} (kept : keep ⊆ used)
    {r' : Nat → Nat → Prop} (paths : ∀ a ∈ keep, ∀ b ∈ keep, ReflTransGen r' a b ↔ ReflTransGen r a b)
    {after : Nat → Finset Nat} (trimmed : ∀ i ∈ keep, after i = sets i ∩ keep) : ClosureSets keep after r' := by
  intro i member j
  rw [trimmed i member, Finset.mem_inter, closure i (kept member)]
  constructor
  · rintro ⟨⟨-, path⟩, keptJ⟩
    exact ⟨keptJ, (paths j keptJ i member).mpr path⟩
  · rintro ⟨keptJ, path⟩
    exact ⟨⟨kept keptJ, (paths j keptJ i member).mp path⟩, keptJ⟩

end ClosureSets

/-- What every reached graph keeps, with `dep` the dependencies added so far
(`dep a b`: `a` is a parent of `b`): positions in use have entries, dependencies
join positions in use, and the ancestors and the descendants of each position
in use are the positions in use joined to it by paths. -/
structure Closed (g : DepGraph) (dep : Nat → Nat → Prop) : Prop where
  used_lt : ∀ i ∈ g.used, i < g.entries.length
  dep_used : ∀ {a b}, dep a b → a ∈ g.used ∧ b ∈ g.used
  ancestors_closure : ClosureSets g.used g.ancestors dep
  descendants_closure : ClosureSets g.used g.descendants (Function.swap dep)

namespace Closed

variable {g : DepGraph} {dep : Nat → Nat → Prop}

theorem mem_ancestors (closed : Closed g dep) {i : Nat} (used : i ∈ g.used) (j : Nat) :
    j ∈ g.ancestors i ↔ j ∈ g.used ∧ ReflTransGen dep j i :=
  closed.ancestors_closure i used j

theorem mem_descendants (closed : Closed g dep) {i : Nat} (used : i ∈ g.used) (j : Nat) :
    j ∈ g.descendants i ↔ j ∈ g.used ∧ ReflTransGen dep i j := by
  rw [closed.descendants_closure i used j, reflTransGen_swap]

theorem swap_used (closed : Closed g dep) {a b : Nat} (edge : Function.swap dep a b) : a ∈ g.used ∧ b ∈ g.used :=
  (closed.dep_used edge).symm

theorem self_mem_ancestors (closed : Closed g dep) {i : Nat} (used : i ∈ g.used) : i ∈ g.ancestors i :=
  (closed.mem_ancestors used i).mpr ⟨used, ReflTransGen.refl⟩

theorem self_mem_descendants (closed : Closed g dep) {i : Nat} (used : i ∈ g.used) : i ∈ g.descendants i :=
  (closed.mem_descendants used i).mpr ⟨used, ReflTransGen.refl⟩

theorem mem_ancestors_iff_mem_descendants (closed : Closed g dep) {i j : Nat} (usedI : i ∈ g.used)
    (usedJ : j ∈ g.used) : j ∈ g.ancestors i ↔ i ∈ g.descendants j := by
  rw [closed.mem_ancestors usedI, closed.mem_descendants usedJ]
  simp only [usedI, usedJ, true_and]

theorem ancestors_subset (closed : Closed g dep) {i j : Nat} (usedI : i ∈ g.used) (member : j ∈ g.ancestors i) :
    g.ancestors j ⊆ g.ancestors i := by
  obtain ⟨usedJ, toI⟩ := (closed.mem_ancestors usedI j).mp member
  intro k memberK
  obtain ⟨usedK, toJ⟩ := (closed.mem_ancestors usedJ k).mp memberK
  exact (closed.mem_ancestors usedI k).mpr ⟨usedK, toJ.trans toI⟩

theorem ancestors_subset_used (closed : Closed g dep) {i : Nat} (used : i ∈ g.used) : g.ancestors i ⊆ g.used :=
  fun j member => ((closed.mem_ancestors used j).mp member).1

theorem descendants_subset_used (closed : Closed g dep) {i : Nat} (used : i ∈ g.used) : g.descendants i ⊆ g.used :=
  fun j member => ((closed.mem_descendants used j).mp member).1

/-! ### What `AddDependencies` needs of the invariant -/

section AddDependencies

variable {parents : Finset Nat} {child : Nat}

theorem reaches_parent_of_mem_parentAncestors (closed : Closed g dep) (parentsUsed : parents ⊆ g.used) {y : Nat}
    (member : y ∈ g.parentAncestors parents child) : ∃ p ∈ parents, ReflTransGen dep y p := by
  simp only [parentAncestors, Finset.mem_sdiff, Finset.mem_biUnion] at member
  obtain ⟨⟨p, ⟨isParent, -⟩, toParent⟩, -⟩ := member
  exact ⟨p, isParent, ((closed.mem_ancestors (parentsUsed isParent) y).mp toParent).2⟩

/-- A descendant `x` of the child gains exactly `par_anc`: its ancestors and
`par_anc` together are the positions that reach `x` or one of the parents,
because a parent already below the child brings only ancestors of `x`. -/
theorem mem_ancestors_union_parentAncestors (closed : Closed g dep) (parentsUsed : parents ⊆ g.used)
    (childUsed : child ∈ g.used) {x : Nat} (usedX : x ∈ g.used) (below : ReflTransGen dep child x) (j : Nat) :
    j ∈ g.ancestors x ∪ g.parentAncestors parents child ↔
      j ∈ g.used ∧ (ReflTransGen dep j x ∨ ∃ p ∈ parents, ReflTransGen dep j p) := by
  simp only [Finset.mem_union, parentAncestors, Finset.mem_sdiff, Finset.mem_biUnion, closed.mem_ancestors usedX]
  constructor
  · rintro (⟨usedJ, path⟩ | ⟨⟨p, ⟨isParent, -⟩, toParent⟩, -⟩)
    · exact ⟨usedJ, Or.inl path⟩
    · obtain ⟨usedJ, path⟩ := (closed.mem_ancestors (parentsUsed isParent) j).mp toParent
      exact ⟨usedJ, Or.inr ⟨p, isParent, path⟩⟩
  · rintro ⟨usedJ, path | ⟨p, isParent, toParent⟩⟩
    · exact Or.inl ⟨usedJ, path⟩
    · by_cases toChild : j ∈ g.ancestors child
      · exact Or.inl ⟨usedJ, ((closed.mem_ancestors childUsed j).mp toChild).2.trans below⟩
      · have parentOutside : p ∉ g.ancestors child := fun parentToChild =>
          toChild ((closed.mem_ancestors childUsed j).mpr
            ⟨usedJ, toParent.trans ((closed.mem_ancestors childUsed p).mp parentToChild).2⟩)
        exact Or.inr ⟨⟨p, ⟨isParent, parentOutside⟩, (closed.mem_ancestors (parentsUsed isParent) j).mpr
          ⟨usedJ, toParent⟩⟩, toChild⟩

/-- A position outside `par_anc` that reaches a parent reaches the child
already, so its descendants need no update. -/
theorem path_to_child_of_not_mem_parentAncestors (closed : Closed g dep) (parentsUsed : parents ⊆ g.used)
    (childUsed : child ∈ g.used) {y : Nat} (usedY : y ∈ g.used) {p : Nat} (isParent : p ∈ parents)
    (toParent : ReflTransGen dep y p) (outside : y ∉ g.parentAncestors parents child) : ReflTransGen dep y child := by
  by_cases toChild : y ∈ g.ancestors child
  · exact ((closed.mem_ancestors childUsed y).mp toChild).2
  · by_cases parentToChild : p ∈ g.ancestors child
    · exact toParent.trans ((closed.mem_ancestors childUsed p).mp parentToChild).2
    · refine absurd ?_ outside
      simp only [parentAncestors, Finset.mem_sdiff, Finset.mem_biUnion]
      exact ⟨⟨p, ⟨isParent, parentToChild⟩, (closed.mem_ancestors (parentsUsed isParent) y).mpr ⟨usedY, toParent⟩⟩,
        toChild⟩

end AddDependencies

/-! ### Each operation keeps the invariant -/

theorem addTransaction (closed : Closed g dep) (feefrac : FeeFrac) : Closed (g.addTransaction feefrac).1 dep := by
  have atMost := firstAvailable_le closed.used_lt
  have fresh := firstAvailable_not_mem g.used
  have others : ∀ i ∈ g.used, i ≠ firstAvailable g.used := fun _ used same => fresh (same ▸ used)
  refine ⟨fun i member => ?_, fun edge => ?_, ?_, ?_⟩
  · rw [length_addTransaction feefrac atMost]
    rcases Finset.mem_insert.mp member with rfl | old
    · omega
    · have := closed.used_lt i old
      omega
  · obtain ⟨usedA, usedB⟩ := closed.dep_used edge
    exact ⟨Finset.mem_insert_of_mem usedA, Finset.mem_insert_of_mem usedB⟩
  · exact closed.ancestors_closure.insert closed.dep_used fresh
      (by rw [ancestors_addTransaction feefrac atMost, if_pos rfl])
      fun i used => by rw [ancestors_addTransaction feefrac atMost, if_neg (others i used)]
  · exact closed.descendants_closure.insert closed.swap_used fresh
      (by rw [descendants_addTransaction feefrac atMost, if_pos rfl])
      fun i used => by rw [descendants_addTransaction feefrac atMost, if_neg (others i used)]

/-- `RemoveTransactions` keeps the invariant for the paths that joined remaining
positions before, each now a direct dependency. -/
theorem removeTransactions (closed : Closed g dep) (del : Finset Nat) :
    Closed (g.removeTransactions del) (restrictClosure dep ↑(g.used \ del)) := by
  have remaining := fun {i} (member : i ∈ g.used \ del) => entry_removeTransactions del closed.used_lt member
  have kept : g.used \ del ⊆ g.used := Finset.sdiff_subset
  refine ⟨fun _ member => (remaining member).1, fun ⟨keptA, keptB, _⟩ => ⟨keptA, keptB⟩, ?_, ?_⟩
  · exact closed.ancestors_closure.restrict kept
      (fun _ keptA _ keptB => reflTransGen_restrictClosure_of_mem keptA keptB)
      fun _ member => by rw [ancestors, (remaining member).2]
  · exact closed.descendants_closure.restrict kept
      (fun _ keptA _ keptB =>
        reflTransGen_swap.trans ((reflTransGen_restrictClosure_of_mem keptB keptA).trans reflTransGen_swap.symm))
      fun _ member => by rw [descendants, (remaining member).2]

/-- `AddDependencies` keeps the invariant with the new parent links added. -/
theorem addDependencies (closed : Closed g dep) {parents : Finset Nat} {child : Nat} (parentsUsed : parents ⊆ g.used)
    (childUsed : child ∈ g.used) : Closed (g.addDependencies parents child) (addEdgesInto dep ↑parents child) := by
  have childSelf := closed.self_mem_ancestors childUsed
  have childInRange := closed.used_lt child childUsed
  have sets := fun {i} (used : i ∈ g.used) =>
    sets_addDependencies parents childSelf childInRange (closed.used_lt i used)
  refine ⟨fun i member => ?_, fun edge => ?_, fun x usedX j => ?_, fun y usedY j => ?_⟩
  · simpa using closed.used_lt i (by simpa using member)
  · rcases edge with old | ⟨isParent, rfl⟩
    · simpa using closed.dep_used old
    · simpa using ⟨parentsUsed isParent, childUsed⟩
  · simp only [used_addDependencies] at usedX ⊢
    rw [(sets usedX).1, reflTransGen_addEdgesInto_iff]
    split_ifs with belowChild
    · have below := ((closed.mem_descendants childUsed x).mp belowChild).2
      rw [closed.mem_ancestors_union_parentAncestors parentsUsed childUsed usedX below]
      simp only [below, and_true, Finset.mem_coe]
    · have notBelow : ¬ReflTransGen dep child x := fun path =>
        belowChild ((closed.mem_descendants childUsed x).mpr ⟨usedX, path⟩)
      rw [closed.mem_ancestors usedX]
      simp only [notBelow, and_false, or_false]
  · simp only [used_addDependencies] at usedY ⊢
    rw [(sets usedY).2, reflTransGen_swap, reflTransGen_addEdgesInto_iff]
    split_ifs with inParAnc
    · have reaches := closed.reaches_parent_of_mem_parentAncestors parentsUsed inParAnc
      rw [Finset.mem_union, closed.mem_descendants usedY, closed.mem_descendants childUsed, ← and_or_left]
      simp only [Finset.mem_coe, reaches, true_and]
    · rw [closed.mem_descendants usedY]
      constructor
      · rintro ⟨usedJ, path⟩
        exact ⟨usedJ, Or.inl path⟩
      · rintro ⟨usedJ, path | ⟨⟨p, isParent, toParent⟩, fromChild⟩⟩
        · exact ⟨usedJ, path⟩
        · exact ⟨usedJ, (closed.path_to_child_of_not_mem_parentAncestors parentsUsed childUsed usedY isParent
            toParent inParAnc).trans fromChild⟩

end Closed

theorem closed_empty : Closed empty fun _ _ => False where
  used_lt := by simp [empty]
  dep_used := False.elim
  ancestors_closure := by simp [ClosureSets, empty]
  descendants_closure := by simp [ClosureSets, empty]

/-- The graphs that `AddTransaction`, `RemoveTransactions` and `AddDependencies`
(with the parents and the child in use) reach from the empty graph, each with
the dependencies added on the way.  A removal keeps, between the remaining
positions, the paths there were, so that a grandparent stays an ancestor when
the parent goes, as `RemoveTransactions` documents. -/
inductive Built : DepGraph → (Nat → Nat → Prop) → Prop
  | empty : Built empty fun _ _ => False
  | addTransaction {g dep} (feefrac : FeeFrac) : Built g dep → Built (g.addTransaction feefrac).1 dep
  | removeTransactions {g dep} (del : Finset Nat) :
      Built g dep → Built (g.removeTransactions del) (restrictClosure dep ↑(g.used \ del))
  | addDependencies {g dep} (parents : Finset Nat) (child : Nat) :
      Built g dep → parents ⊆ g.used → child ∈ g.used →
        Built (g.addDependencies parents child) (addEdgesInto dep ↑parents child)

/-- Every reached graph keeps the invariant. -/
theorem Built.closed {g : DepGraph} {dep : Nat → Nat → Prop} (built : Built g dep) : Closed g dep := by
  induction built with
  | empty => exact closed_empty
  | addTransaction feefrac _ inductionHypothesis => exact inductionHypothesis.addTransaction feefrac
  | removeTransactions del _ inductionHypothesis => exact inductionHypothesis.removeTransactions del
  | addDependencies parents child _ parentsUsed childUsed inductionHypothesis =>
    exact inductionHypothesis.addDependencies parentsUsed childUsed

/-- The sets of every reached graph are closed: for positions `i`, `j` in use, `i`
is its own ancestor and descendant, `j` is an ancestor of `i` exactly when `i`
is a descendant of `j`, an ancestor's ancestors are ancestors, every set is
within the positions in use, and the sets are the paths of the dependencies
added (those through removed positions kept as `Built` says). -/
theorem Built.sets_closed_under_operations {g : DepGraph} {dep : Nat → Nat → Prop} (built : Built g dep) :
    ∀ i ∈ g.positions, ∀ j ∈ g.positions,
      i ∈ g.ancestors i ∧ i ∈ g.descendants i ∧
      (j ∈ g.ancestors i ↔ i ∈ g.descendants j) ∧
      (j ∈ g.ancestors i → g.ancestors j ⊆ g.ancestors i) ∧
      g.ancestors i ⊆ g.positions ∧ g.descendants i ⊆ g.positions ∧
      (j ∈ g.ancestors i ↔ ReflTransGen dep j i) ∧ (j ∈ g.descendants i ↔ ReflTransGen dep i j) := by
  intro i usedI j usedJ
  have closed := built.closed
  refine ⟨closed.self_mem_ancestors usedI, closed.self_mem_descendants usedI,
    closed.mem_ancestors_iff_mem_descendants usedI usedJ, closed.ancestors_subset usedI,
    closed.ancestors_subset_used usedI, closed.descendants_subset_used usedI, ?_, ?_⟩
  · rw [closed.mem_ancestors usedI]
    exact and_iff_right usedJ
  · rw [closed.mem_descendants usedI]
    exact and_iff_right usedJ

/-- Two transactions added to the empty graph take positions 0 and 1. -/
theorem addTransaction_twice_empty (first second : FeeFrac) :
    ((DepGraph.empty.addTransaction first).1.addTransaction second).1 =
      ⟨[⟨first, {0}, {0}⟩, ⟨second, {1}, {1}⟩], {1, 0}⟩ := by
  have firstFree : firstAvailable ∅ = 0 := firstAvailable_range 0
  have secondFree : firstAvailable {0} = 1 := by
    rw [← Finset.range_one]
    exact firstAvailable_range 1
  simp [addTransaction, DepGraph.empty, firstFree, secondFree]

/-- Two transactions, the first made a parent of the second. -/
theorem Built.sets_closed_under_operations_parentChild :
    Built (((DepGraph.empty.addTransaction ⟨1, 1⟩).1.addTransaction ⟨2, 1⟩).1.addDependencies {0} 1)
        (addEdgesInto (fun _ _ => False) ↑({0} : Finset Nat) 1) ∧
      (0 ∈ (((DepGraph.empty.addTransaction ⟨1, 1⟩).1.addTransaction ⟨2, 1⟩).1.addDependencies {0} 1).ancestors 1 ↔
        ReflTransGen (addEdgesInto (fun _ _ => False) ↑({0} : Finset Nat) 1) 0 1) := by
  have firstFree : firstAvailable ∅ = 0 := firstAvailable_range 0
  have secondFree : firstAvailable {0} = 1 := by
    rw [← Finset.range_one]
    exact firstAvailable_range 1
  have twoUsed : ((DepGraph.empty.addTransaction ⟨1, 1⟩).1.addTransaction ⟨2, 1⟩).1.used = {1, 0} := by
    simp [DepGraph.empty, firstFree, secondFree]
  have built : Built (((DepGraph.empty.addTransaction ⟨1, 1⟩).1.addTransaction ⟨2, 1⟩).1.addDependencies {0} 1)
      (addEdgesInto (fun _ _ => False) ↑({0} : Finset Nat) 1) :=
    .addDependencies {0} 1 (.addTransaction _ (.addTransaction _ .empty)) (by rw [twoUsed]; decide)
      (by rw [twoUsed]; decide)
  have inUse : ∀ i ∈ ({1, 0} : Finset Nat), i ∈ (((DepGraph.empty.addTransaction ⟨1, 1⟩).1.addTransaction
      ⟨2, 1⟩).1.addDependencies {0} 1).positions := by
    rw [positions, used_addDependencies, twoUsed]
    exact fun _ member => member
  exact ⟨built, (Built.sets_closed_under_operations built 1 (inUse 1 (by decide)) 0
    (inUse 0 (by decide))).2.2.2.2.2.2.1⟩

end DepGraph

end Qbitcoin
