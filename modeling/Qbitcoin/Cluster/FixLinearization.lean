import Qbitcoin.Cluster.DepGraph

/-!
# Making a linearization topological

`FixLinearization` of `cluster_linearize.h` walks a linearization from the back
and moves each element back until it is past all of its ancestors among the
elements already walked, shifting those it passes one place forward.  On the
array this is two nested loops of index arithmetic; `fixFromBack` says what
they do on lists: each element, taken from the back, is placed into the part
already fixed right after the last of its ancestors there (`placeAfter`).

On an acyclic graph the part already fixed stays topological, so the result is
a topological permutation; an order that is topological already comes back
unchanged.  Topological is the check `SanityCheck` makes in the tests
(`IsTopological`): each transaction in turn has all its other ancestors before
it, and comes once.
-/

namespace Qbitcoin

namespace DepGraph

/-- `IsAcyclic()`: no transaction is both an ancestor and a descendant of
another. -/
def IsAcyclic (g : DepGraph) : Prop := ∀ i ∈ g.positions, g.ancestors i ∩ g.descendants i = {i}

instance (g : DepGraph) : Decidable g.IsAcyclic :=
  inferInstanceAs (Decidable (∀ i ∈ g.positions, g.ancestors i ∩ g.descendants i = {i}))

/-- The check `SanityCheck(depgraph, linearization)` makes of each transaction in
turn, with `done` those before it: its ancestors outside `done` are itself
alone. -/
def IsTopological (g : DepGraph) : Finset Nat → List Nat → Prop
  | _, [] => True
  | done, i :: rest => g.ancestors i \ done = {i} ∧ g.IsTopological (insert i done) rest

/-! ## The model of the source -/

/-- The inner loop of `FixLinearization`: while `place_before` is not empty, the
element at distance `j - 1` from the back moves onto distance `j` and leaves
`place_before`, and `j` goes down; returns the linearization and `j`. -/
def fixShift (len : Nat) : List Nat → Finset Nat → Nat → List Nat × Nat
  | linearization, _, 0 => (linearization, 0)
  | linearization, placeBefore, j + 1 =>
    if placeBefore = ∅ then (linearization, j + 1)
    else
      let toSwap := linearization.getD (len - 1 - j) 0
      fixShift len (linearization.set (len - 1 - (j + 1)) toSwap) (placeBefore.erase toSwap) j

/-- The outer loop of `FixLinearization` at distance `i` from the back, with
`remaining` elements still to walk and `done` those walked. -/
def fixSteps (depgraph : DepGraph) (len : Nat) : Nat → Nat → Finset Nat → List Nat → List Nat
  | 0, _, _, linearization => linearization
  | remaining + 1, i, done, linearization =>
    let elem := linearization.getD (len - 1 - i) 0
    let shifted := fixShift len linearization (done ∩ depgraph.ancestors elem) i
    fixSteps depgraph len remaining (i + 1) (insert elem done) (shifted.1.set (len - 1 - shifted.2) elem)

/-- `FixLinearization(depgraph, linearization)`. -/
def fixLinearization (depgraph : DepGraph) (linearization : List Nat) : List Nat :=
  fixSteps depgraph linearization.length linearization.length 0 ∅ linearization

/-! ## What the loops do, on lists -/

/-- Place `elem` into `fixed`, past each element of `placeBefore`: pass over the
elements of `fixed` while some of `placeBefore` is not yet passed. -/
def placeAfter (placeBefore : Finset Nat) (elem : Nat) : List Nat → List Nat
  | [] => [elem]
  | x :: rest => if placeBefore = ∅ then elem :: x :: rest else x :: placeAfter (placeBefore.erase x) elem rest

/-- The elements of `pending`, in that order, each placed into `fixed` past its
ancestors there; `done` holds the elements placed so far. -/
def fixFromBack (depgraph : DepGraph) : Finset Nat → List Nat → List Nat → List Nat
  | _, [], fixed => fixed
  | done, elem :: pending, fixed =>
    fixFromBack depgraph (insert elem done) pending (placeAfter (done ∩ depgraph.ancestors elem) elem fixed)

@[simp] theorem length_placeAfter (placeBefore : Finset Nat) (elem : Nat) (fixed : List Nat) :
    (placeAfter placeBefore elem fixed).length = fixed.length + 1 := by
  induction fixed generalizing placeBefore with
  | nil => rfl
  | cons x rest inductionHypothesis =>
    rw [placeAfter]
    split_ifs
    · rfl
    · simp [inductionHypothesis]

theorem placeAfter_empty (elem : Nat) (fixed : List Nat) : placeAfter ∅ elem fixed = elem :: fixed := by
  cases fixed <;> simp [placeAfter]

theorem set_length_cons (front rest : List Nat) (hole elem : Nat) :
    (front ++ hole :: rest).set front.length elem = front ++ elem :: rest := by
  simp [List.set_append_right]

/-- The inner loop, started with the element to place at distance
`rest.length` from the back and `rest` behind it, ends with the element's hole
where `placeAfter` puts it. -/
theorem fixShift_set (len elem : Nat) (rest : List Nat) :
    ∀ (front : List Nat) (hole : Nat) (placeBefore : Finset Nat), len = front.length + 1 + rest.length →
      (fixShift len (front ++ hole :: rest) placeBefore rest.length).1.set
          (len - 1 - (fixShift len (front ++ hole :: rest) placeBefore rest.length).2) elem =
        front ++ placeAfter placeBefore elem rest := by
  induction rest with
  | nil =>
    intro front hole placeBefore sized
    simp only [List.length_nil, fixShift, placeAfter] at sized ⊢
    rw [show len - 1 - 0 = front.length by omega, set_length_cons]
  | cons next rest inductionHypothesis =>
    intro front hole placeBefore sized
    simp only [List.length_cons] at sized
    simp only [List.length_cons, fixShift]
    split_ifs with nothingLeft
    · rw [show len - 1 - (rest.length + 1) = front.length by omega, set_length_cons, nothingLeft, placeAfter_empty]
    · have toSwap : (front ++ hole :: next :: rest).getD (len - 1 - rest.length) 0 = next := by
        rw [show len - 1 - rest.length = front.length + 1 by omega]
        simp [List.getD_eq_getElem?_getD]
      rw [toSwap, show len - 1 - (rest.length + 1) = front.length by omega, set_length_cons,
        show front ++ next :: next :: rest = (front ++ [next]) ++ next :: rest by simp,
        inductionHypothesis (front ++ [next]) next (placeBefore.erase next) (by simp; omega), placeAfter,
        if_neg nothingLeft]
      simp

/-- The outer loop, with `pending` still to walk (the element nearest the back
first) in front of the part already fixed, is `fixFromBack`. -/
theorem fixSteps_eq (depgraph : DepGraph) (len : Nat) (pending : List Nat) :
    ∀ (done : Finset Nat) (fixed : List Nat), len = pending.length + fixed.length →
      fixSteps depgraph len pending.length fixed.length done (pending.reverse ++ fixed) =
        fixFromBack depgraph done pending fixed := by
  induction pending with
  | nil => intro done fixed _; rfl
  | cons elem pending inductionHypothesis =>
    intro done fixed sized
    simp only [List.length_cons] at sized
    have layout : (elem :: pending).reverse ++ fixed = pending.reverse ++ elem :: fixed := by simp
    have atElem : (pending.reverse ++ elem :: fixed).getD (len - 1 - fixed.length) 0 = elem := by
      rw [show len - 1 - fixed.length = pending.reverse.length by simp; omega]
      simp [List.getD_eq_getElem?_getD]
    rw [List.length_cons, layout, fixSteps, fixFromBack]
    simp only [atElem]
    rw [fixShift_set len elem fixed pending.reverse elem _ (by simp; omega),
      show fixed.length + 1 = (placeAfter (done ∩ depgraph.ancestors elem) elem fixed).length by simp]
    exact inductionHypothesis _ _ (by simp; omega)

theorem fixLinearization_eq (depgraph : DepGraph) (linearization : List Nat) :
    fixLinearization depgraph linearization = fixFromBack depgraph ∅ linearization.reverse [] := by
  have walked := fixSteps_eq depgraph linearization.length linearization.reverse ∅ [] (by simp)
  simpa [fixLinearization] using walked

theorem placeAfter_perm (placeBefore : Finset Nat) (elem : Nat) (fixed : List Nat) :
    (placeAfter placeBefore elem fixed).Perm (elem :: fixed) := by
  induction fixed generalizing placeBefore with
  | nil => exact List.Perm.refl _
  | cons x rest inductionHypothesis =>
    rw [placeAfter]
    split_ifs
    · exact List.Perm.refl _
    · exact ((inductionHypothesis _).cons x).trans (List.Perm.swap elem x rest)

theorem fixFromBack_perm (depgraph : DepGraph) (pending : List Nat) :
    ∀ (done : Finset Nat) (fixed : List Nat), (fixFromBack depgraph done pending fixed).Perm (pending ++ fixed) := by
  induction pending with
  | nil => intro done fixed; exact List.Perm.refl _
  | cons elem pending inductionHypothesis =>
    intro done fixed
    rw [fixFromBack]
    exact (inductionHypothesis _ _).trans (((placeAfter_perm _ elem fixed).append_left pending).trans List.perm_middle)

/-! ## The part already fixed stays topological -/

/-- No element has a later one among its ancestors. -/
def AncestorsFirst (g : DepGraph) (order : List Nat) : Prop :=
  order.Pairwise fun earlier later => later ∉ g.ancestors earlier

section Topological

variable {g : DepGraph} {dep : Nat → Nat → Prop}

theorem Closed.eq_of_mutual_ancestors (closed : Closed g dep) (acyclic : g.IsAcyclic) {i j : Nat} (usedI : i ∈ g.used)
    (usedJ : j ∈ g.used) (below : j ∈ g.ancestors i) (above : i ∈ g.ancestors j) : i = j := by
  have both : j ∈ g.ancestors i ∩ g.descendants i :=
    Finset.mem_inter.mpr ⟨below, (closed.mem_ancestors_iff_mem_descendants usedJ usedI).mp above⟩
  rw [acyclic i usedI] at both
  exact (Finset.mem_singleton.mp both).symm

/-- Placing an element past all its ancestors in an order with ancestors first
keeps ancestors first: an element it passes cannot descend from it, since an
ancestor of the element still lies ahead, and on an acyclic graph that would be
a later ancestor of the element passed. -/
theorem ancestorsFirst_placeAfter (closed : Closed g dep) (acyclic : g.IsAcyclic) {elem : Nat}
    (elemUsed : elem ∈ g.used) (fixed : List Nat) :
    ∀ placeBefore : Finset Nat, AncestorsFirst g fixed → fixed.Nodup → elem ∉ fixed → (∀ x ∈ fixed, x ∈ g.used) →
      placeBefore ⊆ g.ancestors elem → (∀ x ∈ placeBefore, x ∈ fixed) →
      (∀ x ∈ fixed, x ∈ g.ancestors elem → x ∈ placeBefore) → AncestorsFirst g (placeAfter placeBefore elem fixed) := by
  induction fixed with
  | nil => intro; simp [placeAfter, AncestorsFirst]
  | cons x rest inductionHypothesis =>
    intro placeBefore ordered nodup fresh used belowElem within complete
    obtain ⟨xFirst, orderedRest⟩ := List.pairwise_cons.mp ordered
    obtain ⟨xNotInRest, nodupRest⟩ := List.nodup_cons.mp nodup
    rw [placeAfter]
    split_ifs with nothingLeft
    · refine List.pairwise_cons.mpr ⟨fun later member isAncestor => ?_, ordered⟩
      have passed := complete later member isAncestor
      rw [nothingLeft] at passed
      exact Finset.notMem_empty _ passed
    · refine List.pairwise_cons.mpr ⟨fun later member => ?_, inductionHypothesis _ orderedRest nodupRest
        (fun inRest => fresh (List.mem_cons_of_mem _ inRest)) (fun z inRest => used z (List.mem_cons_of_mem _ inRest))
        ((Finset.erase_subset _ _).trans belowElem) (fun z member => ?_) (fun z inRest isAncestor => ?_)⟩
      · rcases List.mem_cons.mp ((placeAfter_perm _ elem rest).mem_iff.mp member) with rfl | inRest
        · intro elemBelowX
          obtain ⟨y, yLeft⟩ := Finset.nonempty_iff_ne_empty.mpr nothingLeft
          have yBelowElem := belowElem yLeft
          rcases List.mem_cons.mp (within y yLeft) with rfl | yInRest
          · exact fresh (closed.eq_of_mutual_ancestors acyclic (used y List.mem_cons_self) elemUsed elemBelowX
              yBelowElem ▸ List.mem_cons_self)
          · exact xFirst y yInRest (closed.ancestors_subset (used x List.mem_cons_self) elemBelowX yBelowElem)
        · exact xFirst later inRest
      · obtain ⟨notX, inBefore⟩ := Finset.mem_erase.mp member
        exact (List.mem_cons.mp (within z inBefore)).resolve_left notX
      · exact Finset.mem_erase.mpr ⟨fun same => xNotInRest (same ▸ inRest), complete z (List.mem_cons_of_mem _ inRest)
          isAncestor⟩

/-- Each element, placed past its ancestors among the elements already placed,
keeps the part already fixed in an order with ancestors first. -/
theorem ancestorsFirst_fixFromBack (closed : Closed g dep) (acyclic : g.IsAcyclic) (pending : List Nat) :
    ∀ fixed : List Nat, AncestorsFirst g fixed → (pending ++ fixed).Nodup → (∀ x ∈ pending ++ fixed, x ∈ g.used) →
      AncestorsFirst g (fixFromBack g fixed.toFinset pending fixed) := by
  induction pending with
  | nil => intro fixed ordered _ _; exact ordered
  | cons elem pending inductionHypothesis =>
    intro fixed ordered nodup used
    have moved := placeAfter_perm (fixed.toFinset ∩ g.ancestors elem) elem fixed
    obtain ⟨elemFresh, nodupRest⟩ := List.nodup_cons.mp nodup
    have nodupFixed := (List.nodup_append.mp nodupRest).2.1
    rw [fixFromBack, show insert elem fixed.toFinset = (placeAfter (fixed.toFinset ∩ g.ancestors elem) elem fixed).toFinset by
      rw [List.toFinset_eq_of_perm _ _ moved, List.toFinset_cons]]
    apply inductionHypothesis
    · exact ancestorsFirst_placeAfter closed acyclic (used elem List.mem_cons_self) fixed _ ordered nodupFixed
        (fun inFixed => elemFresh (List.mem_append_right _ inFixed))
        (fun x inFixed => used x (List.mem_cons_of_mem _ (List.mem_append_right _ inFixed)))
        Finset.inter_subset_right (fun x member => List.mem_toFinset.mp (Finset.mem_inter.mp member).1)
        (fun x inFixed isAncestor => Finset.mem_inter.mpr ⟨List.mem_toFinset.mpr inFixed, isAncestor⟩)
    · exact ((moved.append_left pending).trans List.perm_middle).nodup_iff.mpr nodup
    · exact fun x member => used x (((moved.append_left pending).trans List.perm_middle).mem_iff.mp member)

/-- An order with ancestors first, in which every ancestor of an element is
before it or among `done`, passes the check of `SanityCheck`. -/
theorem isTopological_of_ancestorsFirst (closed : Closed g dep) (order : List Nat) :
    ∀ done : Finset Nat, AncestorsFirst g order → order.Nodup → (∀ x ∈ order, x ∈ g.used) → (∀ x ∈ order, x ∉ done) →
      (∀ x ∈ order, ∀ a ∈ g.ancestors x, a ∈ done ∨ a ∈ order) → g.IsTopological done order := by
  induction order with
  | nil => intro _ _ _ _ _ _; trivial
  | cons x rest inductionHypothesis =>
    intro done ordered nodup used fresh complete
    obtain ⟨xFirst, orderedRest⟩ := List.pairwise_cons.mp ordered
    obtain ⟨xNotInRest, nodupRest⟩ := List.nodup_cons.mp nodup
    refine ⟨?_, inductionHypothesis _ orderedRest nodupRest (fun z inRest => used z (List.mem_cons_of_mem _ inRest))
      (fun z inRest => ?_) (fun z inRest a isAncestor => ?_)⟩
    · ext a
      simp only [Finset.mem_sdiff, Finset.mem_singleton]
      constructor
      · rintro ⟨isAncestor, notDone⟩
        rcases complete x List.mem_cons_self a isAncestor with isDone | inOrder
        · exact absurd isDone notDone
        · rcases List.mem_cons.mp inOrder with same | inRest
          · exact same
          · exact absurd isAncestor (xFirst a inRest)
      · rintro rfl
        exact ⟨closed.self_mem_ancestors (used a List.mem_cons_self), fresh a List.mem_cons_self⟩
    · rw [Finset.mem_insert, not_or]
      exact ⟨fun same => xNotInRest (same ▸ inRest), fresh z (List.mem_cons_of_mem _ inRest)⟩
    · rcases complete z (List.mem_cons_of_mem _ inRest) a isAncestor with isDone | inOrder
      · exact Or.inl (Finset.mem_insert_of_mem isDone)
      · rcases List.mem_cons.mp inOrder with rfl | inRestOrder
        · exact Or.inl (Finset.mem_insert_self _ _)
        · exact Or.inr inRestOrder

theorem IsTopological.append {done : Finset Nat} {first second : List Nat} (topological : g.IsTopological done (first ++ second)) :
    g.IsTopological (done ∪ first.toFinset) second := by
  induction first generalizing done with
  | nil => simpa using topological
  | cons i rest inductionHypothesis =>
    have restTopological := inductionHypothesis topological.2
    rwa [Finset.insert_union, ← Finset.union_insert, ← List.toFinset_cons] at restTopological

/-- On an order that is topological already, no element has an ancestor among
those walked, so each is placed where it was. -/
theorem fixFromBack_of_isTopological (pending : List Nat) :
    ∀ fixed : List Nat, g.IsTopological ∅ (pending.reverse ++ fixed) → (pending ++ fixed).Nodup →
      fixFromBack g fixed.toFinset pending fixed = pending.reverse ++ fixed := by
  induction pending with
  | nil => intro; simp [fixFromBack]
  | cons elem pending inductionHypothesis =>
    intro fixed topological nodup
    have layout : (elem :: pending).reverse ++ fixed = pending.reverse ++ elem :: fixed := by simp
    rw [layout] at topological ⊢
    obtain ⟨elemFresh, nodupRest⟩ := List.nodup_cons.mp nodup
    have noneBelow : fixed.toFinset ∩ g.ancestors elem = ∅ := by
      apply Finset.eq_empty_of_forall_notMem
      intro z member
      obtain ⟨inFixed, isAncestor⟩ := Finset.mem_inter.mp member
      have inFixed := List.mem_toFinset.mp inFixed
      have notPending : z ∉ pending.reverse.toFinset := by
        rw [List.mem_toFinset, List.mem_reverse]
        exact fun inPending => List.disjoint_of_nodup_append nodupRest inPending inFixed
      have alone := topological.append.1
      rw [Finset.empty_union] at alone
      have := Finset.mem_singleton.mp (alone ▸ Finset.mem_sdiff.mpr ⟨isAncestor, notPending⟩)
      exact elemFresh (List.mem_append_right _ (this ▸ inFixed))
    rw [fixFromBack, noneBelow, placeAfter_empty, ← List.toFinset_cons]
    exact inductionHypothesis (elem :: fixed) topological (List.perm_middle.nodup_iff.mpr nodup)

end Topological

/-- `FixLinearization` on an acyclic graph turns any permutation of its
positions into a topological one, as the tests check it, and leaves an order
that is topological already unchanged. -/
theorem fixLinearization_makes_topological {g : DepGraph} {dep : Nat → Nat → Prop} (built : Built g dep)
    (acyclic : g.IsAcyclic) (linearization : List Nat) (nodup : linearization.Nodup)
    (positions : linearization.toFinset = g.positions) :
    (fixLinearization g linearization).Perm linearization ∧ g.IsTopological ∅ (fixLinearization g linearization) ∧
      (g.IsTopological ∅ linearization → fixLinearization g linearization = linearization) := by
  have closed := built.closed
  have used : ∀ x ∈ linearization, x ∈ g.used := by
    intro x member
    have inPositions := List.mem_toFinset.mpr member
    rwa [positions] at inPositions
  have permuted : (fixLinearization g linearization).Perm linearization := by
    rw [fixLinearization_eq]
    simpa using fixFromBack_perm g linearization.reverse ∅ []
  refine ⟨permuted, ?_, fun topological => ?_⟩
  · have ordered : AncestorsFirst g (fixLinearization g linearization) := by
      rw [fixLinearization_eq]
      exact ancestorsFirst_fixFromBack closed acyclic linearization.reverse [] List.Pairwise.nil (by simpa using nodup)
        (by simpa using used)
    apply isTopological_of_ancestorsFirst closed _ ∅ ordered (permuted.nodup_iff.mpr nodup)
      (fun x member => used x (permuted.mem_iff.mp member)) (fun x _ => Finset.notMem_empty x)
    intro x member a isAncestor
    refine Or.inr (permuted.mem_iff.mpr (List.mem_toFinset.mp ?_))
    rw [positions]
    exact closed.ancestors_subset_used (used x (permuted.mem_iff.mp member)) isAncestor
  · rw [fixLinearization_eq]
    simpa using fixFromBack_of_isTopological linearization.reverse [] (by simpa using topological) (by simpa using nodup)

/-- A parent and its child, listed child first, are swapped. -/
theorem fixLinearization_makes_topological_childFirst :
    Built (DepGraph.addDependencies ⟨[⟨⟨1, 1⟩, {0}, {0}⟩, ⟨⟨2, 1⟩, {1}, {1}⟩], {1, 0}⟩ {0} 1)
        (addEdgesInto (fun _ _ => False) ↑({0} : Finset Nat) 1) ∧
      (DepGraph.addDependencies ⟨[⟨⟨1, 1⟩, {0}, {0}⟩, ⟨⟨2, 1⟩, {1}, {1}⟩], {1, 0}⟩ {0} 1).IsTopological ∅
        (fixLinearization (DepGraph.addDependencies ⟨[⟨⟨1, 1⟩, {0}, {0}⟩, ⟨⟨2, 1⟩, {1}, {1}⟩], {1, 0}⟩ {0} 1)
          [1, 0]) := by
  have built : Built (((DepGraph.empty.addTransaction ⟨1, 1⟩).1.addTransaction ⟨2, 1⟩).1.addDependencies {0} 1)
      (addEdgesInto (fun _ _ => False) ↑({0} : Finset Nat) 1) := by
    refine .addDependencies {0} 1 (.addTransaction _ (.addTransaction _ .empty)) ?_ ?_ <;>
      rw [addTransaction_twice_empty] <;> decide
  rw [addTransaction_twice_empty] at built
  exact ⟨built, (fixLinearization_makes_topological built (by decide) [1, 0] (by decide) (by decide)).2.1⟩

end DepGraph

end Qbitcoin
