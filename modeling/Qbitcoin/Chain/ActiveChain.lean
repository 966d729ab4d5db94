import Qbitcoin.Chain.SkipList

/-!
# Common ancestors and the active chain

`LastCommonAncestor`, `CChain::SetTip` and `CChain::FindFork` (`chain.cpp`)
over the block index of `Chain/SkipList.lean`, and what they compute in every
index `AddToBlockIndex` builds: the deepest common ancestor, the chain of
ancestors of the new tip, and the deepest ancestor the chain contains.

Their loops follow `pprev` until a test stops them; in a well-formed tree that
happens before the height of the entry they start from runs out, which bounds
the rounds the model runs (`lcaLoop`, `setTipLoop`, `findForkLoop`), and each
theorem shows the loop stopped by its own test.
-/

namespace Qbitcoin

namespace BlockMap

variable {Id : Type} {blocks : BlockMap Id}

/-- `d` is `b` or one of its ancestors: `pprev` links lead from `b` to `d`. -/
def IsAncestor (blocks : BlockMap Id) (d b : Id) : Prop := ∃ k, followPrev blocks k b = some d

/-- An index with one root: one entry has no `pprev`. -/
def OneRoot (blocks : BlockMap Id) : Prop :=
  ∀ {r r' : Id} {entry entry' : SkipEntry Id}, blocks r = some entry → entry.pprev = none →
    blocks r' = some entry' → entry'.pprev = none → r = r'

/-- `pindex->pprev`, `nullptr` for `nullptr`. -/
def prevOf (blocks : BlockMap Id) (pindex : Option Id) : Option Id :=
  pindex.bind fun p => (blocks p).bind SkipEntry.pprev

/-! ## Ancestors in a well-formed tree -/

theorem prevOf_followPrev (blocks : BlockMap Id) (k : Nat) (b : Id) :
    prevOf blocks (followPrev blocks k b) = followPrev blocks (k + 1) b := by
  rw [Nat.add_comm, followPrev_add]
  cases followPrev blocks k b with
  | none => rfl
  | some a =>
      simp only [prevOf, Option.bind_some, followPrev]
      cases blocks a <;> simp

/-- The `pprev` of the entry `k` links down is the one `k + 1` links down. -/
theorem pprev_of_followPrev {b p : Id} {entry : SkipEntry Id} {k : Nat} (reached : followPrev blocks k b = some p)
    (found : blocks p = some entry) : entry.pprev = followPrev blocks (k + 1) b := by
  rw [← prevOf_followPrev, reached]
  simp [prevOf, found]

theorem IsAncestor.trans {c d b : Id} (lower : IsAncestor blocks c d) (upper : IsAncestor blocks d b) :
    IsAncestor blocks c b := by
  obtain ⟨j, reachedC⟩ := lower
  obtain ⟨k, reachedD⟩ := upper
  exact ⟨j + k, by rw [followPrev_add, reachedD]; exact reachedC⟩

section Tree

variable (tree : SkipTree blocks)
include tree

/-- An ancestor `k` links down is `k` below the entry. -/
theorem SkipTree.followPrev_height {b a : Id} {entry : SkipEntry Id} (found : blocks b = some entry) {k : Nat}
    (reached : followPrev blocks k b = some a) :
    k ≤ entry.nHeight ∧ ∃ ancestor, blocks a = some ancestor ∧ ancestor.nHeight = entry.nHeight - k := by
  induction k generalizing b entry with
  | zero =>
      rw [followPrev_zero, Option.some_inj] at reached
      subst reached
      exact ⟨Nat.zero_le _, entry, found, rfl⟩
  | succ k inductionHypothesis =>
      cases linked : entry.pprev with
      | none => simp [followPrev, found, linked] at reached
      | some p =>
          obtain ⟨parent, parentFound, oneAbove⟩ := tree.parent found linked
          rw [followPrev_succ k found linked] at reached
          obtain ⟨below, ancestor, ancestorFound, height⟩ := inductionHypothesis parentFound reached
          exact ⟨by omega, ancestor, ancestorFound, by omega⟩

/-- Past the root, following `pprev` finds nothing. -/
theorem SkipTree.followPrev_of_height_lt {b : Id} {entry : SkipEntry Id} (found : blocks b = some entry) {k : Nat}
    (beyond : entry.nHeight < k) : followPrev blocks k b = none := by
  cases reached : followPrev blocks k b with
  | none => rfl
  | some a => exact absurd (tree.followPrev_height found reached).1 (by omega)

/-- `GetAncestor(nHeight - j)` is the entry `j` links down, `nullptr` below
the root. -/
theorem SkipTree.getAncestor_sub {b : Id} {entry : SkipEntry Id} (found : blocks b = some entry) (j : Nat) :
    getAncestor blocks b ((entry.nHeight : Int) - j) = .ok (followPrev blocks j b) := by
  rw [tree.getAncestor_eq found]
  by_cases within : j ≤ entry.nHeight
  · rw [if_neg (by omega), show ((entry.nHeight : Int) - j).toNat = entry.nHeight - j by omega,
      Nat.sub_sub_self within]
  · rw [if_pos (Or.inr (by omega)), tree.followPrev_of_height_lt found (by omega)]

/-- An ancestor is the one at its height: `nHeight` difference links down. -/
theorem SkipTree.followPrev_of_isAncestor {d b : Id} {entryD entryB : SkipEntry Id} (foundD : blocks d = some entryD)
    (foundB : blocks b = some entryB) (ancestor : IsAncestor blocks d b) :
    entryD.nHeight ≤ entryB.nHeight ∧ followPrev blocks (entryB.nHeight - entryD.nHeight) b = some d := by
  obtain ⟨k, reached⟩ := ancestor
  obtain ⟨below, entryD', foundD', height⟩ := tree.followPrev_height foundB reached
  rw [foundD, Option.some_inj] at foundD'
  subst foundD'
  refine ⟨by omega, ?_⟩
  rw [show entryB.nHeight - entryD.nHeight = k by omega]
  exact reached

/-- Of two ancestors of one entry, the lower is an ancestor of the higher. -/
theorem SkipTree.isAncestor_of_le {d c b : Id} {entryD entryC entryB : SkipEntry Id} (foundD : blocks d = some entryD)
    (foundC : blocks c = some entryC) (foundB : blocks b = some entryB) (ancestorD : IsAncestor blocks d b)
    (ancestorC : IsAncestor blocks c b) (lower : entryD.nHeight ≤ entryC.nHeight) : IsAncestor blocks d c := by
  obtain ⟨-, reachedD⟩ := tree.followPrev_of_isAncestor foundD foundB ancestorD
  obtain ⟨belowC, reachedC⟩ := tree.followPrev_of_isAncestor foundC foundB ancestorC
  refine ⟨entryC.nHeight - entryD.nHeight, ?_⟩
  rw [show entryB.nHeight - entryD.nHeight = (entryC.nHeight - entryD.nHeight) + (entryB.nHeight - entryC.nHeight)
    by omega, followPrev_add, reachedC] at reachedD
  exact reachedD

/-- An entry at height 0 has no `pprev`. -/
theorem SkipTree.pprev_of_height_zero {b : Id} {entry : SkipEntry Id} (found : blocks b = some entry)
    (bottom : entry.nHeight = 0) : entry.pprev = none := by
  cases linked : entry.pprev with
  | none => rfl
  | some p =>
      obtain ⟨parent, -, oneAbove⟩ := tree.parent found linked
      omega

/-- With one root, two entries at height 0 are one. -/
theorem SkipTree.eq_of_height_zero (oneRoot : OneRoot blocks) {r r' : Id} {entry entry' : SkipEntry Id}
    (found : blocks r = some entry) (found' : blocks r' = some entry') (bottom : entry.nHeight = 0)
    (bottom' : entry'.nHeight = 0) : r = r' :=
  oneRoot found (tree.pprev_of_height_zero found bottom) found' (tree.pprev_of_height_zero found' bottom')

end Tree

/-! ## `LastCommonAncestor` -/

section LastCommonAncestor

variable [DecidableEq Id]

/-- The loop of `LastCommonAncestor`, `while (pa != pb && pa && pb)`, run for
at most `steps` rounds. -/
def lcaLoop (blocks : BlockMap Id) : Nat → Option Id → Option Id → Option Id × Option Id
  | 0, pa, pb => (pa, pb)
  | steps + 1, pa, pb =>
      if pa ≠ pb ∧ pa.isSome ∧ pb.isSome then lcaLoop blocks steps (prevOf blocks pa) (prevOf blocks pb)
      else (pa, pb)

/-- `LastCommonAncestor` of two entries: the higher is first taken down to
the other's height, then both step back together until they meet; the loop
runs at most once per height. -/
def lastCommonAncestor (blocks : BlockMap Id) (pa pb : Id) : Except String (Option Id) :=
  match blocks pa, blocks pb with
  | some entryA, some entryB => do
      let (pa, pb) ← (
        if entryA.nHeight > entryB.nHeight then do
          let pa ← getAncestor blocks pa entryB.nHeight
          pure (pa, some pb)
        else if entryB.nHeight > entryA.nHeight then do
          let pb ← getAncestor blocks pb entryA.nHeight
          pure (some pa, pb)
        else pure (some pa, some pb) : Except String (Option Id × Option Id))
      let (pa, pb) := lcaLoop blocks (min entryA.nHeight entryB.nHeight + 1) pa pb
      if pa = pb then pure pa else throw "assert(pa == pb)"
  | _, _ => throw "invalid pointer"

/-- From two entries at one height, the loop of `LastCommonAncestor` stops
where their ancestors first meet, at the latest at the root: below it, two
distinct entries at height 0 would be two roots. -/
theorem SkipTree.lcaLoop_meets (tree : SkipTree blocks) (oneRoot : OneRoot blocks) {a b : Id}
    {entryA entryB : SkipEntry Id} (foundA : blocks a = some entryA) (foundB : blocks b = some entryB)
    (sameHeight : entryA.nHeight = entryB.nHeight) :
    ∀ steps i, i ≤ entryA.nHeight → entryA.nHeight + 1 ≤ steps + i →
      (∀ l < i, followPrev blocks l a ≠ followPrev blocks l b) →
      ∃ j c, i ≤ j ∧ followPrev blocks j a = some c ∧ followPrev blocks j b = some c ∧
        (∀ l < j, followPrev blocks l a ≠ followPrev blocks l b) ∧
        lcaLoop blocks steps (followPrev blocks i a) (followPrev blocks i b) = (some c, some c) := by
  intro steps
  induction steps with
  | zero => intro i below enough; omega
  | succ steps inductionHypothesis =>
      intro i below enough apart
      obtain ⟨x, entryX, reachedX, foundX, heightX⟩ := tree.followPrev_spec foundA below
      obtain ⟨y, entryY, reachedY, foundY, heightY⟩ := tree.followPrev_spec foundB (sameHeight ▸ below)
      by_cases meet : x = y
      · subst meet
        refine ⟨i, x, Nat.le_refl i, reachedX, reachedY, apart, ?_⟩
        rw [lcaLoop, reachedX, reachedY, if_neg (by simp)]
      · have aboveRoot : i < entryA.nHeight := by
          by_contra atRoot
          exact meet (tree.eq_of_height_zero oneRoot foundX foundY (by omega) (by omega))
        have stepping : followPrev blocks i a ≠ followPrev blocks i b ∧ (followPrev blocks i a).isSome ∧
            (followPrev blocks i b).isSome := by
          rw [reachedX, reachedY]
          exact ⟨fun same => meet (Option.some_inj.mp same), rfl, rfl⟩
        rw [lcaLoop, if_pos stepping, prevOf_followPrev, prevOf_followPrev]
        obtain ⟨j, c, later, reachA, reachB, first, loop⟩ :=
          inductionHypothesis (i + 1) (by omega) (by omega) fun l earlier => by
            rcases Nat.lt_succ_iff_lt_or_eq.mp earlier with before | now
            · exact apart l before
            · rw [now]
              exact stepping.1
        exact ⟨j, c, by omega, reachA, reachB, first, loop⟩

/-- `LastCommonAncestor` in a well-formed tree with one root: the deepest
common ancestor, reached without its assertion firing. -/
theorem SkipTree.lastCommonAncestor_eq (tree : SkipTree blocks) (oneRoot : OneRoot blocks) {a b : Id}
    {entryA entryB : SkipEntry Id} (foundA : blocks a = some entryA) (foundB : blocks b = some entryB) :
    ∃ c, lastCommonAncestor blocks a b = .ok (some c) ∧ IsAncestor blocks c a ∧ IsAncestor blocks c b ∧
      ∀ d, IsAncestor blocks d a → IsAncestor blocks d b → IsAncestor blocks d c := by
  have equalized : (if entryA.nHeight > entryB.nHeight then do
          let pa ← getAncestor blocks a entryB.nHeight
          pure (pa, some b)
        else if entryB.nHeight > entryA.nHeight then do
          let pb ← getAncestor blocks b entryA.nHeight
          pure (some a, pb)
        else pure (some a, some b) : Except String (Option Id × Option Id)) =
      .ok (followPrev blocks (entryA.nHeight - min entryA.nHeight entryB.nHeight) a,
        followPrev blocks (entryB.nHeight - min entryA.nHeight entryB.nHeight) b) := by
    split_ifs with higherA higherB
    · rw [tree.getAncestor_eq foundA, if_neg (by omega)]
      rw [show entryB.nHeight - min entryA.nHeight entryB.nHeight = 0 by omega,
        show min entryA.nHeight entryB.nHeight = (entryB.nHeight : Int).toNat by omega]
      rfl
    · rw [tree.getAncestor_eq foundB, if_neg (by omega)]
      rw [show entryA.nHeight - min entryA.nHeight entryB.nHeight = 0 by omega,
        show min entryA.nHeight entryB.nHeight = (entryA.nHeight : Int).toNat by omega]
      rfl
    · rw [show entryA.nHeight - min entryA.nHeight entryB.nHeight = 0 by omega,
        show entryB.nHeight - min entryA.nHeight entryB.nHeight = 0 by omega]
      rfl
  obtain ⟨a', entryA', reachedA, foundA', heightA⟩ :=
    tree.followPrev_spec foundA (show entryA.nHeight - min entryA.nHeight entryB.nHeight ≤ entryA.nHeight by omega)
  obtain ⟨b', entryB', reachedB, foundB', heightB⟩ :=
    tree.followPrev_spec foundB (show entryB.nHeight - min entryA.nHeight entryB.nHeight ≤ entryB.nHeight by omega)
  obtain ⟨j, c, -, reachA, reachB, first, loop⟩ :=
    tree.lcaLoop_meets oneRoot foundA' foundB' (by omega) (min entryA.nHeight entryB.nHeight + 1) 0 (by omega)
      (by omega) (fun l none => absurd none (Nat.not_lt_zero l))
  rw [followPrev_zero, followPrev_zero] at loop
  have ancestorA : IsAncestor blocks c a :=
    ⟨j + (entryA.nHeight - min entryA.nHeight entryB.nHeight), by rw [followPrev_add, reachedA]; exact reachA⟩
  have ancestorB : IsAncestor blocks c b :=
    ⟨j + (entryB.nHeight - min entryA.nHeight entryB.nHeight), by rw [followPrev_add, reachedB]; exact reachB⟩
  refine ⟨c, ?_, ancestorA, ancestorB, fun d belowA belowB => ?_⟩
  · simp only [lastCommonAncestor, foundA, foundB]
    rw [equalized, reachedA, reachedB]
    simp only [bind, Except.bind]
    rw [loop, if_pos rfl]
    rfl
  · obtain ⟨k, reachedD⟩ := belowA
    obtain ⟨-, entryD, foundD, heightD⟩ := tree.followPrev_height foundA reachedD
    obtain ⟨lowerB, -⟩ := tree.followPrev_of_isAncestor foundD foundB belowB
    have belowA' := tree.isAncestor_of_le foundD foundA' foundA ⟨k, reachedD⟩
      ⟨_, reachedA⟩ (by omega)
    have belowB' := tree.isAncestor_of_le foundD foundB' foundB belowB ⟨_, reachedB⟩ (by omega)
    obtain ⟨-, depthA⟩ := tree.followPrev_of_isAncestor foundD foundA' belowA'
    obtain ⟨-, depthB⟩ := tree.followPrev_of_isAncestor foundD foundB' belowB'
    have notBefore : j ≤ entryA'.nHeight - entryD.nHeight := by
      by_contra before
      apply first (entryA'.nHeight - entryD.nHeight) (by omega)
      rw [depthA, show entryA'.nHeight = entryB'.nHeight by omega, depthB]
    have below := followPrev_add blocks (entryA'.nHeight - entryD.nHeight - j) j a'
    rw [Nat.sub_add_cancel notBefore, reachA] at below
    exact ⟨entryA'.nHeight - entryD.nHeight - j, by rw [← depthA, below]; rfl⟩

end LastCommonAncestor

/-! ## `CChain` -/

/-- An in-memory chain: `vChain[h]` is its entry at height `h`, `nullptr`
where `SetTip` grew the vector and has not yet written. -/
structure CChain (Id : Type) where
  vChain : List (Option Id)

namespace CChain

/-- `Height()`: `int(vChain.size()) - 1`, so `-1` for the empty chain. -/
def height (chain : CChain Id) : Int := chain.vChain.length - 1

/-- `operator[]`: `nullptr` outside the vector. -/
def atHeight (chain : CChain Id) (nHeight : Int) : Option Id :=
  if nHeight < 0 ∨ nHeight ≥ chain.vChain.length then none else chain.vChain.getD nHeight.toNat none

end CChain

/-- `std::vector::resize` of a vector of pointers: cut to `n`, or grown with
`nullptr`. -/
def resize (vChain : List (Option Id)) (n : Nat) : List (Option Id) :=
  vChain.take n ++ List.replicate (n - vChain.length) none

/-! ## What `SetTip` leaves -/

/-- The vector of the chain ending at `tip`, at height `height`: at each height,
the ancestor of `tip` there. -/
def chainOf (blocks : BlockMap Id) (tip : Id) (height : Nat) : List (Option Id) :=
  (List.range (height + 1)).map fun i => followPrev blocks (height - i) tip

/-- Below each entry it holds, the vector holds that entry's ancestors, as the
empty vector and every vector `SetTip` leaves do: this is what lets `SetTip`
stop at the first entry already in place. -/
def Linked (blocks : BlockMap Id) (vChain : List (Option Id)) : Prop :=
  ∀ i p, vChain.getD i none = some p → ∀ j ≤ i, vChain.getD j none = followPrev blocks (i - j) p

theorem length_chainOf (blocks : BlockMap Id) (tip : Id) (height : Nat) :
    (chainOf blocks tip height).length = height + 1 := by
  simp [chainOf]

theorem getD_chainOf (blocks : BlockMap Id) (tip : Id) (height i : Nat) :
    (chainOf blocks tip height).getD i none = if i ≤ height then followPrev blocks (height - i) tip else none := by
  rw [List.getD_eq_getElem?_getD]
  split_ifs with below
  · simp [chainOf, List.getElem?_range (show i < height + 1 by omega)]
  · rw [List.getElem?_eq_none (by rw [length_chainOf]; omega)]
    rfl

theorem length_resize (vChain : List (Option Id)) (n : Nat) : (resize vChain n).length = n := by
  simp only [resize, List.length_append, List.length_take, List.length_replicate]
  omega

theorem getD_resize (vChain : List (Option Id)) (n i : Nat) :
    (resize vChain n).getD i none = if i < n then vChain.getD i none else none := by
  simp only [resize, List.getD_eq_getElem?_getD, List.getElem?_append, List.getElem?_take,
    List.getElem?_replicate, List.length_take]
  split_ifs <;> first | rfl | (rw [List.getElem?_eq_none (by omega)]; rfl) | omega

/-- Writing inside the vector changes the one entry written. -/
theorem getD_set_of_lt {vChain : List (Option Id)} {i : Nat} (inside : i < vChain.length) (a : Option Id) (j : Nat) :
    (vChain.set i a).getD j none = if i = j then a else vChain.getD j none := by
  simp only [List.getD_eq_getElem?_getD, List.getElem?_set, if_pos inside]
  split_ifs <;> rfl

/-- Vectors of one length that read alike are one vector. -/
theorem eq_of_getD {v w : List (Option Id)} (sameLength : v.length = w.length)
    (same : ∀ i, v.getD i none = w.getD i none) : v = w := by
  apply List.ext_getElem?
  intro i
  by_cases inside : i < v.length
  · have reads := same i
    rw [List.getD_eq_getElem?_getD, List.getD_eq_getElem?_getD, List.getElem?_eq_getElem inside,
      List.getElem?_eq_getElem (sameLength ▸ inside)] at reads
    rw [List.getElem?_eq_getElem inside, List.getElem?_eq_getElem (sameLength ▸ inside)]
    exact congrArg some reads
  · rw [List.getElem?_eq_none (by omega), List.getElem?_eq_none (by omega)]

theorem linked_nil (blocks : BlockMap Id) : Linked blocks [] := by
  intro i p held
  cases held

theorem linked_chainOf (blocks : BlockMap Id) (tip : Id) (height : Nat) : Linked blocks (chainOf blocks tip height) := by
  intro i p held j lower
  rw [getD_chainOf] at held ⊢
  split_ifs at held with below
  rw [if_pos (by omega), show height - j = (i - j) + (height - i) by omega, followPrev_add, held]
  rfl

theorem Linked.resize {vChain : List (Option Id)} (linked : Linked blocks vChain) (n : Nat) :
    Linked blocks (resize vChain n) := by
  intro i p held j lower
  rw [getD_resize] at held ⊢
  split_ifs at held with inside
  rw [if_pos (by omega)]
  exact linked i p held j lower

/-- `operator[]` of the chain ending at `tip`: the ancestor at that height. -/
theorem atHeight_chainOf (blocks : BlockMap Id) (tip : Id) {height i : Nat} (below : i ≤ height) :
    (CChain.mk (chainOf blocks tip height)).atHeight i = followPrev blocks (height - i) tip := by
  unfold CChain.atHeight
  rw [if_neg (by rw [length_chainOf]; omega), Int.toNat_natCast, getD_chainOf, if_pos below]

/-! ## `SetTip` and `FindFork` -/

section ActiveChain

variable [DecidableEq Id]

/-- `Contains`: the chain's entry at the block's height is the block. -/
def CChain.contains (chain : CChain Id) (blocks : BlockMap Id) (pindex : Id) : Bool :=
  match blocks pindex with
  | some entry => decide (chain.atHeight entry.nHeight = some pindex)
  | none => false

/-- The loop of `SetTip`, `while (pindex && vChain[pindex->nHeight] != pindex)`,
run for at most `steps` rounds. -/
def setTipLoop (blocks : BlockMap Id) : Nat → List (Option Id) → Option Id → Except String (List (Option Id))
  | 0, vChain, _ => pure vChain
  | _ + 1, vChain, none => pure vChain
  | steps + 1, vChain, some pindex =>
      match blocks pindex with
      | none => throw "invalid pointer"
      | some entry =>
          if vChain.getD entry.nHeight none ≠ some pindex then
            setTipLoop blocks steps (vChain.set entry.nHeight (some pindex)) entry.pprev
          else pure vChain

/-- `CChain::SetTip`: the vector is resized to the block's height, then the
block and its ancestors are written until one is already in place. -/
def setTip (blocks : BlockMap Id) (chain : CChain Id) (block : Id) : Except String (CChain Id) :=
  match blocks block with
  | none => throw "invalid pointer"
  | some entry => do
      let vChain ← setTipLoop blocks (entry.nHeight + 1) (resize chain.vChain (entry.nHeight + 1)) (some block)
      pure ⟨vChain⟩

/-- The loop of `FindFork`, `while (pindex && !Contains(pindex))`, run for at
most `steps` rounds. -/
def findForkLoop (blocks : BlockMap Id) (chain : CChain Id) : Nat → Option Id → Except String (Option Id)
  | 0, pindex => pure pindex
  | _ + 1, none => pure none
  | steps + 1, some pindex =>
      if chain.contains blocks pindex then pure (some pindex)
      else
        match blocks pindex with
        | none => throw "invalid pointer"
        | some entry => findForkLoop blocks chain steps entry.pprev

/-- `CChain::FindFork`: the block, taken down to the chain's height if it is
above it, then back along `pprev` until the chain contains it. -/
def findFork (blocks : BlockMap Id) (chain : CChain Id) (pindex : Option Id) : Except String (Option Id) :=
  match pindex with
  | none => pure none
  | some p =>
      match blocks p with
      | none => throw "invalid pointer"
      | some entry => do
          let start ← if entry.nHeight > chain.height then getAncestor blocks p chain.height else pure (some p)
          findForkLoop blocks chain (entry.nHeight + 1) start

/-- `r` is the deepest ancestor of `b` the chain contains: an ancestor the
chain contains, above every other one, and `nullptr` only when there is none. -/
structure DeepestContained (blocks : BlockMap Id) (chain : CChain Id) (b : Id) (r : Option Id) : Prop where
  contained : ∀ c, r = some c → IsAncestor blocks c b ∧ chain.contains blocks c = true
  deepest : ∀ d, IsAncestor blocks d b → chain.contains blocks d = true → ∃ c, r = some c ∧ IsAncestor blocks d c

/-- The chain contains entries only up to its height. -/
theorem CChain.contains_height {chain : CChain Id} {d : Id} (contained : chain.contains blocks d = true) :
    ∃ entry, blocks d = some entry ∧ (entry.nHeight : Int) ≤ chain.height := by
  unfold CChain.contains at contained
  cases found : blocks d with
  | none => simp [found] at contained
  | some entry =>
      simp only [found, CChain.atHeight] at contained
      split_ifs at contained with outside
      · cases contained
      · exact ⟨entry, rfl, by unfold CChain.height; omega⟩

section Tree

variable (tree : SkipTree blocks)
include tree

/-- The loop of `SetTip` after `k` rounds: the heights above `nHeight - k` hold
the tip's ancestors, those below still what the resized vector held. -/
theorem SkipTree.setTipLoop_eq {t : Id} {entry : SkipEntry Id} (found : blocks t = some entry)
    {resized : List (Option Id)} (linked : Linked blocks resized) :
    ∀ n k vChain, k + n = entry.nHeight + 1 → vChain.length = entry.nHeight + 1 →
      (∀ i, vChain.getD i none = if i ≤ entry.nHeight then
        (if entry.nHeight < i + k then followPrev blocks (entry.nHeight - i) t else resized.getD i none) else none) →
      setTipLoop blocks n vChain (followPrev blocks k t) = .ok (chainOf blocks t entry.nHeight) := by
  intro n
  induction n with
  | zero =>
      intro k vChain rounds length written
      rw [setTipLoop]
      refine congrArg Except.ok (eq_of_getD (by rw [length, length_chainOf]) fun i => ?_)
      rw [written i, getD_chainOf]
      split_ifs <;> first | rfl | omega
  | succ n inductionHypothesis =>
      intro k vChain rounds length written
      obtain ⟨p, entryP, reached, foundP, heightP⟩ := tree.followPrev_spec found (show k ≤ entry.nHeight by omega)
      rw [reached, setTipLoop, foundP]
      simp only
      rw [heightP]
      split_ifs with fresh
      · rw [pprev_of_followPrev reached foundP]
        refine inductionHypothesis (k + 1) _ (by omega) (by rw [List.length_set, length]) fun i => ?_
        rw [getD_set_of_lt (by omega), written i]
        by_cases here : entry.nHeight - k = i
        · rw [if_pos here, if_pos (by omega), if_pos (by omega), ← here,
            show entry.nHeight - (entry.nHeight - k) = k by omega, reached]
        · rw [if_neg here]
          split_ifs <;> first | rfl | omega
      · have inPlace : resized.getD (entry.nHeight - k) none = some p := by
          rw [← Decidable.not_not.mp fresh, written, if_pos (by omega), if_neg (by omega)]
        refine congrArg Except.ok (eq_of_getD (by rw [length, length_chainOf]) fun i => ?_)
        rw [written i, getD_chainOf]
        split_ifs with below above
        · rfl
        · rw [linked _ p inPlace i (by omega), show entry.nHeight - i = (entry.nHeight - k - i) + k by omega,
            followPrev_add, reached]
          rfl
        · rfl

/-- `SetTip` on a chain whose vector is linked: the vector becomes the tip's
ancestors, one at each height. -/
theorem SkipTree.setTip_eq {t : Id} {entry : SkipEntry Id} (found : blocks t = some entry) {chain : CChain Id}
    (linked : Linked blocks chain.vChain) : setTip blocks chain t = .ok ⟨chainOf blocks t entry.nHeight⟩ := by
  have loop := tree.setTipLoop_eq found (linked.resize (entry.nHeight + 1)) (entry.nHeight + 1) 0
    (resize chain.vChain (entry.nHeight + 1)) (by omega) (length_resize _ _) fun i => by
      rw [getD_resize]
      split_ifs <;> first | rfl | omega
  rw [followPrev_zero] at loop
  simp only [setTip, found]
  rw [loop]
  rfl

/-- A walk from `s` that passed every ancestor of `s` without finding one the
chain contains: there is none. -/
theorem SkipTree.deepestContained_none {chain : CChain Id} {s : Id} {entryS : SkipEntry Id}
    (foundS : blocks s = some entryS) {k : Nat} (beyond : entryS.nHeight < k)
    (unseen : ∀ l < k, ∀ x, followPrev blocks l s = some x → chain.contains blocks x = false) :
    DeepestContained blocks chain s none := by
  refine ⟨(fun c returned => by cases returned), fun d ancestor contained => ?_⟩
  obtain ⟨l, reachedD⟩ := ancestor
  have notPassed := unseen l (by have := (tree.followPrev_height foundS reachedD).1; omega) d reachedD
  rw [contained] at notPassed
  cases notPassed

/-- The loop of `FindFork` after `k` rounds from `s` without finding an entry
the chain contains: it ends at the deepest ancestor of `s` the chain contains. -/
theorem SkipTree.findForkLoop_eq {chain : CChain Id} {s : Id} {entryS : SkipEntry Id}
    (foundS : blocks s = some entryS) :
    ∀ n k, entryS.nHeight + 1 ≤ k + n →
      (∀ l < k, ∀ x, followPrev blocks l s = some x → chain.contains blocks x = false) →
      ∃ r, findForkLoop blocks chain n (followPrev blocks k s) = .ok r ∧ DeepestContained blocks chain s r := by
  intro n
  induction n with
  | zero =>
      intro k enough unseen
      rw [tree.followPrev_of_height_lt foundS (by omega)]
      exact ⟨none, rfl, tree.deepestContained_none foundS (by omega) unseen⟩
  | succ n inductionHypothesis =>
      intro k enough unseen
      by_cases beyond : entryS.nHeight < k
      · rw [tree.followPrev_of_height_lt foundS beyond]
        exact ⟨none, rfl, tree.deepestContained_none foundS beyond unseen⟩
      obtain ⟨x, entryX, reached, foundX, heightX⟩ := tree.followPrev_spec foundS (show k ≤ entryS.nHeight by omega)
      rw [reached, findForkLoop]
      split_ifs with inChain
      · refine ⟨some x, rfl, fun c found => ?_, fun d ancestor contained => ?_⟩
        · cases found
          exact ⟨⟨k, reached⟩, inChain⟩
        · obtain ⟨l, reachedD⟩ := ancestor
          have passed : k ≤ l := by
            by_contra earlier
            have notContained := unseen l (by omega) d reachedD
            rw [contained] at notContained
            cases notContained
          have below := followPrev_add blocks (l - k) k s
          rw [Nat.sub_add_cancel passed, reached, reachedD] at below
          exact ⟨x, rfl, l - k, below.symm⟩
      · simp only [foundX]
        rw [pprev_of_followPrev reached foundX]
        refine inductionHypothesis (k + 1) (by omega) fun l earlier y reachedY => ?_
        rcases Nat.lt_succ_iff_lt_or_eq.mp earlier with before | now
        · exact unseen l before y reachedY
        · rw [now, reached, Option.some_inj] at reachedY
          subst reachedY
          simpa using inChain

/-- `FindFork` returns the deepest ancestor of the block that the chain
contains, for any chain. -/
theorem SkipTree.findFork_eq {chain : CChain Id} {p : Id} {entry : SkipEntry Id} (found : blocks p = some entry) :
    ∃ r, findFork blocks chain (some p) = .ok r ∧ DeepestContained blocks chain p r := by
  simp only [findFork, found]
  split_ifs with above
  · by_cases empty : chain.height < 0
    · rw [tree.getAncestor_eq found, if_pos (Or.inr empty)]
      refine ⟨none, rfl, (fun c returned => by cases returned), fun d ancestor contained => ?_⟩
      obtain ⟨entryD, -, height⟩ := CChain.contains_height contained
      omega
    · rw [tree.getAncestor_eq found, if_neg (by omega)]
      obtain ⟨s, entryS, reachedS, foundS, heightS⟩ :=
        tree.followPrev_spec found (show entry.nHeight - chain.height.toNat ≤ entry.nHeight by omega)
      obtain ⟨r, loop, result, deepest⟩ :=
        tree.findForkLoop_eq foundS (entry.nHeight + 1) 0 (by omega) fun l none => absurd none (Nat.not_lt_zero l)
      rw [followPrev_zero] at loop
      rw [reachedS]
      refine ⟨r, loop, fun c returned => ?_, fun d ancestor contained => ?_⟩
      · obtain ⟨ancestorS, inChain⟩ := result c returned
        exact ⟨ancestorS.trans ⟨_, reachedS⟩, inChain⟩
      · obtain ⟨entryD, foundD, height⟩ := CChain.contains_height contained
        exact deepest d (tree.isAncestor_of_le foundD foundS found ancestor ⟨_, reachedS⟩ (by omega)) contained
  · obtain ⟨r, loop, deepest⟩ :=
      tree.findForkLoop_eq found (entry.nHeight + 1) 0 (by omega) fun l none => absurd none (Nat.not_lt_zero l)
    rw [followPrev_zero] at loop
    exact ⟨r, loop, deepest⟩

end Tree

/-- In every index `AddToBlockIndex` builds, `GetAncestor` is exact; with one
root, `LastCommonAncestor` is the deepest common ancestor; `SetTip` on a chain
whose vector is linked (the empty one and every one `SetTip` leaves) writes the
tip's ancestor at each height; and `FindFork` returns the deepest ancestor the
chain contains. -/
theorem skipList_ancestors_exact {blocks : BlockMap Id} (built : Built blocks) :
    (∀ b entry, blocks b = some entry → ∀ height : Int,
      getAncestor blocks b height =
        if height > entry.nHeight ∨ height < 0 then .ok none
        else .ok (followPrev blocks (entry.nHeight - height.toNat) b)) ∧
    (OneRoot blocks → ∀ a b entryA entryB, blocks a = some entryA → blocks b = some entryB →
      ∃ c, lastCommonAncestor blocks a b = .ok (some c) ∧ IsAncestor blocks c a ∧ IsAncestor blocks c b ∧
        ∀ d, IsAncestor blocks d a → IsAncestor blocks d b → IsAncestor blocks d c) ∧
    (∀ (chain : CChain Id) t entry, Linked blocks chain.vChain → blocks t = some entry →
      ∃ chain', setTip blocks chain t = .ok chain' ∧ Linked blocks chain'.vChain ∧
        ∀ i : Nat, i ≤ entry.nHeight → getAncestor blocks t i = .ok (chain'.atHeight i)) ∧
    (∀ (chain : CChain Id) p entry, blocks p = some entry →
      ∃ r, findFork blocks chain (some p) = .ok r ∧ DeepestContained blocks chain p r) := by
  have tree := built.skipTree
  refine ⟨fun b entry found height => tree.getAncestor_eq found height,
    fun oneRoot a b entryA entryB foundA foundB => tree.lastCommonAncestor_eq oneRoot foundA foundB,
    fun chain t entry linked found => ?_, fun chain p entry found => tree.findFork_eq found⟩
  refine ⟨⟨chainOf blocks t entry.nHeight⟩, tree.setTip_eq found linked, linked_chainOf blocks t entry.nHeight,
    fun i below => ?_⟩
  rw [tree.getAncestor_eq found, if_neg (by omega), atHeight_chainOf blocks t below, Int.toNat_natCast]

/-- A genesis block and its child, as `AddToBlockIndex` leaves them. -/
def genesisAndChild : BlockMap Nat :=
  Function.update (Function.update (fun _ => none) 0 (some ⟨none, none, 0⟩)) 1 (some ⟨some 0, some 0, 1⟩)

theorem skipList_ancestors_exact_genesisAndChild :
    Built genesisAndChild ∧ getAncestor genesisAndChild 1 0 = .ok (some 0) := by
  have genesis : addToBlockIndex (fun _ => none : BlockMap Nat) 0 none =
      .ok (Function.update (fun _ => none) 0 (some ⟨none, none, 0⟩)) := rfl
  have child : addToBlockIndex (Function.update (fun _ => none : BlockMap Nat) 0 (some ⟨none, none, 0⟩)) 1 (some 0) =
      .ok genesisAndChild := by
    simp [addToBlockIndex, buildSkip, getAncestor, getSkipHeight, genesisAndChild]
    rw [ancestorWalk]
    simp
    rfl
  have built : Built genesisAndChild := Built.add (Built.add Built.empty genesis) child
  refine ⟨built, ?_⟩
  rw [(skipList_ancestors_exact built).1 1 ⟨some 0, some 0, 1⟩ rfl 0]
  rfl

end ActiveChain

end BlockMap

end Qbitcoin
