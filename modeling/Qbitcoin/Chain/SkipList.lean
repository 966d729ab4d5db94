import Mathlib.Logic.Function.Basic
import Mathlib.Tactic.SplitIfs

/-!
# The skip list of the block index

`GetSkipHeight`, `CBlockIndex::GetAncestor` and `BuildSkip` (`chain.cpp`), and
`BlockManager::AddToBlockIndex` (`node/blockstorage.cpp`), over the block index
in memory: a map from pointers to the entries they point to.  Of an entry only
what these read is kept: `pprev`, `pskip` and `nHeight`.

`followPrev` is what `GetAncestor` computes: the entry reached by following
`pprev`.  `SkipTree` is the invariant of every index that `AddToBlockIndex`
builds from an empty map: heights count the `pprev` links, and a `pskip` that is
set points to the ancestor at `GetSkipHeight`.  Under it the walk of
`GetAncestor`, which follows `pskip` where that does not overshoot, ends at
`followPrev` of the height difference and never reaches its assertion
(`getAncestor_eq`).
-/

namespace Qbitcoin

/-- The fields of a `CBlockIndex` the skip list reads; `none` is `nullptr`. -/
structure SkipEntry (Id : Type) where
  pprev : Option Id
  pskip : Option Id
  nHeight : Nat
  deriving DecidableEq, Repr

/-- The block index in memory: the entry each allocated pointer points to. -/
abbrev BlockMap (Id : Type) := Id → Option (SkipEntry Id)

/-- `InvertLowestOne`: turn the lowest set bit off. -/
def invertLowestOne (n : Nat) : Nat := n &&& (n - 1)

/-- `GetSkipHeight`: the height `pskip` jumps back to. -/
def getSkipHeight (height : Nat) : Nat :=
  if height < 2 then 0
  else if height &&& 1 ≠ 0 then invertLowestOne (invertLowestOne (height - 1)) + 1
  else invertLowestOne height

theorem invertLowestOne_le (n : Nat) : invertLowestOne n ≤ n - 1 := Nat.and_le_right

/-- `pskip` jumps strictly back from every height above zero. -/
theorem getSkipHeight_lt {height : Nat} (positive : 0 < height) : getSkipHeight height < height := by
  have once := invertLowestOne_le (height - 1)
  have twice := invertLowestOne_le (invertLowestOne (height - 1))
  have even := invertLowestOne_le height
  unfold getSkipHeight
  split_ifs <;> omega

namespace BlockMap

variable {Id : Type}

/-- The entry reached from `b` by following `pprev` `k` times, if every link
on the way is set. -/
def followPrev (blocks : BlockMap Id) : Nat → Id → Option Id
  | 0, b => some b
  | k + 1, b => (blocks b).bind fun entry => entry.pprev.bind (followPrev blocks k)

/-- The test of `GetAncestor` for following `pskip` from `heightWalk`: it lands
at or above `height`, and `pprev->pskip` would not land lower while still at or
above `height`.  The C++ compares `heightSkipPrev < heightSkip - 2` on `int`s. -/
def followsSkip (heightWalk height : Nat) : Bool :=
  let heightSkip := getSkipHeight heightWalk
  let heightSkipPrev := getSkipHeight (heightWalk - 1)
  decide (heightSkip = height ∨ (heightSkip > height ∧ ¬(heightSkipPrev + 2 < heightSkip ∧ heightSkipPrev ≥ height)))

/-- The loop of `GetAncestor`, from `pindexWalk` at `heightWalk` down to
`height`: the error is a read through an unallocated pointer, or the assertion
on `pprev`. -/
def ancestorWalk (blocks : BlockMap Id) (height : Nat) (pindexWalk : Id) (heightWalk : Nat) : Except String Id :=
  if heightWalk > height then
    match blocks pindexWalk with
    | none => .error "invalid pointer"
    | some walk =>
        match walk.pskip, followsSkip heightWalk height with
        | some pskip, true => ancestorWalk blocks height pskip (getSkipHeight heightWalk)
        | _, _ =>
            match walk.pprev with
            | none => .error "assert(pindexWalk->pprev)"
            | some pprev => ancestorWalk blocks height pprev (heightWalk - 1)
  else .ok pindexWalk
termination_by heightWalk
decreasing_by
  · exact getSkipHeight_lt (by omega)
  · omega

/-- `CBlockIndex::GetAncestor`: `nullptr` outside `[0, nHeight]`. -/
def getAncestor (blocks : BlockMap Id) (pindex : Id) (height : Int) : Except String (Option Id) :=
  match blocks pindex with
  | none => .error "invalid pointer"
  | some entry =>
      if height > entry.nHeight ∨ height < 0 then .ok none
      else (ancestorWalk blocks height.toNat pindex entry.nHeight).map some

/-- `CBlockIndex::BuildSkip`: `pskip` is set to the ancestor of `pprev` at the
skip height. -/
def buildSkip [DecidableEq Id] (blocks : BlockMap Id) (pindex : Id) : Except String (BlockMap Id) :=
  match blocks pindex with
  | none => .error "invalid pointer"
  | some entry =>
      match entry.pprev with
      | none => .ok blocks
      | some pprev => do
          let pskip ← getAncestor blocks pprev (getSkipHeight entry.nHeight)
          pure (Function.update blocks pindex (some { entry with pskip := pskip }))

/-- `BlockManager::AddToBlockIndex` for the entry `pindexNew`, whose previous
block `miPrev` is found in the index or not: an entry already there is kept;
a new one is linked to its parent, one above it, and its skip is built. -/
def addToBlockIndex [DecidableEq Id] (blocks : BlockMap Id) (pindexNew : Id) (miPrev : Option Id) : Except String (BlockMap Id) :=
  if (blocks pindexNew).isSome then .ok blocks
  else
    match miPrev with
    | none => .ok (Function.update blocks pindexNew (some ⟨none, none, 0⟩))
    | some pprev =>
        match blocks pprev with
        | none => .error "invalid pointer"
        | some parent =>
            buildSkip (Function.update blocks pindexNew (some ⟨some pprev, none, parent.nHeight + 1⟩)) pindexNew

/-- The indexes `AddToBlockIndex` builds from an empty map. -/
inductive Built [DecidableEq Id] : BlockMap Id → Prop
  | empty : Built fun _ => none
  | add {blocks blocks' : BlockMap Id} {pindexNew : Id} {miPrev : Option Id} :
      Built blocks → addToBlockIndex blocks pindexNew miPrev = .ok blocks' → Built blocks'

/-- A well-formed skip list: an entry without `pprev` is at height 0, one with
it is one above an allocated parent, and a `pskip` that is set points to the
ancestor at the skip height. -/
structure SkipTree (blocks : BlockMap Id) : Prop where
  root : ∀ {b entry}, blocks b = some entry → entry.pprev = none → entry.nHeight = 0
  parent : ∀ {b entry p}, blocks b = some entry → entry.pprev = some p →
    ∃ parent, blocks p = some parent ∧ entry.nHeight = parent.nHeight + 1
  skip : ∀ {b entry s}, blocks b = some entry → entry.pskip = some s →
    followPrev blocks (entry.nHeight - getSkipHeight entry.nHeight) b = some s

/-! ## Following `pprev` -/

@[simp]
theorem followPrev_zero (blocks : BlockMap Id) (b : Id) : followPrev blocks 0 b = some b := rfl

theorem followPrev_succ {blocks : BlockMap Id} {b p : Id} {entry : SkipEntry Id} (k : Nat)
    (found : blocks b = some entry) (linked : entry.pprev = some p) :
    followPrev blocks (k + 1) b = followPrev blocks k p := by
  simp [followPrev, found, linked]

/-- Following `j + k` links is following `k`, then `j`. -/
theorem followPrev_add (blocks : BlockMap Id) (j k : Nat) (b : Id) :
    followPrev blocks (j + k) b = (followPrev blocks k b).bind (followPrev blocks j) := by
  induction k generalizing b with
  | zero => rfl
  | succ k inductionHypothesis =>
      rw [← Nat.add_assoc]
      cases found : blocks b with
      | none => simp [followPrev, found]
      | some entry =>
          cases linked : entry.pprev with
          | none => simp [followPrev, found, linked]
          | some p =>
              rw [followPrev_succ _ found linked, followPrev_succ _ found linked]
              exact inductionHypothesis p

/-- `followPrev` reads only the `pprev` links. -/
theorem followPrev_congr {blocks blocks' : BlockMap Id}
    (samePrev : ∀ b, (blocks b).map SkipEntry.pprev = (blocks' b).map SkipEntry.pprev) (k : Nat) (b : Id) :
    followPrev blocks k b = followPrev blocks' k b := by
  induction k generalizing b with
  | zero => rfl
  | succ k inductionHypothesis =>
      have links := samePrev b
      simp only [followPrev]
      cases found : blocks b with
      | none =>
          rw [found, Option.map_none] at links
          cases found' : blocks' b with
          | none => rfl
          | some entry' => rw [found', Option.map_some] at links; cases links
      | some entry =>
          rw [found, Option.map_some] at links
          cases found' : blocks' b with
          | none => rw [found', Option.map_none] at links; cases links
          | some entry' =>
              rw [found', Option.map_some, Option.some_inj] at links
              simp only [Option.bind_some, links]
              cases entry'.pprev with
              | none => rfl
              | some p => exact inductionHypothesis p

section Tree

variable {blocks : BlockMap Id}

/-- In a well-formed tree, the ancestors of an entry at height `n` are
allocated, `k` links down at height `n - k`. -/
theorem SkipTree.followPrev_spec (tree : SkipTree blocks) {b : Id} {entry : SkipEntry Id}
    (found : blocks b = some entry) {k : Nat} (atMost : k ≤ entry.nHeight) :
    ∃ a ancestor, followPrev blocks k b = some a ∧ blocks a = some ancestor ∧
      ancestor.nHeight = entry.nHeight - k := by
  induction k generalizing b entry with
  | zero => exact ⟨b, entry, rfl, found, rfl⟩
  | succ k inductionHypothesis =>
      cases linked : entry.pprev with
      | none => have := tree.root found linked; omega
      | some p =>
          obtain ⟨parent, parentFound, oneAbove⟩ := tree.parent found linked
          obtain ⟨a, ancestor, reached, ancestorFound, height⟩ :=
            inductionHypothesis parentFound (by omega)
          exact ⟨a, ancestor, by rw [followPrev_succ k found linked, reached], ancestorFound, by omega⟩

theorem followsSkip_ge {heightWalk height : Nat} (follows : followsSkip heightWalk height = true) :
    height ≤ getSkipHeight heightWalk := by
  unfold followsSkip at follows
  simp only [decide_eq_true_eq] at follows
  omega

/-- The walk of `GetAncestor` from an entry at `heightWalk` ends, without an
error, at the ancestor `heightWalk - height` links down: each `pskip` it
follows lands on the ancestor at the skip height, no lower than `height`, and
each `pprev` step is one link. -/
theorem SkipTree.ancestorWalk_eq (tree : SkipTree blocks) (height : Nat) :
    ∀ heightWalk {w : Id} {walk : SkipEntry Id}, blocks w = some walk → walk.nHeight = heightWalk →
      height ≤ heightWalk →
        ∃ a, ancestorWalk blocks height w heightWalk = .ok a ∧ followPrev blocks (heightWalk - height) w = some a := by
  intro heightWalk
  induction heightWalk using Nat.strongRecOn with
  | ind heightWalk inductionHypothesis =>
      intro w walk found atHeight atLeast
      rcases Nat.eq_or_lt_of_le atLeast with reached | above
      · subst reached
        refine ⟨w, ?_, by simp⟩
        rw [ancestorWalk, if_neg (Nat.lt_irrefl _)]
      have stepBack : ∃ a, (match walk.pprev with
          | none => .error "assert(pindexWalk->pprev)"
          | some pprev => ancestorWalk blocks height pprev (heightWalk - 1)) = Except.ok a ∧
            followPrev blocks (heightWalk - height) w = some a := by
        cases linked : walk.pprev with
        | none => have := tree.root found linked; omega
        | some p =>
            obtain ⟨parent, parentFound, oneAbove⟩ := tree.parent found linked
            obtain ⟨a, walked, reached⟩ :=
              inductionHypothesis (heightWalk - 1) (by omega) parentFound (by omega) (by omega)
            refine ⟨a, walked, ?_⟩
            rw [show heightWalk - height = heightWalk - 1 - height + 1 by omega, followPrev_succ _ found linked]
            exact reached
      rw [ancestorWalk, if_pos above]
      simp only [found]
      cases skipped : walk.pskip with
      | none => exact stepBack
      | some s =>
          cases follows : followsSkip heightWalk height with
          | false => exact stepBack
          | true =>
              have landing := followsSkip_ge follows
              have back := getSkipHeight_lt (show 0 < heightWalk by omega)
              have jumped := tree.skip found skipped
              rw [atHeight] at jumped
              obtain ⟨s', skipEntry, reachedSkip, skipFound, skipHeight⟩ :=
                tree.followPrev_spec found (show heightWalk - getSkipHeight heightWalk ≤ walk.nHeight by omega)
              rw [jumped, Option.some_inj] at reachedSkip
              subst reachedSkip
              obtain ⟨a, walked, reached⟩ :=
                inductionHypothesis (getSkipHeight heightWalk) back skipFound (by omega) landing
              refine ⟨a, walked, ?_⟩
              rw [show heightWalk - height = (getSkipHeight heightWalk - height) + (heightWalk - getSkipHeight heightWalk)
                by omega, followPrev_add, jumped]
              exact reached

/-- `GetAncestor` in a well-formed tree: `nullptr` outside `[0, nHeight]`, and
otherwise the entry `nHeight - height` links down, reached without the
assertion firing. -/
theorem SkipTree.getAncestor_eq (tree : SkipTree blocks) {b : Id} {entry : SkipEntry Id}
    (found : blocks b = some entry) (height : Int) :
    getAncestor blocks b height =
      if height > entry.nHeight ∨ height < 0 then .ok none
      else .ok (followPrev blocks (entry.nHeight - height.toNat) b) := by
  unfold getAncestor
  simp only [found]
  split_ifs with outside
  · rfl
  · obtain ⟨a, walked, reached⟩ := tree.ancestorWalk_eq height.toNat entry.nHeight found rfl (by omega)
    rw [walked, reached]
    rfl

end Tree

/-! ## Building the index -/

section Building

variable [DecidableEq Id] {blocks : BlockMap Id}

/-- Allocating a fresh entry leaves the `pprev` walks from the old entries as
they were: they never reach it. -/
theorem followPrev_update_fresh (tree : SkipTree blocks) {pindexNew : Id} (fresh : blocks pindexNew = none)
    (newEntry : Option (SkipEntry Id)) (k : Nat) {b : Id} {entry : SkipEntry Id} (found : blocks b = some entry) :
    followPrev (Function.update blocks pindexNew newEntry) k b = followPrev blocks k b := by
  induction k generalizing b entry with
  | zero => rfl
  | succ k inductionHypothesis =>
      have old : b ≠ pindexNew := fun same => by rw [same, fresh] at found; cases found
      have kept : Function.update blocks pindexNew newEntry b = some entry := by
        rw [Function.update_of_ne old, found]
      cases linked : entry.pprev with
      | none => simp [followPrev, found, kept, linked]
      | some p =>
          obtain ⟨parent, parentFound, -⟩ := tree.parent found linked
          rw [followPrev_succ k kept linked, followPrev_succ k found linked]
          exact inductionHypothesis parentFound

/-- A fresh entry without a skip, linked as `AddToBlockIndex` links it, keeps
the tree well formed. -/
theorem SkipTree.update_fresh (tree : SkipTree blocks) {pindexNew : Id} (fresh : blocks pindexNew = none)
    {newEntry : SkipEntry Id} (noSkip : newEntry.pskip = none)
    (isRoot : newEntry.pprev = none → newEntry.nHeight = 0)
    (isChild : ∀ {p}, newEntry.pprev = some p → ∃ parent, blocks p = some parent ∧ newEntry.nHeight = parent.nHeight + 1) :
    SkipTree (Function.update blocks pindexNew (some newEntry)) := by
  have allocated : ∀ {b entry}, blocks b = some entry → b ≠ pindexNew := fun found same => by
    rw [same, fresh] at found
    cases found
  have lookup : ∀ {b entry}, Function.update blocks pindexNew (some newEntry) b = some entry →
      (b = pindexNew ∧ entry = newEntry) ∨ (b ≠ pindexNew ∧ blocks b = some entry) := by
    intro b entry found
    by_cases same : b = pindexNew
    · subst same
      rw [Function.update_self, Option.some_inj] at found
      exact .inl ⟨rfl, found.symm⟩
    · rw [Function.update_of_ne same] at found
      exact .inr ⟨same, found⟩
  constructor
  · intro b entry found unlinked
    rcases lookup found with ⟨-, rfl⟩ | ⟨-, old⟩
    · exact isRoot unlinked
    · exact tree.root old unlinked
  · intro b entry p found linked
    rcases lookup found with ⟨-, rfl⟩ | ⟨-, old⟩
    · obtain ⟨parent, parentFound, oneAbove⟩ := isChild linked
      exact ⟨parent, by rw [Function.update_of_ne (allocated parentFound), parentFound], oneAbove⟩
    · obtain ⟨parent, parentFound, oneAbove⟩ := tree.parent old linked
      exact ⟨parent, by rw [Function.update_of_ne (allocated parentFound), parentFound], oneAbove⟩
  · intro b entry s found skipped
    rcases lookup found with ⟨-, rfl⟩ | ⟨-, old⟩
    · rw [noSkip] at skipped
      cases skipped
    · rw [followPrev_update_fresh tree fresh _ _ old]
      exact tree.skip old skipped

/-- Replacing an entry by one with the same links and height and with
`pskip` its ancestor at the skip height keeps the tree well formed. -/
theorem SkipTree.setSkip (tree : SkipTree blocks) {b : Id} {entry entry' : SkipEntry Id} (found : blocks b = some entry)
    (samePrev : entry'.pprev = entry.pprev) (sameHeight : entry'.nHeight = entry.nHeight)
    (ancestor : followPrev blocks (entry.nHeight - getSkipHeight entry.nHeight) b = entry'.pskip) :
    SkipTree (Function.update blocks b (some entry')) := by
  have links : ∀ c, (blocks c).map SkipEntry.pprev = (Function.update blocks b (some entry') c).map SkipEntry.pprev := by
    intro c
    by_cases same : c = b
    · subst same
      rw [Function.update_self, found, Option.map_some, Option.map_some, samePrev]
    · rw [Function.update_of_ne same]
  have lookup : ∀ {c entry''}, Function.update blocks b (some entry') c = some entry'' →
      (c = b ∧ entry'' = entry') ∨ (c ≠ b ∧ blocks c = some entry'') := by
    intro c entry'' found'
    by_cases same : c = b
    · subst same
      rw [Function.update_self, Option.some_inj] at found'
      exact .inl ⟨rfl, found'.symm⟩
    · rw [Function.update_of_ne same] at found'
      exact .inr ⟨same, found'⟩
  have keepsParent : ∀ {p parent}, blocks p = some parent →
      ∃ parent', Function.update blocks b (some entry') p = some parent' ∧ parent'.nHeight = parent.nHeight := by
    intro p parent parentFound
    by_cases same : p = b
    · subst same
      rw [found, Option.some_inj] at parentFound
      subst parentFound
      exact ⟨entry', Function.update_self _ _ _, sameHeight⟩
    · exact ⟨parent, by rw [Function.update_of_ne same, parentFound], rfl⟩
  constructor
  · intro c entry'' found' unlinked
    rcases lookup found' with ⟨-, rfl⟩ | ⟨-, old⟩
    · rw [sameHeight]
      exact tree.root found (samePrev ▸ unlinked)
    · exact tree.root old unlinked
  · intro c entry'' p found' linked
    rcases lookup found' with ⟨-, rfl⟩ | ⟨-, old⟩
    · obtain ⟨parent, parentFound, oneAbove⟩ := tree.parent found (samePrev ▸ linked)
      obtain ⟨parent', parentFound', parentHeight⟩ := keepsParent parentFound
      exact ⟨parent', parentFound', by omega⟩
    · obtain ⟨parent, parentFound, oneAbove⟩ := tree.parent old linked
      obtain ⟨parent', parentFound', parentHeight⟩ := keepsParent parentFound
      exact ⟨parent', parentFound', by omega⟩
  · intro c entry'' s found' skipped
    rw [← followPrev_congr links]
    rcases lookup found' with ⟨rfl, rfl⟩ | ⟨-, old⟩
    · rw [sameHeight, ancestor, skipped]
    · exact tree.skip old skipped

/-- `BuildSkip` keeps the tree well formed: in it, `GetAncestor` of the parent
at the skip height is the entry's ancestor there. -/
theorem SkipTree.buildSkip (tree : SkipTree blocks) {b : Id} {blocks' : BlockMap Id}
    (built : buildSkip blocks b = .ok blocks') : SkipTree blocks' := by
  unfold BlockMap.buildSkip at built
  cases found : blocks b with
  | none => simp [found] at built
  | some entry =>
      simp only [found] at built
      cases linked : entry.pprev with
      | none =>
          simp only [linked, Except.ok.injEq] at built
          exact built ▸ tree
      | some p =>
          obtain ⟨parent, parentFound, oneAbove⟩ := tree.parent found linked
          have back := getSkipHeight_lt (show 0 < entry.nHeight by omega)
          simp only [linked] at built
          rw [tree.getAncestor_eq parentFound, if_neg (by omega)] at built
          simp only [bind_pure_comp] at built
          obtain rfl := Except.ok.inj built
          dsimp only
          refine tree.setSkip found linked.symm rfl ?_
          rw [show entry.nHeight - getSkipHeight entry.nHeight = parent.nHeight - (getSkipHeight entry.nHeight : Int).toNat + 1
            by omega, followPrev_succ _ found linked]

/-- `AddToBlockIndex` keeps the tree well formed. -/
theorem SkipTree.addToBlockIndex (tree : SkipTree blocks) {pindexNew : Id} {miPrev : Option Id}
    {blocks' : BlockMap Id} (added : addToBlockIndex blocks pindexNew miPrev = .ok blocks') : SkipTree blocks' := by
  unfold BlockMap.addToBlockIndex at added
  split_ifs at added with present
  · cases added
    exact tree
  have fresh : blocks pindexNew = none := Option.not_isSome_iff_eq_none.mp present
  cases miPrev with
  | none =>
      cases added
      exact tree.update_fresh fresh rfl (fun _ => rfl) (fun linked => by cases linked)
  | some pprev =>
      cases parentFound : blocks pprev with
      | none => simp [parentFound] at added
      | some parent =>
          simp only [parentFound] at added
          refine SkipTree.buildSkip ?_ added
          exact tree.update_fresh fresh rfl (fun unlinked => by cases unlinked)
            (fun linked => by cases linked; exact ⟨parent, parentFound, rfl⟩)

/-- Every index `AddToBlockIndex` builds is a well-formed skip tree. -/
theorem Built.skipTree {blocks : BlockMap Id} (built : Built blocks) : SkipTree blocks := by
  induction built with
  | empty => refine ⟨fun found => ?_, fun found => ?_, fun found => ?_⟩ <;> simp at found
  | add _ added inductionHypothesis => exact inductionHypothesis.addToBlockIndex added

end Building

end BlockMap

end Qbitcoin
