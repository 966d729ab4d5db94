import Qbitcoin.Chain.ActiveChain
import Qbitcoin.Chain.BlockIndex
import Qbitcoin.Lib.Median

/-!
# Median time past over the block index

`CBlockIndex::GetMedianTimePast` read through the pointers of the block index
of `Chain/SkipList.lean`, with each entry's `GetBlockTime` given as a function
of the pointer.  `ContextualCheckBlockHeader` rejects a block whose time is not
above its parent's median time past (`time-too-old`); in an index of such
blocks the median time past never drops along a chain, which is what lets
`GetStateFor` stop its walk back at the first period that ends before the
deployment's start.

The entries of `Chain/BlockIndex.lean`, on which the lock-time rules ask both
queries, walk `pprev` only.  In the index of all of them (`CBlockIndex.blockMap`),
each `pskip` set as `BuildSkip` sets it, the pointer walks of this module and
of `Chain/SkipList.lean` return what they return (`getAncestor_blockMap`,
`getMedianTimePast_blockMap`).
-/

namespace Qbitcoin

namespace BlockMap

variable {Id : Type} {blocks : BlockMap Id} {blockTime : Id → Int}

/-- The times the loop of `GetMedianTimePast` collects,
`for (i = 0; i < n && pindex; i++, pindex = pindex->pprev)`: the block's own
and those of its ancestors, at most `n` of them, newest first. -/
def recentTimes (blocks : BlockMap Id) (blockTime : Id → Int) : Nat → Option Id → List Int
  | 0, _ => []
  | _ + 1, none => []
  | n + 1, some pindex => blockTime pindex :: recentTimes blocks blockTime n (prevOf blocks (some pindex))

/-- `GetMedianTimePast`: the upper middle of the sorted times of the last
`nMedianTimeSpan` blocks.  The C++ fills its array oldest block first, which
the sort makes irrelevant. -/
def getMedianTimePast (blocks : BlockMap Id) (blockTime : Id → Int) (pindex : Id) : Int :=
  upperMedian (recentTimes blocks blockTime CBlockIndex.nMedianTimeSpan (some pindex))

/-- The timestamp rule of `ContextualCheckBlockHeader`, held by every block of
the index: its time is above its parent's median time past. -/
def TimesAboveMedian (blocks : BlockMap Id) (blockTime : Id → Int) : Prop :=
  ∀ {b p : Id} {entry : SkipEntry Id}, blocks b = some entry → entry.pprev = some p →
    getMedianTimePast blocks blockTime p < blockTime b

/-- One more round of the loop collects at most one more time, at the end. -/
theorem recentTimes_succ (blocks : BlockMap Id) (blockTime : Id → Int) (n : Nat) (pindex : Option Id) :
    ∃ extra, recentTimes blocks blockTime (n + 1) pindex = recentTimes blocks blockTime n pindex ++ extra ∧
      extra.length ≤ 1 := by
  induction n generalizing pindex with
  | zero =>
      cases pindex with
      | none => exact ⟨[], rfl, by simp⟩
      | some p => exact ⟨[blockTime p], by simp [recentTimes], by simp⟩
  | succ n inductionHypothesis =>
      cases pindex with
      | none => exact ⟨[], rfl, by simp⟩
      | some p =>
          obtain ⟨extra, grown, short⟩ := inductionHypothesis (prevOf blocks (some p))
          refine ⟨extra, ?_, short⟩
          rw [recentTimes, recentTimes, grown, List.cons_append]

/-- A block's window is its own time followed by its parent's window less the
oldest time. -/
theorem recentTimes_child {b p : Id} {entry : SkipEntry Id} (found : blocks b = some entry)
    (linked : entry.pprev = some p) (n : Nat) :
    recentTimes blocks blockTime (n + 1) (some b) = blockTime b :: recentTimes blocks blockTime n (some p) := by
  simp [recentTimes, prevOf, found, linked]

variable (rule : TimesAboveMedian blocks blockTime)
include rule

/-- A block's median time past is at least its parent's. -/
theorem getMedianTimePast_pprev_le {b p : Id} {entry : SkipEntry Id} (found : blocks b = some entry)
    (linked : entry.pprev = some p) : getMedianTimePast blocks blockTime p ≤ getMedianTimePast blocks blockTime b := by
  obtain ⟨extra, grown, short⟩ := recentTimes_succ blocks blockTime 10 (some p)
  have newer := rule found linked
  unfold getMedianTimePast at newer ⊢
  rw [show CBlockIndex.nMedianTimeSpan = 10 + 1 from rfl, recentTimes_child found linked] at *
  rw [grown] at newer ⊢
  apply upperMedian_le_cons _ short newer
  simp [recentTimes]

/-- Along a chain the median time past never drops. -/
theorem getMedianTimePast_le_of_isAncestor {a b : Id} (ancestor : IsAncestor blocks a b) :
    getMedianTimePast blocks blockTime a ≤ getMedianTimePast blocks blockTime b := by
  obtain ⟨k, reached⟩ := ancestor
  induction k generalizing b with
  | zero =>
      rw [followPrev_zero, Option.some_inj] at reached
      rw [reached]
  | succ k inductionHypothesis =>
      cases found : blocks b with
      | none => simp [followPrev, found] at reached
      | some entry =>
          cases linked : entry.pprev with
          | none => simp [followPrev, found, linked] at reached
          | some p =>
              rw [followPrev_succ k found linked] at reached
              exact le_trans (inductionHypothesis reached) (getMedianTimePast_pprev_le rule found linked)

end BlockMap

/-! ## The index of the entries of `CBlockIndex` -/

namespace CBlockIndex

/-- The fields of `block` the skip list reads: its parent, the ancestor of the
parent at the skip height, which `BuildSkip` stores in `pskip`, and its height. -/
def skipEntry (block : CBlockIndex) : SkipEntry CBlockIndex :=
  ⟨block.pprev, block.pprev.map fun pprev => pprev.ancestorAt (getSkipHeight block.nHeight), block.nHeight⟩

/-- The block index in which every entry is allocated, each pointer standing
for the entry it points to. -/
def blockMap : BlockMap CBlockIndex := fun block => some block.skipEntry

theorem ancestorAt_nHeight (block : CBlockIndex) : block.ancestorAt block.nHeight = block := by
  cases block with
  | genesis nTime => rfl
  | child pprev nTime => simp [ancestorAt]

/-- Below a child's height, its walk is its parent's. -/
theorem ancestorAt_child (pprev : CBlockIndex) (nTime : UInt32) {height : Nat} (below : height ≤ pprev.nHeight) :
    (child pprev nTime).ancestorAt height = pprev.ancestorAt height := by
  rw [ancestorAt, if_pos (show height < (child pprev nTime).nHeight by rw [nHeight_child]; omega)]

/-- Following `k` links of the index from a block reaches its ancestor `k`
below it. -/
theorem followPrev_blockMap (k : Nat) : ∀ block : CBlockIndex, k ≤ block.nHeight →
    BlockMap.followPrev blockMap k block = some (block.ancestorAt (block.nHeight - k)) := by
  induction k with
  | zero =>
      intro block _
      rw [Nat.sub_zero, ancestorAt_nHeight]
      rfl
  | succ k inductionHypothesis =>
      intro block within
      cases block with
      | genesis nTime => cases within
      | child pprev nTime =>
          rw [nHeight_child] at within
          rw [BlockMap.followPrev_succ k (show blockMap (child pprev nTime) = some (child pprev nTime).skipEntry from rfl)
              rfl, inductionHypothesis pprev (by omega), nHeight_child, ancestorAt_child pprev nTime (by omega),
            show pprev.nHeight + 1 - (k + 1) = pprev.nHeight - k by omega]

/-- The index of the entries is a well-formed skip list. -/
theorem skipTree_blockMap : BlockMap.SkipTree blockMap where
  root := by
    intro block entry found unlinked
    cases found
    cases block with
    | genesis nTime => rfl
    | child pprev nTime => cases unlinked
  parent := by
    intro block entry p found linked
    cases found
    exact ⟨p.skipEntry, rfl, nHeight_of_pprev linked⟩
  skip := by
    intro block entry s found skipped
    cases found
    cases block with
    | genesis nTime => cases skipped
    | child pprev nTime =>
        simp only [skipEntry, CBlockIndex.pprev, Option.map_some, Option.some_inj] at skipped
        subst skipped
        have back := getSkipHeight_lt (show 0 < pprev.nHeight + 1 by omega)
        simp only [skipEntry, nHeight_child]
        rw [followPrev_blockMap _ _ (by rw [nHeight_child]; omega), nHeight_child,
          show pprev.nHeight + 1 - (pprev.nHeight + 1 - getSkipHeight (pprev.nHeight + 1)) =
            getSkipHeight (pprev.nHeight + 1) by omega,
          ancestorAt_child pprev nTime (by omega)]

/-- `GetAncestor` along `pprev` is the walk of the C++ over the skip list: in
the index of the entries, the walk that takes `pskip` where it can returns the
same ancestor, or `nullptr`, and never fails. -/
theorem getAncestor_blockMap (block : CBlockIndex) (height : Int) :
    BlockMap.getAncestor blockMap block height = .ok (block.getAncestor height) := by
  rw [skipTree_blockMap.getAncestor_eq (show blockMap block = some block.skipEntry from rfl), getAncestor]
  have sameHeight : block.skipEntry.nHeight = block.nHeight := rfl
  simp only [Bool.or_eq_true, decide_eq_true_eq, sameHeight]
  split_ifs with outside
  · rfl
  · rw [followPrev_blockMap _ _ (by omega), show block.nHeight - (block.nHeight - height.toNat) = height.toNat by omega]

theorem recentTimes_none (n : Nat) : BlockMap.recentTimes blockMap getBlockTime n none = [] := by
  cases n <;> rfl

/-- The times `GetMedianTimePast` collects through the index are the entry's. -/
theorem recentTimes_blockMap (n : Nat) : ∀ block : CBlockIndex,
    BlockMap.recentTimes blockMap getBlockTime n (some block) = block.recentTimes n := by
  induction n with
  | zero =>
      intro block
      cases block <;> rfl
  | succ n inductionHypothesis =>
      intro block
      cases block with
      | genesis nTime =>
          simp [BlockMap.recentTimes, BlockMap.prevOf, blockMap, skipEntry, CBlockIndex.pprev, recentTimes_none,
            recentTimes]
      | child pprev nTime =>
          simp only [BlockMap.recentTimes, BlockMap.prevOf, blockMap, skipEntry, CBlockIndex.pprev, Option.bind_some,
            inductionHypothesis, recentTimes]

/-- `GetMedianTimePast` along `pprev` is the one read through the index. -/
theorem getMedianTimePast_blockMap (block : CBlockIndex) :
    BlockMap.getMedianTimePast blockMap getBlockTime block = block.getMedianTimePast := by
  rw [BlockMap.getMedianTimePast, recentTimes_blockMap]
  rfl

end CBlockIndex

end Qbitcoin
