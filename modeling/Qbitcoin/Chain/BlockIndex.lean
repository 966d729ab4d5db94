import Mathlib.Data.List.Sort

/-!
# Block index entries

`CBlockIndex` of `chain.h`, with the two queries the lock-time rules ask of it:
`GetMedianTimePast` and `GetAncestor`.

An entry is the genesis block or a child of an entry, so its height is the
number of `pprev` links below it, which is what `AddToBlockIndex` stores in
`nHeight`; an entry whose height disagrees with its parent's cannot be built.
Of the entry's other fields only `nTime` is kept: nothing modelled here reads
the rest.  `GetAncestor` walks `pprev`; the C++ walk also takes `pskip`
pointers, each of which `BuildSkip` set to the ancestor at the height the walk
records, so both walks end at the same entry (`getAncestor_blockMap` in
`Chain/MedianTime.lean`).
-/

namespace Qbitcoin

/-- A `CBlockIndex` entry with the chain its `pprev` pointers reach. -/
inductive CBlockIndex where
  | genesis (nTime : UInt32)
  | child (pprev : CBlockIndex) (nTime : UInt32)
  deriving DecidableEq, Repr

namespace CBlockIndex

def nTime : CBlockIndex → UInt32
  | genesis nTime | child _ nTime => nTime

def pprev : CBlockIndex → Option CBlockIndex
  | genesis _ => none
  | child pprev _ => some pprev

/-- `nHeight`: the genesis block is at height 0, every other block one above
its parent. -/
def nHeight : CBlockIndex → Nat
  | genesis _ => 0
  | child pprev _ => pprev.nHeight + 1

/-- `GetBlockTime`. -/
def getBlockTime (block : CBlockIndex) : Int := block.nTime.toNat

/-- `nMedianTimeSpan`. -/
def nMedianTimeSpan : Nat := 11

/-- The times the loop of `GetMedianTimePast` collects: the block's own and
its ancestors', at most `n` of them. -/
def recentTimes : CBlockIndex → Nat → List Int
  | _, 0 => []
  | block@(genesis _), _ + 1 => [block.getBlockTime]
  | block@(child pprev _), n + 1 => block.getBlockTime :: pprev.recentTimes n

/-- `GetMedianTimePast`: the middle of the sorted times of the last
`nMedianTimeSpan` blocks, the upper middle one when there are evenly many.  The
C++ fills its array from the end, oldest block first, and `std::sort`s it; any
sort gives the same array. -/
def getMedianTimePast (block : CBlockIndex) : Int :=
  let pmedian := (block.recentTimes nMedianTimeSpan).insertionSort (· ≤ ·)
  pmedian.getD (pmedian.length / 2) 0

/-- The ancestor at `height` along `pprev`, the entry itself from its own
height up. -/
def ancestorAt : CBlockIndex → Nat → CBlockIndex
  | genesis nTime, _ => genesis nTime
  | block@(child pprev _), height => if height < block.nHeight then pprev.ancestorAt height else block

/-- `GetAncestor`: `nullptr` outside `[0, nHeight]`. -/
def getAncestor (block : CBlockIndex) (height : Int) : Option CBlockIndex :=
  if height > block.nHeight || height < 0 then none else some (block.ancestorAt height.toNat)

@[simp]
theorem nHeight_child (pprev : CBlockIndex) (nTime : UInt32) :
    (child pprev nTime).nHeight = pprev.nHeight + 1 := rfl

/-- A block with a parent is one above it. -/
theorem nHeight_of_pprev {block pprev : CBlockIndex} (parent : block.pprev = some pprev) :
    block.nHeight = pprev.nHeight + 1 := by
  cases block with
  | genesis nTime => cases parent
  | child pprev' nTime =>
      cases parent
      rfl

/-- The walk stops at the height it was asked for. -/
theorem nHeight_ancestorAt (block : CBlockIndex) {height : Nat} (below : height ≤ block.nHeight) :
    (block.ancestorAt height).nHeight = height := by
  induction block with
  | genesis nTime =>
      have zero : height = 0 := Nat.le_zero.mp below
      rw [zero]
      rfl
  | child pprev nTime inParent =>
      unfold ancestorAt
      split
      · rename_i lower
        exact inParent (by rw [nHeight_child] at lower; omega)
      · rename_i notLower
        omega

/-- `GetAncestor` finds an entry at every height from 0 to the block's own. -/
theorem getAncestor_of_le (block : CBlockIndex) {height : Int} (nonneg : 0 ≤ height)
    (below : height ≤ block.nHeight) :
    ∃ ancestor, block.getAncestor height = some ancestor ∧ (ancestor.nHeight : Int) = height := by
  have inRange : ¬ (height > block.nHeight || height < 0) = true := by
    simp only [Bool.or_eq_true, decide_eq_true_eq, not_or, not_lt]
    omega
  refine ⟨_, if_neg inRange, ?_⟩
  rw [nHeight_ancestorAt block (by omega)]
  omega

theorem getAncestor_eq_none {block : CBlockIndex} {height : Int}
    (outside : block.nHeight < height ∨ height < 0) : block.getAncestor height = none := by
  have outOfRange : (height > block.nHeight || height < 0) = true := by
    simp only [Bool.or_eq_true, decide_eq_true_eq]
    omega
  exact if_pos outOfRange

end CBlockIndex

end Qbitcoin
