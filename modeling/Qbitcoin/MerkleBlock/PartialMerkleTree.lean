import Qbitcoin.Consensus.Merkle
import Qbitcoin.Consensus.TxCheck
import Qbitcoin.MerkleBlock.Bits

/-!
# Partial merkle trees

`CPartialMerkleTree` of `merkleblock.cpp` (BIP37): a depth-first traversal of
the merkle tree of a block that keeps one flag bit per visited node and the
hashes of the subtrees it does not enter, so that a light client can check
the matched txids against the block's merkle root.  `TraverseAndBuild` writes
the traversal and `TraverseAndExtract` reads it back; both descend into a
right child only where the level has one, so the tree of a block of any size
is the tree `ComputeMerkleRoot` builds, with odd levels closing on their last
node hashed with itself (`calcHash_treeHeight`).
-/

namespace Qbitcoin

/-- `MIN_TRANSACTION_WEIGHT`. -/
def MIN_TRANSACTION_WEIGHT : Nat := WITNESS_SCALE_FACTOR * 2760

/-- `CPartialMerkleTree`: the number of transactions of the block, the flag
bits of the traversal and the hashes it stored, and the flag set on invalid
data. -/
structure CPartialMerkleTree where
  nTransactions : Nat
  vBits : List Bool
  vHash : List uint256
  fBad : Bool

namespace CPartialMerkleTree

/-- `CalcTreeWidth`: the number of nodes at `height` over `nTransactions`
leaves.  The C++ computes it in `unsigned int`, where it does not wrap for the
block sizes `ExtractMatches` admits. -/
def calcTreeWidth (nTransactions height : Nat) : Nat :=
  (nTransactions + (1 <<< height) - 1) >>> height

theorem calcTreeWidth_eq (nTransactions height : Nat) :
    calcTreeWidth nTransactions height = (nTransactions + 2 ^ height - 1) / 2 ^ height := by
  rw [calcTreeWidth, Nat.one_shiftLeft, Nat.shiftRight_eq_div_pow]

/-- A position is inside a level exactly when its leftmost leaf is a
transaction. -/
theorem lt_calcTreeWidth_iff {nTransactions height pos : Nat} :
    pos < calcTreeWidth nTransactions height ↔ pos * 2 ^ height < nTransactions := by
  have positive := Nat.two_pow_pos height
  rw [calcTreeWidth_eq, ← Nat.add_one_le_iff, Nat.le_div_iff_mul_le positive, Nat.add_mul, Nat.one_mul]
  omega

/-- The children of a node inside a level: the left one always, the right one
when `pos * 2 + 1 < CalcTreeWidth(height - 1)`. -/
theorem mul_two_lt_calcTreeWidth {nTransactions height pos : Nat}
    (inside : pos < calcTreeWidth nTransactions (height + 1)) : pos * 2 < calcTreeWidth nTransactions height := by
  rw [lt_calcTreeWidth_iff] at inside ⊢
  rwa [Nat.mul_assoc, ← Nat.pow_succ']

theorem calcTreeWidth_succ (nTransactions height : Nat) :
    calcTreeWidth nTransactions (height + 1) = (calcTreeWidth nTransactions height + 1) / 2 := by
  apply eq_of_forall_lt_iff
  intro pos
  have halved : pos < (calcTreeWidth nTransactions height + 1) / 2 ↔ pos * 2 < calcTreeWidth nTransactions height := by
    omega
  rw [halved, lt_calcTreeWidth_iff, lt_calcTreeWidth_iff, Nat.mul_assoc, ← Nat.pow_succ']

@[simp]
theorem calcTreeWidth_zero (nTransactions : Nat) : calcTreeWidth nTransactions 0 = nTransactions := by
  simp [calcTreeWidth_eq]

theorem calcTreeWidth_pos {nTransactions : Nat} (nonempty : 0 < nTransactions) (height : Nat) :
    0 < calcTreeWidth nTransactions height := by
  rw [lt_calcTreeWidth_iff, Nat.zero_mul]
  exact nonempty

/-- The height loop of the constructor and of `ExtractMatches`,
`while (CalcTreeWidth(nHeight) > 1) nHeight++`. -/
def treeHeightLoop (nTransactions height : Nat) : Nat :=
  if calcTreeWidth nTransactions height > 1 then treeHeightLoop nTransactions (height + 1) else height
termination_by nTransactions - height
decreasing_by
  rename_i wide
  have above : 2 ^ height < nTransactions := by
    rw [gt_iff_lt, lt_calcTreeWidth_iff, Nat.one_mul] at wide
    exact wide
  have power : height < 2 ^ height := Nat.lt_two_pow_self
  omega

/-- The height of the tree over `nTransactions` leaves. -/
def treeHeight (nTransactions : Nat) : Nat := treeHeightLoop nTransactions 0

/-- At the height the loop stops at, the level is the root alone. -/
theorem calcTreeWidth_treeHeightLoop_le (nTransactions height : Nat) :
    calcTreeWidth nTransactions (treeHeightLoop nTransactions height) ≤ 1 := by
  fun_induction treeHeightLoop nTransactions height with
  | case1 height wide inductionHypothesis => exact inductionHypothesis
  | case2 height narrow => exact Nat.not_lt.mp narrow

theorem le_two_pow_treeHeight (nTransactions : Nat) : nTransactions ≤ 2 ^ treeHeight nTransactions := by
  have narrow := calcTreeWidth_treeHeightLoop_le nTransactions 0
  rw [← Nat.not_lt, lt_calcTreeWidth_iff, Nat.one_mul] at narrow
  exact Nat.not_lt.mp narrow

/-- `CalcHash`: the hash of the node at `height`, `pos`, the txids themselves
at height 0; a node without a right child is hashed with itself.  The C++
asserts that `vTxid` is not empty, which the model does not: it reads
`uint256()` past the end. -/
def calcHash (hashes : Hashes) (nTransactions : Nat) (vTxid : List uint256) : Nat → Nat → uint256
  | 0, pos => vTxid.getD pos uint256.zero
  | height + 1, pos =>
      let left := calcHash hashes nTransactions vTxid height (pos * 2)
      let right :=
        if pos * 2 + 1 < calcTreeWidth nTransactions height then calcHash hashes nTransactions vTxid height (pos * 2 + 1)
        else left
      hashPair hashes left right

/-! ## `CalcHash` computes the levels of `ComputeMerkleRoot` -/

theorem length_iterate_merkleLevel (hashes : Hashes) (vTxid : List uint256) (height : Nat) :
    ((merkleLevel hashes)^[height] vTxid).length = calcTreeWidth vTxid.length height := by
  induction height with
  | zero => simp
  | succ height inductionHypothesis =>
      rw [Function.iterate_succ_apply', length_merkleLevel, inductionHypothesis, calcTreeWidth_succ]

/-- The node at `pos` of the next level hashes the nodes at `pos * 2` and
`pos * 2 + 1`, the first one twice when the second is missing. -/
theorem getD_merkleLevel (hashes : Hashes) {level : List uint256} {pos : Nat} (inside : pos * 2 < level.length) :
    (merkleLevel hashes level).getD pos uint256.zero =
      hashPair hashes (level.getD (pos * 2) uint256.zero)
        (if pos * 2 + 1 < level.length then level.getD (pos * 2 + 1) uint256.zero
          else level.getD (pos * 2) uint256.zero) := by
  induction level using merkleLevel.induct generalizing pos with
  | case1 => simp at inside
  | case2 last =>
      have first : pos = 0 := by simp at inside; omega
      subst first
      simp [merkleLevel]
  | case3 left right rest inductionHypothesis =>
      cases pos with
      | zero => simp [merkleLevel]
      | succ pos =>
          have inside' : pos * 2 < rest.length := by simp at inside; omega
          have shifted : (pos + 1) * 2 = pos * 2 + 2 := by omega
          simp only [merkleLevel, List.getD_cons_succ, shifted, List.length_cons]
          rw [inductionHypothesis inside']
          simp only [show pos * 2 + 2 + 1 = pos * 2 + 1 + 1 + 1 by omega]
          congr 1
          simp only [Nat.add_lt_add_iff_right]

/-- `CalcHash` reads the node off the levels `ComputeMerkleRoot` builds. -/
theorem calcHash_eq_getD (hashes : Hashes) (vTxid : List uint256) (height : Nat) {pos : Nat}
    (inside : pos < calcTreeWidth vTxid.length height) :
    calcHash hashes vTxid.length vTxid height pos = ((merkleLevel hashes)^[height] vTxid).getD pos uint256.zero := by
  induction height generalizing pos with
  | zero => rfl
  | succ height inductionHypothesis =>
      have left := mul_two_lt_calcTreeWidth inside
      rw [calcHash, Function.iterate_succ_apply', getD_merkleLevel hashes (by rwa [length_iterate_merkleLevel]),
        length_iterate_merkleLevel, inductionHypothesis left]
      by_cases right : pos * 2 + 1 < calcTreeWidth vTxid.length height
      · rw [if_pos right, if_pos right, inductionHypothesis right]
      · rw [if_neg right, if_neg right]

/-- The positions the scan of `TraverseAndBuild` visits,
`for (p = pos << height; p < (pos+1) << height && p < nTransactions; p++)`:
the leaves below the node. -/
def leavesBelow (nTransactions height pos : Nat) : List Nat :=
  List.range' (pos <<< height) (min ((pos + 1) <<< height) nTransactions - pos <<< height)

/-- Whether the node is the parent of at least one matched txid. -/
def parentOfMatch (nTransactions : Nat) (vMatch : List Bool) (height pos : Nat) : Bool :=
  (leavesBelow nTransactions height pos).any fun p => vMatch.getD p false

/-- `TraverseAndBuild`: the flag bits and the hashes it pushes onto `vBits` and
`vHash` for the node at `height`, `pos`, in the order it pushes them.  A node
stores its hash and stops at height 0 or when nothing below it is matched, and
otherwise descends into its children. -/
def traverseAndBuild (hashes : Hashes) (nTransactions : Nat) (vTxid : List uint256) (vMatch : List Bool) :
    Nat → Nat → List Bool × List uint256
  | 0, pos => ([parentOfMatch nTransactions vMatch 0 pos], [calcHash hashes nTransactions vTxid 0 pos])
  | height + 1, pos =>
      let fParentOfMatch := parentOfMatch nTransactions vMatch (height + 1) pos
      if !fParentOfMatch then ([fParentOfMatch], [calcHash hashes nTransactions vTxid (height + 1) pos])
      else
        let left := traverseAndBuild hashes nTransactions vTxid vMatch height (pos * 2)
        let right :=
          if pos * 2 + 1 < calcTreeWidth nTransactions height then
            traverseAndBuild hashes nTransactions vTxid vMatch height (pos * 2 + 1)
          else ([], [])
        (fParentOfMatch :: left.1 ++ right.1, left.2 ++ right.2)

/-- The loop of `ComputeMerkleRoot` from the level at `height` stops where the
height loop does, at the root. -/
theorem merkleLoop_iterate (hashes : Hashes) (vTxid : List uint256) (height : Nat) (mutation : Bool) :
    (merkleLoop hashes ((merkleLevel hashes)^[height] vTxid) mutation).1 =
      ((merkleLevel hashes)^[treeHeightLoop vTxid.length height] vTxid).headD uint256.zero := by
  fun_induction treeHeightLoop vTxid.length height generalizing mutation with
  | case1 height wide inductionHypothesis =>
      rw [merkleLoop_of_long (by rwa [length_iterate_merkleLevel]), ← Function.iterate_succ_apply' (merkleLevel hashes),
        inductionHypothesis]
  | case2 height narrow =>
      rw [merkleLoop_of_short (by rw [length_iterate_merkleLevel]; exact Nat.not_lt.mp narrow)]

/-- The root `CalcHash` computes is the merkle root of the txids. -/
theorem calcHash_treeHeight (hashes : Hashes) {vTxid : List uint256} (nonempty : vTxid ≠ []) :
    calcHash hashes vTxid.length vTxid (treeHeight vTxid.length) 0 = (computeMerkleRoot hashes vTxid).1 := by
  have root := merkleLoop_iterate hashes vTxid 0 false
  rw [Function.iterate_zero_apply, List.headD_eq_getD] at root
  rw [calcHash_eq_getD hashes vTxid _ (calcTreeWidth_pos (List.length_pos_iff.mpr nonempty) _), computeMerkleRoot,
    root, treeHeight]

/-- A node above height 0 with nothing matched below stores its hash. -/
theorem traverseAndBuild_succ_of_false {hashes : Hashes} {nTransactions : Nat} {vTxid : List uint256}
    {vMatch : List Bool} {height pos : Nat} (flag : parentOfMatch nTransactions vMatch (height + 1) pos = false) :
    traverseAndBuild hashes nTransactions vTxid vMatch (height + 1) pos =
      ([false], [calcHash hashes nTransactions vTxid (height + 1) pos]) := by
  simp [traverseAndBuild, flag]

/-- A flagged node with two children: its bit, then the left child's output,
then the right child's. -/
theorem traverseAndBuild_of_right {hashes : Hashes} {nTransactions : Nat} {vTxid : List uint256}
    {vMatch : List Bool} {height pos : Nat} (flag : parentOfMatch nTransactions vMatch (height + 1) pos = true)
    (hasRight : pos * 2 + 1 < calcTreeWidth nTransactions height) :
    traverseAndBuild hashes nTransactions vTxid vMatch (height + 1) pos =
      (true :: (traverseAndBuild hashes nTransactions vTxid vMatch height (pos * 2)).1 ++
          (traverseAndBuild hashes nTransactions vTxid vMatch height (pos * 2 + 1)).1,
        (traverseAndBuild hashes nTransactions vTxid vMatch height (pos * 2)).2 ++
          (traverseAndBuild hashes nTransactions vTxid vMatch height (pos * 2 + 1)).2) := by
  simp only [traverseAndBuild, flag, Bool.not_true, Bool.false_eq_true, if_false, if_pos hasRight]

/-- A flagged node whose left child is the last of its level: its bit, then
the left child's output. -/
theorem traverseAndBuild_of_no_right {hashes : Hashes} {nTransactions : Nat} {vTxid : List uint256}
    {vMatch : List Bool} {height pos : Nat} (flag : parentOfMatch nTransactions vMatch (height + 1) pos = true)
    (noRight : ¬ pos * 2 + 1 < calcTreeWidth nTransactions height) :
    traverseAndBuild hashes nTransactions vTxid vMatch (height + 1) pos =
      (true :: (traverseAndBuild hashes nTransactions vTxid vMatch height (pos * 2)).1,
        (traverseAndBuild hashes nTransactions vTxid vMatch height (pos * 2)).2) := by
  simp only [traverseAndBuild, flag, Bool.not_true, Bool.false_eq_true, if_false, if_neg noRight, List.append_nil]

end CPartialMerkleTree

/-- The constructor `CPartialMerkleTree(vTxid, vMatch)`: the traversal from
the root over the txids of the block. -/
def CPartialMerkleTree.ofTxids (hashes : Hashes) (vTxid : List uint256) (vMatch : List Bool) : CPartialMerkleTree :=
  let nTransactions := vTxid.length
  let built := traverseAndBuild hashes nTransactions vTxid vMatch (treeHeight nTransactions) 0
  { nTransactions, vBits := built.1, vHash := built.2, fBad := false }

/-- What `TraverseAndExtract` reads and writes besides the tree: the counters
`nBitsUsed` and `nHashUsed`, the output vectors `vMatch` and `vnIndex`, and the
tree's `fBad`. -/
structure ExtractState where
  nBitsUsed : Nat
  nHashUsed : Nat
  vMatch : List uint256
  vnIndex : List Nat
  fBad : Bool

namespace CPartialMerkleTree

/-- The branch of `TraverseAndExtract` at height 0 or when nothing below is
matched: the next stored hash, recorded as a match at height 0 when the flag
is set. -/
def useStoredHash (tree : CPartialMerkleTree) (height pos : Nat) (fParentOfMatch : Bool) (st : ExtractState) :
    uint256 × ExtractState :=
  if st.nHashUsed ≥ tree.vHash.length then (uint256.zero, { st with fBad := true })
  else
    let hash := tree.vHash.getD st.nHashUsed uint256.zero
    let st := { st with nHashUsed := st.nHashUsed + 1 }
    if height = 0 ∧ fParentOfMatch = true then (hash, { st with vMatch := st.vMatch ++ [hash], vnIndex := st.vnIndex ++ [pos] })
    else (hash, st)

/-- `TraverseAndExtract`: the hash of the node at `height`, `pos`, consuming
flag bits and hashes in the order `TraverseAndBuild` produced them.  Identical
siblings set `fBad`: the txids below them would not be unique. -/
def traverseAndExtract (hashes : Hashes) (tree : CPartialMerkleTree) : Nat → Nat → ExtractState → uint256 × ExtractState
  | height, pos, st =>
      if st.nBitsUsed ≥ tree.vBits.length then (uint256.zero, { st with fBad := true })
      else
        let fParentOfMatch := tree.vBits.getD st.nBitsUsed false
        let st := { st with nBitsUsed := st.nBitsUsed + 1 }
        match height with
        | 0 => useStoredHash tree 0 pos fParentOfMatch st
        | height + 1 =>
            if !fParentOfMatch then useStoredHash tree (height + 1) pos fParentOfMatch st
            else
              let (left, st) := traverseAndExtract hashes tree height (pos * 2) st
              if pos * 2 + 1 < calcTreeWidth tree.nTransactions height then
                let (right, st) := traverseAndExtract hashes tree height (pos * 2 + 1) st
                (hashPair hashes left right, if right = left then { st with fBad := true } else st)
              else (hashPair hashes left left, st)

/-! ## The branches of `TraverseAndExtract` -/

section Branches

variable {hashes : Hashes} {tree : CPartialMerkleTree} {height pos : Nat} {st : ExtractState}

theorem useStoredHash_of_le {fParentOfMatch : Bool} (used : tree.vHash.length ≤ st.nHashUsed) :
    useStoredHash tree height pos fParentOfMatch st = (uint256.zero, { st with fBad := true }) := by
  rw [useStoredHash, if_pos used]

/-- The next stored hash, recorded as a match for a set flag at height 0. -/
theorem useStoredHash_of_lt {fParentOfMatch : Bool} (unused : st.nHashUsed < tree.vHash.length) :
    useStoredHash tree height pos fParentOfMatch st =
      (tree.vHash.getD st.nHashUsed uint256.zero,
        { st with
          nHashUsed := st.nHashUsed + 1
          vMatch := st.vMatch ++ if height = 0 ∧ fParentOfMatch = true then [tree.vHash.getD st.nHashUsed uint256.zero] else []
          vnIndex := st.vnIndex ++ if height = 0 ∧ fParentOfMatch = true then [pos] else [] }) := by
  rw [useStoredHash, if_neg (Nat.not_le.mpr unused)]
  by_cases matched : height = 0 ∧ fParentOfMatch = true
  · simp only [if_pos matched]
  · simp only [if_neg matched, List.append_nil]

theorem traverseAndExtract_of_le (used : tree.vBits.length ≤ st.nBitsUsed) :
    traverseAndExtract hashes tree height pos st = (uint256.zero, { st with fBad := true }) := by
  cases height <;> rw [traverseAndExtract, if_pos used]

theorem traverseAndExtract_zero (unused : st.nBitsUsed < tree.vBits.length) :
    traverseAndExtract hashes tree 0 pos st =
      useStoredHash tree 0 pos (tree.vBits.getD st.nBitsUsed false) { st with nBitsUsed := st.nBitsUsed + 1 } := by
  rw [traverseAndExtract, if_neg (Nat.not_le.mpr unused)]

theorem traverseAndExtract_succ_of_false (unused : st.nBitsUsed < tree.vBits.length)
    (flag : tree.vBits.getD st.nBitsUsed false = false) :
    traverseAndExtract hashes tree (height + 1) pos st =
      useStoredHash tree (height + 1) pos false { st with nBitsUsed := st.nBitsUsed + 1 } := by
  rw [traverseAndExtract, if_neg (Nat.not_le.mpr unused)]
  simp only [flag, Bool.not_false, if_true]

/-- A set flag above height 0 descends; without a right child the left hash is
hashed with itself. -/
theorem traverseAndExtract_of_no_right {left : uint256} {stLeft : ExtractState}
    (unused : st.nBitsUsed < tree.vBits.length) (flag : tree.vBits.getD st.nBitsUsed false = true)
    (leftCall : traverseAndExtract hashes tree height (pos * 2) { st with nBitsUsed := st.nBitsUsed + 1 } = (left, stLeft))
    (noRight : ¬ pos * 2 + 1 < calcTreeWidth tree.nTransactions height) :
    traverseAndExtract hashes tree (height + 1) pos st = (hashPair hashes left left, stLeft) := by
  rw [traverseAndExtract, if_neg (Nat.not_le.mpr unused)]
  simp only [flag, Bool.not_true, Bool.false_eq_true, if_false, leftCall, if_neg noRight]

/-- A set flag above height 0 descends into both children; equal child hashes
set `fBad`. -/
theorem traverseAndExtract_of_right {left right : uint256} {stLeft stRight : ExtractState}
    (unused : st.nBitsUsed < tree.vBits.length) (flag : tree.vBits.getD st.nBitsUsed false = true)
    (leftCall : traverseAndExtract hashes tree height (pos * 2) { st with nBitsUsed := st.nBitsUsed + 1 } = (left, stLeft))
    (hasRight : pos * 2 + 1 < calcTreeWidth tree.nTransactions height)
    (rightCall : traverseAndExtract hashes tree height (pos * 2 + 1) stLeft = (right, stRight)) :
    traverseAndExtract hashes tree (height + 1) pos st =
      (hashPair hashes left right, if right = left then { stRight with fBad := true } else stRight) := by
  rw [traverseAndExtract, if_neg (Nat.not_le.mpr unused)]
  simp only [flag, Bool.not_true, Bool.false_eq_true, if_false, leftCall, if_pos hasRight, rightCall]

theorem fBad_useStoredHash {fParentOfMatch : Bool} (bad : st.fBad = true) :
    (useStoredHash tree height pos fParentOfMatch st).2.fBad = true := by
  by_cases used : tree.vHash.length ≤ st.nHashUsed
  · rw [useStoredHash_of_le used]
  · rw [useStoredHash_of_lt (Nat.not_le.mp used)]
    exact bad

/-- `TraverseAndExtract` never clears `fBad`. -/
theorem fBad_traverseAndExtract (bad : st.fBad = true) : (traverseAndExtract hashes tree height pos st).2.fBad = true := by
  induction height generalizing pos st with
  | zero =>
      by_cases used : tree.vBits.length ≤ st.nBitsUsed
      · rw [traverseAndExtract_of_le used]
      · rw [traverseAndExtract_zero (Nat.not_le.mp used)]
        exact fBad_useStoredHash bad
  | succ height inductionHypothesis =>
      by_cases used : tree.vBits.length ≤ st.nBitsUsed
      · rw [traverseAndExtract_of_le used]
      cases flag : tree.vBits.getD st.nBitsUsed false with
      | false =>
          rw [traverseAndExtract_succ_of_false (Nat.not_le.mp used) flag]
          exact fBad_useStoredHash bad
      | true =>
          rcases leftCall : traverseAndExtract hashes tree height (pos * 2) { st with nBitsUsed := st.nBitsUsed + 1 } with
            ⟨left, stLeft⟩
          have leftBad : stLeft.fBad = true := by
            have kept : (traverseAndExtract hashes tree height (pos * 2)
                { st with nBitsUsed := st.nBitsUsed + 1 }).2.fBad = true := inductionHypothesis bad
            rwa [leftCall] at kept
          by_cases hasRight : pos * 2 + 1 < calcTreeWidth tree.nTransactions height
          · rcases rightCall : traverseAndExtract hashes tree height (pos * 2 + 1) stLeft with ⟨right, stRight⟩
            have rightBad : stRight.fBad = true := by
              have kept : (traverseAndExtract hashes tree height (pos * 2 + 1) stLeft).2.fBad = true :=
                inductionHypothesis leftBad
              rwa [rightCall] at kept
            rw [traverseAndExtract_of_right (Nat.not_le.mp used) flag leftCall hasRight rightCall]
            split <;> simp [rightBad]
          · rw [traverseAndExtract_of_no_right (Nat.not_le.mp used) flag leftCall hasRight]
            exact leftBad

end Branches

/-- `ExtractMatches`: the merkle root, zero on failure, with the matched txids
in `vMatch` (cleared first) and their positions appended to `vnIndex` (which
the C++ does not clear).  Every bit must be consumed, except for the padding
of the last byte. -/
def extractMatches (hashes : Hashes) (tree : CPartialMerkleTree) (vnIndex : List Nat) : uint256 × ExtractState :=
  let st : ExtractState := { nBitsUsed := 0, nHashUsed := 0, vMatch := [], vnIndex, fBad := tree.fBad }
  if tree.nTransactions = 0 then (uint256.zero, st)
  else if tree.nTransactions > MAX_BLOCK_WEIGHT / MIN_TRANSACTION_WEIGHT then (uint256.zero, st)
  else if tree.vHash.length > tree.nTransactions then (uint256.zero, st)
  else if tree.vBits.length < tree.vHash.length then (uint256.zero, st)
  else
    let (hashMerkleRoot, st) := traverseAndExtract hashes tree (treeHeight tree.nTransactions) 0 st
    if st.fBad then (uint256.zero, st)
    else if (st.nBitsUsed + 7) / 8 ≠ (tree.vBits.length + 7) / 8 then (uint256.zero, st)
    else if st.nHashUsed ≠ tree.vHash.length then (uint256.zero, st)
    else (hashMerkleRoot, st)

/-- The tree `SERIALIZE_METHODS` reads back from the bytes it wrote:
`nTransactions` and `vHash` as they were, the flag bits through
`BitsToBytes` and `BytesToBits`, and `fBad` cleared. -/
def readBack (tree : CPartialMerkleTree) : CPartialMerkleTree :=
  { tree with vBits := bytesToBits (bitsToBytes tree.vBits), fBad := false }

end CPartialMerkleTree

end Qbitcoin
