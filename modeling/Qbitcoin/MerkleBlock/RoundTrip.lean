import Mathlib.Data.List.Nodup
import Qbitcoin.MerkleBlock.PartialMerkleTree

/-!
# The honest round trip

A tree built by `CPartialMerkleTree(vTxid, vMatch)` and read back from its
serialization gives, under `ExtractMatches`, the merkle root of the block, the
matched txids in order and their positions (`extractMatches_readBack_ofTxids`).
The extraction reads each node exactly where the construction wrote it
(`traverseAndExtract_traverseAndBuild`); the only way it can fail is the
identical-siblings check, which over distinct txids needs two different pairs
among those `CalcHash` hashes in the tree to have one digest
(`siblingsDiffer_or_collision`): two siblings with one hash have one leftmost
txid, or two of the tree's pairs collide.
-/

namespace Qbitcoin

namespace CPartialMerkleTree

/-- The matched positions below the node at `height`, `pos`, in increasing
order. -/
def matchedBelow (nTransactions : Nat) (vMatch : List Bool) (height pos : Nat) : List Nat :=
  (leavesBelow nTransactions height pos).filter fun p => vMatch.getD p false

/-- The children `CalcHash` hashes for the node at `pos` one level above
`height`: the left child, and the right child or the left child again. -/
def childPair (hashes : Hashes) (nTransactions : Nat) (vTxid : List uint256) (height pos : Nat) :
    uint256 × uint256 :=
  (calcHash hashes nTransactions vTxid height (pos * 2),
    if pos * 2 + 1 < calcTreeWidth nTransactions height then calcHash hashes nTransactions vTxid height (pos * 2 + 1)
    else calcHash hashes nTransactions vTxid height (pos * 2))

/-- Every pair `CalcHash` hashes in the tree over `vTxid`, level by level. -/
def nodePairs (hashes : Hashes) (vTxid : List uint256) : List (uint256 × uint256) :=
  (List.range (treeHeight vTxid.length)).flatMap fun height =>
    (List.range (calcTreeWidth vTxid.length (height + 1))).map (childPair hashes vTxid.length vTxid height)

theorem calcHash_succ (hashes : Hashes) (nTransactions : Nat) (vTxid : List uint256) (height pos : Nat) :
    calcHash hashes nTransactions vTxid (height + 1) pos =
      hashPair hashes (childPair hashes nTransactions vTxid height pos).1
        (childPair hashes nTransactions vTxid height pos).2 := rfl

theorem childPair_mem_nodePairs (hashes : Hashes) (vTxid : List uint256) {height pos : Nat}
    (low : height < treeHeight vTxid.length) (inside : pos < calcTreeWidth vTxid.length (height + 1)) :
    childPair hashes vTxid.length vTxid height pos ∈ nodePairs hashes vTxid := by
  simp only [nodePairs, List.mem_flatMap, List.mem_range, List.mem_map]
  exact ⟨height, low, pos, inside, rfl⟩

/-- A level of more than one node lies below the root. -/
theorem lt_treeHeight_of_wide {nTransactions height : Nat} (wide : 1 < calcTreeWidth nTransactions height) :
    height < treeHeight nTransactions := by
  rw [lt_calcTreeWidth_iff, Nat.one_mul] at wide
  exact (Nat.pow_lt_pow_iff_right (by decide)).mp (lt_of_lt_of_le wide (le_two_pow_treeHeight nTransactions))

/-- No two sibling nodes of the tree over `vTxid` have one hash. -/
def SiblingsDiffer (hashes : Hashes) (vTxid : List uint256) : Prop :=
  ∀ height pos, pos * 2 + 1 < calcTreeWidth vTxid.length height →
    calcHash hashes vTxid.length vTxid height (pos * 2) ≠ calcHash hashes vTxid.length vTxid height (pos * 2 + 1)

/-- The leaves below a node are those below its left child followed by those
below its right child, if it has one. -/
theorem leavesBelow_succ (nTransactions height pos : Nat) :
    leavesBelow nTransactions (height + 1) pos =
      leavesBelow nTransactions height (pos * 2) ++
        if pos * 2 + 1 < calcTreeWidth nTransactions height then leavesBelow nTransactions height (pos * 2 + 1) else [] := by
  have start : pos * 2 ^ (height + 1) = pos * 2 * 2 ^ height := by rw [Nat.pow_succ]; ring
  have stop : (pos + 1) * 2 ^ (height + 1) = pos * 2 * 2 ^ height + 2 * 2 ^ height := by rw [Nat.pow_succ]; ring
  have middle : (pos * 2 + 1) * 2 ^ height = pos * 2 * 2 ^ height + 2 ^ height := by ring
  have middleStop : (pos * 2 + 1 + 1) * 2 ^ height = pos * 2 * 2 ^ height + 2 * 2 ^ height := by ring
  simp only [leavesBelow, Nat.shiftLeft_eq, start, stop, middle, middleStop]
  split
  · rename_i hasRight
    rw [lt_calcTreeWidth_iff, middle] at hasRight
    have full : min (pos * 2 * 2 ^ height + 2 ^ height) nTransactions - pos * 2 * 2 ^ height = 2 ^ height := by omega
    rw [full, List.range'_append_1]
    congr 1
    omega
  · rename_i noRight
    rw [lt_calcTreeWidth_iff, middle] at noRight
    rw [List.append_nil]
    congr 1
    omega

/-- A node is left unflagged exactly when no leaf below it is matched. -/
theorem parentOfMatch_eq_false_iff {nTransactions : Nat} {vMatch : List Bool} {height pos : Nat} :
    parentOfMatch nTransactions vMatch height pos = false ↔ matchedBelow nTransactions vMatch height pos = [] := by
  simp [parentOfMatch, matchedBelow, List.filter_eq_nil_iff]

theorem matchedBelow_succ (nTransactions : Nat) (vMatch : List Bool) (height pos : Nat) :
    matchedBelow nTransactions vMatch (height + 1) pos =
      matchedBelow nTransactions vMatch height (pos * 2) ++
        if pos * 2 + 1 < calcTreeWidth nTransactions height then matchedBelow nTransactions vMatch height (pos * 2 + 1)
        else [] := by
  rw [matchedBelow, leavesBelow_succ, List.filter_append]
  split <;> rfl

/-- A leaf is its own only leaf. -/
theorem leavesBelow_zero {nTransactions pos : Nat} (inside : pos < nTransactions) :
    leavesBelow nTransactions 0 pos = [pos] := by
  have single : min ((pos + 1) <<< 0) nTransactions - pos <<< 0 = 1 := by
    simp only [Nat.shiftLeft_zero]
    omega
  rw [leavesBelow, single, Nat.shiftLeft_zero, List.range'_one]

theorem length_leavesBelow_pos {nTransactions height pos : Nat} (inside : pos < calcTreeWidth nTransactions height) :
    0 < (leavesBelow nTransactions height pos).length := by
  rw [lt_calcTreeWidth_iff] at inside
  have next : (pos + 1) * 2 ^ height = pos * 2 ^ height + 2 ^ height := Nat.add_one_mul _ _
  have positive := Nat.two_pow_pos height
  simp only [leavesBelow, List.length_range', Nat.shiftLeft_eq, next]
  omega

/-- Below the root are all the leaves. -/
theorem leavesBelow_treeHeight (nTransactions : Nat) :
    leavesBelow nTransactions (treeHeight nTransactions) 0 = List.range nTransactions := by
  have all : min ((0 + 1) <<< treeHeight nTransactions) nTransactions - 0 <<< treeHeight nTransactions = nTransactions := by
    rw [Nat.zero_add, Nat.one_shiftLeft, Nat.zero_shiftLeft, Nat.sub_zero]
    exact Nat.min_eq_right (le_two_pow_treeHeight nTransactions)
  rw [leavesBelow, all, Nat.zero_shiftLeft, List.range_eq_range']

/-- Two nodes of one level with one hash have the same leftmost txid, or two
different pairs of the tree collide. -/
theorem eq_leftmost_or_collision (hashes : Hashes) (vTxid : List uint256) (height : Nat) :
    ∀ {p q : Nat}, p < calcTreeWidth vTxid.length height → q < calcTreeWidth vTxid.length height →
      calcHash hashes vTxid.length vTxid height p = calcHash hashes vTxid.length vTxid height q →
      vTxid.getD (p * 2 ^ height) uint256.zero = vTxid.getD (q * 2 ^ height) uint256.zero ∨
        HashPairCollision hashes (nodePairs hashes vTxid) := by
  induction height with
  | zero =>
      intro p q _ _ same
      left
      simpa [calcHash] using same
  | succ height inductionHypothesis =>
      intro p q insideP insideQ same
      rw [calcHash_succ, calcHash_succ] at same
      by_cases samePair : childPair hashes vTxid.length vTxid height p = childPair hashes vTxid.length vTxid height q
      · have leftSame := congrArg Prod.fst samePair
        have shift : ∀ r, r * 2 ^ (height + 1) = r * 2 * 2 ^ height := fun r => by rw [Nat.pow_succ]; ring
        rw [shift, shift]
        exact inductionHypothesis (mul_two_lt_calcTreeWidth insideP) (mul_two_lt_calcTreeWidth insideQ) leftSame
      · have differ : p ≠ q := fun equal => samePair (by rw [equal])
        have low : height < treeHeight vTxid.length := by
          have := lt_treeHeight_of_wide (show 1 < calcTreeWidth vTxid.length (height + 1) by omega)
          omega
        exact .inr ⟨_, childPair_mem_nodePairs hashes vTxid low insideP, _,
          childPair_mem_nodePairs hashes vTxid low insideQ, samePair, same⟩

/-- Over distinct txids, siblings have different hashes unless two different
pairs of the tree collide. -/
theorem siblingsDiffer_or_collision (hashes : Hashes) {vTxid : List uint256} (distinct : vTxid.Nodup) :
    SiblingsDiffer hashes vTxid ∨ HashPairCollision hashes (nodePairs hashes vTxid) := by
  by_cases collision : HashPairCollision hashes (nodePairs hashes vTxid)
  · exact .inr collision
  · left
    intro height pos hasRight same
    have leftInside : pos * 2 < calcTreeWidth vTxid.length height := by omega
    rcases eq_leftmost_or_collision hashes vTxid height leftInside hasRight same with sameTxid | found
    · have leftLeaf := lt_calcTreeWidth_iff.mp leftInside
      have rightLeaf := lt_calcTreeWidth_iff.mp hasRight
      rw [List.getD_eq_getElem _ _ leftLeaf, List.getD_eq_getElem _ _ rightLeaf] at sameTxid
      have samePosition := (List.Nodup.getElem_inj_iff distinct).mp sameTxid
      have next : (pos * 2 + 1) * 2 ^ height = pos * 2 * 2 ^ height + 2 ^ height := Nat.add_one_mul _ _
      have positive := Nat.two_pow_pos height
      omega
    · exact collision found

/-- The bit or hash under the cursor of `TraverseAndExtract`. -/
theorem getD_at_cursor {α : Type} (before rest after : List α) (x d : α) :
    (before ++ (x :: rest) ++ after).getD before.length d = x := by
  simp [List.getD_eq_getElem?_getD]

theorem length_lt_at_cursor {α : Type} (before rest after : List α) (x : α) :
    before.length < (before ++ (x :: rest) ++ after).length := by
  simp only [List.length_append, List.length_cons]
  omega

section Honest

variable (hashes : Hashes) (vTxid : List uint256) (vMatch : List Bool) {tree : CPartialMerkleTree}

/-- Extracting the node where the tree holds what `TraverseAndBuild` stored
for it gives the node's hash and its matches, and moves the counters past
its bits and hashes.  The induction is on the height; the left child is read
with the right child's bits and hashes in the suffix, the right child with
the left child's in the prefix. -/
theorem traverseAndExtract_traverseAndBuild (differ : SiblingsDiffer hashes vTxid)
    (count : tree.nTransactions = vTxid.length) (height : Nat) :
    ∀ (st : ExtractState) (bitsBefore bitsAfter : List Bool) (hashesBefore hashesAfter : List uint256) {pos : Nat},
      pos < calcTreeWidth vTxid.length height →
      tree.vBits = bitsBefore ++ (traverseAndBuild hashes vTxid.length vTxid vMatch height pos).1 ++ bitsAfter →
      tree.vHash = hashesBefore ++ (traverseAndBuild hashes vTxid.length vTxid vMatch height pos).2 ++ hashesAfter →
      st.nBitsUsed = bitsBefore.length → st.nHashUsed = hashesBefore.length →
      traverseAndExtract hashes tree height pos st =
        (calcHash hashes vTxid.length vTxid height pos,
          { st with
            nBitsUsed := st.nBitsUsed + (traverseAndBuild hashes vTxid.length vTxid vMatch height pos).1.length
            nHashUsed := st.nHashUsed + (traverseAndBuild hashes vTxid.length vTxid vMatch height pos).2.length
            vMatch := st.vMatch ++ (matchedBelow vTxid.length vMatch height pos).map (vTxid.getD · uint256.zero)
            vnIndex := st.vnIndex ++ matchedBelow vTxid.length vMatch height pos }) := by
  induction height with
  | zero =>
      intro st bitsBefore bitsAfter hashesBefore hashesAfter pos inside bits stored bitsUsed hashUsed
      have leaf : leavesBelow vTxid.length 0 pos = [pos] := leavesBelow_zero (by simpa using inside)
      simp only [traverseAndBuild, parentOfMatch, leaf, List.any_cons, List.any_nil, Bool.or_false] at bits stored ⊢
      rw [traverseAndExtract_zero (by rw [bits, bitsUsed]; exact length_lt_at_cursor _ _ _ _), bits, bitsUsed,
        getD_at_cursor, useStoredHash_of_lt (by rw [stored, hashUsed]; exact length_lt_at_cursor _ _ _ _), stored,
        hashUsed, getD_at_cursor, matchedBelow, leaf]
      cases matched : vMatch.getD pos false with
      | false => simp only [List.filter_cons, matched, List.filter_nil]; simp
      | true => simp only [List.filter_cons, matched, List.filter_nil]; simp [calcHash]
  | succ height inductionHypothesis =>
      intro st bitsBefore bitsAfter hashesBefore hashesAfter pos inside bits stored bitsUsed hashUsed
      cases flag : parentOfMatch vTxid.length vMatch (height + 1) pos with
      | false =>
          have unmatched := parentOfMatch_eq_false_iff.mp flag
          rw [traverseAndBuild_succ_of_false flag] at bits stored ⊢
          rw [traverseAndExtract_succ_of_false (by rw [bits, bitsUsed]; exact length_lt_at_cursor _ _ _ _)
            (by rw [bits, bitsUsed, getD_at_cursor]),
            useStoredHash_of_lt (by rw [stored, hashUsed]; exact length_lt_at_cursor _ _ _ _), stored, hashUsed,
            getD_at_cursor, unmatched]
          simp
      | true =>
          have firstBit : ∃ rest, (traverseAndBuild hashes vTxid.length vTxid vMatch (height + 1) pos).1 =
              true :: rest := by
            by_cases hasRight : pos * 2 + 1 < calcTreeWidth vTxid.length height
            · exact ⟨_, by rw [traverseAndBuild_of_right flag hasRight]; rfl⟩
            · exact ⟨_, by rw [traverseAndBuild_of_no_right flag hasRight]⟩
          obtain ⟨rest, started⟩ := firstBit
          have unused : st.nBitsUsed < tree.vBits.length := by
            rw [bits, bitsUsed, started]
            exact length_lt_at_cursor _ _ _ _
          have flagRead : tree.vBits.getD st.nBitsUsed false = true := by
            rw [bits, bitsUsed, started]
            exact getD_at_cursor _ _ _ _ _
          by_cases hasRight : pos * 2 + 1 < calcTreeWidth vTxid.length height
          · rw [traverseAndBuild_of_right flag hasRight] at bits stored ⊢
            have leftCall := inductionHypothesis { st with nBitsUsed := st.nBitsUsed + 1 } (bitsBefore ++ [true])
              ((traverseAndBuild hashes vTxid.length vTxid vMatch height (pos * 2 + 1)).1 ++ bitsAfter) hashesBefore
              ((traverseAndBuild hashes vTxid.length vTxid vMatch height (pos * 2 + 1)).2 ++ hashesAfter)
              (mul_two_lt_calcTreeWidth inside) (by rw [bits]; simp) (by rw [stored]; simp) (by simp [bitsUsed]) hashUsed
            rw [traverseAndExtract_of_right unused flagRead leftCall (by rwa [count])
              (inductionHypothesis _ (bitsBefore ++ true :: (traverseAndBuild hashes vTxid.length vTxid vMatch height (pos * 2)).1)
                bitsAfter (hashesBefore ++ (traverseAndBuild hashes vTxid.length vTxid vMatch height (pos * 2)).2) hashesAfter
                hasRight (by rw [bits]; simp) (by rw [stored]; simp) (by simp [bitsUsed]; omega) (by simp [hashUsed])),
              if_neg (differ height pos hasRight).symm, matchedBelow_succ, if_pos hasRight]
            simp only [calcHash, if_pos hasRight, List.length_cons, List.length_append, List.map_append,
              List.append_assoc, Prod.mk.injEq, ExtractState.mk.injEq, true_and, and_true]
            omega
          · rw [traverseAndBuild_of_no_right flag hasRight] at bits stored ⊢
            rw [traverseAndExtract_of_no_right unused flagRead
              (inductionHypothesis { st with nBitsUsed := st.nBitsUsed + 1 } (bitsBefore ++ [true]) bitsAfter hashesBefore
                hashesAfter (mul_two_lt_calcTreeWidth inside) (by rw [bits]; simp) stored (by simp [bitsUsed]) hashUsed)
              (by rwa [count]), matchedBelow_succ, if_neg hasRight]
            simp only [calcHash, if_neg hasRight, List.length_cons, List.append_nil, Prod.mk.injEq,
              ExtractState.mk.injEq, true_and, and_true]
            omega

/-- Every node stored as a hash also stored its flag bit. -/
theorem length_hashes_le_length_bits (height pos : Nat) :
    (traverseAndBuild hashes vTxid.length vTxid vMatch height pos).2.length ≤
      (traverseAndBuild hashes vTxid.length vTxid vMatch height pos).1.length := by
  induction height generalizing pos with
  | zero => simp [traverseAndBuild]
  | succ height inductionHypothesis =>
      have left := inductionHypothesis (pos * 2)
      have right := inductionHypothesis (pos * 2 + 1)
      cases flag : parentOfMatch vTxid.length vMatch (height + 1) pos with
      | false => simp [traverseAndBuild_succ_of_false flag]
      | true =>
          by_cases hasRight : pos * 2 + 1 < calcTreeWidth vTxid.length height
          · rw [traverseAndBuild_of_right flag hasRight, List.length_append, List.length_append, List.length_cons]
            omega
          · rw [traverseAndBuild_of_no_right flag hasRight]
            simp only [List.length_cons]
            omega

theorem length_hashes_le_leavesBelow (height : Nat) {pos : Nat} (inside : pos < calcTreeWidth vTxid.length height) :
    (traverseAndBuild hashes vTxid.length vTxid vMatch height pos).2.length ≤
      (leavesBelow vTxid.length height pos).length := by
  induction height generalizing pos with
  | zero =>
      rw [leavesBelow_zero (by simpa using inside)]
      simp [traverseAndBuild]
  | succ height inductionHypothesis =>
      have someLeaf := length_leavesBelow_pos inside
      cases flag : parentOfMatch vTxid.length vMatch (height + 1) pos with
      | false =>
          rw [traverseAndBuild_succ_of_false flag, List.length_singleton]
          exact someLeaf
      | true =>
          have left := inductionHypothesis (mul_two_lt_calcTreeWidth inside)
          rw [leavesBelow_succ]
          by_cases hasRight : pos * 2 + 1 < calcTreeWidth vTxid.length height
          · have right := inductionHypothesis hasRight
            rw [traverseAndBuild_of_right flag hasRight, if_pos hasRight, List.length_append, List.length_append]
            omega
          · rw [traverseAndBuild_of_no_right flag hasRight, if_neg hasRight, List.append_nil]
            exact left

/-- The honest round trip: built by the constructor and read back from its
serialization, the tree gives the merkle root of the txids, the matched txids
in order and their positions. -/
theorem extractMatches_readBack_ofTxids (differ : SiblingsDiffer hashes vTxid) (nonempty : vTxid ≠ [])
    (bounded : vTxid.length ≤ MAX_BLOCK_WEIGHT / MIN_TRANSACTION_WEIGHT) (vnIndex : List Nat) :
    extractMatches hashes (readBack (ofTxids hashes vTxid vMatch)) vnIndex =
      ((computeMerkleRoot hashes vTxid).1,
        { nBitsUsed := (traverseAndBuild hashes vTxid.length vTxid vMatch (treeHeight vTxid.length) 0).1.length
          nHashUsed := (traverseAndBuild hashes vTxid.length vTxid vMatch (treeHeight vTxid.length) 0).2.length
          vMatch := ((List.range vTxid.length).filter fun i => vMatch.getD i false).map (vTxid.getD · uint256.zero)
          vnIndex := vnIndex ++ (List.range vTxid.length).filter fun i => vMatch.getD i false
          fBad := false }) := by
  have positive : 0 < vTxid.length := List.length_pos_iff.mpr nonempty
  have fewHashes := length_hashes_le_leavesBelow hashes vTxid vMatch _ (calcTreeWidth_pos positive (treeHeight vTxid.length))
  rw [leavesBelow_treeHeight, List.length_range] at fewHashes
  have enoughBits := length_hashes_le_length_bits hashes vTxid vMatch (treeHeight vTxid.length) 0
  have traversal : traverseAndExtract hashes (readBack (ofTxids hashes vTxid vMatch)) (treeHeight vTxid.length) 0
      ⟨0, 0, [], vnIndex, false⟩ = _ :=
    traverseAndExtract_traverseAndBuild hashes vTxid vMatch differ rfl _ _ []
      (List.replicate (((ofTxids hashes vTxid vMatch).vBits.length + 7) / 8 * 8 - (ofTxids hashes vTxid vMatch).vBits.length)
        false) [] [] (calcTreeWidth_pos positive _)
      (by simp [readBack, ofTxids, bytesToBits_bitsToBytes]) (by simp [readBack, ofTxids]) rfl rfl
  have padded := bytesToBits_bitsToBytes (traverseAndBuild hashes vTxid.length vTxid vMatch (treeHeight vTxid.length) 0).1
  have padding := congrArg List.length padded
  rw [List.length_append, List.length_replicate] at padding
  unfold extractMatches
  simp only [readBack, ofTxids] at traversal ⊢
  simp only [traversal]
  rw [calcHash_treeHeight hashes nonempty, matchedBelow, leavesBelow_treeHeight,
    if_neg (Nat.pos_iff_ne_zero.mp positive), if_neg (Nat.not_lt.mpr bounded), if_neg (Nat.not_lt.mpr fewHashes),
    if_neg (by omega), if_neg Bool.false_ne_true, if_neg (by omega), if_neg (by omega)]
  simp

end Honest

end CPartialMerkleTree

end Qbitcoin
