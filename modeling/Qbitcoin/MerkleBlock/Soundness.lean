import Qbitcoin.MerkleBlock.RoundTrip

/-!
# Soundness of `ExtractMatches`

Whatever the flag bits and hashes of a partial merkle tree, a root other than
zero from `ExtractMatches` comes with matches that each hash up to it along
the path of their position (`extractMatches_sound`): a light client that
checks the root against a block header knows that every matched txid sits at
its position in that block's tree, unless two different pairs collide.  With
the honest round trip of `RoundTrip.lean` this is the whole contract of BIP37
merkle blocks (`partialMerkleTree_roundTrip_sound`).
-/

namespace Qbitcoin

namespace CPartialMerkleTree

/-- Hashing up from the node at `pos` of level `height`, one sibling per level:
a left child is hashed with the sibling on its right, or with itself when the
level has no node there; a right child with the sibling on its left. -/
def pathRoot (hashes : Hashes) (nTransactions : Nat) : Nat → Nat → uint256 → List uint256 → uint256
  | _, _, node, [] => node
  | height, pos, node, sibling :: siblings =>
      let parent :=
        if pos % 2 = 1 then hashPair hashes sibling node
        else if pos + 1 < calcTreeWidth nTransactions height then hashPair hashes node sibling
        else hashPair hashes node node
      pathRoot hashes nTransactions (height + 1) (pos / 2) parent siblings

/-- Hashing up through two stretches of siblings is hashing up to the node
between them and on from there. -/
theorem pathRoot_append (hashes : Hashes) (nTransactions : Nat) (lower upper : List uint256) :
    ∀ (height pos : Nat) (node : uint256),
      pathRoot hashes nTransactions height pos node (lower ++ upper) =
        pathRoot hashes nTransactions (height + lower.length) (pos / 2 ^ lower.length)
          (pathRoot hashes nTransactions height pos node lower) upper := by
  induction lower with
  | nil => intro height pos node; simp [pathRoot]
  | cons sibling lower inductionHypothesis =>
      intro height pos node
      rw [List.cons_append, pathRoot, pathRoot, inductionHypothesis, Nat.div_div_eq_div_mul, ← Nat.pow_succ',
        List.length_cons]
      congr 1
      omega

/-- Matches found below the node at `height`, `pos` whose hash is `node`: at
increasing positions below the node, each hashing up to `node`. -/
structure MatchesBelow (hashes : Hashes) (nTransactions height pos : Nat) (node : uint256)
    (found : List uint256) (indices : List Nat) : Prop where
  length_eq : found.length = indices.length
  increasing : indices.Pairwise (· < ·)
  below : ∀ i ∈ indices, i / 2 ^ height = pos ∧ i < nTransactions
  hashesUp : ∀ p ∈ found.zip indices, ∃ siblings : List uint256, siblings.length = height ∧
    pathRoot hashes nTransactions 0 p.2 p.1 siblings = node

namespace MatchesBelow

variable {hashes : Hashes} {nTransactions height pos : Nat}

theorem nil (node : uint256) : MatchesBelow hashes nTransactions height pos node [] [] where
  length_eq := rfl
  increasing := List.Pairwise.nil
  below := fun _ absent => absurd absent List.not_mem_nil
  hashesUp := fun _ absent => absurd absent List.not_mem_nil

/-- A matched leaf is its own path. -/
theorem leaf (hash : uint256) (inside : pos < nTransactions) : MatchesBelow hashes nTransactions 0 pos hash [hash] [pos] where
  length_eq := rfl
  increasing := List.pairwise_singleton _ _
  below := by simp [inside]
  hashesUp := by
    intro p member
    simp only [List.zip_cons_cons, List.zip_nil_right, List.mem_singleton] at member
    exact ⟨[], rfl, by rw [member]; rfl⟩

/-- Matches below a node hash up, through one more sibling, to its parent. -/
theorem up {q : Nat} {node parent sibling : uint256} {found : List uint256} {indices : List Nat}
    (matched : MatchesBelow hashes nTransactions height q node found indices)
    (step : pathRoot hashes nTransactions height q node [sibling] = parent) :
    MatchesBelow hashes nTransactions (height + 1) (q / 2) parent found indices where
  length_eq := matched.length_eq
  increasing := matched.increasing
  below := by
    intro i member
    obtain ⟨under, inside⟩ := matched.below i member
    rw [Nat.pow_succ, ← Nat.div_div_eq_div_mul, under]
    exact ⟨rfl, inside⟩
  hashesUp := by
    intro p member
    obtain ⟨siblings, length, reached⟩ := matched.hashesUp p member
    obtain ⟨under, -⟩ := matched.below p.2 (List.of_mem_zip member).2
    refine ⟨siblings ++ [sibling], by rw [List.length_append, length, List.length_singleton], ?_⟩
    rw [pathRoot_append, reached, length, Nat.zero_add, under, step]

/-- The matches of a left child come before those of its right sibling. -/
theorem append {found found' : List uint256} {indices indices' : List Nat} {node : uint256}
    (first : MatchesBelow hashes nTransactions height pos node found indices)
    (second : MatchesBelow hashes nTransactions height pos node found' indices')
    (ordered : ∀ a ∈ indices, ∀ b ∈ indices', a < b) :
    MatchesBelow hashes nTransactions height pos node (found ++ found') (indices ++ indices') where
  length_eq := by rw [List.length_append, List.length_append, first.length_eq, second.length_eq]
  increasing := List.pairwise_append.mpr ⟨first.increasing, second.increasing, ordered⟩
  below := by
    intro i member
    rcases List.mem_append.mp member with early | late
    · exact first.below i early
    · exact second.below i late
  hashesUp := by
    intro p member
    rw [List.zip_append first.length_eq] at member
    rcases List.mem_append.mp member with early | late
    · exact first.hashesUp p early
    · exact second.hashesUp p late

/-- A node with two children: the matches of both, under the hash of the pair. -/
theorem children {left right : uint256} {found found' : List uint256} {indices indices' : List Nat}
    (onLeft : MatchesBelow hashes nTransactions height (pos * 2) left found indices)
    (onRight : MatchesBelow hashes nTransactions height (pos * 2 + 1) right found' indices')
    (hasRight : pos * 2 + 1 < calcTreeWidth nTransactions height) :
    MatchesBelow hashes nTransactions (height + 1) pos (hashPair hashes left right) (found ++ found')
      (indices ++ indices') := by
  have leftStep : pathRoot hashes nTransactions height (pos * 2) left [right] = hashPair hashes left right := by
    simp [pathRoot, hasRight]
  have rightStep : pathRoot hashes nTransactions height (pos * 2 + 1) right [left] = hashPair hashes left right := by
    simp [pathRoot]
  have leftUp := onLeft.up leftStep
  have rightUp := onRight.up rightStep
  rw [show pos * 2 / 2 = pos by omega] at leftUp
  rw [show (pos * 2 + 1) / 2 = pos by omega] at rightUp
  refine leftUp.append rightUp ?_
  intro a early b late
  have apart : a / 2 ^ height < b / 2 ^ height := by
    rw [(onLeft.below a early).1, (onRight.below b late).1]
    omega
  exact Nat.lt_of_div_lt_div apart

/-- A node whose left child is the last of its level: the child's matches,
under the hash of the child with itself. -/
theorem leftOnly {left : uint256} {found : List uint256} {indices : List Nat}
    (onLeft : MatchesBelow hashes nTransactions height (pos * 2) left found indices)
    (noRight : ¬ pos * 2 + 1 < calcTreeWidth nTransactions height) :
    MatchesBelow hashes nTransactions (height + 1) pos (hashPair hashes left left) found indices := by
  have step : pathRoot hashes nTransactions height (pos * 2) left [left] = hashPair hashes left left := by
    simp [pathRoot, noRight]
  have leftUp := onLeft.up step
  rwa [show pos * 2 / 2 = pos by omega] at leftUp

end MatchesBelow

section Sound

variable {hashes : Hashes} {tree : CPartialMerkleTree} {height pos : Nat} {st : ExtractState}

/-- What the extraction of a node appended, when `fBad` ends clear: matches
below the node hashing up to the hash it returned. -/
def AppendsMatches (hashes : Hashes) (tree : CPartialMerkleTree) (height pos : Nat) (st : ExtractState)
    (result : uint256 × ExtractState) : Prop :=
  ∃ found indices, result.2.vMatch = st.vMatch ++ found ∧ result.2.vnIndex = st.vnIndex ++ indices ∧
    MatchesBelow hashes tree.nTransactions height pos result.1 found indices

theorem useStoredHash_sound {fParentOfMatch : Bool} (inside : pos < calcTreeWidth tree.nTransactions height)
    (clear : (useStoredHash tree height pos fParentOfMatch st).2.fBad = false) :
    AppendsMatches hashes tree height pos st (useStoredHash tree height pos fParentOfMatch st) := by
  by_cases used : tree.vHash.length ≤ st.nHashUsed
  · rw [useStoredHash_of_le used] at clear
    cases clear
  · rw [useStoredHash_of_lt (Nat.not_le.mp used)]
    by_cases matched : height = 0 ∧ fParentOfMatch = true
    · obtain ⟨rfl, flagged⟩ := matched
      refine ⟨[tree.vHash.getD st.nHashUsed uint256.zero], [pos], by simp [flagged], by simp [flagged], ?_⟩
      exact MatchesBelow.leaf _ (by simpa using inside)
    · exact ⟨[], [], by simp [matched], by simp [matched], MatchesBelow.nil _⟩

/-- When `fBad` ends clear, the extraction of a node inside its level appended
matches below it that hash up to the hash it returned.  The induction is on
the height; `fBad` never clears, so it was clear after the left child too. -/
theorem traverseAndExtract_sound (hashes : Hashes) (tree : CPartialMerkleTree) (height : Nat) :
    ∀ {pos : Nat} {st : ExtractState}, pos < calcTreeWidth tree.nTransactions height →
      (traverseAndExtract hashes tree height pos st).2.fBad = false →
      AppendsMatches hashes tree height pos st (traverseAndExtract hashes tree height pos st) := by
  induction height with
  | zero =>
      intro pos st inside clear
      by_cases used : tree.vBits.length ≤ st.nBitsUsed
      · rw [traverseAndExtract_of_le used] at clear
        cases clear
      · rw [traverseAndExtract_zero (Nat.not_le.mp used)] at clear ⊢
        exact useStoredHash_sound inside clear
  | succ height inductionHypothesis =>
      intro pos st inside clear
      by_cases used : tree.vBits.length ≤ st.nBitsUsed
      · rw [traverseAndExtract_of_le used] at clear
        cases clear
      cases flag : tree.vBits.getD st.nBitsUsed false with
      | false =>
          rw [traverseAndExtract_succ_of_false (Nat.not_le.mp used) flag] at clear ⊢
          exact useStoredHash_sound inside clear
      | true =>
          rcases leftCall : traverseAndExtract hashes tree height (pos * 2) { st with nBitsUsed := st.nBitsUsed + 1 } with
            ⟨left, stLeft⟩
          by_cases hasRight : pos * 2 + 1 < calcTreeWidth tree.nTransactions height
          · rcases rightCall : traverseAndExtract hashes tree height (pos * 2 + 1) stLeft with ⟨right, stRight⟩
            rw [traverseAndExtract_of_right (Nat.not_le.mp used) flag leftCall hasRight rightCall] at clear ⊢
            by_cases same : right = left
            · rw [if_pos same] at clear
              cases clear
            rw [if_neg same] at clear ⊢
            have leftClear : stLeft.fBad = false := by
              cases bad : stLeft.fBad with
              | false => rfl
              | true =>
                  have kept : (traverseAndExtract hashes tree height (pos * 2 + 1) stLeft).2.fBad = true :=
                    fBad_traverseAndExtract bad
                  rw [rightCall] at kept
                  rw [kept] at clear
                  cases clear
            obtain ⟨found, indices, matchedLeft, indexedLeft, onLeft⟩ :=
              leftCall ▸ inductionHypothesis (mul_two_lt_calcTreeWidth inside) (by rw [leftCall]; exact leftClear)
            obtain ⟨found', indices', matchedRight, indexedRight, onRight⟩ :=
              rightCall ▸ inductionHypothesis hasRight (by rw [rightCall]; exact clear)
            refine ⟨found ++ found', indices ++ indices', ?_, ?_, onLeft.children onRight hasRight⟩
            · rw [matchedRight, matchedLeft, List.append_assoc]
            · rw [indexedRight, indexedLeft, List.append_assoc]
          · rw [traverseAndExtract_of_no_right (Nat.not_le.mp used) flag leftCall hasRight] at clear ⊢
            obtain ⟨found, indices, matchedLeft, indexedLeft, onLeft⟩ :=
              leftCall ▸ inductionHypothesis (mul_two_lt_calcTreeWidth inside) (by rw [leftCall]; exact clear)
            exact ⟨found, indices, matchedLeft, indexedLeft, onLeft.leftOnly hasRight⟩

end Sound

/-- `ExtractMatches` returning a root other than zero: the matched txids hash
up to it from increasing positions below `nTransactions`. -/
theorem extractMatches_sound (hashes : Hashes) (tree : CPartialMerkleTree) (vnIndex : List Nat)
    (nonzero : (extractMatches hashes tree vnIndex).1 ≠ uint256.zero) :
    ∃ indices, (extractMatches hashes tree vnIndex).2.vnIndex = vnIndex ++ indices ∧
      MatchesBelow hashes tree.nTransactions (treeHeight tree.nTransactions) 0 (extractMatches hashes tree vnIndex).1
        (extractMatches hashes tree vnIndex).2.vMatch indices := by
  unfold extractMatches at nonzero ⊢
  split_ifs at nonzero ⊢ with empty large manyHashes fewBits
  · exact absurd rfl nonzero
  · exact absurd rfl nonzero
  · exact absurd rfl nonzero
  · exact absurd rfl nonzero
  rcases traversal : traverseAndExtract hashes tree (treeHeight tree.nTransactions) 0
    ⟨0, 0, [], vnIndex, tree.fBad⟩ with ⟨root, st⟩
  dsimp only at nonzero ⊢
  rw [traversal] at nonzero ⊢
  dsimp only at nonzero ⊢
  split_ifs at nonzero ⊢ with bad unpadded unconsumed
  · exact absurd rfl nonzero
  · exact absurd rfl nonzero
  · exact absurd rfl nonzero
  have sound := traverseAndExtract_sound hashes tree (treeHeight tree.nTransactions)
    (calcTreeWidth_pos (Nat.pos_of_ne_zero empty) _) (by rw [traversal]; exact eq_false_of_ne_true bad)
  rw [traversal] at sound
  obtain ⟨found, indices, matched, indexed, below⟩ := sound
  refine ⟨indices, indexed, ?_⟩
  rw [matched, List.nil_append]
  exact below

end CPartialMerkleTree

open CPartialMerkleTree in
theorem partialMerkleTree_roundTrip_sound (hashes : Hashes) :
    (∀ (vTxid : List uint256) (vMatch : List Bool) (vnIndex : List Nat), vTxid ≠ [] → vTxid.Nodup →
        vTxid.length ≤ MAX_BLOCK_WEIGHT / MIN_TRANSACTION_WEIGHT → vMatch.length = vTxid.length →
        let matched := (List.range vTxid.length).filter fun i => vMatch.getD i false
        let result := extractMatches hashes (readBack (ofTxids hashes vTxid vMatch)) vnIndex
        (result.1 = (computeMerkleRoot hashes vTxid).1 ∧ result.2.vMatch = matched.map (vTxid.getD · uint256.zero) ∧
          result.2.vnIndex = vnIndex ++ matched) ∨ HashPairCollision hashes (nodePairs hashes vTxid)) ∧
    (∀ (tree : CPartialMerkleTree) (vnIndex : List Nat),
        let result := extractMatches hashes tree vnIndex
        result.1 ≠ uint256.zero →
        ∃ indices, result.2.vnIndex = vnIndex ++ indices ∧ indices.Pairwise (· < ·) ∧
          (∀ i ∈ indices, i < tree.nTransactions) ∧ result.2.vMatch.length = indices.length ∧
          ∀ p ∈ result.2.vMatch.zip indices, ∃ siblings : List uint256,
            siblings.length = treeHeight tree.nTransactions ∧
            pathRoot hashes tree.nTransactions 0 p.2 p.1 siblings = result.1) := by
  refine ⟨?_, ?_⟩
  · intro vTxid vMatch vnIndex nonempty distinct bounded _ matched result
    rcases siblingsDiffer_or_collision hashes distinct with differ | collision
    · left
      have roundTrip := extractMatches_readBack_ofTxids hashes vTxid vMatch differ nonempty bounded vnIndex
      simp [result, matched, roundTrip]
    · exact .inr collision
  · intro tree vnIndex result nonzero
    obtain ⟨indices, indexed, matched⟩ := extractMatches_sound hashes tree vnIndex nonzero
    exact ⟨indices, indexed, matched.increasing, fun i member => (matched.below i member).2, matched.length_eq,
      matched.hashesUp⟩

end Qbitcoin
