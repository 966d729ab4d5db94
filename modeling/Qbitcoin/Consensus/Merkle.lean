import Mathlib.Data.Nat.Log
import Qbitcoin.Primitives.Block

/-!
# Merkle roots

`consensus/merkle.cpp`.  `ComputeMerkleRoot` replaces the list of hashes by
the list of hashes of its pairs, duplicating the last hash of an odd level,
until one hash is left; on the way it notes whether some level hashes two
equal hashes side by side, which is how `CheckMerkleRoot` detects the
duplicated transactions of CVE-2012-2459.

The C++ computes the mutation flag only when the caller passes a pointer for
it; the model always computes it and the callers that pass `nullptr` drop it.
-/

namespace Qbitcoin

/-- `SHA256D64` on one pair: double SHA-256 of the 64 bytes of two hashes. -/
def hashPair (hashes : Hashes) (left right : uint256) : uint256 :=
  hashes.hash256Digest (left.toList ++ right.toList)

/-- One level of the tree: the hashes of consecutive pairs, the last hash
paired with itself when the level is odd. -/
def merkleLevel (hashes : Hashes) : List uint256 → List uint256
  | [] => []
  | [last] => [hashPair hashes last last]
  | left :: right :: rest => hashPair hashes left right :: merkleLevel hashes rest

/-- The mutation test of one level: two equal hashes at positions `pos` and
`pos + 1` for an even `pos`. -/
def levelMutated : List uint256 → Bool
  | left :: right :: rest => left == right || levelMutated rest
  | _ => false

@[simp]
theorem length_merkleLevel (hashes : Hashes) (level : List uint256) :
    (merkleLevel hashes level).length = (level.length + 1) / 2 := by
  induction level using merkleLevel.induct with
  | case1 => rfl
  | case2 last => simp [merkleLevel]
  | case3 left right rest ih =>
      simp only [merkleLevel, List.length_cons, ih]
      omega

/-- The `while (hashes.size() > 1)` loop of `ComputeMerkleRoot`, with the
mutation flag found so far. -/
def merkleLoop (hashes : Hashes) (level : List uint256) (mutation : Bool) : uint256 × Bool :=
  if level.length > 1 then
    merkleLoop hashes (merkleLevel hashes level) (mutation || levelMutated level)
  else (level.headD uint256.zero, mutation)
termination_by level.length
decreasing_by
  rw [length_merkleLevel]
  omega

/-- `ComputeMerkleRoot`: the root, zero for no leaves, and the mutation flag. -/
def computeMerkleRoot (hashes : Hashes) (leaves : List uint256) : uint256 × Bool :=
  merkleLoop hashes leaves false

/-- `BlockMerkleRoot`: the tree over the txids. -/
def blockMerkleRoot (hashes : Hashes) (block : CBlock) : uint256 × Bool :=
  computeMerkleRoot hashes (block.vtx.map (CTransaction.getHash hashes))

/-- `BlockWitnessMerkleRoot`: the tree over the wtxids, with zero for the
coinbase. -/
def blockWitnessMerkleRoot (hashes : Hashes) (block : CBlock) : uint256 :=
  (computeMerkleRoot hashes
    (block.vtx.mapIdx fun s tx => if s = 0 then uint256.zero else tx.getWitnessHash hashes)).1

/-- A single leaf is its own root, and one leaf is never a mutation. -/
@[simp]
theorem computeMerkleRoot_singleton (hashes : Hashes) (leaf : uint256) :
    computeMerkleRoot hashes [leaf] = (leaf, false) := by
  rw [computeMerkleRoot, merkleLoop]
  simp

/-- The merkle root of a block of one transaction is its txid. -/
theorem blockMerkleRoot_singleton (hashes : Hashes) {block : CBlock} {tx : CTransaction}
    (single : block.vtx = [tx]) : blockMerkleRoot hashes block = (tx.getHash hashes, false) := by
  simp [blockMerkleRoot, single]

/-! ## Mutation detection

Two different leaf lists of one height with one root: either one of them is
flagged as mutated, or two different pairs among those hashed on the way from
the two lists to their roots have one `SHA256D64` digest.  Collision
resistance is not assumed; a collision is the last disjunct, among the pairs
the two computations hash.  The argument goes level by level: two levels with
the same hashes above them are equal, or one holds two equal hashes at an even
position, which is what `levelMutated` tests, or two of their pairs collide. -/

/-- Two different pairs among `pairs` with one `SHA256D64` digest. -/
def HashPairCollision (hashes : Hashes) (pairs : List (uint256 × uint256)) : Prop :=
  ∃ p ∈ pairs, ∃ q ∈ pairs, p ≠ q ∧ hashPair hashes p.1 p.2 = hashPair hashes q.1 q.2

theorem HashPairCollision.mono {hashes : Hashes} {pairs pairs' : List (uint256 × uint256)}
    (sub : pairs ⊆ pairs') : HashPairCollision hashes pairs → HashPairCollision hashes pairs' := by
  rintro ⟨p, inP, q, inQ, differ, same⟩
  exact ⟨p, sub inP, q, sub inQ, differ, same⟩

theorem eq_or_collision_of_hashPair_eq {hashes : Hashes} (pairs : List (uint256 × uint256)) {a b c d : uint256}
    (first : (a, b) ∈ pairs) (second : (c, d) ∈ pairs) (same : hashPair hashes a b = hashPair hashes c d) :
    (a = c ∧ b = d) ∨ HashPairCollision hashes pairs := by
  by_cases equal : (a, b) = (c, d)
  · exact .inl (Prod.mk.inj equal)
  · exact .inr ⟨(a, b), first, (c, d), second, equal, same⟩

/-- The pairs one level hashes. -/
def levelPairs : List uint256 → List (uint256 × uint256)
  | [] => []
  | [last] => [(last, last)]
  | left :: right :: rest => (left, right) :: levelPairs rest

/-- The pairs `ComputeMerkleRoot` hashes on its way from `level` to the root. -/
def merklePairs (hashes : Hashes) (level : List uint256) : List (uint256 × uint256) :=
  if level.length > 1 then levelPairs level ++ merklePairs hashes (merkleLevel hashes level) else []
termination_by level.length
decreasing_by
  rw [length_merkleLevel]
  omega

theorem merklePairs_of_long {hashes : Hashes} {level : List uint256} (long : 1 < level.length) :
    merklePairs hashes level = levelPairs level ++ merklePairs hashes (merkleLevel hashes level) := by
  rw [merklePairs, if_pos long]

theorem merkleLevel_eq_nil {hashes : Hashes} {level : List uint256} :
    merkleLevel hashes level = [] ↔ level = [] := by
  rw [← List.length_eq_zero_iff, length_merkleLevel, ← List.length_eq_zero_iff]
  omega

theorem merkleLoop_of_long {hashes : Hashes} {level : List uint256} (long : 1 < level.length) (mutation : Bool) :
    merkleLoop hashes level mutation =
      merkleLoop hashes (merkleLevel hashes level) (mutation || levelMutated level) := by
  rw [merkleLoop, if_pos long]

theorem merkleLoop_of_short {hashes : Hashes} {level : List uint256} (short : level.length ≤ 1) (mutation : Bool) :
    merkleLoop hashes level mutation = (level.headD uint256.zero, mutation) := by
  rw [merkleLoop, if_neg (Nat.not_lt.mpr short)]

/-- The flag found so far does not change the root. -/
theorem merkleLoop_fst (hashes : Hashes) (level : List uint256) (mutation mutation' : Bool) :
    (merkleLoop hashes level mutation).1 = (merkleLoop hashes level mutation').1 := by
  fun_induction merkleLoop hashes level mutation generalizing mutation' with
  | case1 level mutation long sameRoot =>
      rw [merkleLoop_of_long long, sameRoot]
  | case2 level mutation short =>
      rw [merkleLoop_of_short (Nat.not_lt.mp short)]

/-- A flag once set stays set. -/
theorem merkleLoop_snd_of_mutation (hashes : Hashes) (level : List uint256) {mutation : Bool}
    (set : mutation = true) : (merkleLoop hashes level mutation).2 = true := by
  fun_induction merkleLoop hashes level mutation with
  | case1 level mutation long kept =>
      exact kept (by rw [set, Bool.true_or])
  | case2 level mutation short => exact set

/-- Two levels under the same hashes are equal, or one of them holds two equal
hashes at an even position, or two different pairs collide. -/
theorem eq_of_merkleLevel_eq (hashes : Hashes) {level level' : List uint256}
    (same : merkleLevel hashes level = merkleLevel hashes level') :
    level = level' ∨ levelMutated level = true ∨ levelMutated level' = true ∨
      HashPairCollision hashes (levelPairs level ++ levelPairs level') := by
  induction level using merkleLevel.induct generalizing level' with
  | case1 =>
      have empty : level' = [] := merkleLevel_eq_nil.mp (by rw [← same]; rfl)
      exact .inl empty.symm
  | case2 last =>
      match level', same with
      | [], same => cases same
      | [last'], same =>
          rcases eq_or_collision_of_hashPair_eq (levelPairs [last] ++ levelPairs [last'])
            (by simp [levelPairs]) (by simp [levelPairs]) (List.cons.inj same).1 with ⟨rfl, -⟩ | collision
          · exact .inl rfl
          · exact .inr (.inr (.inr collision))
      | left :: right :: rest, same =>
          obtain ⟨top, empty⟩ := List.cons.inj same
          have noRest : rest = [] := merkleLevel_eq_nil.mp empty.symm
          subst noRest
          rcases eq_or_collision_of_hashPair_eq (levelPairs [last] ++ levelPairs [left, right])
            (by simp [levelPairs]) (by simp [levelPairs]) top with ⟨rfl, rfl⟩ | collision
          · exact .inr (.inr (.inl (by simp [levelMutated])))
          · exact .inr (.inr (.inr collision))
  | case3 left right rest inRest =>
      match level', same with
      | [], same => cases same
      | [last'], same =>
          obtain ⟨top, empty⟩ := List.cons.inj same
          have noRest : rest = [] := merkleLevel_eq_nil.mp empty
          subst noRest
          rcases eq_or_collision_of_hashPair_eq (levelPairs [left, right] ++ levelPairs [last'])
            (by simp [levelPairs]) (by simp [levelPairs]) top with ⟨rfl, rfl⟩ | collision
          · exact .inr (.inl (by simp [levelMutated]))
          · exact .inr (.inr (.inr collision))
      | left' :: right' :: rest', same =>
          obtain ⟨top, below⟩ := List.cons.inj same
          rcases eq_or_collision_of_hashPair_eq
            (levelPairs (left :: right :: rest) ++ levelPairs (left' :: right' :: rest'))
            (by simp [levelPairs]) (by simp [levelPairs]) top with ⟨rfl, rfl⟩ | collision
          · rcases inRest below with rfl | mutated | mutated' | collision
            · exact .inl rfl
            · exact .inr (.inl (by simp [levelMutated, mutated]))
            · exact .inr (.inr (.inl (by simp [levelMutated, mutated'])))
            · refine .inr (.inr (.inr (collision.mono ?_)))
              intro pair member
              simp only [levelPairs, List.mem_append, List.mem_cons] at member ⊢
              tauto
          · exact .inr (.inr (.inr collision))

theorem one_lt_of_clog_pos {n : Nat} (positive : 0 < Nat.clog 2 n) : 1 < n := by
  by_contra short
  rw [Nat.clog_of_right_le_one (Nat.not_lt.mp short)] at positive
  exact Nat.lt_irrefl 0 positive

/-- One level of the loop lowers the height by one. -/
theorem clog_merkleLevel (hashes : Hashes) {level : List uint256} (long : 1 < level.length) :
    Nat.clog 2 (merkleLevel hashes level).length + 1 = Nat.clog 2 level.length := by
  have rounded : level.length + 2 - 1 = level.length + 1 := by omega
  rw [length_merkleLevel, Nat.clog_of_one_lt (by decide) long, rounded]

/-- The loop on two different levels of one height with one root: one of the
two flags ends set, or two different pairs collide.  The induction is on the
height, which both loops lower by one each level. -/
theorem merkleLoop_detects (hashes : Hashes) (height : Nat) :
    ∀ {level level' : List uint256} {mutation mutation' : Bool},
      Nat.clog 2 level.length = height → Nat.clog 2 level'.length = height → level ≠ [] → level' ≠ [] →
      level ≠ level' → (merkleLoop hashes level mutation).1 = (merkleLoop hashes level' mutation').1 →
      (merkleLoop hashes level mutation).2 = true ∨ (merkleLoop hashes level' mutation').2 = true ∨
        HashPairCollision hashes (merklePairs hashes level ++ merklePairs hashes level') := by
  induction height with
  | zero =>
      intro level level' mutation mutation' flat flat' nonempty nonempty' differ sameRoot
      have single : ∀ {leaves : List uint256}, Nat.clog 2 leaves.length = 0 → leaves ≠ [] → leaves.length = 1 :=
        fun flat nonempty => by
          have short : ¬ 1 < _ := fun long => Nat.ne_of_gt (Nat.clog_pos (by decide) long) flat
          have positive := List.length_pos_iff.mpr nonempty
          omega
      obtain ⟨leaf, rfl⟩ := List.length_eq_one_iff.mp (single flat nonempty)
      obtain ⟨leaf', rfl⟩ := List.length_eq_one_iff.mp (single flat' nonempty')
      rw [merkleLoop_of_short (by simp), merkleLoop_of_short (by simp)] at sameRoot
      exact absurd (congrArg (· :: []) sameRoot) differ
  | succ height below =>
      intro level level' mutation mutation' tall tall' nonempty nonempty' differ sameRoot
      have long : 1 < level.length := one_lt_of_clog_pos (by omega)
      have long' : 1 < level'.length := one_lt_of_clog_pos (by omega)
      have upper := clog_merkleLevel hashes long
      have upper' := clog_merkleLevel hashes long'
      rw [merkleLoop_of_long long, merkleLoop_of_long long'] at sameRoot ⊢
      rw [merklePairs_of_long long, merklePairs_of_long long']
      have within : ∀ {a b c d : List (uint256 × uint256)}, a ++ c ⊆ (a ++ b) ++ (c ++ d) ∧
          b ++ d ⊆ (a ++ b) ++ (c ++ d) := by
        intro a b c d
        constructor <;> intro pair member <;> simp only [List.mem_append] at member ⊢ <;> tauto
      by_cases sameLevel : merkleLevel hashes level = merkleLevel hashes level'
      · rcases eq_of_merkleLevel_eq hashes sameLevel with equal | mutated | mutated' | collision
        · exact absurd equal differ
        · exact .inl (merkleLoop_snd_of_mutation hashes _ (by rw [mutated, Bool.or_true]))
        · exact .inr (.inl (merkleLoop_snd_of_mutation hashes _ (by rw [mutated', Bool.or_true])))
        · exact .inr (.inr (collision.mono within.1))
      · rcases below (by omega) (by omega) (mt merkleLevel_eq_nil.mp nonempty)
          (mt merkleLevel_eq_nil.mp nonempty') sameLevel sameRoot with mutated | mutated' | collision
        · exact .inl mutated
        · exact .inr (.inl mutated')
        · exact .inr (.inr (collision.mono within.2))

theorem merkle_mutation_detected (hashes : Hashes) {leaves leaves' : List uint256} (differ : leaves ≠ leaves')
    (nonempty : leaves ≠ []) (nonempty' : leaves' ≠ [])
    (sameHeight : Nat.clog 2 leaves.length = Nat.clog 2 leaves'.length)
    (sameRoot : (computeMerkleRoot hashes leaves).1 = (computeMerkleRoot hashes leaves').1) :
    (computeMerkleRoot hashes leaves).2 = true ∨ (computeMerkleRoot hashes leaves').2 = true ∨
      HashPairCollision hashes (merklePairs hashes leaves ++ merklePairs hashes leaves') :=
  merkleLoop_detects hashes _ rfl sameHeight.symm nonempty nonempty' differ sameRoot

/-- CVE-2012-2459: three leaves and the same leaves with the last one repeated
have one root, whatever the hash functions. -/
theorem computeMerkleRoot_duplicated_last (hashes : Hashes) (a b c : uint256) :
    (computeMerkleRoot hashes [a, b, c]).1 = (computeMerkleRoot hashes [a, b, c, c]).1 := by
  have three : merkleLoop hashes [a, b, c] false =
      merkleLoop hashes (merkleLevel hashes [a, b, c]) (false || levelMutated [a, b, c]) :=
    merkleLoop_of_long (by simp) false
  have four : merkleLoop hashes [a, b, c, c] false =
      merkleLoop hashes (merkleLevel hashes [a, b, c, c]) (false || levelMutated [a, b, c, c]) :=
    merkleLoop_of_long (by simp) false
  rw [computeMerkleRoot, computeMerkleRoot, three, four]
  exact merkleLoop_fst hashes _ _ _

theorem merkle_mutation_detected_duplicated :
    (computeMerkleRoot Hashes.zeros [uint256.zero, Vector.replicate 32 1, Vector.replicate 32 2]).2 = true ∨
      (computeMerkleRoot Hashes.zeros
        [uint256.zero, Vector.replicate 32 1, Vector.replicate 32 2, Vector.replicate 32 2]).2 = true ∨
      HashPairCollision Hashes.zeros
        (merklePairs Hashes.zeros [uint256.zero, Vector.replicate 32 1, Vector.replicate 32 2] ++
          merklePairs Hashes.zeros
            [uint256.zero, Vector.replicate 32 1, Vector.replicate 32 2, Vector.replicate 32 2]) :=
  merkle_mutation_detected Hashes.zeros (by simp) (by simp) (by simp) (by decide)
    (computeMerkleRoot_duplicated_last Hashes.zeros _ _ _)

/-- Two blocks of one height whose txid lists differ and whose merkle roots
agree: one of them is flagged as mutated, or two of the pairs hashed over
their txids collide. -/
theorem blockMerkleRoot_mutation_detected (hashes : Hashes) {block block' : CBlock}
    (differ : block.vtx.map (CTransaction.getHash hashes) ≠ block'.vtx.map (CTransaction.getHash hashes))
    (nonempty : block.vtx ≠ []) (nonempty' : block'.vtx ≠ [])
    (sameHeight : Nat.clog 2 block.vtx.length = Nat.clog 2 block'.vtx.length)
    (sameRoot : (blockMerkleRoot hashes block).1 = (blockMerkleRoot hashes block').1) :
    (blockMerkleRoot hashes block).2 = true ∨ (blockMerkleRoot hashes block').2 = true ∨
      HashPairCollision hashes (merklePairs hashes (block.vtx.map (CTransaction.getHash hashes)) ++
        merklePairs hashes (block'.vtx.map (CTransaction.getHash hashes))) :=
  merkle_mutation_detected hashes differ (by simpa using nonempty) (by simpa using nonempty')
    (by simpa using sameHeight) sameRoot

end Qbitcoin
