import Qbitcoin.Primitives.Transaction
import Qbitcoin.Crypto.Hashes
import Mathlib.Algebra.Order.BigOperators.Group.List

/-!
# Blocks

`primitives/block.h`: the 80-byte header, the block as a header with its
transactions, their serializations with and without witnesses, and the hashes
of headers and transactions (`primitives/transaction.cpp`).

`GetBlockWeight` is defined from the two serialized sizes.  The weight counts
the stripped size four times and the witness bytes once, so a bound on the
weight bounds the full size by the same number and the stripped size by a
quarter of it (`length_le_blockWeight`, `four_mul_length_le_blockWeight`): this
is all that the size limits of block validation say about the bytes a block
takes on disk and on the wire.
-/

namespace Qbitcoin

open ByteCodec

/-- `uint256`: 32 bytes in memory order. -/
abbrev uint256 := Vector UInt8 32

/-- `uint256()`, the zero hash. -/
def uint256.zero : uint256 := Vector.replicate 32 0

/-- `CHash256` finalized into a `uint256`. -/
def Hashes.hash256Digest (hashes : Hashes) (data : valtype) : uint256 :=
  ⟨(hashes.hash256 data).toArray, by simp⟩

/-- `CBlockHeader`. -/
structure CBlockHeader where
  nVersion : Int32
  hashPrevBlock : uint256
  hashMerkleRoot : uint256
  nTime : UInt32
  nBits : UInt32
  nNonce : UInt32
  deriving DecidableEq, Repr

/-- `CBlock`: the header and the transactions, coinbase first. -/
structure CBlock extends CBlockHeader where
  vtx : List CTransaction
  deriving DecidableEq, Repr

/-- The header serialization: six fields, 80 bytes. -/
def CBlockHeader.serialize (header : CBlockHeader) : List UInt8 :=
  leBytes 4 header.nVersion.toUInt32.toNat ++ header.hashPrevBlock.toList ++
    header.hashMerkleRoot.toList ++ leBytes 4 header.nTime.toNat ++ leBytes 4 header.nBits.toNat ++
    leBytes 4 header.nNonce.toNat

/-- `CBlockHeader::GetHash`: double SHA-256 of the header. -/
def CBlockHeader.getHash (hashes : Hashes) (header : CBlockHeader) : uint256 :=
  hashes.hash256Digest header.serialize

/-- `CBlockHeader::GetBlockTime`. -/
def CBlockHeader.getBlockTime (header : CBlockHeader) : Int := header.nTime.toNat

/-- `CBlock` serialization, `TX_WITH_WITNESS` when `fAllowWitness`, else `TX_NO_WITNESS`. -/
def CBlock.serialize (block : CBlock) (fAllowWitness : Bool) : List UInt8 :=
  block.toCBlockHeader.serialize ++
    serializeVector (fun tx => tx.serialize fAllowWitness) block.vtx

/-- `GetBlockWeight`. -/
def getBlockWeight (block : CBlock) : Nat :=
  (block.serialize false).length * (WITNESS_SCALE_FACTOR - 1) + (block.serialize true).length

/-- `CTransaction::GetHash`: the txid, hashing the stripped serialization. -/
def CTransaction.getHash (hashes : Hashes) (tx : CTransaction) : uint256 :=
  hashes.hash256Digest (tx.serialize false)

/-- `CTransaction::GetWitnessHash`: the wtxid, which is the txid for a
transaction without witnesses. -/
def CTransaction.getWitnessHash (hashes : Hashes) (tx : CTransaction) : uint256 :=
  if !tx.hasWitness then tx.getHash hashes else hashes.hash256Digest (tx.serialize true)

/-- `COutPoint::IsNull`. -/
def COutPoint.isNull (outpoint : COutPoint) : Bool :=
  outpoint.hash == uint256.zero && outpoint.n == 0xffffffff

/-- `CTransaction::IsCoinBase`. -/
def CTransaction.isCoinBase (tx : CTransaction) : Bool :=
  match tx.vin with
  | [input] => input.prevout.isNull
  | _ => false

@[simp]
theorem CBlockHeader.serialize_length (header : CBlockHeader) : header.serialize.length = 80 := by
  simp [CBlockHeader.serialize]

theorem serializeVector_length {α : Type} (serializeElement : α → List UInt8) (elements : List α) :
    (serializeVector serializeElement elements).length =
      getSizeOfCompactSize elements.length + (elements.map fun x => (serializeElement x).length).sum := by
  simp [serializeVector, List.length_flatten, Function.comp_def]

/-- Element by element shorter serializations give a shorter vector. -/
theorem serializeVector_length_le {α : Type} {first second : α → List UInt8} (elements : List α)
    (shorter : ∀ x ∈ elements, (first x).length ≤ (second x).length) :
    (serializeVector first elements).length ≤ (serializeVector second elements).length := by
  rw [serializeVector_length, serializeVector_length]
  have sums := List.sum_le_sum shorter
  omega

theorem CBlock.serialize_length (block : CBlock) (fAllowWitness : Bool) :
    (block.serialize fAllowWitness).length = 80 + getSizeOfCompactSize block.vtx.length +
      (block.vtx.map fun tx => (tx.serialize fAllowWitness).length).sum := by
  simp only [CBlock.serialize, List.length_append, CBlockHeader.serialize_length, serializeVector_length]
  omega

/-- The stripped block is never longer than the block with its witnesses. -/
theorem CBlock.serialize_length_le (block : CBlock) :
    (block.serialize false).length ≤ (block.serialize true).length := by
  have transactions := serializeVector_length_le block.vtx fun tx _ => Qbitcoin.serialize_length_le tx
  simp only [CBlock.serialize, List.length_append]
  omega

/-- The weight bounds the full size. -/
theorem length_le_blockWeight (block : CBlock) : (block.serialize true).length ≤ getBlockWeight block := by
  unfold getBlockWeight
  omega

/-- The weight bounds four times the stripped size. -/
theorem four_mul_length_le_blockWeight (block : CBlock) :
    WITNESS_SCALE_FACTOR * (block.serialize false).length ≤ getBlockWeight block := by
  have stripped := block.serialize_length_le
  unfold getBlockWeight WITNESS_SCALE_FACTOR
  omega

/-- Without witnesses the two serializations coincide and the weight is four
times the size. -/
theorem blockWeight_of_no_witness {block : CBlock}
    (noWitness : ∀ tx ∈ block.vtx, tx.hasWitness = false) :
    getBlockWeight block = WITNESS_SCALE_FACTOR * (block.serialize true).length := by
  have same : block.serialize true = block.serialize false := by
    have perTransaction : ∀ tx ∈ block.vtx, tx.serialize true = tx.serialize false := by
      intro tx member
      simp [CTransaction.serialize, noWitness tx member]
    simp only [CBlock.serialize, serializeVector, List.map_congr_left perTransaction]
  unfold getBlockWeight WITNESS_SCALE_FACTOR
  rw [same]
  omega

end Qbitcoin
