import Qbitcoin.Primitives.Block

/-!
# Proof of work

The target encoding of `arith_uint256::SetCompact` and the check of
`CheckProofOfWorkImpl` (`pow.cpp`).  An `arith_uint256` is a natural number
below `2^256`; `UintToArith256` reads the 32 bytes of a `uint256` little-endian.

The fuzzing bypass of `CheckProofOfWork` (`EnableFuzzDeterminism`) is off in a
node and is not modelled.
-/

namespace Qbitcoin

open ByteCodec

/-- The consensus parameters the block checks read. -/
structure ConsensusParams where
  powLimit : uint256
  signetBlocks : Bool

/-- The regtest parameters of `kernel/chainparams.cpp`: `powLimit` is
`7fff…ff`, stored little-endian, and there are no signet blocks. -/
def ConsensusParams.regtest : ConsensusParams :=
  ⟨⟨(List.replicate 31 (0xff : UInt8) ++ [0x7f]).toArray, rfl⟩, false⟩

/-- `UintToArith256`. -/
def uintToArith256 (value : uint256) : Nat := readLE value.toList

/-- `arith_uint256::SetCompact`: the target, and the `pfNegative` and
`pfOverflow` flags.  Sizes up to 3 shift the mantissa right inside the 32-bit
word; larger sizes shift the 256-bit value left, losing what passes bit 255. -/
def setCompact (nCompact : UInt32) : Nat × Bool × Bool :=
  let nSize := (nCompact >>> 24).toNat
  let nWord := nCompact &&& 0x007fffff
  let nWord := if nSize ≤ 3 then nWord >>> (UInt32.ofNat (8 * (3 - nSize))) else nWord
  let value := if nSize ≤ 3 then nWord.toNat else nWord.toNat * 2 ^ (8 * (nSize - 3)) % 2 ^ 256
  let negative := nWord != 0 && (nCompact &&& 0x00800000) != 0
  let overflow := nWord != 0 &&
    (decide (nSize > 34) || (decide (nWord > 0xff) && decide (nSize > 33)) ||
      (decide (nWord > 0xffff) && decide (nSize > 32)))
  (value, negative, overflow)

/-- `DeriveTarget`: the target of `nBits`, if it is positive, in range and at
most `powLimit`. -/
def deriveTarget (nBits : UInt32) (powLimit : uint256) : Option Nat :=
  let (bnTarget, fNegative, fOverflow) := setCompact nBits
  if fNegative || bnTarget == 0 || fOverflow || decide (bnTarget > uintToArith256 powLimit) then none
  else some bnTarget

/-- `CheckProofOfWorkImpl`: the hash, read as a number, is at most the target. -/
def checkProofOfWork (hash : uint256) (nBits : UInt32) (params : ConsensusParams) : Bool :=
  match deriveTarget nBits params.powLimit with
  | none => false
  | some bnTarget => decide (uintToArith256 hash ≤ bnTarget)

/-- A hash at most the target derived from `nBits` passes. -/
theorem checkProofOfWork_of_le {hash : uint256} {nBits : UInt32} {params : ConsensusParams}
    {bnTarget : Nat} (derived : deriveTarget nBits params.powLimit = some bnTarget)
    (below : uintToArith256 hash ≤ bnTarget) : checkProofOfWork hash nBits params = true := by
  simp [checkProofOfWork, derived, below]

end Qbitcoin
