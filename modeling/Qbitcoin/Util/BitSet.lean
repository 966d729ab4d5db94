import Qbitcoin.Util.MultiIntBitSet

/-!
# BitSet

Both bitset implementations of `util/bitset.h` refine the finite sets of their
positions, for the widths of the C++ unsigned integer types and every number
of limbs.  The alias `BitSet<BITS>` picks an `IntBitSet` of `uint32_t` up to
32 bits, of `size_t` up to its width, and a `MultiIntBitSet` of `size_t` limbs
above that; the one it picks holds at least `BITS` positions.
-/

namespace Qbitcoin

open BoundedSet Bits

/-- The implementations `BitSet<BITS>` can pick: an `IntBitSet` of a `w`-bit type, or a `MultiIntBitSet` of
`N` limbs of `w` bits. -/
inductive BitSetKind where
  | intBitSet (w : Nat)
  | multiIntBitSet (w N : Nat)
deriving DecidableEq

/-- `Size()` of an implementation. -/
def BitSetKind.size : BitSetKind → Nat
  | .intBitSet w => w
  | .multiIntBitSet w N => w * N

/-- `BitSet<BITS>` on a platform whose `size_t` has `sizeBits` bits. -/
def bitSetKind (sizeBits BITS : Nat) : BitSetKind :=
  if BITS ≤ 32 then .intBitSet 32
  else if BITS ≤ sizeBits then .intBitSet sizeBits
  else .multiIntBitSet sizeBits ((BITS + sizeBits - 1) / sizeBits)

/-- The implementation `BitSet<BITS>` picks holds at least `BITS` positions. -/
theorem le_size_bitSetKind {sizeBits : Nat} (positive : 0 < sizeBits) (BITS : Nat) :
    BITS ≤ (bitSetKind sizeBits BITS).size := by
  unfold bitSetKind
  split_ifs with small fits
  · exact small
  · exact fits
  · have := Nat.div_add_mod (BITS + sizeBits - 1) sizeBits
    have := Nat.mod_lt (BITS + sizeBits - 1) positive
    show BITS ≤ sizeBits * ((BITS + sizeBits - 1) / sizeBits)
    omega

example : bitSetKind 64 100 = .multiIntBitSet 64 2 ∧ (bitSetKind 64 100).size = 128 := by decide

/-- `IntBitSet<I>` and `MultiIntBitSet<I, N>` implement the finite sets of their positions. -/
theorem bitSets_refine_finite_sets :
    (∀ w, UnsignedWidth w → (IntBitSet.ops w).Refines) ∧
      ∀ w N, UnsignedWidth w → (MultiIntBitSet.ops w N).Refines :=
  ⟨fun _ standard => IntBitSet.refines standard, fun _ _ standard => MultiIntBitSet.refines standard⟩

theorem bitSets_refine_finite_sets_at_bytes :
    UnsignedWidth 8 ∧ (IntBitSet.ops 8).Refines ∧ (MultiIntBitSet.ops 8 3).Refines :=
  ⟨by decide, bitSets_refine_finite_sets.1 8 (by decide), bitSets_refine_finite_sets.2 8 3 (by decide)⟩

end Qbitcoin
