import Mathlib.Algebra.Group.Nat.Defs
import Mathlib.Algebra.Ring.Int.Defs

/-!
# Machine integers read as integers

The signed words `Int64` and `Int32` read through `toInt`, and the unsigned
`UInt32` through `toNat`: the conversions between them that C++ makes
implicitly, the shifts by 32 bits, and the comparisons.  A result that falls in
its word's range is read back exactly (`Int.bmod_eq_of_le`).
-/

namespace MachineInt

/-- `int64_t{u}` for a `uint32_t`: the value itself. -/
theorem toInt_toInt64_toUInt64 (u : UInt32) : u.toUInt64.toInt64.toInt = u.toNat := by
  show u.toUInt64.toBitVec.toInt = _
  rw [BitVec.toInt_eq_toNat_bmod]
  have small := u.toNat_lt
  rw [Int.bmod_eq_of_le (by omega) (by simp; omega)]
  simp

/-- `static_cast<uint32_t>` of an `int64_t`: its value modulo `2 ^ 32`. -/
theorem toNat_toUInt32_toUInt64 (a : Int64) : (a.toUInt64.toUInt32.toNat : Int) = a.toInt % 2 ^ 32 := by
  have wrap : (a.toBitVec.toNat : Int).bmod (2 ^ 64) % 2 ^ 64 = (a.toBitVec.toNat : Int) % 2 ^ 64 := Int.bmod_emod
  rw [UInt64.toNat_toUInt32, Int64.toInt, BitVec.toInt_eq_toNat_bmod,
    ← Int.emod_emod_of_dvd _ (show (2 : Int) ^ 32 ∣ 2 ^ 64 by decide), wrap,
    Int.emod_emod_of_dvd _ (show (2 : Int) ^ 32 ∣ 2 ^ 64 by decide), Int.natCast_emod, Int.natCast_pow]
  rfl

/-- The arithmetic shift right by 32 bits: division by `2 ^ 32`, rounded down. -/
theorem toInt_shiftRight_thirtyTwo (a : Int64) : (a >>> 32).toInt = a.toInt / 2 ^ 32 := by
  show (BitVec.sshiftRight' a.toBitVec ((32 : Int64).toBitVec.smod 64)).toInt = _
  rw [BitVec.toInt_sshiftRight', Int.shiftRight_eq_div_pow]
  rfl

/-- The shift left by 32 bits: multiplication by `2 ^ 32`, wrapped to 64 bits. -/
theorem toInt_shiftLeft_thirtyTwo (a : Int64) : (a <<< 32).toInt = (a.toInt * 2 ^ 32).bmod (2 ^ 64) := by
  show (a.toBitVec <<< ((32 : Int64).toBitVec.smod 64)).toInt = _
  rw [BitVec.shiftLeft_eq', BitVec.toInt_shiftLeft]
  have amount : ((32 : Int64).toBitVec.smod 64).toNat = 32 := rfl
  rw [amount, Nat.shiftLeft_eq, Int64.toInt, BitVec.toInt_eq_toNat_bmod, Int.bmod_mul_bmod, Int.natCast_mul,
    Int.natCast_pow]
  rfl

theorem toInt_boolToInt64 (c : Bool) : c.toInt64.toInt = if c then 1 else 0 := by
  cases c <;> rfl

/-- An integer in the range of `int64_t` is read back as itself. -/
theorem bmod_int64 {x : Int} (low : -2 ^ 63 ≤ x) (high : x < 2 ^ 63) : x.bmod (2 ^ 64) = x :=
  Int.bmod_eq_of_le (by omega) (by omega)

/-- An integer in the range of `int32_t` is read back as itself. -/
theorem bmod_int32 {x : Int} (low : -2 ^ 31 ≤ x) (high : x < 2 ^ 31) : x.bmod (2 ^ 32) = x :=
  Int.bmod_eq_of_le (by omega) (by omega)

theorem compare_int64 (x y : Int64) : compare x y = compare x.toInt y.toInt := by
  simp only [compare, compareOfLessAndEq, Int64.lt_iff_toInt_lt, ← Int64.toInt_inj]

theorem compare_uint32 (x y : UInt32) : compare x y = compare x.toNat y.toNat := by
  simp only [compare, compareOfLessAndEq, UInt32.lt_iff_toNat_lt, ← UInt32.toNat_inj]

end MachineInt
