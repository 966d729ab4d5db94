import Mathlib.Data.Nat.Bitwise
import Mathlib.Data.List.GetD

/-!
# Flag bits as bytes

`BitsToBytes` and `BytesToBits` of `merkleblock.cpp`, which a partial merkle
tree's serialization uses for its flag bits: bit `p` is bit `p % 8` of byte
`p / 8`.  Written and read back, the bits return followed by the zero bits that
pad the last byte, which is why `ExtractMatches` accepts unused bits up to the
byte boundary.
-/

namespace Qbitcoin

/-- The body of the loop of `BitsToBytes`: `ret[p / 8] |= bits[p] << (p % 8)`. -/
def orBit (bits : List Bool) (ret : List UInt8) (p : Nat) : List UInt8 :=
  ret.modify (p / 8) fun byte => byte ||| (bits.getD p false).toUInt8 <<< (p % 8).toUInt8

/-- `BitsToBytes`: bit `p` goes to bit `p % 8` of byte `p / 8`, the last byte
padded with zero bits. -/
def bitsToBytes (bits : List Bool) : List UInt8 :=
  (List.range bits.length).foldl (orBit bits) (List.replicate ((bits.length + 7) / 8) 0)

/-- `BytesToBits`: every bit of every byte, low bits first. -/
def bytesToBits (bytes : List UInt8) : List Bool :=
  (List.range (bytes.length * 8)).map fun p => (bytes.getD (p / 8) 0 &&& 1 <<< (p % 8).toUInt8) != 0

/-! ## Bits of one byte -/

theorem testBit_toNat_mul_two_pow (b : Bool) (s k : Nat) :
    (b.toNat * 2 ^ s).testBit k = (b && decide (k = s)) := by
  rw [← Nat.shiftLeft_eq, Nat.testBit_shiftLeft]
  cases b with
  | false => simp
  | true =>
      rw [Bool.toNat_true, show (1 : Nat) = 2 ^ 0 from rfl, Nat.testBit_two_pow]
      by_cases same : k = s
      · simp [same]
      · simp [same]
        omega

theorem toNat_shiftLeft_toUInt8 (b : Bool) {s : Nat} (small : s < 8) :
    (b.toUInt8 <<< s.toUInt8).toNat = b.toNat * 2 ^ s := by
  have shift : s.toUInt8.toNat % 8 = s := by
    rw [Nat.toUInt8_eq, UInt8.toNat_ofNat', Nat.mod_eq_of_lt (by omega : s < 2 ^ 8), Nat.mod_eq_of_lt small]
  have fits : b.toNat * 2 ^ s < 2 ^ 8 := by
    have power : 2 ^ s ≤ 2 ^ 7 := Nat.pow_le_pow_right (by decide) (by omega)
    calc b.toNat * 2 ^ s ≤ 1 * 2 ^ 7 := Nat.mul_le_mul (Bool.toNat_le b) power
      _ < 2 ^ 8 := by decide
  have converted : b.toUInt8.toNat = b.toNat := by cases b <;> rfl
  rw [UInt8.toNat_shiftLeft, shift, converted, Nat.shiftLeft_eq, Nat.mod_eq_of_lt fits]

/-- The bit test of `BytesToBits` reads bit `s` of the byte. -/
theorem and_shiftLeft_ne_zero (byte : UInt8) {s : Nat} (small : s < 8) :
    (byte &&& 1 <<< s.toUInt8 != 0) = byte.toNat.testBit s := by
  have one := toNat_shiftLeft_toUInt8 true small
  rw [Bool.toNat_true, Nat.one_mul] at one
  have masked : (byte &&& 1 <<< s.toUInt8).toNat = (byte.toNat.testBit s).toNat * 2 ^ s := by
    rw [UInt8.toNat_and, show (1 : UInt8) = true.toUInt8 from rfl, one, Nat.and_two_pow]
  cases bit : byte.toNat.testBit s with
  | false =>
      rw [bit, Bool.toNat_false, Nat.zero_mul] at masked
      simp [← UInt8.toNat_inj, masked]
  | true =>
      rw [bit, Bool.toNat_true, Nat.one_mul] at masked
      simp [← UInt8.toNat_inj, masked]

/-! ## The round trip -/

@[simp]
theorem length_orBit (bits : List Bool) (ret : List UInt8) (p : Nat) : (orBit bits ret p).length = ret.length :=
  List.length_modify ..

theorem length_foldl_orBit (bits : List Bool) (positions : List Nat) (ret : List UInt8) :
    (positions.foldl (orBit bits) ret).length = ret.length := by
  induction positions generalizing ret with
  | nil => rfl
  | cons p positions inductionHypothesis => rw [List.foldl_cons, inductionHypothesis, length_orBit]

theorem length_bitsToBytes (bits : List Bool) : (bitsToBytes bits).length = (bits.length + 7) / 8 := by
  rw [bitsToBytes, length_foldl_orBit, List.length_replicate]

/-- One round sets bit `p % 8` of byte `p / 8` when `bits[p]` is set, and
nothing else. -/
theorem testBit_orBit (bits : List Bool) (ret : List UInt8) (p : Nat) {j : Nat} (inside : j < ret.length)
    {k : Nat} (small : k < 8) :
    ((orBit bits ret p).getD j 0).toNat.testBit k =
      ((ret.getD j 0).toNat.testBit k || decide (8 * j + k = p) && bits.getD p false) := by
  rw [List.getD_eq_getElem?_getD, List.getD_eq_getElem?_getD, orBit, List.getElem?_modify,
    List.getElem?_eq_getElem inside, Option.map_eq_map, Option.map_some, Option.getD_some, Option.getD_some]
  by_cases here : p / 8 = j
  · rw [if_pos here, UInt8.toNat_or, Nat.testBit_or, toNat_shiftLeft_toUInt8 _ (Nat.mod_lt p (by decide)),
      testBit_toNat_mul_two_pow]
    have same : (k = p % 8) ↔ (8 * j + k = p) := by omega
    simp only [same, Bool.and_comm]
  · rw [if_neg here]
    have other : ¬ 8 * j + k = p := by omega
    simp [other]

/-- After the rounds below `m`, bit `k` of byte `j` is the bit at `8 * j + k`
if that is below `m`. -/
theorem testBit_bitsToBytes_loop (bits : List Bool) (m : Nat) {j : Nat} (inside : j < (bits.length + 7) / 8)
    {k : Nat} (small : k < 8) :
    (((List.range m).foldl (orBit bits) (List.replicate ((bits.length + 7) / 8) 0)).getD j 0).toNat.testBit k =
      (decide (8 * j + k < m) && bits.getD (8 * j + k) false) := by
  induction m with
  | zero => simp [List.getD_eq_getElem?_getD, inside]
  | succ m inductionHypothesis =>
      have inside' : j < ((List.range m).foldl (orBit bits) (List.replicate ((bits.length + 7) / 8) 0)).length := by
        rw [length_foldl_orBit, List.length_replicate]
        exact inside
      rw [List.range_succ, List.foldl_append, List.foldl_cons, List.foldl_nil, testBit_orBit _ _ _ inside' small,
        inductionHypothesis]
      by_cases here : 8 * j + k = m
      · simp [here]
      · have below : (8 * j + k < m + 1) ↔ (8 * j + k < m) := by omega
        simp [here, below]

/-- Bit `k` of byte `j` of `BitsToBytes` is the bit at `8 * j + k`, zero past
the end. -/
theorem testBit_bitsToBytes (bits : List Bool) {j : Nat} (inside : j < (bits.length + 7) / 8)
    {k : Nat} (small : k < 8) :
    ((bitsToBytes bits).getD j 0).toNat.testBit k = bits.getD (8 * j + k) false := by
  unfold bitsToBytes
  rw [testBit_bitsToBytes_loop _ _ inside small]
  by_cases within : 8 * j + k < bits.length
  · simp [within]
  · simp [within]

/-- Written as bytes and read back, the flag bits come back followed by the
zero bits that pad the last byte. -/
theorem bytesToBits_bitsToBytes (bits : List Bool) :
    bytesToBits (bitsToBytes bits) = bits ++ List.replicate ((bits.length + 7) / 8 * 8 - bits.length) false := by
  apply List.ext_getElem
  · simp [bytesToBits, length_bitsToBytes]
    omega
  · intro p inside inside'
    simp only [bytesToBits, List.getElem_map, List.getElem_range]
    have byte : p / 8 < (bits.length + 7) / 8 := by
      simp [bytesToBits, length_bitsToBytes] at inside
      exact Nat.div_lt_of_lt_mul (by omega)
    rw [and_shiftLeft_ne_zero _ (Nat.mod_lt p (by decide)),
      testBit_bitsToBytes _ byte (Nat.mod_lt p (by decide)), Nat.div_add_mod, List.getElem_append]
    split
    · rename_i within
      rw [List.getD_eq_getElem _ _ within]
    · rename_i past
      rw [List.getD_eq_default _ _ (Nat.not_lt.mp past), List.getElem_replicate]

end Qbitcoin
