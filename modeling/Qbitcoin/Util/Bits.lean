import Qbitcoin.Lib.FieldSum

/-!
# Bit primitives of the bitsets

`PopCount` of `util/bitset.h`, and the two functions of `<bit>` the bitsets
call, on an unsigned word of `w` bits.  `PopCount` counts within the register:
three masking steps leave in each byte the number of its set bits, and the
bytes are then summed by shifts (words of at most 32 bits) or by one
multiplication (64-bit words).  The count is exact for the widths of the C++
unsigned integer types.  A word narrower than `int` is promoted in the source,
and each assignment keeps the low `w` bits of what was computed, which is the
value computed here in `w` bits.
-/

namespace Qbitcoin.Bits

open FieldSum Finset

/-- The widths of the C++ unsigned integer types, `unsigned char` to `unsigned long long`. -/
def UnsignedWidth (w : Nat) : Prop := w = 8 ∨ w = 16 ∨ w = 32 ∨ w = 64

instance : DecidablePred UnsignedWidth := fun _ => inferInstanceAs (Decidable (_ ∨ _))

variable {w : Nat}

/-- The first three steps of `PopCount`, with the masks of the branch taken. -/
def byteCounts (v fives threes fifteens : BitVec w) : BitVec w :=
  let v := v - ((v >>> 1) &&& fives)
  let v := (v &&& threes) + ((v >>> 2) &&& threes)
  (v + (v >>> 4)) &&& fifteens

/-- `PopCount` (util/bitset.h). -/
def popCount (v : BitVec w) : Nat :=
  if w ≤ 32 then
    let v := byteCounts v 0x55555555#w 0x33333333#w 0x0f0f0f0f#w
    let v := if 8 < w then v + (v >>> 8) else v
    let v := if 16 < w then v + (v >>> 16) else v
    (v &&& 0x3f#w).toNat
  else
    let v := byteCounts v 0x5555555555555555#w 0x3333333333333333#w 0x0f0f0f0f0f0f0f0f#w
    ((v * 0x0101010101010101#w) >>> 56).toNat

/-- `std::countr_zero`: the number of zero bits below the lowest set bit, `w` for zero. -/
def countrZero (v : BitVec w) : Nat := v.ctz.toNat

/-- `std::bit_width`: the number of bits up to the highest set bit, `0` for zero. -/
def bitWidth (v : BitVec w) : Nat := w - v.clz.toNat

/-! ## The three counting steps -/

/-- The bits of a number, one per field. -/
def bitsOf (x : Nat) (i : Nat) : Nat := (x.testBit i).toNat

/-- The bit counts of the bytes. -/
def byteSums (x : Nat) : Nat → Nat := pairCounts (pairCounts (pairCounts (bitsOf x)))

theorem bitsOf_le (x i : Nat) : bitsOf x i ≤ 1 := Bool.toNat_le _

theorem byteSums_le (x k : Nat) : byteSums x k ≤ 8 :=
  pairCounts_le (pairCounts_le (pairCounts_le (bitsOf_le x))) k

theorem sum_byteSums (x : Nat) {n m : Nat} (bytes : n = 8 * m) :
    ∑ k ∈ range m, byteSums x k = ∑ i ∈ range n, bitsOf x i := by
  rw [byteSums, sum_pairCounts, sum_pairCounts, sum_pairCounts, show 2 * (2 * (2 * m)) = n by omega]

/-- After the three steps each byte of a word of `m` bytes holds the number of its set bits. -/
theorem toNat_byteCounts {m : Nat} (bytes : w = 8 * m) (v fives threes fifteens : BitVec w)
    (fivesMask : fives.toNat = lowHalves 1 (2 * (2 * m))) (threesMask : threes.toNat = lowHalves 2 (2 * m))
    (fifteensMask : fifteens.toNat = lowHalves 4 m) :
    (byteCounts v fives threes fifteens).toNat = fields 8 m (byteSums v.toNat) := by
  have wide : v.toNat < 2 ^ (2 * (2 * (2 * m))) := by rw [show 2 * (2 * (2 * m)) = w by omega]; exact v.isLt
  have within {k n : Nat} {c : Nat → Nat} (small : ∀ j < n, c j < 2 ^ k) (fits : k * n = w) :
      fields k n c < 2 ^ w := fits ▸ fields_lt small
  have pairs : (v - ((v >>> 1) &&& fives)).toNat = fields 2 (2 * (2 * m)) (pairCounts (bitsOf v.toNat)) := by
    have le : (v >>> 1) &&& fives ≤ v := by
      rw [BitVec.le_def, BitVec.toNat_and, BitVec.toNat_ushiftRight]
      exact le_trans Nat.and_le_left (Nat.shiftRight_le _ _)
    rw [BitVec.toNat_sub_of_le le, BitVec.toNat_and, BitVec.toNat_ushiftRight, fivesMask, sub_shiftRight_and wide]
    rfl
  have pairsSmall : ∀ j < 2 * (2 * m), pairCounts (bitsOf v.toNat) j < 2 ^ 2 := fun j _ =>
    lt_of_le_of_lt (pairCounts_le (bitsOf_le v.toNat) j) (by decide)
  have nibbles : (((v - ((v >>> 1) &&& fives)) &&& threes) + (((v - ((v >>> 1) &&& fives)) >>> 2) &&& threes)).toNat =
      fields 4 (2 * m) (pairCounts (pairCounts (bitsOf v.toNat))) := by
    have nibblesSmall : ∀ j < 2 * m, pairCounts (pairCounts (bitsOf v.toNat)) j < 2 ^ 4 := fun j _ =>
      lt_of_le_of_lt (pairCounts_le (pairCounts_le (bitsOf_le v.toNat)) j) (by decide)
    rw [BitVec.toNat_add, BitVec.toNat_and, BitVec.toNat_and, BitVec.toNat_ushiftRight, pairs, threesMask,
      and_add_shiftRight_and pairsSmall, Nat.mod_eq_of_lt (within nibblesSmall (by omega))]
  have sums : ∀ j < 2 * m, pairCounts (pairCounts (bitsOf v.toNat)) j +
      above (pairCounts (pairCounts (bitsOf v.toNat))) (2 * m) j < 2 ^ 4 := fun j _ => by
    have := pairCounts_le (pairCounts_le (bitsOf_le v.toNat)) j
    have : above (pairCounts (pairCounts (bitsOf v.toNat))) (2 * m) j ≤ 4 := by
      unfold above
      split_ifs
      · exact pairCounts_le (pairCounts_le (bitsOf_le v.toNat)) (j + 1)
      · exact Nat.zero_le 4
    omega
  have total : fields 4 (2 * m) (pairCounts (pairCounts (bitsOf v.toNat))) +
      (fields 4 (2 * m) (pairCounts (pairCounts (bitsOf v.toNat))) >>> 4) < 2 ^ w := by
    rw [fields_shiftRight_eq_above fun j below => lt_of_le_of_lt (Nat.le_add_right _ _) (sums j below), fields_add]
    exact within sums (by omega)
  simp only [byteCounts]
  rw [BitVec.toNat_and, BitVec.toNat_add, BitVec.toNat_ushiftRight, nibbles, fifteensMask, Nat.mod_eq_of_lt total,
    add_shiftRight_and sums]
  rfl

/-! ## Summing the bytes -/

theorem toNat_and_sixtyThree (wide : 6 ≤ w) (t : BitVec w) : (t &&& 0x3f#w).toNat = t.toNat % 64 := by
  have small : 63 < 2 ^ w := lt_of_lt_of_le (by decide) (Nat.pow_le_pow_right Nat.two_pos wide)
  rw [BitVec.toNat_and, BitVec.toNat_ofNat, Nat.mod_eq_of_lt small]
  exact Nat.and_two_pow_sub_one_eq_mod t.toNat 6

theorem toNat_add_shiftRight (t : BitVec w) (k : Nat) :
    (t + (t >>> k)).toNat = (t.toNat + t.toNat / 2 ^ k) % 2 ^ w := by
  rw [BitVec.toNat_add, BitVec.toNat_ushiftRight, Nat.shiftRight_eq_div_pow]

/-- The shifts of the 32-bit branch gather the four byte counts in the lowest byte. -/
theorem shifts_thirtyTwo {e : Nat → Nat} (small : ∀ k, e k ≤ 8) {x u t : Nat} (word : x = fields 8 4 e)
    (once : u = (x + x / 2 ^ 8) % 2 ^ 32) (twice : t = (u + u / 2 ^ 16) % 2 ^ 32) :
    t % 64 = ∑ k ∈ range 4, e k := by
  have := small 0; have := small 1; have := small 2; have := small 3
  simp only [fields_succ, fields_zero, Nat.zero_add, Nat.reduceAdd, Nat.reducePow] at word
  have pairs : u = (e 0 + e 1) + 256 * (e 1 + e 2) + 65536 * (e 2 + e 3) + 16777216 * e 3 := by
    have : x / 2 ^ 8 = e 1 + 256 * e 2 + 65536 * e 3 := by omega
    rw [once, Nat.mod_eq_of_lt (by omega)]
    omega
  have quads : t = (e 0 + e 1 + e 2 + e 3) + 256 * (e 1 + e 2 + e 3) + 65536 * (e 2 + e 3) + 16777216 * e 3 := by
    have : u / 2 ^ 16 = e 2 + e 3 + 256 * e 3 := by omega
    rw [twice, Nat.mod_eq_of_lt (by omega)]
    omega
  simp only [sum_range_succ, sum_range_zero]
  omega

/-- The multiplication of the 64-bit branch: byte 7 of the product is the sum of the eight bytes. -/
theorem mul_ones_div {e : Nat → Nat} (small : ∀ k, e k ≤ 8) :
    fields 8 8 e * 0x0101010101010101 % 2 ^ 64 / 2 ^ 56 = ∑ k ∈ range 8, e k := by
  have := small 0; have := small 1; have := small 2; have := small 3
  have := small 4; have := small 5; have := small 6; have := small 7
  let low := e 0 + 2 ^ 8 * (e 0 + e 1) + 2 ^ 16 * (e 0 + e 1 + e 2) + 2 ^ 24 * (e 0 + e 1 + e 2 + e 3) +
    2 ^ 32 * (e 0 + e 1 + e 2 + e 3 + e 4) + 2 ^ 40 * (e 0 + e 1 + e 2 + e 3 + e 4 + e 5) +
    2 ^ 48 * (e 0 + e 1 + e 2 + e 3 + e 4 + e 5 + e 6)
  let high := (e 1 + e 2 + e 3 + e 4 + e 5 + e 6 + e 7) + 2 ^ 8 * (e 2 + e 3 + e 4 + e 5 + e 6 + e 7) +
    2 ^ 16 * (e 3 + e 4 + e 5 + e 6 + e 7) + 2 ^ 24 * (e 4 + e 5 + e 6 + e 7) + 2 ^ 32 * (e 5 + e 6 + e 7) +
    2 ^ 40 * (e 6 + e 7) + 2 ^ 48 * e 7
  have product : fields 8 8 e * 0x0101010101010101 = (low + 2 ^ 56 * ∑ k ∈ range 8, e k) + 2 ^ 64 * high := by
    simp only [fields_succ, fields_zero, sum_range_succ, sum_range_zero, low, high]
    ring
  have lowSmall : low < 2 ^ 56 := by simp only [low]; omega
  have sumSmall : ∑ k ∈ range 8, e k < 2 ^ 8 := by simp only [sum_range_succ, sum_range_zero]; omega
  rw [product, Nat.add_mul_mod_self_left, Nat.mod_eq_of_lt (by omega), Nat.add_mul_div_left _ _ (Nat.two_pow_pos 56),
    Nat.div_eq_of_lt lowSmall, Nat.zero_add]

/-- `PopCount` is the number of set bits, for every unsigned integer type. -/
theorem popCount_eq_sum (standard : UnsignedWidth w) (v : BitVec w) :
    popCount v = ∑ i ∈ range w, bitsOf v.toNat i := by
  have small := byteSums_le v.toNat
  rcases standard with rfl | rfl | rfl | rfl
  · have counts := toNat_byteCounts (m := 1) rfl v 0x55555555#8 0x33333333#8 0x0f0f0f0f#8 rfl rfl rfl
    have := small 0
    simp only [popCount, show 8 ≤ 32 by decide, if_true, lt_irrefl, if_false, show ¬16 < 8 by decide]
    rw [toNat_and_sixtyThree (by decide), counts, ← sum_byteSums v.toNat (m := 1) rfl]
    simp only [fields_succ, fields_zero, sum_range_succ, sum_range_zero, Nat.zero_add, Nat.reducePow]
    omega
  · have counts := toNat_byteCounts (m := 2) rfl v 0x55555555#16 0x33333333#16 0x0f0f0f0f#16 rfl rfl rfl
    have := small 0; have := small 1
    simp only [popCount, show 16 ≤ 32 by decide, if_true, lt_irrefl, if_false, show 8 < 16 by decide]
    rw [toNat_and_sixtyThree (by decide), toNat_add_shiftRight, counts, ← sum_byteSums v.toNat (m := 2) rfl]
    simp only [fields_succ, fields_zero, sum_range_succ, sum_range_zero, Nat.zero_add, Nat.reducePow]
    omega
  · have counts := toNat_byteCounts (m := 4) rfl v 0x55555555#32 0x33333333#32 0x0f0f0f0f#32 rfl rfl rfl
    simp only [popCount, le_refl, if_true, show 8 < 32 by decide, show 16 < 32 by decide]
    rw [toNat_and_sixtyThree (by decide), toNat_add_shiftRight, toNat_add_shiftRight,
      ← sum_byteSums v.toNat (m := 4) rfl]
    exact shifts_thirtyTwo small counts rfl rfl
  · have counts := toNat_byteCounts (m := 8) rfl v 0x5555555555555555#64 0x3333333333333333#64
      0x0f0f0f0f0f0f0f0f#64 rfl rfl rfl
    simp only [popCount, show ¬64 ≤ 32 by decide, if_false]
    have ones : (0x0101010101010101#64).toNat = 0x0101010101010101 := rfl
    rw [BitVec.toNat_ushiftRight, BitVec.toNat_mul, counts, ones, Nat.shiftRight_eq_div_pow,
      ← sum_byteSums v.toNat (m := 8) rfl]
    exact mul_ones_div small

/-! ## The lowest and the highest set bit -/

variable {v : BitVec w}

theorem width_pos (nonzero : v ≠ 0#w) : 0 < w :=
  Nat.pos_of_ne_zero fun zero => nonzero (by subst zero; exact BitVec.of_length_zero)

theorem toNat_pos (nonzero : v ≠ 0#w) : 0 < v.toNat :=
  Nat.pos_of_ne_zero fun zero => nonzero (BitVec.eq_of_toNat_eq (by rw [zero, BitVec.toNat_ofNat, Nat.zero_mod]))

theorem getLsbD_countrZero (nonzero : v ≠ 0#w) : v.getLsbD (countrZero v) = true :=
  BitVec.getLsbD_true_ctz_of_ne_zero nonzero

theorem getLsbD_of_lt_countrZero {i : Nat} (below : i < countrZero v) : v.getLsbD i = false :=
  BitVec.getLsbD_false_of_lt_ctz below

theorem countrZero_le_of_getLsbD {i : Nat} (set : v.getLsbD i = true) : countrZero v ≤ i :=
  Nat.le_of_not_lt fun below => by rw [getLsbD_of_lt_countrZero below] at set; contradiction

theorem countrZero_lt (nonzero : v ≠ 0#w) : countrZero v < w :=
  BitVec.lt_of_getLsbD (getLsbD_countrZero nonzero)

theorem getLsbD_bitWidth_sub_one (nonzero : v ≠ 0#w) : v.getLsbD (bitWidth v - 1) = true := by
  have top := BitVec.getLsbD_true_clz_of_ne_zero (width_pos nonzero) nonzero
  rwa [show bitWidth v - 1 = w - 1 - v.clz.toNat by unfold bitWidth; omega]

theorem le_bitWidth_sub_one_of_getLsbD {i : Nat} (set : v.getLsbD i = true) : i ≤ bitWidth v - 1 := by
  have below : i < bitWidth v := Nat.lt_of_not_le fun above => by
    have small : v.toNat < 2 ^ i :=
      lt_of_lt_of_le BitVec.toNat_lt_two_pow_sub_clz (Nat.pow_le_pow_right Nat.two_pos above)
    rw [← BitVec.testBit_toNat, Nat.testBit_lt_two_pow small] at set
    contradiction
  omega

/-- `x & (x - 1)` clears the lowest set bit `c` of `x` and keeps the others. -/
theorem testBit_and_sub_one {x c : Nat} (lowest : x.testBit c = true) (zeros : ∀ j < c, x.testBit j = false)
    (j : Nat) : (x &&& (x - 1)).testBit j = (x.testBit j && j ≠ c) := by
  have low : x % 2 ^ c = 0 := Nat.eq_of_testBit_eq fun j => by
    rw [Nat.testBit_mod_two_pow, Nat.zero_testBit]
    by_cases below : j < c
    · simp [below, zeros j below]
    · simp [below]
  have odd : (x / 2 ^ c) % 2 = 1 := by
    have := Nat.testBit_div_two_pow (n := c) x 0
    rw [Nat.zero_add, lowest, Nat.testBit_zero] at this
    exact of_decide_eq_true this
  obtain ⟨r, split⟩ : ∃ r, x = 2 ^ c * (2 * r + 1) + 0 := by
    refine ⟨x / 2 ^ c / 2, ?_⟩
    have quotient : x / 2 ^ c = 2 * (x / 2 ^ c / 2) + 1 := by have := Nat.div_add_mod (x / 2 ^ c) 2; omega
    have := Nat.div_add_mod x (2 ^ c)
    rw [← quotient]
    omega
  have pred : x - 1 = 2 ^ c * (2 * r) + (2 ^ c - 1) := by
    have := Nat.two_pow_pos c
    rw [split, Nat.mul_add, Nat.mul_one]
    omega
  have ones : 2 ^ c - 1 < 2 ^ c := Nat.sub_lt (Nat.two_pow_pos c) Nat.one_pos
  rw [Nat.testBit_and, pred, Nat.testBit_two_pow_mul_add _ ones, split, Nat.testBit_two_pow_mul_add _ (Nat.two_pow_pos c)]
  by_cases below : j < c
  · simp [below, Nat.ne_of_lt below]
  · obtain ⟨k, rfl⟩ : ∃ k, j = c + k := ⟨j - c, by omega⟩
    simp only [below, if_false, Nat.add_sub_cancel_left]
    cases k with
    | zero => simp [Nat.testBit_zero]
    | succ k => simp [Nat.testBit_add_one, Nat.mul_add_div]

/-- The iterators' step `m_val &= m_val - 1` removes the lowest set bit. -/
theorem getLsbD_and_sub_one (nonzero : v ≠ 0#w) (i : Nat) :
    (v &&& (v - 1#w)).getLsbD i = (v.getLsbD i && i ≠ countrZero v) := by
  have one : (1#w).toNat = 1 := by rw [BitVec.toNat_ofNat, Nat.one_mod_two_pow (width_pos nonzero)]
  have le : 1#w ≤ v := by rw [BitVec.le_def, one]; exact toNat_pos nonzero
  rw [← BitVec.testBit_toNat, BitVec.toNat_and, BitVec.toNat_sub_of_le le, one,
    testBit_and_sub_one (getLsbD_countrZero nonzero) fun j below => getLsbD_of_lt_countrZero below]
  rfl

theorem and_sub_one_lt (nonzero : v ≠ 0#w) : (v &&& (v - 1#w)).toNat < v.toNat := by
  have one : (1#w).toNat = 1 := by rw [BitVec.toNat_ofNat, Nat.one_mod_two_pow (width_pos nonzero)]
  have le : 1#w ≤ v := by rw [BitVec.le_def, one]; exact toNat_pos nonzero
  rw [BitVec.toNat_and, BitVec.toNat_sub_of_le le, one]
  exact lt_of_le_of_lt Nat.and_le_right (Nat.sub_lt (toNat_pos nonzero) Nat.one_pos)

end Qbitcoin.Bits
