import Qbitcoin.Cluster.FeeFrac
import Qbitcoin.Lib.MachineInt
import Mathlib.Data.Rat.Floor
import Mathlib.Tactic.Linarith
import Mathlib.Tactic.LinearCombination

/-!
# The portable fallback of `FeeFrac`'s wide arithmetic

Where the compiler has no 128-bit integers, `FeeFrac` multiplies a fee by a
size with `MulFallback`, which returns the product as a signed high part and an
unsigned low word compared as a pair, and divides such a product by a size with
`DivFallback`.  Both are written here on the code's own words (`Int64`, `Int32`,
`UInt32`).  A pair stands for `high * 2 ^ 32 + low`: the product's pair stands
for the exact product, pairs compare as the numbers they stand for, and
`DivFallback` returns the exact quotient rounded as asked whenever it fits in
64 bits.  So the comparisons of `Cluster/FeeFrac.lean`, made there on exact
products, are those the fallback makes.
-/

namespace Qbitcoin

namespace FeeFrac

open MachineInt

/-- `MulFallback`. -/
def mulFallback (a : Int64) (b : Int32) : Int64 × UInt32 :=
  let low : Int64 := a.toUInt64.toUInt32.toUInt64.toInt64 * b.toInt64
  let high : Int64 := (a >>> 32) * b.toInt64
  (high + (low >>> 32), low.toUInt64.toUInt32)

/-- `DivFallback`. -/
def divFallback (n : Int64 × UInt32) (d : Int32) (roundDown : Bool) : Int64 :=
  let quotHigh : Int64 := n.1 / d.toInt64
  let nLow : Int64 := ((n.1 % d.toInt64) <<< 32) + n.2.toUInt64.toInt64
  let quotLow : Int64 := nLow / d.toInt64
  let modLow : Int32 := (nLow % d.toInt64).toInt32
  let quotLow : Int64 := quotLow + ((decide (0 < modLow)).toInt64 - (decide (modLow ≠ 0) && roundDown).toInt64)
  (quotHigh <<< 32) + quotLow

/-- The number a high part and a low word stand for. -/
def wideValue (n : Int64 × UInt32) : Int := n.1.toInt * 2 ^ 32 + n.2.toNat

/-- `operator<=>` of `std::pair<int64_t, uint32_t>`: the high parts, then the low words. -/
def compareWide (p q : Int64 × UInt32) : Ordering := (compare p.1 q.1).then (compare p.2 q.2)

/-- `n_low` as a number: the remainder of the high part by `d`, above the low word. -/
def lowNumerator (n : Int64 × UInt32) (d : Int) : Int := n.1.toInt.tmod d * 2 ^ 32 + n.2.toNat

/-- The quotient `DivFallback` forms, as a number: the truncated quotient of the high part above 32 bits, and that
of `n_low` with its correction. -/
def fallbackQuotient (n : Int64 × UInt32) (d : Int) (roundDown : Bool) : Int :=
  n.1.toInt.tdiv d * 2 ^ 32 + ((lowNumerator n d).tdiv d + (if 0 < (lowNumerator n d).tmod d then 1 else 0) -
    (if (lowNumerator n d).tmod d ≠ 0 ∧ roundDown = true then 1 else 0))

/-- The quotient of `n` by `d`, rounded toward negative infinity (`roundDown`) or toward positive infinity. -/
def roundedQuotient (n d : Int) (roundDown : Bool) : Int :=
  if roundDown then ⌊(n : ℚ) / d⌋ else ⌈(n : ℚ) / d⌉

/-! ## `MulFallback` -/

section MulFallback

variable (a : Int64) (b : Int32)

theorem toInt_mulFallback_low :
    (a.toUInt64.toUInt32.toUInt64.toInt64 * b.toInt64).toInt = a.toInt % 2 ^ 32 * b.toInt := by
  have word := toNat_toUInt32_toUInt64 a
  have lowBounds : 0 ≤ a.toInt % 2 ^ 32 ∧ a.toInt % 2 ^ 32 < 2 ^ 32 := by omega
  have sizeBounds := And.intro b.le_toInt b.toInt_lt
  rw [Int64.toInt_mul, toInt_toInt64_toUInt64, word, Int32.toInt_toInt64]
  apply bmod_int64 <;> nlinarith

theorem toInt_mulFallback_high : ((a >>> 32) * b.toInt64).toInt = a.toInt / 2 ^ 32 * b.toInt := by
  have highBounds : -2 ^ 31 ≤ a.toInt / 2 ^ 32 ∧ a.toInt / 2 ^ 32 < 2 ^ 31 := by
    have := a.le_toInt
    have := a.toInt_lt
    omega
  have sizeBounds := And.intro b.le_toInt b.toInt_lt
  rw [Int64.toInt_mul, toInt_shiftRight_thirtyTwo, Int32.toInt_toInt64]
  apply bmod_int64 <;> nlinarith

theorem toInt_mulFallback_fst :
    (mulFallback a b).1.toInt = a.toInt / 2 ^ 32 * b.toInt + a.toInt % 2 ^ 32 * b.toInt / 2 ^ 32 := by
  have highBounds : -2 ^ 31 ≤ a.toInt / 2 ^ 32 ∧ a.toInt / 2 ^ 32 < 2 ^ 31 := by
    have := a.le_toInt
    have := a.toInt_lt
    omega
  have lowBounds : 0 ≤ a.toInt % 2 ^ 32 ∧ a.toInt % 2 ^ 32 < 2 ^ 32 := by omega
  have sizeBounds := And.intro b.le_toInt b.toInt_lt
  have highProduct : -2 ^ 62 ≤ a.toInt / 2 ^ 32 * b.toInt ∧ a.toInt / 2 ^ 32 * b.toInt ≤ 2 ^ 62 := by
    constructor <;> nlinarith
  have lowProduct : -2 ^ 63 ≤ a.toInt % 2 ^ 32 * b.toInt ∧ a.toInt % 2 ^ 32 * b.toInt < 2 ^ 63 := by
    constructor <;> nlinarith
  rw [mulFallback, Int64.toInt_add, toInt_mulFallback_high, toInt_shiftRight_thirtyTwo, toInt_mulFallback_low]
  apply bmod_int64 <;> omega

theorem toNat_mulFallback_snd : ((mulFallback a b).2.toNat : Int) = a.toInt % 2 ^ 32 * b.toInt % 2 ^ 32 := by
  rw [mulFallback, toNat_toUInt32_toUInt64, toInt_mulFallback_low]

/-- The pair of `MulFallback` stands for the exact product. -/
theorem wideValue_mulFallback : wideValue (mulFallback a b) = a.toInt * b.toInt := by
  rw [wideValue, toInt_mulFallback_fst, toNat_mulFallback_snd]
  have splitFee := Int.mul_ediv_add_emod a.toInt (2 ^ 32)
  have splitLow := Int.mul_ediv_add_emod (a.toInt % 2 ^ 32 * b.toInt) (2 ^ 32)
  linear_combination splitLow + b.toInt * splitFee

end MulFallback

/-- Pairs of a high part and a low word compare as the numbers they stand for. -/
theorem compareWide_eq (p q : Int64 × UInt32) : compareWide p q = compare (wideValue p) (wideValue q) := by
  have lowP := p.2.toNat_lt
  have lowQ := q.2.toNat_lt
  rw [compareWide, compare_int64, compare_uint32]
  rcases lt_trichotomy p.1.toInt q.1.toInt with below | same | above
  · rw [Int.compare_eq_lt.mpr below]
    exact (Int.compare_eq_lt.mpr (by unfold wideValue; omega)).symm
  · rw [Int.compare_eq_eq.mpr same]
    rcases lt_trichotomy p.2.toNat q.2.toNat with lower | equal | higher
    · rw [Nat.compare_eq_lt.mpr lower]
      exact (Int.compare_eq_lt.mpr (by unfold wideValue; omega)).symm
    · rw [Nat.compare_eq_eq.mpr equal]
      exact (Int.compare_eq_eq.mpr (by unfold wideValue; omega)).symm
    · rw [Nat.compare_eq_gt.mpr higher]
      exact (Int.compare_eq_gt.mpr (by unfold wideValue; omega)).symm
  · rw [Int.compare_eq_gt.mpr above]
    exact (Int.compare_eq_gt.mpr (by unfold wideValue; omega)).symm

/-- `FeeRateCompare` made with `MulFallback` is `feeRateCompare` on the integers the words stand for. -/
theorem compareWide_mulFallback_cross (fee fee' : Int64) (size size' : Int32) :
    compareWide (mulFallback fee size') (mulFallback fee' size) =
      feeRateCompare ⟨fee.toInt, size.toInt⟩ ⟨fee'.toInt, size'.toInt⟩ := by
  rw [compareWide_eq, wideValue_mulFallback, wideValue_mulFallback, feeRateCompare]

/-! ## `DivFallback` -/

section DivFallback

variable {x D : Int}

/-- The truncated quotient, one less when the remainder is negative: the quotient rounded down. -/
theorem floor_correction (positive : 0 < D) :
    let quot := x.tdiv D + (if 0 < x.tmod D then 1 else 0) - (if x.tmod D ≠ 0 then 1 else 0)
    quot * D ≤ x ∧ x < (quot + 1) * D := by
  intro quot
  have split := Int.tmod_add_tdiv_mul x D
  have below := Int.tmod_lt_of_pos x positive
  have above := Int.lt_tmod_of_pos x positive
  rcases lt_trichotomy (x.tmod D) 0 with negative | zero | positiveMod
  · have : quot = x.tdiv D - 1 := by simp [quot, negative.ne, not_lt.mpr negative.le]
    rw [this]
    constructor <;> linarith
  · have : quot = x.tdiv D := by simp [quot, zero]
    rw [this]
    constructor <;> linarith
  · have : quot = x.tdiv D := by simp [quot, positiveMod, positiveMod.ne']
    rw [this]
    constructor <;> linarith

/-- The truncated quotient, one more when the remainder is positive: the quotient rounded up. -/
theorem ceil_correction (positive : 0 < D) :
    let quot := x.tdiv D + (if 0 < x.tmod D then 1 else 0)
    (quot - 1) * D < x ∧ x ≤ quot * D := by
  intro quot
  have split := Int.tmod_add_tdiv_mul x D
  have below := Int.tmod_lt_of_pos x positive
  have above := Int.lt_tmod_of_pos x positive
  by_cases positiveMod : 0 < x.tmod D
  · have : quot = x.tdiv D + 1 := by simp [quot, positiveMod]
    rw [this]
    constructor <;> linarith
  · have : quot = x.tdiv D := by simp [quot, positiveMod]
    rw [this]
    constructor <;> linarith

theorem roundedQuotient_eq_of_floor {n q : Int} (positive : 0 < D) (low : q * D ≤ n) (high : n < (q + 1) * D) :
    roundedQuotient n D true = q := by
  have positive' : (0 : ℚ) < D := by exact_mod_cast positive
  rw [roundedQuotient, if_pos rfl, Int.floor_eq_iff, le_div_iff₀ positive', div_lt_iff₀ positive']
  exact ⟨by exact_mod_cast low, by exact_mod_cast high⟩

theorem roundedQuotient_eq_of_ceil {n q : Int} (positive : 0 < D) (low : (q - 1) * D < n) (high : n ≤ q * D) :
    roundedQuotient n D false = q := by
  have positive' : (0 : ℚ) < D := by exact_mod_cast positive
  rw [roundedQuotient, if_neg Bool.false_ne_true, Int.ceil_eq_iff, lt_div_iff₀ positive', div_le_iff₀ positive']
  exact ⟨by exact_mod_cast low, by exact_mod_cast high⟩

end DivFallback

section DivFallbackWords

variable {d : Int32}

theorem toInt_divisor : d.toInt64.toInt = d.toInt := Int32.toInt_toInt64 d

theorem divisor_bounds (positive : 0 < d) : 0 < d.toInt ∧ d.toInt < 2 ^ 31 :=
  ⟨Int32.lt_iff_toInt_lt.mp positive, d.toInt_lt⟩

theorem divisor_ne_neg_one (positive : 0 < d) : d.toInt64 ≠ -1 := by
  intro negOne
  have value := congrArg Int64.toInt negOne
  rw [toInt_divisor, show (-1 : Int64).toInt = -1 from rfl] at value
  have := (divisor_bounds positive).1
  omega

variable (n : Int64 × UInt32) (positive : 0 < d)

include positive

/-- `n_low`: the remainder of the high part above the low word, exactly. -/
theorem toInt_nLow :
    (((n.1 % d.toInt64) <<< 32) + n.2.toUInt64.toInt64).toInt = lowNumerator n d.toInt := by
  obtain ⟨dPositive, dSmall⟩ := divisor_bounds positive
  have below := Int.tmod_lt_of_pos n.1.toInt dPositive
  have above := Int.lt_tmod_of_pos n.1.toInt dPositive
  have lowWord := n.2.toNat_lt
  have shifted : ((n.1 % d.toInt64) <<< 32).toInt = n.1.toInt.tmod d.toInt * 2 ^ 32 := by
    rw [toInt_shiftLeft_thirtyTwo, Int64.toInt_mod, toInt_divisor]
    apply bmod_int64 <;> omega
  rw [Int64.toInt_add, shifted, toInt_toInt64_toUInt64, lowNumerator]
  apply bmod_int64 <;> omega

/-- `DivFallback` computes `fallbackQuotient`, wrapped to 64 bits. -/
theorem toInt_divFallback (roundDown : Bool) :
    (divFallback n d roundDown).toInt = (fallbackQuotient n d.toInt roundDown).bmod (2 ^ 64) := by
  obtain ⟨dPositive, dSmall⟩ := divisor_bounds positive
  have modBelow := Int.tmod_lt_of_pos (lowNumerator n d.toInt) dPositive
  have modAbove := Int.lt_tmod_of_pos (lowNumerator n d.toInt) dPositive
  have modLow : (((((n.1 % d.toInt64) <<< 32) + n.2.toUInt64.toInt64) % d.toInt64).toInt32).toInt =
      (lowNumerator n d.toInt).tmod d.toInt := by
    rw [Int64.toInt_toInt32, Int64.toInt_mod, toInt_nLow n positive, toInt_divisor]
    apply bmod_int32 <;> omega
  have isPositive : ∀ m : Int32, (0 < m) = (0 < m.toInt) := fun m => propext Int32.lt_iff_toInt_lt
  have isZero : ∀ m : Int32, (m ≠ 0) = (m.toInt ≠ 0) := fun m => propext (not_congr Int32.toInt_inj.symm)
  rw [divFallback]
  simp only [Int64.toInt_add, Int64.toInt_sub, toInt_shiftLeft_thirtyTwo, toInt_boolToInt64,
    Int64.toInt_div_of_ne_right _ _ (divisor_ne_neg_one positive), toInt_nLow n positive, toInt_divisor,
    isPositive, isZero, modLow, Bool.and_eq_true, decide_eq_true_eq]
  rw [Int.bmod_add_bmod, Int.add_bmod_bmod, ← Int.add_assoc, Int.add_bmod_bmod, fallbackQuotient]
  congr 1
  ring

omit positive in
/-- What `DivFallback` computes is the exact quotient rounded as asked. -/
theorem roundedQuotient_eq_fallbackQuotient {D : Int} (dPositive : 0 < D) (roundDown : Bool) :
    roundedQuotient (wideValue n) D roundDown = fallbackQuotient n D roundDown := by
  have splitHigh := Int.tmod_add_tdiv_mul n.1.toInt D
  have low : lowNumerator n D = n.1.toInt.tmod D * 2 ^ 32 + n.2.toNat := rfl
  cases roundDown with
  | true =>
    obtain ⟨lower, upper⟩ := floor_correction (x := lowNumerator n D) dPositive
    have quotient : fallbackQuotient n D true = n.1.toInt.tdiv D * 2 ^ 32 + ((lowNumerator n D).tdiv D +
        (if 0 < (lowNumerator n D).tmod D then 1 else 0) - (if (lowNumerator n D).tmod D ≠ 0 then 1 else 0)) := by
      simp [fallbackQuotient]
    rw [quotient]
    apply roundedQuotient_eq_of_floor dPositive <;> unfold wideValue <;> linarith
  | false =>
    obtain ⟨lower, upper⟩ := ceil_correction (x := lowNumerator n D) dPositive
    have quotient : fallbackQuotient n D false = n.1.toInt.tdiv D * 2 ^ 32 + ((lowNumerator n D).tdiv D +
        (if 0 < (lowNumerator n D).tmod D then 1 else 0)) := by
      simp [fallbackQuotient]
    rw [quotient]
    apply roundedQuotient_eq_of_ceil dPositive <;> unfold wideValue <;> linarith

end DivFallbackWords

/-- `MulFallback` compares as the exact products do, and `DivFallback` divides a wide number by a positive size
to its exactly rounded quotient whenever that fits in an `int64_t`. -/
theorem mulFallback_divFallback_exact :
    (∀ (a a' : Int64) (b b' : Int32),
      compareWide (mulFallback a b) (mulFallback a' b') = compare (a.toInt * b.toInt) (a'.toInt * b'.toInt)) ∧
    ∀ (n : Int64 × UInt32) (d : Int32) (roundDown : Bool), 0 < d →
      -2 ^ 63 ≤ roundedQuotient (wideValue n) d.toInt roundDown →
      roundedQuotient (wideValue n) d.toInt roundDown < 2 ^ 63 →
      (divFallback n d roundDown).toInt = roundedQuotient (wideValue n) d.toInt roundDown := by
  refine ⟨fun a a' b b' => by rw [compareWide_eq, wideValue_mulFallback, wideValue_mulFallback], ?_⟩
  intro n d roundDown positive low high
  rw [roundedQuotient_eq_fallbackQuotient n (divisor_bounds positive).1] at low high ⊢
  rw [toInt_divFallback n positive roundDown]
  exact bmod_int64 low high

theorem mulFallback_divFallback_exact_at_small :
    compareWide (mulFallback (-7) 3) (mulFallback 5 (-4)) =
        compare ((-7 : Int64).toInt * (3 : Int32).toInt) ((5 : Int64).toInt * (-4 : Int32).toInt) ∧
      (divFallback (mulFallback (-7) 3) 2 true).toInt =
        roundedQuotient (wideValue (mulFallback (-7) 3)) (2 : Int32).toInt true := by
  have quotient : roundedQuotient (wideValue (mulFallback (-7) 3)) (2 : Int32).toInt true = -11 := by
    rw [wideValue_mulFallback]
    exact roundedQuotient_eq_of_floor (by decide) (by decide) (by decide)
  refine ⟨mulFallback_divFallback_exact.1 _ _ _ _, mulFallback_divFallback_exact.2 _ _ _ (by decide) ?_ ?_⟩ <;>
    rw [quotient] <;> decide

example : (divFallback (mulFallback (-7) 3) 2 true).toInt = -11 := by decide
example : (divFallback (mulFallback (-7) 3) 2 false).toInt = -10 := by decide

end FeeFrac

end Qbitcoin
