import Mathlib.Algebra.BigOperators.Group.Finset.Basic
import Mathlib.Algebra.Order.BigOperators.Group.Finset
import Mathlib.Tactic.Ring

/-!
# Numbers as sums of bit fields

A number whose `w`-bit fields, lowest first, are `f 0, …, f (m - 1)`.  Adding,
subtracting and masking such numbers act field by field while no field
overflows, two neighbouring fields make one field of twice the width, and a
shift right by `w` drops the lowest field.  The counting steps of a
"SIMD within a register" population count are stated here once for any field
width: one sums each pair of neighbouring fields into a field of twice the
width, the total of all fields staying the same.
-/

namespace FieldSum

open Finset

/-- The number whose `w`-bit fields, lowest first, are `f 0, …, f (m - 1)`. -/
def fields (w : Nat) : Nat → (Nat → Nat) → Nat
  | 0, _ => 0
  | m + 1, f => f 0 + 2 ^ w * fields w m (fun j => f (j + 1))

variable {w m : Nat} {f g : Nat → Nat}

@[simp] theorem fields_zero : fields w 0 f = 0 := rfl

theorem fields_succ : fields w (m + 1) f = f 0 + 2 ^ w * fields w m (fun j => f (j + 1)) := rfl

theorem fields_congr (same : ∀ j < m, f j = g j) : fields w m f = fields w m g := by
  induction m generalizing f g with
  | zero => rfl
  | succ m inductionHypothesis =>
    rw [fields_succ, fields_succ, same 0 (Nat.zero_lt_succ m),
      inductionHypothesis fun j below => same (j + 1) (Nat.succ_lt_succ below)]

theorem fields_lt (small : ∀ j < m, f j < 2 ^ w) : fields w m f < 2 ^ (w * m) := by
  induction m generalizing f with
  | zero => simp
  | succ m inductionHypothesis =>
    have low := small 0 (Nat.zero_lt_succ m)
    have rest := inductionHypothesis fun j below => small (j + 1) (Nat.succ_lt_succ below)
    have room : 2 ^ w * fields w m (fun j => f (j + 1)) + 2 ^ w ≤ 2 ^ (w * (m + 1)) := by
      rw [Nat.mul_succ, Nat.pow_add, Nat.mul_comm (2 ^ (w * m)), ← Nat.mul_succ]
      exact Nat.mul_le_mul_left _ rest
    rw [fields_succ]
    omega

theorem fields_add : fields w m f + fields w m g = fields w m (fun j => f j + g j) := by
  induction m generalizing f g with
  | zero => rfl
  | succ m inductionHypothesis =>
    rw [fields_succ, fields_succ, fields_succ, ← inductionHypothesis]
    ring

theorem fields_le (le : ∀ j < m, f j ≤ g j) : fields w m f ≤ fields w m g := by
  induction m generalizing f g with
  | zero => exact le_rfl
  | succ m inductionHypothesis =>
    rw [fields_succ, fields_succ]
    exact Nat.add_le_add (le 0 (Nat.zero_lt_succ m))
      (Nat.mul_le_mul_left _ (inductionHypothesis fun j below => le (j + 1) (Nat.succ_lt_succ below)))

theorem fields_sub (le : ∀ j < m, g j ≤ f j) : fields w m f - fields w m g = fields w m (fun j => f j - g j) := by
  have whole : fields w m g + fields w m (fun j => f j - g j) = fields w m f := by
    rw [fields_add]
    exact fields_congr fun j below => Nat.add_sub_cancel' (le j below)
  omega

/-- Dropping the lowest field. -/
theorem fields_shiftRight (low : f 0 < 2 ^ w) : fields w (m + 1) f >>> w = fields w m (fun j => f (j + 1)) := by
  rw [Nat.shiftRight_eq_div_pow, fields_succ, Nat.add_mul_div_left _ _ (Nat.two_pow_pos w), Nat.div_eq_of_lt low,
    Nat.zero_add]

/-- The top field. -/
theorem fields_succ_top : fields w (m + 1) f = fields w m f + 2 ^ (w * m) * f m := by
  induction m generalizing f with
  | zero => simp [fields_succ]
  | succ m inductionHypothesis =>
    rw [fields_succ, inductionHypothesis, fields_succ, Nat.mul_succ, Nat.pow_add]
    ring

theorem fields_and (smallF : ∀ j < m, f j < 2 ^ w) (smallG : ∀ j < m, g j < 2 ^ w) :
    fields w m f &&& fields w m g = fields w m (fun j => f j &&& g j) := by
  induction m generalizing f g with
  | zero => simp
  | succ m inductionHypothesis =>
    have lowF := smallF 0 (Nat.zero_lt_succ m)
    have lowG := smallG 0 (Nat.zero_lt_succ m)
    rw [fields_succ, fields_succ, fields_succ,
      ← inductionHypothesis (fun j below => smallF (j + 1) (Nat.succ_lt_succ below))
        (fun j below => smallG (j + 1) (Nat.succ_lt_succ below))]
    apply Nat.eq_of_testBit_eq
    intro i
    rw [Nat.testBit_and, Nat.add_comm (f 0), Nat.add_comm (g 0), Nat.add_comm (f 0 &&& g 0),
      Nat.testBit_two_pow_mul_add _ lowF, Nat.testBit_two_pow_mul_add _ lowG,
      Nat.testBit_two_pow_mul_add _ (Nat.and_lt_two_pow _ lowG), Nat.testBit_and, Nat.testBit_and]
    split <;> rfl

/-- Two neighbouring `w`-bit fields make one `2w`-bit field. -/
theorem fields_regroup : fields w (2 * m) f = fields (2 * w) m (fun j => f (2 * j) + 2 ^ w * f (2 * j + 1)) := by
  induction m generalizing f with
  | zero => rfl
  | succ m inductionHypothesis =>
    rw [show 2 * (m + 1) = 2 * m + 1 + 1 by omega, fields_succ, fields_succ, inductionHypothesis, fields_succ]
    have shifted : (fun j => f (2 * j + 1 + 1) + 2 ^ w * f (2 * j + 1 + 1 + 1)) =
        fun j => f (2 * (j + 1)) + 2 ^ w * f (2 * (j + 1) + 1) := by
      funext j
      rw [show 2 * j + 1 + 1 = 2 * (j + 1) by omega]
    rw [shifted, Nat.mul_zero, Nat.zero_add, Nat.two_mul w, Nat.pow_add]
    ring

/-- The binary expansion: fields of one bit. -/
theorem fields_bits {x : Nat} (small : x < 2 ^ m) : fields 1 m (fun i => (x.testBit i).toNat) = x := by
  induction m generalizing x with
  | zero => simp_all
  | succ m inductionHypothesis =>
    have half : x / 2 < 2 ^ m := by rw [Nat.pow_succ] at small; omega
    have rest : (fun j => (x.testBit (j + 1)).toNat) = fun j => ((x / 2).testBit j).toNat := by
      funext j
      rw [Nat.testBit_add_one]
    rw [fields_succ, rest, inductionHypothesis half, Nat.testBit_zero, pow_one]
    rcases Nat.mod_two_eq_zero_or_one x with even | odd
    · simp [even]
      omega
    · simp [odd]
      omega

/-- The sums of neighbouring pairs. -/
def pairCounts (f : Nat → Nat) (j : Nat) : Nat := f (2 * j) + f (2 * j + 1)

theorem pairCounts_le {bound : Nat} (le : ∀ j, f j ≤ bound) (j : Nat) : pairCounts f j ≤ 2 * bound := by
  have := le (2 * j)
  have := le (2 * j + 1)
  unfold pairCounts
  omega

/-- Summing neighbouring pairs keeps the total. -/
theorem sum_pairCounts : ∑ j ∈ range m, pairCounts f j = ∑ j ∈ range (2 * m), f j := by
  induction m with
  | zero => rfl
  | succ m inductionHypothesis =>
    rw [sum_range_succ, inductionHypothesis, show 2 * (m + 1) = 2 * m + 1 + 1 by omega, sum_range_succ,
      sum_range_succ, Nat.add_assoc, pairCounts]

/-! ## Summing neighbouring fields -/

/-- The mask of the low halves of `2k`-bit fields. -/
def lowHalves (k m : Nat) : Nat := fields (2 * k) m (fun _ => 2 ^ k - 1)

theorem and_lowHalf {a b k : Nat} (small : a < 2 ^ k) : (a + 2 ^ k * b) &&& (2 ^ k - 1) = a := by
  rw [Nat.and_two_pow_sub_one_eq_mod, Nat.add_mul_mod_self_left, Nat.mod_eq_of_lt small]

theorem lowHalf_lt {a b k : Nat} (smallA : a < 2 ^ k) (smallB : b < 2 ^ k) : a + 2 ^ k * b < 2 ^ (2 * k) := by
  have : 2 ^ k * b + 2 ^ k ≤ 2 ^ k * 2 ^ k := by rw [← Nat.mul_succ]; exact Nat.mul_le_mul_left _ smallB
  rw [Nat.two_mul, Nat.pow_add]
  omega

variable {k : Nat} {c : Nat → Nat}

/-- Masking with the low halves keeps the even fields. -/
theorem and_lowHalves (small : ∀ j < 2 * m, c j < 2 ^ k) :
    fields k (2 * m) c &&& lowHalves k m = fields (2 * k) m (fun i => c (2 * i)) := by
  have maskSmall : 2 ^ k - 1 < 2 ^ (2 * k) :=
    lt_of_lt_of_le (Nat.sub_lt (Nat.two_pow_pos k) Nat.one_pos) (Nat.pow_le_pow_right Nat.two_pos (by omega))
  rw [fields_regroup, lowHalves,
    fields_and (fun i below => lowHalf_lt (small (2 * i) (by omega)) (small (2 * i + 1) (by omega)))
      fun _ _ => maskSmall]
  exact fields_congr fun i below => and_lowHalf (small (2 * i) (by omega))

/-- The fields above the lowest one, the top one made zero. -/
def above (c : Nat → Nat) (count : Nat) (j : Nat) : Nat := if j + 1 < count then c (j + 1) else 0

theorem fields_shiftRight_eq_above (small : ∀ j < m, c j < 2 ^ k) :
    fields k m c >>> k = fields k m (above c m) := by
  cases m with
  | zero => simp
  | succ m =>
    rw [fields_shiftRight (small 0 (Nat.zero_lt_succ m)), fields_succ_top]
    simp only [above, lt_irrefl, if_false, Nat.mul_zero, Nat.add_zero]
    exact fields_congr fun j below => (if_pos (Nat.succ_lt_succ below)).symm

/-- Shifting right and masking with the low halves keeps the odd fields. -/
theorem shiftRight_and_lowHalves (small : ∀ j < 2 * m, c j < 2 ^ k) :
    (fields k (2 * m) c >>> k) &&& lowHalves k m = fields (2 * k) m (fun i => c (2 * i + 1)) := by
  rw [fields_shiftRight_eq_above small, and_lowHalves fun j below => ?_]
  · exact fields_congr fun i below => if_pos (by omega)
  · unfold above
    split_ifs
    · exact small (j + 1) ‹_›
    · exact Nat.two_pow_pos k

/-- The two halves of each pair of fields, masked out and added. -/
theorem and_add_shiftRight_and (small : ∀ j < 2 * m, c j < 2 ^ k) :
    (fields k (2 * m) c &&& lowHalves k m) + ((fields k (2 * m) c >>> k) &&& lowHalves k m) =
      fields (2 * k) m (pairCounts c) := by
  rw [and_lowHalves small, shiftRight_and_lowHalves small, fields_add]
  rfl

/-- Adding the number shifted right by one field, then masking with the low halves: the sum of each pair, when
no neighbouring fields overflow. -/
theorem add_shiftRight_and (sums : ∀ j < 2 * m, c j + above c (2 * m) j < 2 ^ k) :
    (fields k (2 * m) c + (fields k (2 * m) c >>> k)) &&& lowHalves k m = fields (2 * k) m (pairCounts c) := by
  have small : ∀ j < 2 * m, c j < 2 ^ k := fun j below => lt_of_le_of_lt (Nat.le_add_right _ _) (sums j below)
  rw [fields_shiftRight_eq_above small, fields_add]
  rw [and_lowHalves sums]
  exact fields_congr fun i below => by rw [above, if_pos (by omega), pairCounts]

/-- Each 1-bit field subtracted its upper neighbour: the bit count of each pair. -/
theorem sub_shiftRight_and {x : Nat} (small : x < 2 ^ (2 * m)) :
    x - ((x >>> 1) &&& lowHalves 1 m) = fields 2 m (pairCounts fun i => (x.testBit i).toNat) := by
  have bits : ∀ j < 2 * m, (x.testBit j).toNat < 2 ^ 1 := fun j _ => by cases x.testBit j <;> decide
  conv => lhs; rw [← fields_bits small]
  rw [shiftRight_and_lowHalves bits, fields_regroup, fields_sub fun i _ => by omega]
  exact fields_congr fun i _ => by simp only [pairCounts]; omega

end FieldSum
