import Qbitcoin.Lib.Limbs
import Qbitcoin.Consensus.Compact
import Mathlib.Data.Nat.ModEq

/-!
# `base_uint`: arithmetic on 32-bit limbs

`base_uint<BITS>` of `arith_uint256.h` keeps `WIDTH = BITS / 32` limbs `pn`,
least significant first.  Its operators are loops over the limbs: carry loops
for `+=` and both `*=`, the two-part shifts `<<=` and `>>=`, and the restoring
division `/=`, which aligns the divisor by `bits()` and then takes off one bit of
the quotient at a time.  Each loop is proved to compute on the number the limbs
stand for what its operator names, modulo `2 ^ BITS`.
-/

namespace Qbitcoin

open Limbs

/-- `base_uint<BITS>`: `WIDTH` limbs `pn` of 32 bits, least significant first. -/
structure BaseUint (width : Nat) where
  pn : List UInt32
  length_pn : pn.length = width
  deriving DecidableEq

namespace BaseUint

variable {width : Nat}

/-- The number the limbs stand for. -/
def toNat (x : BaseUint width) : Nat := value x.pn

/-- `base_uint()`: every limb zero. -/
def zero (width : Nat) : BaseUint width := ⟨List.replicate width 0, List.length_replicate⟩

theorem toNat_lt (x : BaseUint width) : x.toNat < 2 ^ (32 * width) := by
  have fits := value_lt x.pn
  rwa [x.length_pn] at fits

@[simp] theorem toNat_zero : (zero width).toNat = 0 := value_replicate_zero width

/-- Every number below `2 ^ BITS` is a `base_uint<BITS>`. -/
theorem exists_toNat_eq {n : Nat} (fits : n < 2 ^ (32 * width)) : ∃ x : BaseUint width, x.toNat = n :=
  ⟨⟨Limbs.ofNat width n, length_ofNat width n⟩, by rw [toNat, value_ofNat, Nat.mod_eq_of_lt fits]⟩

/-- Two numbers of one width are equal when they stand for the same number. -/
theorem ext_toNat {x y : BaseUint width} (same : x.toNat = y.toNat) : x = y := by
  obtain ⟨pn, length_pn⟩ := x
  obtain ⟨other, length_other⟩ := y
  have limbs : pn = other := by
    apply List.ext_getElem (length_pn.trans length_other.symm)
    intro i inPn inOther
    have limb : (pn.getD i 0).toNat = (other.getD i 0).toNat := by
      rw [toNat_getD, toNat_getD]
      exact congrArg (· / 2 ^ (32 * i) % 2 ^ 32) same
    have sameLimb := UInt32.toNat_inj.mp limb
    rwa [List.getD_eq_getElem _ _ inPn, List.getD_eq_getElem _ _ inOther] at sameLimb
  subst limbs
  rfl

/-! ## Carry loops -/

/-- The body of `operator*=(uint32_t)`: `carry + (uint64_t)b32 * pn[i]`. -/
def mulWordStep (b32 : UInt32) (carry : UInt64) (limb : UInt32) : UInt64 := carry + b32.toUInt64 * limb.toUInt64

/-- `base_uint::operator*=(uint32_t b32)`. -/
def mulWord (x : BaseUint width) (b32 : UInt32) : BaseUint width :=
  ⟨carryLoop (mulWordStep b32) 0 x.pn, by simp [x.length_pn]⟩

/-- The body of `operator+=`: `carry + pn[i] + b.pn[i]`. -/
def addStep (carry : UInt64) (limbs : UInt32 × UInt32) : UInt64 := carry + limbs.1.toUInt64 + limbs.2.toUInt64

/-- `base_uint::operator+=(const base_uint& b)`. -/
def add (x b : BaseUint width) : BaseUint width :=
  ⟨carryLoop addStep 0 (x.pn.zip b.pn), by simp [x.length_pn, b.length_pn]⟩

/-- The body of the inner loop of `operator*=(const base_uint& b)` for limb `j`:
`carry + a.pn[i + j] + (uint64_t)pn[j] * b.pn[i]`. -/
def mulStep (factor : UInt32) (carry : UInt64) (limbs : UInt32 × UInt32) : UInt64 :=
  carry + limbs.1.toUInt64 + factor.toUInt64 * limbs.2.toUInt64

/-- The outer loop of `operator*=(const base_uint& b)` at limb `j`: the inner
loop runs over the limbs `j` and up of the product `a` so far, against the
limbs of `b` from `0`. -/
def mulRow (pn b a : List UInt32) (j : Nat) : List UInt32 :=
  a.take j ++ carryLoop (mulStep (pn.getD j 0)) 0 ((a.drop j).zip b)

/-- The limbs of `operator*=(const base_uint& b)`, from a product `a` of zeros. -/
def mulLimbs (width : Nat) (pn b : List UInt32) : List UInt32 :=
  (List.range width).foldl (mulRow pn b) (List.replicate width 0)

theorem length_mulRow (pn b a : List UInt32) {j : Nat} (within : j ≤ a.length) (longer : a.length ≤ b.length) :
    (mulRow pn b a j).length = a.length := by
  simp [mulRow]
  omega

/-- Every row keeps the width, since it starts inside it. -/
theorem length_mulRows (pn b : List UInt32) {width : Nat} (bLength : b.length = width) :
    ∀ m ≤ width, ((List.range m).foldl (mulRow pn b) (List.replicate width 0)).length = width := by
  intro m
  induction m with
  | zero => simp
  | succ m inductionHypothesis =>
    intro within
    have sofar := inductionHypothesis (by omega)
    rw [List.range_succ, List.foldl_append, List.foldl_cons, List.foldl_nil]
    generalize (List.range m).foldl (mulRow pn b) (List.replicate width 0) = a at sofar ⊢
    rw [length_mulRow pn b a (by omega) (by omega), sofar]

theorem length_mulLimbs (width : Nat) (pn b : List UInt32) (bLength : b.length = width) :
    (mulLimbs width pn b).length = width :=
  length_mulRows pn b bLength width le_rfl

/-- `base_uint::operator*=(const base_uint& b)`. -/
def mul (x b : BaseUint width) : BaseUint width :=
  ⟨mulLimbs width x.pn b.pn, length_mulLimbs width x.pn b.pn b.length_pn⟩

theorem mulWordStep_exact (b32 : UInt32) (carry : UInt64) (limb : UInt32) (carryFits : carry.toNat < 2 ^ 32) :
    (mulWordStep b32 carry limb).toNat = carry.toNat + b32.toNat * limb.toNat := by
  have fits := carry_step_lt carryFits (show 0 < 2 ^ 32 by norm_num) b32.toNat_lt limb.toNat_lt
  rw [mulWordStep, UInt64.toNat_add, UInt64.toNat_mul, UInt32.toNat_toUInt64, UInt32.toNat_toUInt64,
    Nat.mod_eq_of_lt (by omega), Nat.mod_eq_of_lt (by omega)]

theorem addStep_exact (carry : UInt64) (limbs : UInt32 × UInt32) (carryFits : carry.toNat < 2 ^ 32) :
    (addStep carry limbs).toNat = carry.toNat + (limbs.1.toNat + 1 * limbs.2.toNat) := by
  have first := limbs.1.toNat_lt
  have second := limbs.2.toNat_lt
  rw [addStep, UInt64.toNat_add, UInt64.toNat_add, UInt32.toNat_toUInt64, UInt32.toNat_toUInt64,
    Nat.mod_eq_of_lt (by omega), Nat.mod_eq_of_lt (by omega)]
  omega

theorem mulStep_exact (factor : UInt32) (carry : UInt64) (limbs : UInt32 × UInt32) (carryFits : carry.toNat < 2 ^ 32) :
    (mulStep factor carry limbs).toNat = carry.toNat + (limbs.1.toNat + factor.toNat * limbs.2.toNat) := by
  have fits := carry_step_lt carryFits limbs.1.toNat_lt factor.toNat_lt limbs.2.toNat_lt
  have product : factor.toNat * limbs.2.toNat < 2 ^ 64 := by omega
  rw [mulStep, UInt64.toNat_add, UInt64.toNat_add, UInt64.toNat_mul, UInt32.toNat_toUInt64, UInt32.toNat_toUInt64,
    UInt32.toNat_toUInt64, Nat.mod_eq_of_lt product, Nat.mod_eq_of_lt (by omega), Nat.mod_eq_of_lt (by omega)]
  omega

/-- `*= b32` multiplies modulo `2 ^ BITS`. -/
theorem toNat_mulWord (x : BaseUint width) (b32 : UInt32) :
    (x.mulWord b32).toNat = x.toNat * b32.toNat % 2 ^ (32 * width) := by
  rw [toNat, mulWord, value_carryLoop (mulWordStep_exact b32) _ (by simp), digitsValue_map_mul,
    x.length_pn, UInt64.toNat_zero, Nat.add_zero, Nat.mul_comm]
  rfl

/-- `+=` adds modulo `2 ^ BITS`. -/
theorem toNat_add (x b : BaseUint width) : (x.add b).toNat = (x.toNat + b.toNat) % 2 ^ (32 * width) := by
  have sameLength : x.pn.length ≤ b.pn.length := by rw [x.length_pn, b.length_pn]
  have zipLength : (x.pn.zip b.pn).length = width := by simp [x.length_pn, b.length_pn]
  have whole : b.pn.take x.pn.length = b.pn := List.take_of_length_le (by rw [x.length_pn, b.length_pn])
  rw [toNat, add, value_carryLoop addStep_exact _ (by simp), digitsValue_zip 1 sameLength, zipLength, whole,
    UInt64.toNat_zero, Nat.add_zero, Nat.one_mul]
  rfl

/-- Row `j` of the product adds `pn[j]` times `b`, shifted `j` limbs, to the
product so far, modulo `2 ^ BITS`. -/
theorem value_mulRow (pn b a : List UInt32) (j : Nat) (within : j < a.length) (sameLength : a.length = b.length) :
    value (mulRow pn b a j) ≡ value a + 2 ^ (32 * j) * ((pn.getD j 0).toNat * value b) [MOD 2 ^ (32 * a.length)] := by
  have rest : (a.drop j).length ≤ b.length := by simp; omega
  have restLength : (a.drop j).length = a.length - j := List.length_drop
  have split : a.length = j + (a.length - j) := by omega
  rw [mulRow, value_append, List.length_take_of_le within.le,
    value_carryLoop (mulStep_exact (pn.getD j 0)) _ (by simp), digitsValue_zip _ rest,
    List.length_zip, Nat.min_eq_left rest, value_take, value_drop, value_take, restLength,
    UInt64.toNat_zero, Nat.add_zero, mod_shifted, ← split]
  have dropped : 2 ^ (32 * j) * (value b % 2 ^ (32 * (a.length - j))) ≡ 2 ^ (32 * j) * value b
      [MOD 2 ^ (32 * a.length)] := by
    have cut := (Nat.mod_modEq (value b) (2 ^ (32 * (a.length - j)))).mul_left' (2 ^ (32 * j))
    rwa [← pow_add, ← Nat.mul_add, ← split] at cut
  calc (value a + 2 ^ (32 * j) * ((pn.getD j 0).toNat * (value b % 2 ^ (32 * (a.length - j))))) % 2 ^ (32 * a.length)
      ≡ value a + 2 ^ (32 * j) * ((pn.getD j 0).toNat * (value b % 2 ^ (32 * (a.length - j)))) [MOD 2 ^ (32 * a.length)] :=
        Nat.mod_modEq _ _
    _ = value a + (pn.getD j 0).toNat * (2 ^ (32 * j) * (value b % 2 ^ (32 * (a.length - j)))) := by ring
    _ ≡ value a + (pn.getD j 0).toNat * (2 ^ (32 * j) * value b) [MOD 2 ^ (32 * a.length)] :=
        (dropped.mul_left _).add_left _
    _ = value a + 2 ^ (32 * j) * ((pn.getD j 0).toNat * value b) := by ring

/-- After `m` rows the product is the low `m` limbs of `pn` times `b`, modulo
`2 ^ BITS`: the loop invariant of `operator*=(const base_uint& b)`. -/
theorem value_mulRows (pn b : List UInt32) {width : Nat} (bLength : b.length = width) :
    ∀ m ≤ width, value ((List.range m).foldl (mulRow pn b) (List.replicate width 0)) % 2 ^ (32 * width) =
      value (pn.take m) * value b % 2 ^ (32 * width) := by
  intro m
  induction m with
  | zero => simp
  | succ m inductionHypothesis =>
    intro within
    have sofar := inductionHypothesis (by omega)
    have length := length_mulRows pn b bLength m (by omega)
    rw [List.range_succ, List.foldl_append, List.foldl_cons, List.foldl_nil]
    generalize (List.range m).foldl (mulRow pn b) (List.replicate width 0) = a at sofar length ⊢
    have row := value_mulRow pn b a m (by omega) (by rw [length, bLength])
    rw [length] at row
    calc value (mulRow pn b a m) % 2 ^ (32 * width)
        = (value a + 2 ^ (32 * m) * ((pn.getD m 0).toNat * value b)) % 2 ^ (32 * width) := row
      _ = (value (pn.take m) * value b % 2 ^ (32 * width) + 2 ^ (32 * m) * ((pn.getD m 0).toNat * value b)) %
            2 ^ (32 * width) := by rw [← Nat.mod_add_mod, sofar]
      _ = value (pn.take (m + 1)) * value b % 2 ^ (32 * width) := by
        rw [← Nat.add_mod_mod, ← Nat.add_mod, value_take_succ]
        congr 1
        ring

/-- `*= b` multiplies modulo `2 ^ BITS`. -/
theorem toNat_mul (x b : BaseUint width) : (x.mul b).toNat = x.toNat * b.toNat % 2 ^ (32 * width) := by
  have rows := value_mulRows x.pn b.pn b.length_pn width le_rfl
  have fits : value (mulLimbs width x.pn b.pn) < 2 ^ (32 * width) := by
    simpa [length_mulLimbs width x.pn b.pn b.length_pn] using value_lt (mulLimbs width x.pn b.pn)
  have whole : x.pn.take width = x.pn := List.take_of_length_le (le_of_eq x.length_pn)
  rw [whole, ← mulLimbs, Nat.mod_eq_of_lt fits] at rows
  exact rows

/-- `(2^32 - 1)^2 = 0xfffffffe00000001`, both limbs of the product written. -/
example : mulLimbs 2 [0xffffffff, 0] [0xffffffff, 0] = [1, 0xfffffffe] := by decide

/-! ## Negation, subtraction and comparison -/

/-- The loop of `operator++`: a limb is incremented, and the next one too while
the incremented limb wraps to zero. -/
def incrementLoop : List UInt32 → List UInt32
  | [] => []
  | limb :: rest => (limb + 1) :: if limb + 1 = 0 then incrementLoop rest else rest

@[simp] theorem length_incrementLoop (limbs : List UInt32) : (incrementLoop limbs).length = limbs.length := by
  induction limbs with
  | nil => rfl
  | cons limb rest inductionHypothesis =>
    rw [incrementLoop]
    split <;> simp [inductionHypothesis]

/-- `base_uint::operator++`. -/
def increment (x : BaseUint width) : BaseUint width := ⟨incrementLoop x.pn, by simp [x.length_pn]⟩

/-- `base_uint::operator~`. -/
def complement (x : BaseUint width) : BaseUint width := ⟨x.pn.map (~~~·), by simp [x.length_pn]⟩

/-- `base_uint::operator-()`: the complement, incremented. -/
def neg (x : BaseUint width) : BaseUint width := x.complement.increment

/-- `base_uint::operator-=(const base_uint& b)`: `*this += -b`. -/
def sub (x b : BaseUint width) : BaseUint width := x.add b.neg

/-- Incrementing the limbs adds one, cut to the width: the carry goes on from a
limb exactly when that limb wraps. -/
theorem value_incrementLoop (limbs : List UInt32) :
    value (incrementLoop limbs) = (value limbs + 1) % 2 ^ (32 * limbs.length) := by
  induction limbs with
  | nil => rfl
  | cons limb rest inductionHypothesis =>
    have incremented : (limb + 1).toNat = (limb.toNat + 1) % 2 ^ 32 := by rw [UInt32.toNat_add, UInt32.toNat_one]
    have limbBound := limb.toNat_lt
    have carried : value (incrementLoop (limb :: rest)) =
        (limb.toNat + 1) % 2 ^ 32 + 2 ^ 32 * (((limb.toNat + 1) / 2 ^ 32 + value rest) % 2 ^ (32 * rest.length)) := by
      rw [incrementLoop, value_cons, incremented]
      by_cases wraps : limb + 1 = 0
      · have top : limb.toNat + 1 = 2 ^ 32 := by
          have zero := congrArg UInt32.toNat wraps
          rw [incremented, UInt32.toNat_zero] at zero
          omega
        rw [if_pos wraps, inductionHypothesis, top, Nat.div_self (Nat.two_pow_pos _), Nat.add_comm 1]
      · have below : limb.toNat + 1 < 2 ^ 32 := by
          by_contra atTop
          exact wraps (UInt32.toNat_inj.mp (by rw [incremented, UInt32.toNat_zero]; omega))
        rw [if_neg wraps, Nat.div_eq_of_lt below, Nat.zero_add, Nat.mod_eq_of_lt (value_lt rest)]
    rw [carried, mod_cons, List.length_cons, value_cons]
    congr 1
    ring

theorem toNat_increment (x : BaseUint width) : x.increment.toNat = (x.toNat + 1) % 2 ^ (32 * width) := by
  rw [toNat, increment, value_incrementLoop, x.length_pn]
  rfl

theorem toNat_add_toNat_complement (x : BaseUint width) : x.toNat + x.complement.toNat + 1 = 2 ^ (32 * width) := by
  have complement := value_add_value_map_not x.pn
  rwa [x.length_pn] at complement

/-- Unary minus is the negation modulo `2 ^ BITS`. -/
theorem toNat_neg (x : BaseUint width) : x.neg.toNat = (2 ^ (32 * width) - x.toNat) % 2 ^ (32 * width) := by
  have complement := toNat_add_toNat_complement x
  rw [neg, toNat_increment]
  congr 1
  omega

/-- `-=` subtracts modulo `2 ^ BITS`. -/
theorem toNat_sub (x b : BaseUint width) :
    (x.sub b).toNat = (x.toNat + (2 ^ (32 * width) - b.toNat)) % 2 ^ (32 * width) := by
  rw [sub, toNat_add, toNat_neg, Nat.add_mod_mod]

/-- Without a borrow, `-=` subtracts exactly. -/
theorem toNat_sub_of_le {x b : BaseUint width} (noBorrow : b.toNat ≤ x.toNat) :
    (x.sub b).toNat = x.toNat - b.toNat := by
  have fits := x.toNat_lt
  have whole : x.toNat + (2 ^ (32 * width) - b.toNat) = x.toNat - b.toNat + 2 ^ (32 * width) := by omega
  rw [toNat_sub, whole, Nat.add_mod_right, Nat.mod_eq_of_lt (by omega)]

/-- The loop of `CompareTo` from limb `i - 1` down: the first limb that differs
decides. -/
def compareFrom (pn other : List UInt32) : Nat → Int
  | 0 => 0
  | i + 1 =>
    if pn.getD i 0 < other.getD i 0 then -1
    else if pn.getD i 0 > other.getD i 0 then 1
    else compareFrom pn other i

/-- `base_uint::CompareTo`. -/
def compareTo (x b : BaseUint width) : Int := compareFrom x.pn b.pn width

/-- Comparing the limbs below `i` from the top compares the numbers they stand for. -/
theorem compareFrom_eq (pn other : List UInt32) (i : Nat) :
    compareFrom pn other i =
      if value (pn.take i) < value (other.take i) then -1 else if value (other.take i) < value (pn.take i) then 1 else 0 := by
  induction i with
  | zero => simp [compareFrom]
  | succ i inductionHypothesis =>
    have lowFits : ∀ limbs : List UInt32, value (limbs.take i) < 2 ^ (32 * i) := fun limbs =>
      lt_of_lt_of_le (value_lt _) (Nat.pow_le_pow_right (by norm_num) (by simp))
    rw [compareFrom, value_take_succ, value_take_succ]
    by_cases below : pn.getD i 0 < other.getD i 0
    · have smaller := lt_of_top_lt (value (other.take i)) (lowFits pn) (UInt32.lt_iff_toNat_lt.mp below)
      rw [if_pos below, if_pos smaller]
    · by_cases above : pn.getD i 0 > other.getD i 0
      · have larger := lt_of_top_lt (value (pn.take i)) (lowFits other) (UInt32.lt_iff_toNat_lt.mp above)
        rw [if_neg below, if_pos above, if_neg (Nat.lt_asymm larger), if_pos larger]
      · have same : pn.getD i 0 = other.getD i 0 := by
          simp only [gt_iff_lt, UInt32.lt_iff_toNat_lt, not_lt] at below above
          exact UInt32.toNat_inj.mp (Nat.le_antisymm above below)
        rw [if_neg below, if_neg above, inductionHypothesis, same]
        simp only [Nat.add_lt_add_iff_right]

/-- `CompareTo` orders as the numbers do. -/
theorem compareTo_eq (x b : BaseUint width) :
    x.compareTo b = if x.toNat < b.toNat then -1 else if b.toNat < x.toNat then 1 else 0 := by
  have whole : ∀ y : BaseUint width, y.pn.take width = y.pn := fun y => List.take_of_length_le (le_of_eq y.length_pn)
  rw [compareTo, compareFrom_eq, whole, whole]
  rfl

theorem compareTo_nonneg_iff (x b : BaseUint width) : 0 ≤ x.compareTo b ↔ b.toNat ≤ x.toNat := by
  rw [compareTo_eq]
  by_cases below : x.toNat < b.toNat
  · simp [below]
  · by_cases above : b.toNat < x.toNat <;> simp [below, above] <;> omega

/-! ## Shifts -/

/-- One pass of the loop of `operator<<=` at limb `i` of `a`, for a shift by `k`
limbs and `shift` bits: the top `shift` bits of the limb go into limb
`i + k + 1`, the rest, moved up, into limb `i + k`. -/
def shiftLeftStep (a : List UInt32) (width k : Nat) (shift : UInt32) (pn : List UInt32) (i : Nat) : List UInt32 :=
  orInto (orInto pn (i + k + 1 < width ∧ shift ≠ 0) (i + k + 1) (a.getD i 0 >>> (32 - shift)))
    (i + k < width) (i + k) (a.getD i 0 <<< shift)

/-- `base_uint::operator<<=(unsigned int shift)`, from limbs all zero. -/
def shiftLeft (x : BaseUint width) (shift : UInt32) : BaseUint width :=
  let k := (shift / 32).toNat
  let shift := shift % 32
  ⟨(List.range width).foldl (shiftLeftStep x.pn width k shift) (List.replicate width 0),
    by rw [length_foldl (fun _ _ => by simp [shiftLeftStep]), List.length_replicate]⟩

/-- Limb `j` after the passes for the limbs `i < m` of `a`: the limb `k` places
down, moved up, and the top bits of the one below it. -/
theorem getD_shiftLeftLoop (a : List UInt32) (k : Nat) (shift : UInt32) {width j : Nat} (inside : j < width)
    (m : Nat) :
    ((List.range m).foldl (shiftLeftStep a width k shift) (List.replicate width 0)).getD j 0 =
      (if k ≤ j ∧ j < k + m then a.getD (j - k) 0 <<< shift else 0) |||
        (if shift ≠ 0 ∧ k + 1 ≤ j ∧ j < k + 1 + m then a.getD (j - k - 1) 0 >>> (32 - shift) else 0) := by
  induction m with
  | zero =>
    rw [if_neg (by omega), if_neg (fun ⟨_, _, _⟩ => by omega)]
    simp [inside]
  | succ m inductionHypothesis =>
    have length : ((List.range m).foldl (shiftLeftStep a width k shift) (List.replicate width 0)).length = width := by
      rw [length_foldl (fun _ _ => by simp [shiftLeftStep]), List.length_replicate]
    rw [List.range_succ, List.foldl_append, List.foldl_cons, List.foldl_nil]
    generalize (List.range m).foldl (shiftLeftStep a width k shift) (List.replicate width 0) = pn
      at inductionHypothesis length ⊢
    rw [shiftLeftStep, getD_orInto, getD_orInto, length_orInto, length, inductionHypothesis]
    by_cases moved : j = m + k
    · subst moved
      simp [inside, show m + k < k + (m + 1) by omega, show ¬m + k < k + m by omega, show m + k < k + 1 + m by omega,
        show m + k < k + 1 + (m + 1) by omega, UInt32.or_comm]
    · by_cases carried : j = m + k + 1
      · subst carried
        by_cases zeroShift : shift = 0
        · simp [zeroShift, show ¬m + k + 1 < k + m by omega, show ¬m + k + 1 < k + (m + 1) by omega]
        · simp [inside, zeroShift, show ¬m + k + 1 < k + m by omega, show ¬m + k + 1 < k + (m + 1) by omega,
            show ¬m + k + 1 < k + 1 + m by omega, show m + k + 1 < k + 1 + (m + 1) by omega,
            show m + k + 1 - k - 1 = m by omega]
      · simp only [Ne.symm moved, Ne.symm carried, false_and, and_false, if_false,
          show (j < k + (m + 1)) ↔ j < k + m by omega, show (j < k + 1 + (m + 1)) ↔ j < k + 1 + m by omega]

/-- The shift split as the source splits it: `k = shift / 32` limbs and
`shift % 32` bits. -/
theorem shift_split (shift : UInt32) :
    (shift / 32).toNat = shift.toNat / 32 ∧ (shift % 32).toNat = shift.toNat % 32 ∧ (shift % 32).toNat < 32 ∧
      (shift % 32 ≠ 0 ↔ shift.toNat % 32 ≠ 0) := by
  have bitShift : (shift % 32).toNat = shift.toNat % 32 := UInt32.toNat_mod _ _
  refine ⟨UInt32.toNat_div _ _, bitShift, by omega, ?_⟩
  rw [← bitShift, Ne, Ne, ← UInt32.toNat_inj, UInt32.toNat_zero]

/-- `<<= shift` multiplies by `2 ^ shift` modulo `2 ^ BITS`. -/
theorem toNat_shiftLeft (x : BaseUint width) (shift : UInt32) :
    (x.shiftLeft shift).toNat = x.toNat * 2 ^ shift.toNat % 2 ^ (32 * width) := by
  obtain ⟨limbShift, bitShift, smallShift, carriesIff⟩ := shift_split shift
  simp only [toNat]
  apply value_eq_of_testBit
  · rw [(x.shiftLeft shift).length_pn]
    exact Nat.mod_lt _ (Nat.two_pow_pos _)
  · intro j inside t bit
    rw [(x.shiftLeft shift).length_pn] at inside
    simp only [shiftLeft]
    rw [getD_shiftLeftLoop _ _ _ inside, UInt32.toNat_or, Nat.testBit_or, Nat.testBit_mod_two_pow,
      Nat.testBit_mul_two_pow, limbShift]
    simp only [show 32 * j + t < 32 * width by omega, show j < shift.toNat / 32 + width by omega,
      show j < shift.toNat / 32 + 1 + width by omega, and_true, decide_true, Bool.true_and]
    by_cases below : shift.toNat / 32 ≤ j
    · by_cases low : shift.toNat % 32 ≤ t
      · have index : 32 * j + t - shift.toNat = 32 * (j - shift.toNat / 32) + (t - shift.toNat % 32) := by omega
        have missed : ((if shift % 32 ≠ 0 ∧ shift.toNat / 32 + 1 ≤ j then
            x.pn.getD (j - shift.toNat / 32 - 1) 0 >>> (32 - shift % 32) else 0).toNat.testBit t) = false := by
          split_ifs with carried
          · obtain ⟨complementShift, complementSmall⟩ := toNat_thirtyTwo_sub smallShift carried.1
            rw [testBit_shiftRight_limb _ _ complementSmall, testBit_limb_of_ge _ (by omega)]
          · simp
        rw [if_pos below, testBit_shiftLeft_limb _ _ smallShift bit, bitShift, missed, Bool.or_false, index,
          testBit_value _ _ (by omega)]
        simp [low, show shift.toNat ≤ 32 * j + t by omega]
      · have carries : shift % 32 ≠ 0 := carriesIff.mpr (by omega)
        obtain ⟨complementShift, complementSmall⟩ := toNat_thirtyTwo_sub smallShift carries
        rw [if_pos below, testBit_shiftLeft_limb _ _ smallShift bit, bitShift]
        simp only [low, decide_false, Bool.false_and, Bool.false_or]
        by_cases above : shift.toNat / 32 + 1 ≤ j
        · have index : 32 * j + t - shift.toNat = 32 * (j - shift.toNat / 32 - 1) + (32 - shift.toNat % 32 + t) := by
            omega
          rw [if_pos (And.intro carries above), testBit_shiftRight_limb _ _ complementSmall, complementShift, bitShift, index,
            testBit_value _ _ (by omega)]
          simp [show shift.toNat ≤ 32 * j + t by omega]
        · rw [if_neg (not_and_of_not_right _ above)]
          simp [show ¬shift.toNat ≤ 32 * j + t by omega]
    · simp [below, show ¬shift.toNat / 32 + 1 ≤ j by omega, show ¬shift.toNat ≤ 32 * j + t by omega]

/-- One pass of the loop of `operator>>=` at limb `i` of `a`, for a shift by `k`
limbs and `shift` bits: the low `shift` bits of the limb, moved to the top, go
into limb `i - k - 1`, the rest, moved down, into limb `i - k`. -/
def shiftRightStep (a : List UInt32) (k : Nat) (shift : UInt32) (pn : List UInt32) (i : Nat) : List UInt32 :=
  orInto (orInto pn (k + 1 ≤ i ∧ shift ≠ 0) (i - k - 1) (a.getD i 0 <<< (32 - shift)))
    (k ≤ i) (i - k) (a.getD i 0 >>> shift)

/-- `base_uint::operator>>=(unsigned int shift)`, from limbs all zero. -/
def shiftRight (x : BaseUint width) (shift : UInt32) : BaseUint width :=
  let k := (shift / 32).toNat
  let shift := shift % 32
  ⟨(List.range width).foldl (shiftRightStep x.pn k shift) (List.replicate width 0),
    by rw [length_foldl (fun _ _ => by simp [shiftRightStep]), List.length_replicate]⟩

/-- Limb `j` after the passes for the limbs `i < m` of `a`: the limb `k` places
up, moved down, and the low bits of the one above it. -/
theorem getD_shiftRightLoop (a : List UInt32) (k : Nat) (shift : UInt32) {width j : Nat} (inside : j < width)
    (m : Nat) :
    ((List.range m).foldl (shiftRightStep a k shift) (List.replicate width 0)).getD j 0 =
      (if j + k < m then a.getD (j + k) 0 >>> shift else 0) |||
        (if shift ≠ 0 ∧ j + k + 1 < m then a.getD (j + k + 1) 0 <<< (32 - shift) else 0) := by
  induction m with
  | zero => simp [inside]
  | succ m inductionHypothesis =>
    have length : ((List.range m).foldl (shiftRightStep a k shift) (List.replicate width 0)).length = width := by
      rw [length_foldl (fun _ _ => by simp [shiftRightStep]), List.length_replicate]
    rw [List.range_succ, List.foldl_append, List.foldl_cons, List.foldl_nil]
    generalize (List.range m).foldl (shiftRightStep a k shift) (List.replicate width 0) = pn
      at inductionHypothesis length ⊢
    rw [shiftRightStep, getD_orInto, getD_orInto, length_orInto, length, inductionHypothesis]
    by_cases moved : j + k = m
    · subst moved
      rw [if_neg (show ¬((k + 1 ≤ j + k ∧ shift ≠ 0) ∧ j + k - k - 1 = j ∧ j < width) from
        fun ⟨⟨above, _⟩, same, _⟩ => by omega)]
      simp [inside, show ¬j + k + 1 < j + k by omega, UInt32.or_comm]
    · by_cases carried : j + k + 1 = m
      · subst carried
        rw [if_neg (show ¬(k ≤ j + k + 1 ∧ j + k + 1 - k = j ∧ j < width) from fun ⟨_, same, _⟩ => by omega)]
        by_cases zeroShift : shift = 0
        · simp [zeroShift, show j + k < j + k + 1 + 1 by omega]
        · simp [inside, zeroShift, show j + k + 1 - k - 1 = j by omega, show j + k < j + k + 1 + 1 by omega]
      · simp only [show ¬(k ≤ m ∧ m - k = j ∧ j < width) by omega,
          show ¬((k + 1 ≤ m ∧ shift ≠ 0) ∧ m - k - 1 = j ∧ j < width) from fun ⟨_, same, _⟩ => by omega,
          if_false, show (j + k < m + 1) ↔ j + k < m by omega, show (j + k + 1 < m + 1) ↔ j + k + 1 < m by omega]

/-- `>>= shift` divides by `2 ^ shift`, rounding down. -/
theorem toNat_shiftRight (x : BaseUint width) (shift : UInt32) :
    (x.shiftRight shift).toNat = x.toNat / 2 ^ shift.toNat := by
  obtain ⟨limbShift, bitShift, smallShift, carriesIff⟩ := shift_split shift
  simp only [toNat]
  apply value_eq_of_testBit
  · rw [(x.shiftRight shift).length_pn]
    exact lt_of_le_of_lt (Nat.div_le_self _ _) x.toNat_lt
  · intro j inside t bit
    rw [(x.shiftRight shift).length_pn] at inside
    simp only [shiftRight]
    rw [getD_shiftRightLoop _ _ _ inside, UInt32.toNat_or, Nat.testBit_or, Nat.testBit_div_two_pow, limbShift]
    by_cases low : shift.toNat % 32 + t < 32
    · have index : 32 * j + t + shift.toNat = 32 * (j + shift.toNat / 32) + (shift.toNat % 32 + t) := by omega
      have missed : ((if shift % 32 ≠ 0 ∧ j + shift.toNat / 32 + 1 < width then
          x.pn.getD (j + shift.toNat / 32 + 1) 0 <<< (32 - shift % 32) else 0).toNat.testBit t) = false := by
        split_ifs with carried
        · obtain ⟨complementShift, complementSmall⟩ := toNat_thirtyTwo_sub smallShift carried.1
          rw [testBit_shiftLeft_limb _ _ complementSmall bit, complementShift, bitShift]
          simp [show ¬32 - shift.toNat % 32 ≤ t by omega]
        · simp
      rw [missed, Bool.or_false, index, testBit_value _ _ (by omega)]
      split_ifs with withinLimbs
      · rw [testBit_shiftRight_limb _ _ smallShift, bitShift]
      · rw [List.getD_eq_default _ _ (by rw [x.length_pn]; omega)]
        simp
    · have carries : shift % 32 ≠ 0 := carriesIff.mpr (by omega)
      obtain ⟨complementShift, complementSmall⟩ := toNat_thirtyTwo_sub smallShift carries
      have index : 32 * j + t + shift.toNat = 32 * (j + shift.toNat / 32 + 1) + (shift.toNat % 32 + t - 32) := by
        omega
      have missed : ((if j + shift.toNat / 32 < width then
          x.pn.getD (j + shift.toNat / 32) 0 >>> (shift % 32) else 0).toNat.testBit t) = false := by
        split_ifs
        · rw [testBit_shiftRight_limb _ _ smallShift, bitShift, testBit_limb_of_ge _ (by omega)]
        · simp
      rw [missed, Bool.false_or, index, testBit_value _ _ (by omega)]
      by_cases withinLimbs : j + shift.toNat / 32 + 1 < width
      · rw [if_pos (And.intro carries withinLimbs), testBit_shiftLeft_limb _ _ complementSmall bit, complementShift,
          bitShift]
        simp [show 32 - shift.toNat % 32 ≤ t by omega, show t - (32 - shift.toNat % 32) = shift.toNat % 32 + t - 32 by
          omega]
      · rw [if_neg (not_and_of_not_right _ withinLimbs), List.getD_eq_default _ _ (by rw [x.length_pn]; omega)]
        simp

/-! ## The number of significant bits -/

/-- The inner loop of `bits()` over limb `pos`, from bit `nbits` down to bit 1;
a limb that is not zero and has none of them set has bit 0 set. -/
def limbBits (pos : Nat) (limb : UInt32) : Nat → Nat
  | 0 => 32 * pos + 1
  | nbits + 1 =>
    if limb &&& 1 <<< UInt32.ofNat (nbits + 1) ≠ 0 then 32 * pos + (nbits + 1) + 1 else limbBits pos limb nbits

/-- The outer loop of `bits()`, from limb `pos - 1` down to the first that is not zero. -/
def bitsFrom (pn : List UInt32) : Nat → Nat
  | 0 => 0
  | pos + 1 => if pn.getD pos 0 ≠ 0 then limbBits pos (pn.getD pos 0) 31 else bitsFrom pn pos

/-- `base_uint::bits()`: the position of the highest set bit plus one, `0` for zero. -/
def bits (x : BaseUint width) : Nat := bitsFrom x.pn width

theorem bitsBelow_zero (n : Nat) : bitsBelow 0 n = 0 := by
  induction n with
  | zero => rfl
  | succ n inductionHypothesis => simp [bitsBelow, inductionHypothesis]

theorem bitsBelow_eq_zero_iff {x n : Nat} (fits : x < 2 ^ n) : bitsBelow x n = 0 ↔ x = 0 := by
  constructor
  · intro none
    have below := (bitsBelow_spec x fits).1
    rw [none, pow_zero] at below
    omega
  · rintro rfl
    exact bitsBelow_zero n

/-- The scan reads only the bits below its bound. -/
theorem bitsBelow_congr {x y n : Nat} (sameBits : ∀ i < n, x.testBit i = y.testBit i) :
    bitsBelow x n = bitsBelow y n := by
  induction n with
  | zero => rfl
  | succ n inductionHypothesis =>
    rw [bitsBelow, bitsBelow, sameBits n (Nat.lt_succ_self n),
      inductionHypothesis fun i below => sameBits i (by omega)]

/-- Scanning `c` more bits above `n`: the highest set bit among them if there is
one, else the scan below `n`. -/
theorem bitsBelow_add (x n c : Nat) :
    bitsBelow x (n + c) = if bitsBelow (x / 2 ^ n) c = 0 then bitsBelow x n else n + bitsBelow (x / 2 ^ n) c := by
  induction c with
  | zero => simp [bitsBelow]
  | succ c inductionHypothesis =>
    rw [← Nat.add_assoc, bitsBelow, bitsBelow, Nat.testBit_div_two_pow, Nat.add_comm c n]
    by_cases top : x.testBit (n + c)
    · simp [top, Nat.add_assoc]
    · simp [top, inductionHypothesis]

theorem toNat_one_shiftLeft {n : Nat} (bit : n < 32) : (1 <<< UInt32.ofNat n : UInt32).toNat = 2 ^ n := by
  rw [UInt32.toNat_shiftLeft, UInt32.toNat_one, UInt32.toNat_ofNat', Nat.mod_eq_of_lt (show n < 2 ^ 32 by omega),
    Nat.mod_eq_of_lt bit, Nat.one_shiftLeft, Nat.mod_eq_of_lt (Nat.pow_lt_pow_right (by norm_num) bit)]

/-- The test `pn[pos] & 1U << nbits` of `bits()` reads bit `nbits`. -/
theorem and_one_shiftLeft_ne_zero (limb : UInt32) {n : Nat} (bit : n < 32) :
    limb &&& 1 <<< UInt32.ofNat n ≠ 0 ↔ limb.toNat.testBit n := by
  rw [Ne, ← UInt32.toNat_inj, UInt32.toNat_and, toNat_one_shiftLeft bit, UInt32.toNat_zero, Nat.and_two_pow]
  cases limb.toNat.testBit n <;> simp

/-- Over a limb with a set bit at or below `nbits`, the inner loop finds the
highest one. -/
theorem limbBits_eq (pos : Nat) (limb : UInt32) {nbits : Nat} (small : nbits < 32)
    (nonzero : limb.toNat % 2 ^ (nbits + 1) ≠ 0) : limbBits pos limb nbits = 32 * pos + bitsBelow limb.toNat (nbits + 1) := by
  induction nbits with
  | zero =>
    have bottom : limb.toNat.testBit 0 = true := by
      rw [Nat.testBit_zero]
      simp only [zero_add, pow_one] at nonzero
      simp only [decide_eq_true_eq]
      omega
    simp [limbBits, bitsBelow, bottom]
  | succ nbits inductionHypothesis =>
    rw [limbBits, bitsBelow]
    by_cases top : limb.toNat.testBit (nbits + 1)
    · rw [if_pos ((and_one_shiftLeft_ne_zero limb small).mpr top), if_pos top]
      omega
    · rw [if_neg (mt (and_one_shiftLeft_ne_zero limb small).mp top), if_neg top]
      have clear : limb.toNat / 2 ^ (nbits + 1) % 2 = 0 := by
        rw [Nat.testBit_eq_decide_div_mod_eq] at top
        simp only [decide_eq_true_eq] at top
        omega
      rw [Nat.mod_pow_succ, clear, Nat.mul_zero, Nat.add_zero] at nonzero
      exact inductionHypothesis (by omega) nonzero

/-- The scan of `bits()` over the limbs below `m` is the scan of the bits below
`32 * m` of the number. -/
theorem bitsFrom_eq (pn : List UInt32) (m : Nat) : bitsFrom pn m = bitsBelow (value pn) (32 * m) := by
  induction m with
  | zero => rfl
  | succ m inductionHypothesis =>
    have limbScan : bitsBelow (value pn / 2 ^ (32 * m)) 32 = bitsBelow (pn.getD m 0).toNat 32 :=
      bitsBelow_congr fun t bit => by rw [Nat.testBit_div_two_pow, Nat.add_comm, testBit_value _ _ bit]
    have emptyIff : bitsBelow (pn.getD m 0).toNat 32 = 0 ↔ pn.getD m 0 = 0 := by
      rw [bitsBelow_eq_zero_iff (pn.getD m 0).toNat_lt, ← UInt32.toNat_inj, UInt32.toNat_zero]
    rw [bitsFrom, Nat.mul_succ, bitsBelow_add, limbScan, inductionHypothesis]
    by_cases zeroLimb : pn.getD m 0 = 0
    · rw [if_neg (show ¬pn.getD m 0 ≠ 0 from not_not_intro zeroLimb), if_pos (emptyIff.mpr zeroLimb)]
    · have nonzero : (pn.getD m 0).toNat % 2 ^ (31 + 1) ≠ 0 := by
        rw [Nat.mod_eq_of_lt (pn.getD m 0).toNat_lt, Ne, ← UInt32.toNat_zero, UInt32.toNat_inj]
        exact zeroLimb
      rw [if_pos zeroLimb, if_neg (mt emptyIff.mp zeroLimb), limbBits_eq _ _ (by norm_num) nonzero]

/-- `bits()` is the scan of the bits of the number below `BITS`. -/
theorem bits_eq (x : BaseUint width) : x.bits = bitsBelow x.toNat (32 * width) := bitsFrom_eq x.pn width

/-- For `arith_uint256` the limb scan is the `bits` of `GetCompact`. -/
theorem bits_eq_bits (x : BaseUint 8) : x.bits = Qbitcoin.bits x.toNat := bits_eq x

theorem bits_spec (x : BaseUint width) : x.toNat < 2 ^ x.bits ∧ (0 < x.toNat → 2 ^ (x.bits - 1) ≤ x.toNat) := by
  rw [bits_eq]
  exact bitsBelow_spec _ x.toNat_lt

theorem bits_eq_zero_iff (x : BaseUint width) : x.bits = 0 ↔ x.toNat = 0 := by
  rw [bits_eq]
  exact bitsBelow_eq_zero_iff x.toNat_lt

/-! ## Division -/

/-- `pn[shift / 32] |= (1U << (shift & 31))`: set bit `shift`. -/
def setBit (x : BaseUint width) (shift : Nat) : BaseUint width :=
  ⟨x.pn.modify (shift / 32) (· ||| 1 <<< UInt32.ofNat (shift &&& 31)), by simp [x.length_pn]⟩

theorem toNat_setBit (x : BaseUint width) {shift : Nat} (inside : shift < 32 * width) :
    (x.setBit shift).toNat = x.toNat ||| 2 ^ shift := by
  have low : shift &&& 31 = shift % 32 := Nat.and_two_pow_sub_one_eq_mod shift 5
  rw [toNat, setBit, value_modify_or _ _ (by rw [x.length_pn]; omega), low,
    toNat_one_shiftLeft (Nat.mod_lt _ (by norm_num)), ← pow_add, Nat.mod_add_div]
  rfl

/-- A bit set above what is there already adds its value. -/
theorem or_two_pow_of_mod_eq_zero {q n : Nat} (aligned : q % 2 ^ (n + 1) = 0) : q ||| 2 ^ n = q + 2 ^ n := by
  obtain ⟨c, rfl⟩ := Nat.dvd_of_mod_eq_zero aligned
  have shifted : 2 ^ (n + 1) * c = c <<< (n + 1) := by rw [Nat.shiftLeft_eq, Nat.mul_comm]
  rw [shifted, Nat.shiftLeft_add_eq_or_of_lt (Nat.pow_lt_pow_right (by norm_num) (Nat.lt_succ_self n))]

/-- The state of the loop of `operator/=`: the remainder `num`, the divisor
`div` shifted to the bit at hand, and the quotient. -/
structure DivideState (width : Nat) where
  num : BaseUint width
  div : BaseUint width
  quotient : BaseUint width

/-- One pass of the loop of `operator/=` at bit `shift`: where the remainder is
at least the shifted divisor, subtract it and set the bit of the quotient; then
shift the divisor back one bit. -/
def divideStep (state : DivideState width) (shift : Nat) : DivideState width :=
  let state := if state.num.compareTo state.div ≥ 0 then
      { state with num := state.num.sub state.div, quotient := state.quotient.setBit shift }
    else state
  { state with div := state.div.shiftRight 1 }

/-- The loop of `operator/=` over the bits `count - 1` down to `0`. -/
def divideLoop (state : DivideState width) : Nat → DivideState width
  | 0 => state
  | count + 1 => divideLoop (divideStep state count) count

/-- `base_uint::operator/=`: align the divisor with the dividend by their bit
lengths, then take off the quotient bit by bit; `uint_error` for a zero divisor. -/
def divide (x b : BaseUint width) : Except String (BaseUint width) :=
  let numBits := x.bits
  let divBits := b.bits
  if divBits = 0 then throw "Division by zero"
  else if divBits > numBits then pure (zero width)
  else
    let shift := numBits - divBits
    pure (divideLoop ⟨x, b.shiftLeft (UInt32.ofNat shift), zero width⟩ (shift + 1)).quotient

/-- What the loop of `operator/=` keeps with `count` passes to go, dividing
`dividend` by `divisor`: the remainder and the quotient account for the
dividend, the remainder is below the divisor shifted `count` bits, the quotient
has no bit below `count`, and the shifted divisor is the divisor shifted
`count - 1` bits. -/
structure DivideInvariant (dividend divisor count : Nat) (state : DivideState width) : Prop where
  accounts : state.num.toNat + state.quotient.toNat * divisor = dividend
  remainder_lt : state.num.toNat < divisor * 2 ^ count
  quotient_aligned : state.quotient.toNat % 2 ^ count = 0
  div_eq : 0 < count → state.div.toNat = divisor * 2 ^ (count - 1)

/-- One pass keeps the invariant, with one pass fewer to go. -/
theorem DivideInvariant.divideStep {dividend divisor n : Nat} {state : DivideState width} (positive : 0 < divisor)
    (invariant : DivideInvariant dividend divisor (n + 1) state) :
    DivideInvariant dividend divisor n (BaseUint.divideStep state n) := by
  have shifted : state.div.toNat = divisor * 2 ^ n := invariant.div_eq (Nat.succ_pos n)
  have doubled : divisor * 2 ^ (n + 1) = divisor * 2 ^ n + divisor * 2 ^ n := by rw [pow_succ]; ring
  have remainder := invariant.remainder_lt
  rw [doubled] at remainder
  have inside : n < 32 * width := by
    have divisorFits := state.div.toNat_lt
    rw [shifted] at divisorFits
    have : 2 ^ n < 2 ^ (32 * width) := lt_of_le_of_lt (Nat.le_mul_of_pos_left _ positive) divisorFits
    exact (Nat.pow_lt_pow_iff_right (by norm_num)).mp this
  have aligned : state.quotient.toNat % 2 ^ n = 0 :=
    Nat.mod_eq_zero_of_dvd (Nat.dvd_trans (pow_dvd_pow 2 (Nat.le_succ n)) (Nat.dvd_of_mod_eq_zero invariant.quotient_aligned))
  have halved : 0 < n → (state.div.shiftRight 1).toNat = divisor * 2 ^ (n - 1) := by
    intro above
    have split : divisor * 2 ^ n = divisor * 2 ^ (n - 1) * 2 := by
      rw [Nat.mul_assoc, ← pow_succ, Nat.sub_add_cancel above]
    rw [toNat_shiftRight, shifted, show (1 : UInt32).toNat = 1 from rfl, pow_one, split,
      Nat.mul_div_cancel _ (by norm_num : 0 < 2)]
  unfold BaseUint.divideStep
  by_cases subtracts : state.num.compareTo state.div ≥ 0
  · have fits : state.div.toNat ≤ state.num.toNat := (compareTo_nonneg_iff _ _).mp subtracts
    have quotientBit : (state.quotient.setBit n).toNat = state.quotient.toNat + 2 ^ n := by
      rw [toNat_setBit _ inside, or_two_pow_of_mod_eq_zero invariant.quotient_aligned]
    rw [if_pos subtracts]
    refine ⟨?_, ?_, ?_, halved⟩
    · have accounts := invariant.accounts
      dsimp only
      rw [toNat_sub_of_le fits, quotientBit, shifted, Nat.add_mul]
      rw [shifted] at fits
      have spread : 2 ^ n * divisor = divisor * 2 ^ n := Nat.mul_comm _ _
      omega
    · dsimp only
      rw [toNat_sub_of_le fits, shifted]
      rw [shifted] at fits
      omega
    · dsimp only
      rw [quotientBit, Nat.add_mod_right, aligned]
  · have below : state.num.toNat < state.div.toNat := by
      rw [ge_iff_le, compareTo_nonneg_iff] at subtracts
      omega
    rw [if_neg subtracts]
    exact ⟨invariant.accounts, shifted ▸ below, aligned, halved⟩

/-- The whole loop keeps the invariant down to no pass to go. -/
theorem DivideInvariant.divideLoop {dividend divisor : Nat} (positive : 0 < divisor) :
    ∀ (count : Nat) (state : DivideState width), DivideInvariant dividend divisor count state →
      DivideInvariant dividend divisor 0 (BaseUint.divideLoop state count) := by
  intro count
  induction count with
  | zero => exact fun _ invariant => invariant
  | succ count inductionHypothesis =>
    intro state invariant
    exact inductionHypothesis _ (invariant.divideStep positive)

/-- With no pass to go the quotient is the quotient of the division. -/
theorem DivideInvariant.quotient_eq {dividend divisor : Nat} {state : DivideState width}
    (invariant : DivideInvariant dividend divisor 0 state) : state.quotient.toNat = dividend / divisor := by
  have below := invariant.remainder_lt
  rw [pow_zero, Nat.mul_one] at below
  rw [← invariant.accounts, Nat.add_mul_div_right _ _ (by omega), Nat.div_eq_of_lt below, Nat.zero_add]

theorem divide_of_toNat_eq_zero (x b : BaseUint width) (zeroDivisor : b.toNat = 0) :
    x.divide b = .error "Division by zero" := by
  unfold divide
  rw [if_pos ((bits_eq_zero_iff b).mpr zeroDivisor)]
  rfl

/-- `/=` divides, rounding down, and fails on a zero divisor. -/
theorem toNat_divide (x b : BaseUint width) (small : 32 * width < 2 ^ 32) :
    (x.divide b).map toNat = if b.toNat = 0 then .error "Division by zero" else .ok (x.toNat / b.toNat) := by
  obtain ⟨numFits, numAbove⟩ := bits_spec x
  obtain ⟨divFits, divAbove⟩ := bits_spec b
  have numBound : x.bits ≤ 32 * width := by rw [bits_eq]; exact bitsBelow_le _ _
  by_cases zeroDivisor : b.toNat = 0
  · rw [divide_of_toNat_eq_zero x b zeroDivisor, if_pos zeroDivisor]
    rfl
  · unfold divide
    have positive : 0 < b.toNat := Nat.pos_of_ne_zero zeroDivisor
    have divisorAbove := divAbove positive
    rw [if_neg (mt (bits_eq_zero_iff b).mp zeroDivisor), if_neg zeroDivisor]
    by_cases longer : b.bits > x.bits
    · have smaller : x.toNat < b.toNat :=
        lt_of_lt_of_le numFits (le_trans (Nat.pow_le_pow_right (by norm_num) (by omega)) divisorAbove)
      rw [if_pos longer]
      simp [Except.map, pure, Except.pure, Nat.div_eq_of_lt smaller]
    · rw [if_neg longer]
      have nonzero : b.bits ≠ 0 := mt (bits_eq_zero_iff b).mp zeroDivisor
      have shiftValue : (UInt32.ofNat (x.bits - b.bits)).toNat = x.bits - b.bits := by
        rw [UInt32.toNat_ofNat']
        exact Nat.mod_eq_of_lt (by omega)
      have aligned : b.toNat * 2 ^ (x.bits - b.bits) < 2 ^ (32 * width) :=
        calc b.toNat * 2 ^ (x.bits - b.bits) < 2 ^ b.bits * 2 ^ (x.bits - b.bits) :=
              Nat.mul_lt_mul_of_pos_right divFits (Nat.two_pow_pos _)
          _ = 2 ^ x.bits := by rw [← pow_add]; congr 1; omega
          _ ≤ 2 ^ (32 * width) := Nat.pow_le_pow_right (by norm_num) numBound
      have start : DivideInvariant x.toNat b.toNat (x.bits - b.bits + 1)
          ⟨x, b.shiftLeft (UInt32.ofNat (x.bits - b.bits)), zero width⟩ := by
        refine ⟨by simp, ?_, by simp, fun _ => ?_⟩
        · calc x.toNat < 2 ^ x.bits := numFits
            _ = 2 ^ (b.bits - 1) * 2 ^ (x.bits - b.bits + 1) := by rw [← pow_add]; congr 1; omega
            _ ≤ b.toNat * 2 ^ (x.bits - b.bits + 1) := Nat.mul_le_mul_right _ divisorAbove
        · rw [toNat_shiftLeft, shiftValue, Nat.mod_eq_of_lt aligned, Nat.add_sub_cancel]
      have finished := (start.divideLoop positive).quotient_eq
      simp [Except.map, pure, Except.pure, finished]

/-- `arith_uint256` arithmetic is exact modulo `2 ^ 256`: both multiplications
multiply and the left shift shifts modulo `2 ^ 256`, the right shift divides by
the power of two rounding down, and division divides rounding down, or throws
`uint_error("Division by zero")` for a zero divisor. -/
theorem baseUint256_arithmetic_exact (a b : BaseUint 8) (k s : UInt32) :
    (a.mul b).toNat = a.toNat * b.toNat % 2 ^ 256 ∧
      (a.mulWord k).toNat = a.toNat * k.toNat % 2 ^ 256 ∧
      (a.shiftLeft s).toNat = a.toNat * 2 ^ s.toNat % 2 ^ 256 ∧
      (a.shiftRight s).toNat = a.toNat / 2 ^ s.toNat ∧
      (b.toNat ≠ 0 → (a.divide b).map toNat = .ok (a.toNat / b.toNat)) ∧
      (b.toNat = 0 → a.divide b = .error "Division by zero") := by
  refine ⟨toNat_mul a b, toNat_mulWord a k, toNat_shiftLeft a s, toNat_shiftRight a s, fun nonzero => ?_,
    divide_of_toNat_eq_zero a b⟩
  rw [toNat_divide a b (show 32 * 8 < 2 ^ 32 by decide), if_neg nonzero]

end BaseUint

end Qbitcoin
