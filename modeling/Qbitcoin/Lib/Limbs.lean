import Mathlib.Data.List.GetD
import Mathlib.Tactic.Ring

/-!
# Numbers written in 32-bit limbs

A list of `UInt32` limbs, least significant first, stands for a natural number.
The lemmas read that number off the limbs: its bound, how appending, cutting and
changing one limb move it, its bits limb by limb, and the arithmetic of one step
of a carry loop.
-/

namespace Limbs

/-- The number the limbs stand for, least significant first. -/
def value : List UInt32 → Nat
  | [] => 0
  | limb :: rest => limb.toNat + 2 ^ 32 * value rest

@[simp] theorem value_nil : value [] = 0 := rfl

@[simp] theorem value_cons (limb : UInt32) (rest : List UInt32) :
    value (limb :: rest) = limb.toNat + 2 ^ 32 * value rest := rfl

theorem two_pow_succ_limb (k : Nat) : 2 ^ (32 * (k + 1)) = 2 ^ 32 * 2 ^ (32 * k) := by
  rw [Nat.mul_succ, pow_add, mul_comm]

/-- The `k` limbs of `n`, least significant first. -/
def ofNat : Nat → Nat → List UInt32
  | 0, _ => []
  | k + 1, n => UInt32.ofNat n :: ofNat k (n / 2 ^ 32)

@[simp] theorem length_ofNat (k n : Nat) : (ofNat k n).length = k := by
  induction k generalizing n with
  | zero => rfl
  | succ k inductionHypothesis => simp [ofNat, inductionHypothesis]

/-- Reading back the limbs of `n` gives `n` cut to their width. -/
theorem value_ofNat (k n : Nat) : value (ofNat k n) = n % 2 ^ (32 * k) := by
  induction k generalizing n with
  | zero => simp [ofNat, Nat.mod_one]
  | succ k inductionHypothesis =>
    rw [ofNat, value_cons, inductionHypothesis, UInt32.toNat_ofNat', two_pow_succ_limb, Nat.mod_mul]

/-- A number of `k + 1` limbs is the first limb, then the other `k` above it. -/
theorem lt_of_limb_lt {limb rest k : Nat} (limbBound : limb < 2 ^ 32) (restBound : rest < 2 ^ (32 * k)) :
    limb + 2 ^ 32 * rest < 2 ^ (32 * (k + 1)) := by
  have above : 2 ^ 32 * (rest + 1) ≤ 2 ^ 32 * 2 ^ (32 * k) := Nat.mul_le_mul_left _ restBound
  rw [two_pow_succ_limb]
  omega

theorem value_lt (limbs : List UInt32) : value limbs < 2 ^ (32 * limbs.length) := by
  induction limbs with
  | nil => simp
  | cons limb rest inductionHypothesis => exact lt_of_limb_lt limb.toNat_lt inductionHypothesis

@[simp] theorem value_replicate_zero (n : Nat) : value (List.replicate n 0) = 0 := by
  induction n with
  | zero => rfl
  | succ n inductionHypothesis => simp [List.replicate_succ, inductionHypothesis]

theorem value_append (first second : List UInt32) :
    value (first ++ second) = value first + 2 ^ (32 * first.length) * value second := by
  induction first with
  | nil => simp
  | cons limb rest inductionHypothesis =>
    rw [List.cons_append, value_cons, value_cons, inductionHypothesis, List.length_cons, two_pow_succ_limb]
    ring

/-- Cutting `low + 2 ^ (32 * j) * rest` to `j + k` limbs: the low `j` limbs of
`low`, and above them what `low` carries over into `rest`, cut to `k` limbs. -/
theorem mod_shifted (low rest j k : Nat) :
    low % 2 ^ (32 * j) + 2 ^ (32 * j) * ((low / 2 ^ (32 * j) + rest) % 2 ^ (32 * k)) =
      (low + 2 ^ (32 * j) * rest) % 2 ^ (32 * (j + k)) := by
  have lowPart : (low + 2 ^ (32 * j) * rest) % 2 ^ (32 * j) = low % 2 ^ (32 * j) := Nat.add_mul_mod_self_left _ _ _
  have highPart : (low + 2 ^ (32 * j) * rest) / 2 ^ (32 * j) = low / 2 ^ (32 * j) + rest :=
    Nat.add_mul_div_left _ _ (Nat.two_pow_pos _)
  rw [Nat.mul_add, pow_add, Nat.mod_mul, lowPart, highPart]

/-- One step of a carry loop: the low limb of `n`, and above it the rest with
the carry `n / 2 ^ 32` added, both cut to the width. -/
theorem mod_cons (n rest k : Nat) :
    n % 2 ^ 32 + 2 ^ 32 * ((n / 2 ^ 32 + rest) % 2 ^ (32 * k)) = (n + 2 ^ 32 * rest) % 2 ^ (32 * (k + 1)) := by
  have shifted := mod_shifted n rest 1 k
  rwa [Nat.mul_one, Nat.add_comm 1 k] at shifted

theorem value_take (limbs : List UInt32) (n : Nat) : value (limbs.take n) = value limbs % 2 ^ (32 * n) := by
  induction limbs generalizing n with
  | nil => simp
  | cons limb rest inductionHypothesis =>
    cases n with
    | zero => simp [Nat.mod_one]
    | succ n =>
      rw [List.take_succ_cons, value_cons, value_cons, inductionHypothesis, ← mod_cons,
        Nat.mod_eq_of_lt limb.toNat_lt, Nat.div_eq_of_lt limb.toNat_lt, Nat.zero_add]

theorem value_drop (limbs : List UInt32) (n : Nat) : value (limbs.drop n) = value limbs / 2 ^ (32 * n) := by
  induction limbs generalizing n with
  | nil => simp
  | cons limb rest inductionHypothesis =>
    cases n with
    | zero => simp
    | succ n =>
      have shifted : (limb.toNat + 2 ^ 32 * value rest) / 2 ^ 32 = value rest := by
        rw [Nat.add_mul_div_left _ _ (by norm_num), Nat.div_eq_of_lt limb.toNat_lt, Nat.zero_add]
      rw [List.drop_succ_cons, value_cons, inductionHypothesis, two_pow_succ_limb, ← Nat.div_div_eq_div_mul,
        shifted]

/-- Limb `i` is digit `i` of the number in base `2 ^ 32`. -/
theorem toNat_getD (limbs : List UInt32) (i : Nat) :
    (limbs.getD i 0).toNat = value limbs / 2 ^ (32 * i) % 2 ^ 32 := by
  rw [← value_drop]
  cases dropped : limbs.drop i with
  | nil =>
    have beyond : limbs.length ≤ i := List.drop_eq_nil_iff.mp dropped
    rw [List.getD_eq_default _ _ beyond]
    rfl
  | cons limb rest =>
    have first : limbs.getD i 0 = limb := by
      rw [List.getD_eq_getElem?_getD, ← List.head?_drop, dropped]
      rfl
    rw [first, value_cons, Nat.add_mul_mod_self_left, Nat.mod_eq_of_lt limb.toNat_lt]

theorem value_take_succ (limbs : List UInt32) (i : Nat) :
    value (limbs.take (i + 1)) = value (limbs.take i) + (limbs.getD i 0).toNat * 2 ^ (32 * i) := by
  rw [value_take, value_take, toNat_getD, Nat.mul_succ, pow_add, Nat.mod_mul]
  ring

/-- Bit `t` of limb `j` is bit `32 * j + t` of the number. -/
theorem testBit_value (limbs : List UInt32) (j : Nat) {t : Nat} (within : t < 32) :
    (value limbs).testBit (32 * j + t) = (limbs.getD j 0).toNat.testBit t := by
  rw [toNat_getD, Nat.testBit_mod_two_pow, Nat.testBit_div_two_pow, Nat.add_comm]
  simp [within]

/-- A number is written by limbs that carry its bits, each in its place. -/
theorem value_eq_of_testBit {limbs : List UInt32} {n : Nat} (fits : n < 2 ^ (32 * limbs.length))
    (sameBits : ∀ j < limbs.length, ∀ t < 32, (limbs.getD j 0).toNat.testBit t = n.testBit (32 * j + t)) :
    value limbs = n := by
  apply Nat.eq_of_testBit_eq
  intro i
  have split : i = 32 * (i / 32) + i % 32 := (Nat.div_add_mod i 32).symm
  rw [split, testBit_value _ _ (Nat.mod_lt _ (by norm_num))]
  by_cases inside : i / 32 < limbs.length
  · exact sameBits _ inside _ (Nat.mod_lt _ (by norm_num))
  · have high : 2 ^ (32 * limbs.length) ≤ 2 ^ (32 * (i / 32) + i % 32) := Nat.pow_le_pow_right (by norm_num) (by omega)
    rw [List.getD_eq_default _ _ (by omega), Nat.testBit_lt_two_pow (lt_of_lt_of_le fits high)]
    simp

theorem getD_modify {α : Type*} (l : List α) (f : α → α) (d : α) (i j : Nat) :
    (l.modify i f).getD j d = if i = j ∧ j < l.length then f (l.getD j d) else l.getD j d := by
  rw [List.getD_eq_getElem?_getD, List.getElem?_modify, List.getD_eq_getElem?_getD]
  by_cases inside : j < l.length
  · by_cases same : i = j <;> simp [same, inside]
  · simp [inside]

/-- Or-ing a word into limb `i` ors it into the number at place `32 * i`. -/
theorem value_modify_or (limbs : List UInt32) {i : Nat} (word : UInt32) (within : i < limbs.length) :
    value (limbs.modify i (· ||| word)) = value limbs ||| word.toNat * 2 ^ (32 * i) := by
  have wordFits : word.toNat * 2 ^ (32 * i) < 2 ^ (32 * limbs.length) :=
    calc word.toNat * 2 ^ (32 * i) < 2 ^ 32 * 2 ^ (32 * i) := Nat.mul_lt_mul_of_pos_right word.toNat_lt (Nat.two_pow_pos _)
      _ = 2 ^ (32 * (i + 1)) := (two_pow_succ_limb i).symm
      _ ≤ 2 ^ (32 * limbs.length) := Nat.pow_le_pow_right (by norm_num) (by omega)
  apply value_eq_of_testBit
  · rw [List.length_modify]
    exact Nat.or_lt_two_pow (value_lt limbs) wordFits
  · intro j inside t bit
    rw [List.length_modify] at inside
    rw [getD_modify, Nat.testBit_or, testBit_value _ _ bit, Nat.testBit_mul_two_pow]
    by_cases same : i = j
    · subst same
      simp [inside, UInt32.toNat_or, Nat.testBit_or]
    · have elsewhere : (decide (32 * i ≤ 32 * j + t) && word.toNat.testBit (32 * j + t - 32 * i)) = false := by
        by_cases below : j < i
        · simp [show ¬32 * i ≤ 32 * j + t by omega]
        · have high : 2 ^ 32 ≤ 2 ^ (32 * j + t - 32 * i) := Nat.pow_le_pow_right (by norm_num) (by omega)
          simp [Nat.testBit_lt_two_pow (lt_of_lt_of_le word.toNat_lt high)]
      simp [same, elsewhere]

/-- The complement of every limb is the complement of the number in its width. -/
theorem value_add_value_map_not (limbs : List UInt32) :
    value limbs + value (limbs.map (~~~·)) + 1 = 2 ^ (32 * limbs.length) := by
  induction limbs with
  | nil => rfl
  | cons limb rest inductionHypothesis =>
    have complement : limb.toNat + (~~~limb).toNat + 1 = 2 ^ 32 := by
      rw [UInt32.toNat_not]
      have := limb.toNat_lt
      simp only [UInt32.size] at *
      omega
    rw [List.map_cons, value_cons, value_cons, List.length_cons, two_pow_succ_limb, ← inductionHypothesis]
    omega

/-- Numbers of equal width compare as their top limbs do, when those differ. -/
theorem lt_of_top_lt {low₁ top₁ top₂ place : Nat} (low₂ : Nat) (lowFits : low₁ < place) (tops : top₁ < top₂) :
    low₁ + top₁ * place < low₂ + top₂ * place := by
  have stepUp : (top₁ + 1) * place ≤ top₂ * place := Nat.mul_le_mul_right _ tops
  rw [Nat.succ_mul] at stepUp
  omega

/-! ## Carry loops -/

/-- The number whose digits in base `2 ^ 32`, least significant first, are
`digits`; a digit may be too large for a limb. -/
def digitsValue : List Nat → Nat
  | [] => 0
  | digit :: rest => digit + 2 ^ 32 * digitsValue rest

@[simp] theorem digitsValue_nil : digitsValue [] = 0 := rfl

@[simp] theorem digitsValue_cons (digit : Nat) (rest : List Nat) :
    digitsValue (digit :: rest) = digit + 2 ^ 32 * digitsValue rest := rfl

theorem digitsValue_map_mul (factor : Nat) (limbs : List UInt32) :
    digitsValue (limbs.map fun limb => factor * limb.toNat) = factor * value limbs := by
  induction limbs with
  | nil => simp
  | cons limb rest inductionHypothesis =>
    rw [List.map_cons, digitsValue_cons, inductionHypothesis, value_cons]
    ring

/-- Adding a multiple of a second number limb by limb, over the limbs of the first. -/
theorem digitsValue_zip (factor : Nat) {xs ys : List UInt32} (shorter : xs.length ≤ ys.length) :
    digitsValue ((xs.zip ys).map fun pair => pair.1.toNat + factor * pair.2.toNat) =
      value xs + factor * value (ys.take xs.length) := by
  induction xs generalizing ys with
  | nil => simp
  | cons x rest inductionHypothesis =>
    cases ys with
    | nil => simp at shorter
    | cons y others =>
      rw [List.zip_cons_cons, List.map_cons, digitsValue_cons,
        inductionHypothesis (by simpa using shorter), List.length_cons, List.take_succ_cons]
      simp only [value_cons]
      ring

/-- A carry loop over `inputs`: each step makes `n` from the carry and the
input, keeps its low 32 bits as the limb and carries its high 32 bits on. -/
def carryLoop {β : Type*} (step : UInt64 → β → UInt64) (carry : UInt64) : List β → List UInt32
  | [] => []
  | input :: rest =>
    let n := step carry input
    (n &&& 0xffffffff).toUInt32 :: carryLoop step (n >>> 32) rest

@[simp] theorem length_carryLoop {β : Type*} (step : UInt64 → β → UInt64) (carry : UInt64) (inputs : List β) :
    (carryLoop step carry inputs).length = inputs.length := by
  induction inputs generalizing carry with
  | nil => rfl
  | cons input rest inductionHypothesis => simp [carryLoop, inductionHypothesis]

theorem toNat_low (n : UInt64) : (n &&& 0xffffffff).toUInt32.toNat = n.toNat % 2 ^ 32 := by
  rw [UInt64.toNat_toUInt32, UInt64.toNat_and, show (0xffffffff : UInt64).toNat = 2 ^ 32 - 1 from rfl,
    Nat.and_two_pow_sub_one_eq_mod, Nat.mod_mod]

theorem toNat_high (n : UInt64) : (n >>> 32).toNat = n.toNat / 2 ^ 32 := by
  rw [UInt64.toNat_shiftRight, Nat.shiftRight_eq_div_pow]
  rfl

theorem toNat_high_lt (n : UInt64) : (n >>> 32).toNat < 2 ^ 32 := by
  rw [toNat_high]
  have := n.toNat_lt
  omega

/-- What one step of a carry loop adds up fits in 64 bits. -/
theorem carry_step_lt {carry low left right : Nat} (carryFits : carry < 2 ^ 32) (lowFits : low < 2 ^ 32)
    (leftFits : left < 2 ^ 32) (rightFits : right < 2 ^ 32) : carry + low + left * right < 2 ^ 64 := by
  have product : left * right ≤ (2 ^ 32 - 1) * (2 ^ 32 - 1) := Nat.mul_le_mul (by omega) (by omega)
  norm_num at product ⊢
  omega

/-- A carry loop whose steps do not overflow writes the sum of its terms, each
at its place, with the carry it starts from, cut to its width. -/
theorem value_carryLoop {β : Type*} {step : UInt64 → β → UInt64} {term : β → Nat}
    (exact : ∀ carry input, carry.toNat < 2 ^ 32 → (step carry input).toNat = carry.toNat + term input)
    (inputs : List β) {carry : UInt64} (carryFits : carry.toNat < 2 ^ 32) :
    value (carryLoop step carry inputs) = (digitsValue (inputs.map term) + carry.toNat) % 2 ^ (32 * inputs.length) := by
  induction inputs generalizing carry with
  | nil => simp [carryLoop, Nat.mod_one]
  | cons input rest inductionHypothesis =>
    have stepExact := exact carry input carryFits
    rw [carryLoop, value_cons, toNat_low, inductionHypothesis (toNat_high_lt _), toNat_high, stepExact,
      List.map_cons, digitsValue_cons, List.length_cons, Nat.add_comm (digitsValue _), mod_cons]
    congr 1
    ring

/-! ## Or-ing a word into one limb -/

/-- `if (guard) pn[pos] |= word`. -/
def orInto (limbs : List UInt32) (guard : Prop) [Decidable guard] (pos : Nat) (word : UInt32) : List UInt32 :=
  if guard then limbs.modify pos (· ||| word) else limbs

@[simp] theorem length_orInto (limbs : List UInt32) (guard : Prop) [Decidable guard] (pos : Nat) (word : UInt32) :
    (orInto limbs guard pos word).length = limbs.length := by
  unfold orInto
  split <;> simp

theorem getD_orInto (limbs : List UInt32) (guard : Prop) [Decidable guard] (pos j : Nat) (word : UInt32) :
    (orInto limbs guard pos word).getD j 0 =
      if guard ∧ pos = j ∧ j < limbs.length then limbs.getD j 0 ||| word else limbs.getD j 0 := by
  unfold orInto
  by_cases guarded : guard
  · rw [if_pos guarded, getD_modify]
    simp only [guarded, true_and]
  · simp [guarded]

/-- A loop whose every pass keeps the length of the list keeps it over all passes. -/
theorem length_foldl {β : Type*} {step : List UInt32 → β → List UInt32}
    (keeps : ∀ limbs input, (step limbs input).length = limbs.length) (inputs : List β) (limbs : List UInt32) :
    (inputs.foldl step limbs).length = limbs.length := by
  induction inputs generalizing limbs with
  | nil => rfl
  | cons input rest inductionHypothesis => rw [List.foldl_cons, inductionHypothesis, keeps]

/-! ## The bits of shifted limbs -/

theorem testBit_shiftLeft_limb (limb shift : UInt32) (small : shift.toNat < 32) {t : Nat} (within : t < 32) :
    (limb <<< shift).toNat.testBit t = (decide (shift.toNat ≤ t) && limb.toNat.testBit (t - shift.toNat)) := by
  rw [UInt32.toNat_shiftLeft, Nat.testBit_mod_two_pow, Nat.testBit_shiftLeft, Nat.mod_eq_of_lt small]
  simp [within]

theorem testBit_shiftRight_limb (limb shift : UInt32) (small : shift.toNat < 32) (t : Nat) :
    (limb >>> shift).toNat.testBit t = limb.toNat.testBit (shift.toNat + t) := by
  rw [UInt32.toNat_shiftRight, Nat.testBit_shiftRight, Nat.mod_eq_of_lt small]

/-- The bits shifted out of the top of a limb by `32 - shift`. -/
theorem toNat_thirtyTwo_sub {shift : UInt32} (small : shift.toNat < 32) (nonzero : shift ≠ 0) :
    (32 - shift).toNat = 32 - shift.toNat ∧ (32 - shift).toNat < 32 := by
  have positive : 0 < shift.toNat := by
    by_contra zero
    exact nonzero (UInt32.toNat_inj.mp (by simp only [UInt32.toNat_zero]; omega))
  have difference : (32 - shift).toNat = 32 - shift.toNat :=
    UInt32.toNat_sub_of_le _ _ (UInt32.le_iff_toNat_le.mpr (by simp only [UInt32.reduceToNat]; omega))
  exact ⟨difference, by omega⟩

theorem testBit_limb_of_ge (limb : UInt32) {t : Nat} (beyond : 32 ≤ t) : limb.toNat.testBit t = false :=
  Nat.testBit_lt_two_pow (lt_of_lt_of_le limb.toNat_lt (Nat.pow_le_pow_right (by norm_num) beyond))

end Limbs
