import Mathlib.Data.Nat.Digits.Lemmas

/-!
# Numerals in a buffer

A number held in `n` digits of base `b`, least significant first, is
`Nat.digitsAppend b n v`: the digits of `v`, padded with zeros.  Schoolbook
multiplication by a small number, with a carry, passes over such a buffer one
digit at a time; `digitsAppend_succ` and the two carry identities
`mul_add_mod_base` and `mul_add_div_base` are what one pass needs.

A string of digits is read most significant first, each digit multiplying what
was read by the base (`foldl_mul_add`); without leading zeros it is the reverse
of the digits of its value (`digits_ofDigits_reverse`).  How many digits of
base `c` a number of `m` digits of base `a` needs is bounded from a rational
bound on the ratio of the logarithms of the bases (`pow_lt_pow_div_succ`).
-/

namespace Numeral

open Nat (digits ofDigits digitsAppend)

variable {b : Nat}

@[simp]
theorem digitsAppend_zero (b n : Nat) : digitsAppend b n 0 = List.replicate n 0 := by
  simp [Nat.digitsAppend]

/-- The buffer of `v` is its lowest digit, then the buffer of the rest. -/
theorem digitsAppend_succ (base : 1 < b) (n v : Nat) :
    digitsAppend b (n + 1) v = v % b :: digitsAppend b n (v / b) := by
  rcases Nat.eq_zero_or_pos v with zero | positive
  · subst zero
    simp [List.replicate_succ]
  · rw [Nat.digitsAppend, Nat.digits_def' base positive, List.cons_append, List.length_cons,
      Nat.add_sub_add_right, Nat.digitsAppend]

/-- The digits in use are the front of the buffer. -/
theorem take_digitsAppend (n v : Nat) : (digitsAppend b n v).take (digits b v).length = digits b v := by
  simp [Nat.digitsAppend]

/-! ## One step of a multiply-and-add -/

/-- Multiplying `v` by `m` and adding `c` leaves in the lowest digit what the
lowest digit of `v` leaves with the carry `c`. -/
theorem mul_add_mod_base (m v c : Nat) : (m * v + c) % b = (c + m * (v % b)) % b := by
  have split : m * v + c = b * (m * (v / b)) + (c + m * (v % b)) := by
    conv_lhs => rw [← Nat.div_add_mod v b]
    ring
  rw [split, Nat.mul_add_mod]

/-- What is carried out of the lowest digit goes on to the rest of `v`. -/
theorem mul_add_div_base (base : 0 < b) (m v c : Nat) :
    (m * v + c) / b = m * (v / b) + (c + m * (v % b)) / b := by
  have split : m * v + c = b * (m * (v / b)) + (c + m * (v % b)) := by
    conv_lhs => rw [← Nat.div_add_mod v b]
    ring
  rw [split, Nat.mul_add_div base]

/-! ## Reading most significant first -/

/-- Digits read most significant first, each step `b * acc + d`, give the
number they are the reversed digits of, behind what was read before. -/
theorem foldl_mul_add (b : Nat) (l : List Nat) (v : Nat) :
    l.foldl (fun acc d => b * acc + d) v = v * b ^ l.length + ofDigits b l.reverse := by
  induction l generalizing v with
  | nil => simp
  | cons d l inductionHypothesis =>
    rw [List.foldl_cons, inductionHypothesis, List.reverse_cons, Nat.ofDigits_append, Nat.ofDigits_singleton,
      List.length_reverse, List.length_cons, pow_succ]
    ring

/-- Reading more digits never lowers the number. -/
theorem le_foldl_mul_add (positive : 0 < b) (l : List Nat) (v : Nat) :
    v ≤ l.foldl (fun acc d => b * acc + d) v := by
  rw [foldl_mul_add]
  calc v = v * 1 := (Nat.mul_one v).symm
    _ ≤ v * b ^ l.length := Nat.mul_le_mul_left v (Nat.one_le_pow _ _ positive)
    _ ≤ _ := Nat.le_add_right _ _

/-- A numeral written most significant first, without a leading zero, is the
reverse of the digits of its value. -/
theorem digits_ofDigits_reverse (base : 1 < b) {l : List Nat} (small : ∀ d ∈ l, d < b)
    (leading : l.head? ≠ some 0) : digits b (ofDigits b l.reverse) = l.reverse := by
  apply Nat.digits_ofDigits b base
  · exact fun d member => small d (List.mem_reverse.mp member)
  · intro nonempty
    rw [List.getLast_reverse]
    intro zero
    exact leading (by rw [List.head?_eq_some_head (List.reverse_ne_nil_iff.mp nonempty), zero])

/-- The digits of a number, most significant first, have no leading zero. -/
theorem head?_reverse_digits (v : Nat) : (digits b v).reverse.head? ≠ some 0 := by
  rw [List.head?_reverse]
  rcases Nat.eq_zero_or_pos v with zero | positive
  · simp [zero]
  · rw [List.getLast?_eq_some_getLast (Nat.digits_ne_nil_iff_ne_zero.mpr positive.ne')]
    intro same
    exact Nat.getLast_digit_ne_zero b positive.ne' (Option.some_injective _ same)

/-- The leading digit of a number between `b ^ k` and `b ^ (k + 1)` is its
quotient by `b ^ k`. -/
theorem head?_reverse_digits_of_lt (base : 1 < b) (k : Nat) {v : Nat} (low : b ^ k ≤ v) (high : v < b ^ (k + 1)) :
    (digits b v).reverse.head? = some (v / b ^ k) := by
  induction k generalizing v with
  | zero =>
    have positive : 0 < v := by rwa [pow_zero] at low
    rw [Nat.zero_add, pow_one] at high
    simp [Nat.digits_of_lt b v positive.ne' high]
  | succ k inductionHypothesis =>
    have positive : 0 < v := lt_of_lt_of_le (Nat.pow_pos (by omega)) low
    have lowQuotient : b ^ k ≤ v / b := (Nat.le_div_iff_mul_le (by omega)).mpr (by rwa [← pow_succ])
    have highQuotient : v / b < b ^ (k + 1) := (Nat.div_lt_iff_lt_mul (by omega)).mpr (by rwa [← pow_succ])
    have nonempty : (digits b (v / b)).reverse ≠ [] := by
      rw [Ne, List.reverse_eq_nil_iff, Nat.digits_eq_nil_iff_eq_zero]
      exact ((Nat.pow_pos (by omega)).trans_le lowQuotient).ne'
    rw [Nat.digits_def' base positive, List.reverse_cons, List.head?_append_of_ne_nil _ nonempty,
      inductionHypothesis lowQuotient highQuotient, Nat.div_div_eq_div_mul, ← pow_succ']

/-! ## Sizing a buffer -/

/-- When `a ^ q ≤ c ^ p`, a number of `m` digits of base `a` never needs more
than `m * p / q + 1` digits of base `c`. -/
theorem pow_lt_pow_div_succ {a c p q : Nat} (positive : 0 < q) (base : 1 < c) (ratio : a ^ q ≤ c ^ p)
    (m : Nat) : a ^ m < c ^ (m * p / q + 1) := by
  have rounded : m * p < (m * p / q + 1) * q := by
    rw [Nat.add_mul, Nat.one_mul]
    exact Nat.lt_div_mul_add positive
  have powers : (a ^ m) ^ q < (c ^ (m * p / q + 1)) ^ q :=
    calc (a ^ m) ^ q = (a ^ q) ^ m := by rw [← pow_mul, ← pow_mul, Nat.mul_comm]
      _ ≤ (c ^ p) ^ m := Nat.pow_le_pow_left ratio m
      _ = c ^ (m * p) := by rw [← pow_mul, Nat.mul_comm]
      _ < c ^ ((m * p / q + 1) * q) := Nat.pow_lt_pow_right base rounded
      _ = (c ^ (m * p / q + 1)) ^ q := pow_mul _ _ _
  exact (Nat.pow_lt_pow_iff_left positive.ne').mp powers

end Numeral
