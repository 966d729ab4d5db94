import Qbitcoin.Lib.MsbBits
import Mathlib.Data.Nat.Bitwise
import Mathlib.Data.Nat.ModEq

/-!
# Strings of fixed-width digits

A list of digits of `w` bits each stands for the bits of its digits in turn,
each from its top bit: `xs.flatMap (lowBits · w)`.  Regrouping digits of one
width into digits of another is then a statement about one bit string.  What
such a proof needs beyond `MsbBits` is how a digit is shifted in and masked
(`lowBits_shiftLeft_or`, `lowBits_and_two_pow_sub_one`), and that digits and a
short tail are read back from their bits (`flatMap_lowBits_append_inj`).
-/

namespace MsbBits

@[simp]
theorem lowBits_zero_width (value : Nat) : lowBits value 0 = [] := rfl

/-- A mask of at least `n` bits leaves the low `n` alone. -/
theorem lowBits_and_two_pow_sub_one {n k : Nat} (within : n ≤ k) (value : Nat) :
    lowBits (value &&& (2 ^ k - 1)) n = lowBits value n :=
  lowBits_congr fun i below => by
    rw [Nat.testBit_and, Nat.testBit_two_pow_sub_one, decide_eq_true (Nat.lt_of_lt_of_le below within), Bool.and_true]

/-- Shifting `x` up by `n` and putting `y` of `n` bits below it appends their
bits. -/
theorem lowBits_shiftLeft_or {x y m n : Nat} (yFits : y < 2 ^ n) :
    lowBits ((x <<< n) ||| y) (m + n) = lowBits x m ++ lowBits y n := by
  rw [Nat.shiftLeft_eq, or_eq_add_of_mod_eq_zero (Nat.mul_mod_left x (2 ^ n)) yFits, lowBits_mul_add yFits]

/-- A number under `2 ^ n` is its low `n` bits. -/
theorem eq_of_lowBits_eq {x y n : Nat} (xFits : x < 2 ^ n) (yFits : y < 2 ^ n) (same : lowBits x n = lowBits y n) :
    x = y := by
  have read := congrArg bitsValue same
  rwa [bitsValue_lowBits, bitsValue_lowBits, Nat.mod_eq_of_lt xFits, Nat.mod_eq_of_lt yFits] at read

theorem lowBits_eq_replicate_false_iff {value n : Nat} : lowBits value n = List.replicate n false ↔ value % 2 ^ n = 0 := by
  rw [← lowBits_zero, ← lowBits_mod (le_refl n)]
  constructor
  · exact eq_of_lowBits_eq (Nat.mod_lt _ (Nat.two_pow_pos n)) (Nat.two_pow_pos n)
  · intro zero
    rw [zero]

/-- Two remainders under `n` that complete one number to a multiple of `n`
are equal. -/
theorem eq_of_dvd_add_of_lt {n c a b : Nat} (ha : a < n) (hb : b < n) (da : n ∣ c + a) (db : n ∣ c + b) :
    a = b := by
  have same : c + a ≡ c + b [MOD n] := by
    unfold Nat.ModEq
    rw [Nat.mod_eq_zero_of_dvd da, Nat.mod_eq_zero_of_dvd db]
  have reduced := Nat.ModEq.add_left_cancel' c same
  unfold Nat.ModEq at reduced
  rwa [Nat.mod_eq_of_lt ha, Nat.mod_eq_of_lt hb] at reduced

/-! ## Strings of digits -/

@[simp]
theorem length_flatMap_lowBits (w : Nat) (xs : List Nat) : (xs.flatMap (lowBits · w)).length = w * xs.length := by
  induction xs with
  | nil => rfl
  | cons x xs inductionHypothesis =>
    rw [List.flatMap_cons, List.length_append, inductionHypothesis, length_lowBits, List.length_cons, Nat.mul_succ,
      Nat.add_comm]

/-- Digits of a positive width under `2 ^ w` are read back from their bits. -/
theorem flatMap_lowBits_inj {w : Nat} (positive : 0 < w) :
    ∀ {xs ys : List Nat}, (∀ x ∈ xs, x < 2 ^ w) → (∀ y ∈ ys, y < 2 ^ w) →
      xs.flatMap (lowBits · w) = ys.flatMap (lowBits · w) → xs = ys
  | [], [], _, _, _ => rfl
  | [], y :: ys, _, _, same => by
    have lengths := congrArg List.length same
    simp at lengths
    omega
  | x :: xs, [], _, _, same => by
    have lengths := congrArg List.length same
    simp at lengths
    omega
  | x :: xs, y :: ys, hx, hy, same => by
    rw [List.flatMap_cons, List.flatMap_cons] at same
    obtain ⟨first, rest⟩ := List.append_inj same (by simp)
    rw [eq_of_lowBits_eq (hx x List.mem_cons_self) (hy y List.mem_cons_self) first,
      flatMap_lowBits_inj positive (fun x' member => hx x' (List.mem_cons_of_mem x member))
        (fun y' member => hy y' (List.mem_cons_of_mem y member)) rest]

/-- Digits followed by fewer than `w` further bits are read back, and so are
those bits: the total length leaves no choice about the number of digits. -/
theorem flatMap_lowBits_append_inj {w : Nat} (positive : 0 < w) {xs ys : List Nat} {l l' : List Bool}
    (hx : ∀ x ∈ xs, x < 2 ^ w) (hy : ∀ y ∈ ys, y < 2 ^ w) (short : l.length < w) (short' : l'.length < w)
    (same : xs.flatMap (lowBits · w) ++ l = ys.flatMap (lowBits · w) ++ l') : xs = ys ∧ l = l' := by
  have lengths := congrArg List.length same
  rw [List.length_append, List.length_append, length_flatMap_lowBits, length_flatMap_lowBits] at lengths
  have count : xs.length = ys.length := by
    have left : (w * xs.length + l.length) / w = xs.length := by
      rw [Nat.mul_add_div positive, Nat.div_eq_of_lt short, Nat.add_zero]
    have right : (w * ys.length + l'.length) / w = ys.length := by
      rw [Nat.mul_add_div positive, Nat.div_eq_of_lt short', Nat.add_zero]
    rw [← left, ← right, lengths]
  obtain ⟨digits, tail⟩ := List.append_inj same (by simp [count])
  exact ⟨flatMap_lowBits_inj positive hx hy digits, tail⟩

end MsbBits
