import Mathlib.Data.Nat.Bitwise

/-!
# Machines linear in exclusive or

A machine that reads its input one symbol at a time is linear in exclusive or
when the step from `a ^^^ b` on `x ^^^ y` is the exclusive or of the step from
`a` on `x` and the step from `b` on `y`.  A whole run is then linear too
(`XorLinear.foldl_zipWith`).  Checksums such as CRCs and BCH codes are runs of
such machines: the run on a message followed by a correction is the run on the
message followed by zeros, with the run of the correction from zero on top
(`XorLinear.foldl_append`).  This is what makes a checksum computed over zeros
the correction that brings the run to a chosen value.
-/

namespace Qbitcoin

section

variable {σ ι : Type*} [XorOp σ] [XorOp ι]

/-- The step is linear for `^^^` in its state and its input together. -/
def XorLinear (step : σ → ι → σ) : Prop :=
  ∀ a b x y, step (a ^^^ b) (x ^^^ y) = step a x ^^^ step b y

/-- A run of a linear machine on the exclusive or of two inputs of one length,
from the exclusive or of two states.  The induction is on the first input, the
second taken apart alongside it. -/
theorem XorLinear.foldl_zipWith {step : σ → ι → σ} (linear : XorLinear step) :
    ∀ (xs ys : List ι), xs.length = ys.length → ∀ a b : σ,
      (List.zipWith (· ^^^ ·) xs ys).foldl step (a ^^^ b) = xs.foldl step a ^^^ ys.foldl step b
  | [], [], _, _, _ => rfl
  | x :: xs, y :: ys, sameLength, a, b => by
    rw [List.zipWith_cons_cons, List.foldl_cons, linear, List.foldl_cons, List.foldl_cons]
    exact linear.foldl_zipWith xs ys (by simpa using sameLength) _ _

/-- The run on `pre ++ fix`: the run on `pre` followed by as many zeros, with
the run of `fix` from zero on top. -/
theorem XorLinear.foldl_append [Zero σ] [Zero ι] {step : σ → ι → σ} (linear : XorLinear step)
    (xor_zero : ∀ a : σ, a ^^^ 0 = a) (zero_xor : ∀ x : ι, 0 ^^^ x = x) (s : σ) (pre fix : List ι) :
    (pre ++ fix).foldl step s =
      (pre ++ List.replicate fix.length 0).foldl step s ^^^ fix.foldl step 0 := by
  rw [List.foldl_append, List.foldl_append]
  have zeros : List.zipWith (· ^^^ ·) (List.replicate fix.length 0) fix = fix := by
    induction fix with
    | nil => rfl
    | cons x fix inductionHypothesis =>
      rw [List.length_cons, List.replicate_succ, List.zipWith_cons_cons, zero_xor, inductionHypothesis]
  have run := linear.foldl_zipWith (List.replicate fix.length 0) fix (List.length_replicate ..)
    (pre.foldl step s) 0
  rw [zeros, xor_zero] at run
  exact run

end

/-- Below a multiple of `2 ^ n`, an exclusive or with a number under `2 ^ n` is
a sum: the bits do not meet. -/
theorem mul_two_pow_xor_of_lt (c v n : Nat) (small : v < 2 ^ n) : c * 2 ^ n ^^^ v = c * 2 ^ n + v := by
  have high : (c * 2 ^ n ^^^ v) / 2 ^ n = c := by
    rw [Nat.xor_div_two_pow, Nat.mul_div_cancel _ (Nat.two_pow_pos n), Nat.div_eq_of_lt small, Nat.xor_zero]
  have low : (c * 2 ^ n ^^^ v) % 2 ^ n = v := by
    rw [Nat.xor_mod_two_pow, Nat.mul_mod_left, Nat.zero_xor, Nat.mod_eq_of_lt small]
  calc c * 2 ^ n ^^^ v = 2 ^ n * ((c * 2 ^ n ^^^ v) / 2 ^ n) + (c * 2 ^ n ^^^ v) % 2 ^ n :=
        (Nat.div_add_mod _ _).symm
    _ = c * 2 ^ n + v := by rw [high, low, Nat.mul_comm]

end Qbitcoin
