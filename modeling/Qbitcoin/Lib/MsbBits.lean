import Mathlib.Data.List.Basic
import Mathlib.Tactic.Ring

/-!
# Bit strings, most significant bit first

The low `n` bits of a number as a list, highest first, and the number a list
of bits stands for.  A bit stream that fills each byte from its top bit is the
concatenation of these lists.
-/

namespace MsbBits

/-- The low `n` bits of `value`, most significant first. -/
def lowBits (value : Nat) : Nat → List Bool
  | 0 => []
  | n + 1 => value.testBit n :: lowBits value n

/-- The number the bits stand for, most significant first. -/
def bitsValue (bits : List Bool) : Nat := bits.foldl (fun acc bit => 2 * acc + bit.toNat) 0

/-- The bits of a byte, the top bit first. -/
def byteBits (byte : UInt8) : List Bool := lowBits byte.toNat 8

/-- The bits of bytes, each byte from its top bit. -/
def bytesBits (bytes : List UInt8) : List Bool := bytes.flatMap byteBits

@[simp] theorem length_lowBits (value n : Nat) : (lowBits value n).length = n := by
  induction n with
  | zero => rfl
  | succ n inductionHypothesis => simp [lowBits, inductionHypothesis]

@[simp] theorem length_bytesBits (bytes : List UInt8) : (bytesBits bytes).length = 8 * bytes.length := by
  induction bytes with
  | nil => rfl
  | cons byte rest inductionHypothesis =>
    simp [bytesBits, byteBits] at inductionHypothesis ⊢
    omega

@[simp] theorem bytesBits_nil : bytesBits [] = [] := rfl

@[simp] theorem bytesBits_cons (byte : UInt8) (rest : List UInt8) :
    bytesBits (byte :: rest) = byteBits byte ++ bytesBits rest := rfl

@[simp] theorem bytesBits_append (first second : List UInt8) :
    bytesBits (first ++ second) = bytesBits first ++ bytesBits second := by
  simp [bytesBits]

/-- Reading on from `acc` shifts it up past the bits read. -/
theorem foldl_bitsValue (acc : Nat) (bits : List Bool) :
    bits.foldl (fun acc bit => 2 * acc + bit.toNat) acc = acc * 2 ^ bits.length + bitsValue bits := by
  induction bits generalizing acc with
  | nil => simp [bitsValue]
  | cons bit rest inductionHypothesis =>
    rw [bitsValue, List.foldl_cons, List.foldl_cons, inductionHypothesis, inductionHypothesis (2 * 0 + bit.toNat),
      List.length_cons, pow_succ]
    ring

theorem bitsValue_append (first second : List Bool) :
    bitsValue (first ++ second) = bitsValue first * 2 ^ second.length + bitsValue second := by
  rw [bitsValue, List.foldl_append, foldl_bitsValue]
  rfl

@[simp] theorem bitsValue_nil : bitsValue [] = 0 := rfl

theorem bitsValue_cons (bit : Bool) (rest : List Bool) :
    bitsValue (bit :: rest) = bit.toNat * 2 ^ rest.length + bitsValue rest := by
  rw [← List.singleton_append, bitsValue_append]
  simp [bitsValue]

theorem bitsValue_lt (bits : List Bool) : bitsValue bits < 2 ^ bits.length := by
  induction bits with
  | nil => simp
  | cons bit rest inductionHypothesis =>
    rw [bitsValue_cons, List.length_cons, pow_succ]
    have : bit.toNat ≤ 1 := Bool.toNat_le bit
    have : bit.toNat * 2 ^ rest.length ≤ 2 ^ rest.length := by
      calc bit.toNat * 2 ^ rest.length ≤ 1 * 2 ^ rest.length := Nat.mul_le_mul_right _ this
        _ = 2 ^ rest.length := Nat.one_mul _
    omega

/-- The low `n` bits read back are the value modulo `2 ^ n`. -/
theorem bitsValue_lowBits (value n : Nat) : bitsValue (lowBits value n) = value % 2 ^ n := by
  induction n with
  | zero => simp [lowBits, Nat.mod_one]
  | succ n inductionHypothesis =>
    rw [lowBits, bitsValue_cons, inductionHypothesis, length_lowBits, Nat.mod_pow_succ, Nat.testBit_eq_decide_div_mod_eq]
    have digit : value / 2 ^ n % 2 < 2 := Nat.mod_lt _ (by norm_num)
    by_cases set : value / 2 ^ n % 2 = 1
    · simp [set]
      ring
    · simp [show value / 2 ^ n % 2 = 0 by omega]

/-- The low `m + n` bits: the `m` bits above the low `n`, then those. -/
theorem lowBits_add (value m n : Nat) : lowBits value (m + n) = lowBits (value / 2 ^ n) m ++ lowBits value n := by
  induction m with
  | zero => simp [lowBits]
  | succ m inductionHypothesis =>
    rw [Nat.add_right_comm, lowBits, lowBits, inductionHypothesis, Nat.testBit_div_two_pow]
    rfl

/-- The low `n` bits read only the bits below `n`. -/
theorem lowBits_congr {x y n : Nat} (sameBits : ∀ i < n, x.testBit i = y.testBit i) : lowBits x n = lowBits y n := by
  induction n with
  | zero => rfl
  | succ n inductionHypothesis =>
    rw [lowBits, lowBits, sameBits n (Nat.lt_succ_self n), inductionHypothesis fun i below => sameBits i (by omega)]

theorem lowBits_mod {value k n : Nat} (within : n ≤ k) : lowBits (value % 2 ^ k) n = lowBits value n :=
  lowBits_congr fun i below => by rw [Nat.testBit_mod_two_pow]; simp [show i < k by omega]

/-- Writing `x` above `y` in `n` bits writes the bits of `x`, then those of `y`. -/
theorem lowBits_mul_add {x y m n : Nat} (yFits : y < 2 ^ n) :
    lowBits (x * 2 ^ n + y) (m + n) = lowBits x m ++ lowBits y n := by
  have high : (x * 2 ^ n + y) / 2 ^ n = x := by
    rw [Nat.add_comm, Nat.add_mul_div_right _ _ (Nat.two_pow_pos n), Nat.div_eq_of_lt yFits, Nat.zero_add]
  rw [lowBits_add, high, ← lowBits_mod (le_refl n), Nat.add_comm, Nat.add_mul_mod_self_right,
    lowBits_mod (le_refl n)]

/-- Bits read back and written again are the same bits. -/
theorem lowBits_bitsValue (bits : List Bool) : lowBits (bitsValue bits) bits.length = bits := by
  induction bits with
  | nil => rfl
  | cons bit rest inductionHypothesis =>
    rw [bitsValue_cons, List.length_cons, Nat.add_comm rest.length 1, lowBits_mul_add (bitsValue_lt rest),
      inductionHypothesis]
    cases bit <;> rfl

theorem lowBits_zero (n : Nat) : lowBits 0 n = List.replicate n false := by
  induction n with
  | zero => rfl
  | succ n inductionHypothesis => simp [lowBits, inductionHypothesis, List.replicate_succ]

/-- The low bits of a number with all its bits below `k` set. -/
theorem lowBits_two_pow_sub_one {k n : Nat} (within : n ≤ k) : lowBits (2 ^ k - 1) n = List.replicate n true := by
  induction n with
  | zero => rfl
  | succ n inductionHypothesis =>
    rw [lowBits, inductionHypothesis (by omega), Nat.testBit_two_pow_sub_one]
    simp [List.replicate_succ, show n < k by omega]

/-- Or-ing a number below `2 ^ k` into one whose low `k` bits are clear adds it. -/
theorem or_eq_add_of_mod_eq_zero {x y k : Nat} (aligned : x % 2 ^ k = 0) (small : y < 2 ^ k) : x ||| y = x + y := by
  obtain ⟨c, rfl⟩ := Nat.dvd_of_mod_eq_zero aligned
  rw [show 2 ^ k * c = c <<< k by rw [Nat.shiftLeft_eq, Nat.mul_comm], Nat.shiftLeft_add_eq_or_of_lt small]

/-- The `b` bits below the low `n - b` of the low `n`: cutting to `n` bits and
then shifting down is shifting down and then cutting. -/
theorem mod_two_pow_div {value n b : Nat} (within : b ≤ n) :
    value % 2 ^ n / 2 ^ (n - b) = value / 2 ^ (n - b) % 2 ^ b := by
  rw [show 2 ^ n = 2 ^ (n - b) * 2 ^ b by rw [← pow_add]; congr 1; omega, Nat.mod_mul_right_div_self]

end MsbBits
