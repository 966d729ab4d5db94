import Mathlib.Data.List.Basic
import Mathlib.Tactic.Ring

/-!
# Fixed-width little-endian byte strings

Integers stored as a fixed number of bytes, least significant byte first.
`leBytes width value` writes the low `width` bytes of `value`; `readLE` reads a
byte string back as a natural number.  Both are structural, so concrete
encodings evaluate by `decide`.
-/

namespace ByteCodec

/-- The `width` least significant bytes of `value`, least significant first. -/
def leBytes : Nat → Nat → List UInt8
  | 0, _ => []
  | width + 1, value => UInt8.ofNat (value % 256) :: leBytes width (value / 256)

/-- The natural number denoted by a little-endian byte string. -/
def readLE : List UInt8 → Nat
  | [] => 0
  | byte :: rest => byte.toNat + 256 * readLE rest

@[simp]
theorem leBytes_length (width value : Nat) : (leBytes width value).length = width := by
  induction width generalizing value with
  | zero => rfl
  | succ width inductionHypothesis => simp [leBytes, inductionHypothesis]

@[simp]
theorem readLE_nil : readLE [] = 0 := rfl

@[simp]
theorem readLE_cons (byte : UInt8) (rest : List UInt8) :
    readLE (byte :: rest) = byte.toNat + 256 * readLE rest := rfl

theorem readLE_lt (bytes : List UInt8) : readLE bytes < 256 ^ bytes.length := by
  induction bytes with
  | nil => simp
  | cons byte rest inductionHypothesis =>
      have byteBound : byte.toNat < 256 := byte.toNat_lt
      rw [readLE_cons, List.length_cons, pow_succ]
      omega

/-- Reading back a value that fits in `width` bytes returns it. -/
theorem readLE_leBytes (width value : Nat) (fits : value < 256 ^ width) :
    readLE (leBytes width value) = value := by
  induction width generalizing value with
  | zero =>
      have valueZero : value = 0 := by simpa using fits
      simp [valueZero, leBytes]
  | succ width inductionHypothesis =>
      have quotientFits : value / 256 < 256 ^ width := by
        rw [pow_succ] at fits
        omega
      have lowByte : (UInt8.ofNat (value % 256)).toNat = value % 256 := by
        rw [UInt8.toNat_ofNat_of_lt' (by simp [UInt8.size]; omega)]
      simp only [leBytes, readLE_cons, lowByte, inductionHypothesis _ quotientFits]
      omega

/-- Writing back the value of a byte string at its own width returns it. -/
theorem leBytes_readLE (bytes : List UInt8) : leBytes bytes.length (readLE bytes) = bytes := by
  induction bytes with
  | nil => rfl
  | cons byte rest inductionHypothesis =>
      have byteBound : byte.toNat < 256 := byte.toNat_lt
      have lowByte : (byte.toNat + 256 * readLE rest) % 256 = byte.toNat := by omega
      have highBytes : (byte.toNat + 256 * readLE rest) / 256 = readLE rest := by omega
      simp only [List.length_cons, leBytes, readLE_cons, lowByte, highBytes,
        inductionHypothesis, List.cons.injEq, and_true]
      exact UInt8.ofNat_toNat

/-- A value below a power of two has that bit clear. -/
theorem and_two_pow_of_lt {value bit : Nat} (small : value < 2 ^ bit) : value &&& 2 ^ bit = 0 := by
  apply Nat.eq_of_testBit_eq
  intro index
  rw [Nat.testBit_and, Nat.testBit_two_pow, Nat.zero_testBit]
  by_cases same : bit = index
  · subst same
    simp [Nat.testBit_lt_two_pow small]
  · simp [same]

/-- The value of a concatenation: the second part counts from the place after the first. -/
theorem readLE_append (first second : List UInt8) :
    readLE (first ++ second) = readLE first + 256 ^ first.length * readLE second := by
  induction first with
  | nil => simp
  | cons byte rest inductionHypothesis =>
      rw [List.cons_append, readLE_cons, readLE_cons, inductionHypothesis, List.length_cons, pow_succ]
      ring

theorem readLE_append_singleton (bytes : List UInt8) (last : UInt8) :
    readLE (bytes ++ [last]) = readLE bytes + last.toNat * 256 ^ bytes.length := by
  rw [readLE_append, readLE_cons, readLE_nil]
  ring

set_option maxRecDepth 4000 in
/-- The bit tests on one byte that sign-magnitude codes make, as order tests;
checked on every byte. -/
theorem byte_bits : ∀ n < 256, (n &&& 0x80 = 0 ↔ n < 0x80) ∧ (n &&& 0x7f = 0 ↔ n = 0 ∨ n = 0x80) ∧
    (n < 0x80 → n ||| 0x80 = n + 0x80) := by
  decide

/-- The top bit of a byte is clear exactly below `0x80`. -/
theorem toNat_and_0x80_eq_zero_iff (b : UInt8) : b.toNat &&& 0x80 = 0 ↔ b < 0x80 := by
  rw [UInt8.lt_iff_toNat_lt]
  exact (byte_bits b.toNat b.toNat_lt).1

theorem and_0x80_eq_zero_iff (b : UInt8) : b &&& 0x80 = 0 ↔ b < 0x80 := by
  rw [← UInt8.toNat_inj, UInt8.toNat_and]
  exact toNat_and_0x80_eq_zero_iff b

/-- A byte holds no bit but its top bit exactly when it is `0` or `0x80`. -/
theorem and_0x7f_eq_zero_iff (b : UInt8) : b &&& 0x7f = 0 ↔ b = 0 ∨ b = 0x80 := by
  rw [← UInt8.toNat_inj, UInt8.toNat_and, ← UInt8.toNat_inj, ← UInt8.toNat_inj]
  exact (byte_bits b.toNat b.toNat_lt).2.1

theorem toNat_or_0x80 {b : UInt8} (low : b < 0x80) : (b ||| 0x80).toNat = b.toNat + 0x80 := by
  rw [UInt8.toNat_or]
  exact (byte_bits b.toNat b.toNat_lt).2.2 (UInt8.lt_iff_toNat_lt.mp low)

/-- A byte string is determined by its length and its value. -/
theorem eq_of_readLE_eq {first second : List UInt8} (sameLength : first.length = second.length)
    (sameValue : readLE first = readLE second) : first = second := by
  rw [← leBytes_readLE first, ← leBytes_readLE second, sameLength, sameValue]

end ByteCodec
