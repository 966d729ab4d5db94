import Qbitcoin.Consensus.Pow

/-!
# The compact target encoding

`arith_uint256::GetCompact` and `base_uint::bits` (`arith_uint256.cpp`), and
how they meet `SetCompact`: decoding an encoded value cuts it to its top bytes,
and encoding a decoded word gives it back when its mantissa is normalized and
none of its bytes were shifted out.

A compact word is read as the Nat `m + s * 2 ^ 24`: the size byte `s` above the
three mantissa bytes `m`, whose top bit is the sign.
-/

namespace Qbitcoin

/-- The highest set bit of `x` below position `n`, plus one: the scan of
`base_uint::bits` from the top word and bit down. -/
def bitsBelow (x : Nat) : Nat → Nat
  | 0 => 0
  | n + 1 => if x.testBit n then n + 1 else bitsBelow x n

/-- `base_uint<256>::bits`: the position of the highest set bit plus one, `0`
for zero. -/
def bits (x : Nat) : Nat := bitsBelow x 256

/-- `arith_uint256::GetCompact`: the size in bytes, and the three most
significant bytes as the mantissa, moved one byte right when their top bit
would read as the sign. -/
def getCompact (x : Nat) (fNegative : Bool) : UInt32 :=
  let nSize := (bits x + 7) / 8
  let nCompact := if nSize ≤ 3 then ((x % 2 ^ 64) <<< (8 * (3 - nSize))) % 2 ^ 32
    else ((x >>> (8 * (nSize - 3))) % 2 ^ 64) % 2 ^ 32
  let (nCompact, nSize) := if nCompact &&& 0x00800000 ≠ 0 then (nCompact >>> 8, nSize + 1) else (nCompact, nSize)
  let nCompact := nCompact ||| (nSize <<< 24)
  let nCompact := nCompact ||| if fNegative && nCompact &&& 0x007fffff ≠ 0 then 0x00800000 else 0
  UInt32.ofNat nCompact

/-! ## The number of significant bits -/

theorem bitsBelow_spec (x : Nat) {n : Nat} (fits : x < 2 ^ n) :
    x < 2 ^ bitsBelow x n ∧ (0 < x → 2 ^ (bitsBelow x n - 1) ≤ x) := by
  induction n with
  | zero =>
      simp only [pow_zero, Nat.lt_one_iff] at fits
      simp [bitsBelow, fits]
  | succ n inductionHypothesis =>
      rw [bitsBelow]
      by_cases top : x.testBit n
      · rw [if_pos top, Nat.add_sub_cancel]
        exact ⟨fits, fun _ => Nat.ge_two_pow_of_testBit top⟩
      · have lower : x < 2 ^ n := by
          by_contra high
          exact top (Nat.testBit_of_two_pow_le_and_two_pow_add_one_gt (Nat.le_of_not_lt high) fits)
        rw [if_neg top]
        exact inductionHypothesis lower

/-- The value has `bits x` significant bits. -/
theorem bits_spec {x : Nat} (fits : x < 2 ^ 256) :
    x < 2 ^ bits x ∧ (0 < x → 2 ^ (bits x - 1) ≤ x) := bitsBelow_spec x fits

/-- The value has `(bits x + 7) / 8` significant bytes. -/
theorem bytes_spec {x : Nat} (fits : x < 2 ^ 256) (positive : 0 < x) :
    x < 256 ^ ((bits x + 7) / 8) ∧ 256 ^ ((bits x + 7) / 8 - 1) ≤ x := by
  obtain ⟨below, above⟩ := bits_spec fits
  have atLeast := above positive
  constructor
  · calc x < 2 ^ bits x := below
      _ ≤ 2 ^ (8 * ((bits x + 7) / 8)) := Nat.pow_le_pow_right (by norm_num) (by omega)
      _ = 256 ^ ((bits x + 7) / 8) := by rw [pow_mul]; norm_num
  · calc 256 ^ ((bits x + 7) / 8 - 1) = 2 ^ (8 * ((bits x + 7) / 8 - 1)) := by rw [pow_mul]; norm_num
      _ ≤ 2 ^ (bits x - 1) := Nat.pow_le_pow_right (by norm_num) (by omega)
      _ ≤ x := atLeast

theorem bitsBelow_le (x n : Nat) : bitsBelow x n ≤ n := by
  induction n with
  | zero => rfl
  | succ n inductionHypothesis =>
      rw [bitsBelow]
      split_ifs <;> omega

/-! ## `GetCompact` on numbers -/

/-- Setting the size byte above a mantissa of three bytes adds it. -/
theorem or_shiftLeft_24 {m : Nat} (s : Nat) (small : m < 2 ^ 24) : m ||| (s <<< 24) = m + s * 2 ^ 24 := by
  rw [Nat.shiftLeft_eq, Nat.or_comm, Nat.mul_comm, ← Nat.two_pow_add_eq_or_of_lt small, Nat.add_comm]

/-- Below `2 ^ 24`, the sign bit `0x00800000` is set exactly from `2 ^ 23` up. -/
theorem and_0x800000_ne_zero_iff {m : Nat} (small : m < 2 ^ 24) : m &&& 0x00800000 ≠ 0 ↔ 2 ^ 23 ≤ m := by
  rw [show (0x00800000 : Nat) = 2 ^ 23 by norm_num, Nat.and_two_pow]
  constructor
  · intro set
    apply Nat.ge_two_pow_of_testBit
    cases bit : m.testBit 23
    · simp [bit] at set
    · rfl
  · intro high
    simp [Nat.testBit_of_two_pow_le_and_two_pow_add_one_gt high small]

/-- `GetCompact` of a positive value: its byte length `e` and its three top
bytes `m0`, moved one byte right when the sign bit would be set. -/
theorem getCompact_eq {x e m0 : Nat} (fits : x < 2 ^ 256) (positive : 0 < x) (bytes : e = (bits x + 7) / 8)
    (mantissa : m0 = if e ≤ 3 then x * 256 ^ (3 - e) else x / 256 ^ (e - 3)) :
    getCompact x false = if 2 ^ 23 ≤ m0 then UInt32.ofNat (m0 / 256 + (e + 1) * 2 ^ 24)
      else UInt32.ofNat (m0 + e * 2 ^ 24) := by
  obtain ⟨below, above⟩ := bytes_spec fits positive
  rw [← bytes] at below above
  have read : (if e ≤ 3 then ((x % 2 ^ 64) <<< (8 * (3 - e))) % 2 ^ 32
      else ((x >>> (8 * (e - 3))) % 2 ^ 64) % 2 ^ 32) = m0 ∧ m0 < 2 ^ 24 := by
    rw [mantissa]
    split_ifs with short
    · have scaled : x * 256 ^ (3 - e) < 2 ^ 24 := by
        calc x * 256 ^ (3 - e) < 256 ^ e * 256 ^ (3 - e) := Nat.mul_lt_mul_of_pos_right below (pow_pos (by norm_num) _)
          _ = 2 ^ 24 := by rw [← pow_add, Nat.add_sub_cancel' short]; norm_num
      have grow : x ≤ x * 256 ^ (3 - e) := Nat.le_mul_of_pos_right x (pow_pos (by norm_num) _)
      have small : x < 2 ^ 64 := by omega
      rw [Nat.mod_eq_of_lt small, Nat.shiftLeft_eq, pow_mul, show (2 : Nat) ^ 8 = 256 by norm_num,
        Nat.mod_eq_of_lt (by omega)]
      exact ⟨rfl, scaled⟩
    · have top : x / 256 ^ (e - 3) < 2 ^ 24 := by
        rw [Nat.div_lt_iff_lt_mul (pow_pos (by norm_num) _)]
        calc x < 256 ^ e := below
          _ = 2 ^ 24 * 256 ^ (e - 3) := by rw [show (2 : Nat) ^ 24 = 256 ^ 3 by norm_num, ← pow_add]; congr 1; omega
      have inner : x / 256 ^ (e - 3) % 2 ^ 64 = x / 256 ^ (e - 3) := Nat.mod_eq_of_lt (by omega)
      rw [Nat.shiftRight_eq_div_pow, pow_mul, show (2 : Nat) ^ 8 = 256 by norm_num, inner,
        Nat.mod_eq_of_lt (by omega)]
      exact ⟨rfl, top⟩
  obtain ⟨readMantissa, mantissaSmall⟩ := read
  unfold getCompact
  dsimp only
  rw [← bytes, readMantissa]
  by_cases high : 2 ^ 23 ≤ m0
  · rw [if_pos ((and_0x800000_ne_zero_iff mantissaSmall).mpr high), if_pos high]
    simp only [Nat.shiftRight_eq_div_pow, Bool.false_and, Bool.false_eq_true, if_false, Nat.or_zero]
    rw [or_shiftLeft_24 _ (by omega)]
  · rw [if_neg (fun set => high ((and_0x800000_ne_zero_iff mantissaSmall).mp set)), if_neg high]
    simp only [Bool.false_and, Bool.false_eq_true, if_false, Nat.or_zero]
    rw [or_shiftLeft_24 _ mantissaSmall]

/-! ## `SetCompact` on compact words -/

theorem toNat_compactWord {m s : Nat} (small : m < 2 ^ 24) (size : s < 256) :
    (UInt32.ofNat (m + s * 2 ^ 24)).toNat = m + s * 2 ^ 24 :=
  UInt32.toNat_ofNat_of_lt' (by simp [UInt32.size]; omega)

/-- `SetCompact` of the word with size byte `s` and a mantissa `m` whose sign
bit is clear: the mantissa shifted into place, never negative. -/
theorem setCompact_compactWord {m s : Nat} (small : m < 2 ^ 23) (size : s < 256) :
    setCompact (UInt32.ofNat (m + s * 2 ^ 24)) =
      (if s ≤ 3 then m / 256 ^ (3 - s) else m * 256 ^ (s - 3) % 2 ^ 256, false,
        decide ((if s ≤ 3 then m / 256 ^ (3 - s) else m) ≠ 0) &&
          (decide (34 < s) || (decide (0xff < if s ≤ 3 then m / 256 ^ (3 - s) else m) && decide (33 < s)) ||
            (decide (0xffff < if s ≤ 3 then m / 256 ^ (3 - s) else m) && decide (32 < s)))) := by
  have word := toNat_compactWord (by omega : m < 2 ^ 24) size
  have sizeField : (UInt32.ofNat (m + s * 2 ^ 24) >>> 24).toNat = s := by
    rw [UInt32.toNat_shiftRight, word]
    simp only [UInt32.reduceToNat, Nat.reduceMod, Nat.shiftRight_eq_div_pow]
    omega
  have wordField : (UInt32.ofNat (m + s * 2 ^ 24) &&& 0x007fffff).toNat = m := by
    rw [UInt32.toNat_and, word, show (0x007fffff : UInt32).toNat = 2 ^ 23 - 1 by rfl,
      Nat.and_two_pow_sub_one_eq_mod]
    omega
  have signField : (UInt32.ofNat (m + s * 2 ^ 24) &&& 0x00800000) = 0 := by
    rw [← UInt32.toNat_inj, UInt32.toNat_and, word, show (0x00800000 : UInt32).toNat = 2 ^ 23 by rfl,
      Nat.and_two_pow, Nat.testBit_eq_decide_div_mod_eq]
    have clear : (m + s * 2 ^ 24) / 2 ^ 23 % 2 = 0 := by omega
    rw [clear]
    rfl
  have nWordValue : (if s ≤ 3 then (UInt32.ofNat (m + s * 2 ^ 24) &&& 0x007fffff) >>> UInt32.ofNat (8 * (3 - s))
      else UInt32.ofNat (m + s * 2 ^ 24) &&& 0x007fffff).toNat = if s ≤ 3 then m / 256 ^ (3 - s) else m := by
    split_ifs with short
    · have shift : (UInt32.ofNat (8 * (3 - s))).toNat % 32 = 8 * (3 - s) := by
        rw [UInt32.toNat_ofNat_of_lt' (by simp [UInt32.size]; omega)]
        omega
      rw [UInt32.toNat_shiftRight, wordField, shift, Nat.shiftRight_eq_div_pow, pow_mul]
      rfl
    · exact wordField
  unfold setCompact
  dsimp only
  rw [sizeField, signField]
  generalize (if s ≤ 3 then (UInt32.ofNat (m + s * 2 ^ 24) &&& 0x007fffff) >>> UInt32.ofNat (8 * (3 - s))
      else UInt32.ofNat (m + s * 2 ^ 24) &&& 0x007fffff) = nWord at nWordValue ⊢
  have tests : ∀ k : UInt32, decide (nWord > k) = decide (k.toNat < nWord.toNat) := by
    intro k
    simp [UInt32.lt_iff_toNat_lt]
  have nonzero : (nWord != 0) = decide (nWord.toNat ≠ 0) := by
    rw [Bool.eq_iff_iff, bne_iff_ne, decide_eq_true_iff, ne_eq, ne_eq, ← UInt32.toNat_inj,
      UInt32.toNat_zero]
  simp only [tests, nonzero, nWordValue]
  split_ifs with short
  · simp
  · simp [pow_mul]

/-- `SetCompact` of a word whose size and mantissa stay below the overflow
thresholds: the mantissa shifted into place, neither negative nor overflowing. -/
theorem setCompact_compactWord_of_fits {m s : Nat} (small : m < 2 ^ 23) (size : s ≤ 32 ∨ (s = 33 ∧ m < 2 ^ 16)) :
    setCompact (UInt32.ofNat (m + s * 2 ^ 24)) =
      (if s ≤ 3 then m / 256 ^ (3 - s) else m * 256 ^ (s - 3) % 2 ^ 256, false, false) := by
  rw [setCompact_compactWord small (by omega)]
  simp only [Prod.mk.injEq, true_and]
  split_ifs <;> simp <;> omega

/-! ## The round trips -/

theorem bitsBelow_zero (n : Nat) : bitsBelow 0 n = 0 := by
  induction n with
  | zero => rfl
  | succ n inductionHypothesis => simp [bitsBelow, inductionHypothesis]

theorem getCompact_zero : getCompact 0 false = 0 := by
  simp [getCompact, bits, bitsBelow_zero]

/-- Below three bytes the mantissa is the value moved up to the third byte. -/
theorem mul_pow_lt_of_short {x e : Nat} (below : x < 256 ^ e) (short : e ≤ 3) : x * 256 ^ (3 - e) < 2 ^ 24 :=
  calc x * 256 ^ (3 - e) < 256 ^ e * 256 ^ (3 - e) := Nat.mul_lt_mul_of_pos_right below (pow_pos (by norm_num) _)
    _ = 2 ^ 24 := by rw [← pow_add, Nat.add_sub_cancel' short]; norm_num

/-- From three bytes up the mantissa is the top three bytes of the value. -/
theorem div_pow_lt_of_long {x e : Nat} (below : x < 256 ^ e) (long : 3 ≤ e) : x / 256 ^ (e - 3) < 2 ^ 24 := by
  rw [Nat.div_lt_iff_lt_mul (pow_pos (by norm_num) _)]
  calc x < 256 ^ e := below
    _ = 2 ^ 24 * 256 ^ (e - 3) := by
      rw [show (2 : Nat) ^ 24 = 256 ^ 3 by norm_num, ← pow_add, Nat.add_sub_cancel' long]

/-- Moving the mantissa one byte right is reading the value one byte higher. -/
theorem div_pow_div_256 (x : Nat) {e : Nat} (long : 3 ≤ e) : x / 256 ^ (e - 3) / 256 = x / 256 ^ (e + 1 - 3) := by
  rw [Nat.div_div_eq_div_mul, ← pow_succ, show e - 3 + 1 = e + 1 - 3 by omega]

/-- `GetCompact` of a positive value is the word of some size `s` whose
mantissa `m` is the value's top bytes at that size and has its sign bit
clear; from size four up, one byte less would not have kept it clear. -/
theorem getCompact_eq_word {x : Nat} (fits : x < 2 ^ 256) (positive : 0 < x) :
    ∃ m s, getCompact x false = UInt32.ofNat (m + s * 2 ^ 24) ∧ m < 2 ^ 23 ∧
      (s ≤ 32 ∨ (s = 33 ∧ m < 2 ^ 16)) ∧
      if s ≤ 3 then m = x * 256 ^ (3 - s) else m = x / 256 ^ (s - 3) ∧ 2 ^ 23 ≤ x / 256 ^ (s - 4) := by
  obtain ⟨below, above⟩ := bytes_spec fits positive
  have bounded : bits x ≤ 256 := bitsBelow_le x 256
  set e := (bits x + 7) / 8 with bytes
  have atLeastOne : 1 ≤ e := by
    by_contra none
    rw [show e = 0 by omega, pow_zero] at below
    omega
  by_cases short : e ≤ 3
  · have scaled := mul_pow_lt_of_short below short
    have word := getCompact_eq fits positive bytes (if_pos short).symm
    by_cases high : 2 ^ 23 ≤ x * 256 ^ (3 - e)
    · refine ⟨x * 256 ^ (3 - e) / 256, e + 1, by rw [word, if_pos high], by omega, by omega, ?_⟩
      split_ifs with shorter
      · rw [show 3 - e = 3 - (e + 1) + 1 by omega, pow_succ, ← mul_assoc, Nat.mul_div_cancel _ (by norm_num)]
      · have three : e = 3 := by omega
        rw [three] at high ⊢
        simpa using high
    · refine ⟨x * 256 ^ (3 - e), e, by rw [word, if_neg high], by omega, by omega, ?_⟩
      rw [if_pos short]
  · have long : 3 ≤ e := by omega
    have top := div_pow_lt_of_long below long
    have word := getCompact_eq fits positive bytes (if_neg short).symm
    by_cases high : 2 ^ 23 ≤ x / 256 ^ (e - 3)
    · refine ⟨x / 256 ^ (e - 3) / 256, e + 1, by rw [word, if_pos high], by omega, by omega, ?_⟩
      rw [if_neg (by omega), div_pow_div_256 x long, show e + 1 - 4 = e - 3 by omega]
      exact ⟨rfl, high⟩
    · refine ⟨x / 256 ^ (e - 3), e, by rw [word, if_neg high], by omega, by omega, ?_⟩
      rw [if_neg short]
      refine ⟨rfl, ?_⟩
      rw [Nat.le_div_iff_mul_le (pow_pos (by norm_num) _)]
      calc 2 ^ 23 * 256 ^ (e - 4) ≤ 256 ^ 3 * 256 ^ (e - 4) := Nat.mul_le_mul_right _ (by decide)
        _ = 256 ^ (e - 1) := by rw [← pow_add]; congr 1; omega
        _ ≤ x := above

/-- `SetCompact (GetCompact x)` is `x` cut to its top bytes at the byte
offset `k`, the least at which they fit below the sign bit. -/
theorem setCompact_getCompact {x : Nat} (fits : x < 2 ^ 256) :
    ∃ k, (x / 256 ^ k < 2 ^ 23 ∧ ∀ j < k, 2 ^ 23 ≤ x / 256 ^ j) ∧
      setCompact (getCompact x false) = (x / 256 ^ k * 256 ^ k, false, false) := by
  rcases Nat.eq_zero_or_pos x with zero | positive
  · refine ⟨0, ⟨by simp [zero], by simp⟩, ?_⟩
    rw [zero, getCompact_zero]
    decide
  · obtain ⟨m, s, word, small, size, field⟩ := getCompact_eq_word fits positive
    rw [word, setCompact_compactWord_of_fits small size]
    split_ifs at field ⊢ with short
    · have grown : x ≤ m := field ▸ Nat.le_mul_of_pos_right x (pow_pos (by norm_num) _)
      refine ⟨0, ⟨by simp; omega, by simp⟩, ?_⟩
      rw [field, Nat.mul_div_cancel _ (pow_pos (by norm_num) _)]
      simp
    · obtain ⟨mantissa, least⟩ := field
      refine ⟨s - 3, ⟨mantissa ▸ small, fun j lower => ?_⟩, ?_⟩
      · calc 2 ^ 23 ≤ x / 256 ^ (s - 4) := least
          _ ≤ x / 256 ^ j := Nat.div_le_div_left (Nat.pow_le_pow_right (by norm_num) (by omega))
            (pow_pos (by norm_num) _)
      · rw [mantissa, Nat.mod_eq_of_lt (lt_of_le_of_lt (Nat.div_mul_le_self _ _) fits)]

/-- Rounding a value through the compact encoding is monotone: a larger value
is cut at an offset at least as high, and when the offset is higher, what it
keeps there is above all the smaller value keeps. -/
theorem compactRound_mono {x y : Nat} (le : x ≤ y) (fits : y < 2 ^ 256) :
    (setCompact (getCompact x false)).1 ≤ (setCompact (getCompact y false)).1 := by
  obtain ⟨kx, ⟨belowX, leastX⟩, roundX⟩ := setCompact_getCompact (lt_of_le_of_lt le fits)
  obtain ⟨ky, ⟨belowY, leastY⟩, roundY⟩ := setCompact_getCompact fits
  rw [roundX, roundY]
  dsimp only
  have offsets : kx ≤ ky := by
    by_contra lower
    have atX := leastX ky (by omega)
    have atY : x / 256 ^ ky ≤ y / 256 ^ ky := Nat.div_le_div_right le
    omega
  rcases offsets.eq_or_lt with same | higher
  · rw [same]
    exact Nat.mul_le_mul_right _ (Nat.div_le_div_right le)
  · have oneDown := leastY (ky - 1) (by omega)
    have split : y / 256 ^ ky = y / 256 ^ (ky - 1) / 256 := by
      rw [Nat.div_div_eq_div_mul, ← pow_succ, Nat.sub_add_cancel (by omega)]
    have kept : 2 ^ 15 ≤ y / 256 ^ ky := by
      rw [split, Nat.le_div_iff_mul_le (by norm_num)]
      omega
    refine le_of_lt ?_
    calc x / 256 ^ kx * 256 ^ kx < 2 ^ 23 * 256 ^ kx := Nat.mul_lt_mul_of_pos_right belowX (pow_pos (by norm_num) _)
      _ = 2 ^ 15 * 256 ^ (kx + 1) := by rw [pow_succ]; ring
      _ ≤ 2 ^ 15 * 256 ^ ky := Nat.mul_le_mul_left _ (Nat.pow_le_pow_right (by norm_num) higher)
      _ ≤ y / 256 ^ ky * 256 ^ ky := Nat.mul_le_mul_right _ kept

/-- A value with `s` significant bytes is read by `GetCompact` at size `s`. -/
theorem bytes_eq {v s : Nat} (fits : v < 2 ^ 256) (atLeastOne : 1 ≤ s) (lower : 256 ^ (s - 1) ≤ v)
    (upper : v < 256 ^ s) : (bits v + 7) / 8 = s := by
  have positive : 0 < v := lt_of_lt_of_le (pow_pos (by norm_num) _) lower
  obtain ⟨below, above⟩ := bytes_spec fits positive
  have notFewer : s - 1 < (bits v + 7) / 8 := (Nat.pow_lt_pow_iff_right (by norm_num)).mp (lower.trans_lt below)
  have notMore : (bits v + 7) / 8 - 1 < s := (Nat.pow_lt_pow_iff_right (by norm_num)).mp (above.trans_lt upper)
  omega

/-- `GetCompact (SetCompact c)` gives `c` back when `c` decodes without sign
or overflow, its mantissa has a non-zero top byte and a clear sign bit, and,
below size three, the bytes that `SetCompact` shifts out are zero. -/
theorem getCompact_setCompact {c : UInt32} (valid : (setCompact c).2 = (false, false))
    (topByte : 2 ^ 16 ≤ c.toNat % 2 ^ 24) (signClear : c.toNat % 2 ^ 24 < 2 ^ 23)
    (aligned : 3 ≤ c.toNat / 2 ^ 24 ∨ c.toNat % 2 ^ 24 % 256 ^ (3 - c.toNat / 2 ^ 24) = 0) :
    getCompact (setCompact c).1 false = c := by
  generalize mantissaDef : c.toNat % 2 ^ 24 = m at topByte signClear aligned
  generalize sizeDef : c.toNat / 2 ^ 24 = s at aligned
  have size : s < 256 := by
    have := c.toNat_lt
    omega
  have word : c = UInt32.ofNat (m + s * 2 ^ 24) := by
    rw [← UInt32.toNat_inj, toNat_compactWord (by omega) size]
    omega
  rw [word] at valid ⊢
  rw [setCompact_compactWord signClear size] at valid ⊢
  simp only [Prod.mk.injEq, true_and] at valid
  by_cases short : s ≤ 3
  · simp only [short, if_true] at valid ⊢
    have shiftedOut : m % 256 ^ (3 - s) = 0 := by
      rcases aligned with three | zeros
      · rw [show 3 - s = 0 by omega, pow_zero, Nat.mod_one]
      · exact zeros
    have atLeastOne : 1 ≤ s := by
      by_contra zero
      rw [show s = 0 by omega] at shiftedOut
      norm_num at shiftedOut
      omega
    have exact : m / 256 ^ (3 - s) * 256 ^ (3 - s) = m := Nat.div_mul_cancel (Nat.dvd_of_mod_eq_zero shiftedOut)
    have lower : 256 ^ (s - 1) ≤ m / 256 ^ (3 - s) := by
      apply Nat.le_of_mul_le_mul_right _ (pow_pos (by norm_num : 0 < 256) (3 - s))
      rw [exact, ← pow_add, show s - 1 + (3 - s) = 2 by omega]
      simpa using topByte
    have upper : m / 256 ^ (3 - s) < 256 ^ s := by
      have scaled : m / 256 ^ (3 - s) * 256 ^ (3 - s) < 256 ^ s * 256 ^ (3 - s) := by
        rw [exact, ← pow_add, Nat.add_sub_cancel' short]
        norm_num
        omega
      exact Nat.lt_of_mul_lt_mul_right scaled
    have fitsValue : m / 256 ^ (3 - s) < 2 ^ 256 := lt_of_le_of_lt (Nat.div_le_self _ _) (by omega)
    have mantissa : m = if s ≤ 3 then m / 256 ^ (3 - s) * 256 ^ (3 - s) else m / 256 ^ (3 - s) / 256 ^ (s - 3) := by
      rw [if_pos short, exact]
    have positive : 0 < m / 256 ^ (3 - s) := lt_of_lt_of_le (pow_pos (by norm_num) _) lower
    rw [getCompact_eq fitsValue positive (bytes_eq fitsValue atLeastOne lower upper).symm mantissa,
      if_neg (by omega)]
  · simp only [short, if_false] at valid ⊢
    have notOver : s ≤ 32 := by
      simp at valid
      omega
    have upper : m * 256 ^ (s - 3) < 256 ^ s :=
      calc m * 256 ^ (s - 3) < 256 ^ 3 * 256 ^ (s - 3) := Nat.mul_lt_mul_of_pos_right (by omega) (pow_pos (by norm_num) _)
        _ = 256 ^ s := by rw [← pow_add, Nat.add_sub_cancel' (by omega)]
    have lower : 256 ^ (s - 1) ≤ m * 256 ^ (s - 3) :=
      calc 256 ^ (s - 1) = 256 ^ 2 * 256 ^ (s - 3) := by rw [← pow_add]; congr 1; omega
        _ ≤ m * 256 ^ (s - 3) := Nat.mul_le_mul_right _ (by omega)
    have fitsValue : m * 256 ^ (s - 3) < 2 ^ 256 :=
      calc m * 256 ^ (s - 3) < 256 ^ s := upper
        _ ≤ 256 ^ 32 := Nat.pow_le_pow_right (by norm_num) notOver
        _ = 2 ^ 256 := by norm_num
    have mantissa : m = if s ≤ 3 then m * 256 ^ (s - 3) * 256 ^ (3 - s) else m * 256 ^ (s - 3) / 256 ^ (s - 3) := by
      rw [if_neg short, Nat.mul_div_cancel _ (pow_pos (by norm_num) _)]
    have positive : 0 < m * 256 ^ (s - 3) := lt_of_lt_of_le (pow_pos (by norm_num) _) lower
    rw [Nat.mod_eq_of_lt fitsValue, getCompact_eq fitsValue positive
      (bytes_eq fitsValue (by omega) lower upper).symm mantissa, if_neg (by omega)]

/-- The two round trips of the compact encoding: a value decoded from its
encoding is cut to its top bytes, and a normalized word whose bytes all survive
decoding is encoded back to itself. -/
theorem compact_roundTrip_truncates :
    (∀ x < 2 ^ 256, ∃ k, (x / 256 ^ k < 2 ^ 23 ∧ ∀ j < k, 2 ^ 23 ≤ x / 256 ^ j) ∧
      setCompact (getCompact x false) = (x / 256 ^ k * 256 ^ k, false, false)) ∧
    (∀ c : UInt32, (setCompact c).2 = (false, false) → 2 ^ 16 ≤ c.toNat % 2 ^ 24 →
      c.toNat % 2 ^ 24 < 2 ^ 23 →
      (3 ≤ c.toNat / 2 ^ 24 ∨ c.toNat % 2 ^ 24 % 256 ^ (3 - c.toNat / 2 ^ 24) = 0) →
      getCompact (setCompact c).1 false = c) :=
  ⟨fun _ fits => setCompact_getCompact fits,
    fun _ valid topByte signClear aligned => getCompact_setCompact valid topByte signClear aligned⟩

/-- A normalized word of size one decodes without sign or overflow, but its two
low mantissa bytes are shifted out, so it is not encoded back to itself. -/
theorem getCompact_setCompact_shiftedOut :
    (setCompact 0x01123456).2 = (false, false) ∧ 2 ^ 16 ≤ (0x01123456 : UInt32).toNat % 2 ^ 24 ∧
      (0x01123456 : UInt32).toNat % 2 ^ 24 < 2 ^ 23 ∧
      getCompact (setCompact 0x01123456).1 false = 0x01120000 := by
  have decoded : (setCompact 0x01123456).1 = 0x12 := by decide
  have oneByte : (bits 0x12 + 7) / 8 = 1 := bytes_eq (by decide) le_rfl (by decide) (by decide)
  refine ⟨by decide, by decide, by decide, ?_⟩
  rw [decoded, getCompact_eq (by decide) (by decide) oneByte.symm rfl]
  decide

end Qbitcoin
