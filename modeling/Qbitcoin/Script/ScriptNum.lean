import Qbitcoin.Lib.LittleEndian

/-!
# Script numbers

`CScriptNum` stores an `int64_t`.  Values reach the interpreter only through
the byte decoder below (at most four bytes, five for the lock-time opcodes)
and through additions of two decoded values, so every value in play stays far
inside the `int64_t` range and the overflow assertions of the C++ operators
never fire; the model keeps the value as an `Int`.

A decoding failure is the `scriptnum_error` exception, represented by `none`.

`serialize` and the decoder with minimality required are inverse on each
other's ranges.  The proofs read an encoding at its last byte
(`setVch_append_singleton`): the sign bit there is the sign and the rest is the
magnitude.  A minimal encoding carries a magnitude of at least
`128 * 256 ^ (n - 2)` in `n` bytes, any encoding one below
`128 * 256 ^ (n - 1)`, so the minimal encoding is also the shortest
(`length_serialize_setVch_le`).
-/

namespace Qbitcoin

open ByteCodec

/-- A byte vector as the C++ code sees it (`valtype`, `std::vector<unsigned char>`). -/
abbrev valtype := List UInt8

namespace CScriptNum

/-- `CScriptNum::nDefaultMaxNumSize`. -/
def nDefaultMaxNumSize : Nat := 4

/-- The little-endian bytes of a magnitude, without trailing zero bytes: the
`while (absvalue)` loop of `CScriptNum::serialize`. -/
def magnitudeBytes (absvalue : Nat) : List UInt8 :=
  if absvalue = 0 then []
  else UInt8.ofNat (absvalue % 256) :: magnitudeBytes (absvalue / 256)
termination_by absvalue
decreasing_by omega

/-- `CScriptNum::serialize`: the shortest sign-magnitude little-endian
encoding.  A set top bit needs an extra byte for the sign; otherwise the sign
is folded into the most significant byte. -/
def serialize (value : Int) : valtype :=
  if value = 0 then []
  else
    let neg := decide (value < 0)
    let result := magnitudeBytes value.natAbs
    let last := result.getLast?.getD 0
    if last &&& 0x80 ≠ 0 then result ++ [if neg then 0x80 else 0]
    else if neg then result.dropLast ++ [last ||| 0x80]
    else result

/-- `CScriptNum::set_vch`: the value of a sign-magnitude little-endian encoding. -/
def setVch (vch : valtype) : Int :=
  match vch.getLast? with
  | none => 0
  | some last =>
      if last &&& 0x80 ≠ 0 then
        -((readLE vch - 0x80 * 256 ^ (vch.length - 1) : Nat) : Int)
      else (readLE vch : Int)

/-- The minimality test of the decoding constructor: the most significant byte,
sign bit aside, must be non-zero unless the next byte needs the sign bit. -/
def isMinimallyEncoded (vch : valtype) : Bool :=
  match vch.reverse with
  | [] => true
  | last :: rest =>
      if last &&& 0x7f = 0 then
        match rest with
        | [] => false
        | second :: _ => second &&& 0x80 ≠ 0
      else true

/-- The constructor `CScriptNum(vch, fRequireMinimal, nMaxNumSize)`; `none` is the
thrown `scriptnum_error`.  Callers pass `nDefaultMaxNumSize` where the C++ relies on
the default argument. -/
def decode (vch : valtype) (fRequireMinimal : Bool) (nMaxNumSize : Nat) : Option Int :=
  if vch.length > nMaxNumSize then none
  else if fRequireMinimal && !isMinimallyEncoded vch then none
  else some (setVch vch)

/-- `CScriptNum::getint`: the value clamped to the range of `int`. -/
def getint (value : Int) : Int :=
  if value > 2147483647 then 2147483647
  else if value < -2147483648 then -2147483648
  else value

@[simp]
theorem serialize_zero : serialize 0 = [] := by
  simp [serialize]

theorem magnitudeBytes_of_pos {absvalue : Nat} (positive : 0 < absvalue) :
    magnitudeBytes absvalue =
      UInt8.ofNat (absvalue % 256) :: magnitudeBytes (absvalue / 256) := by
  rw [magnitudeBytes]
  simp [Nat.pos_iff_ne_zero.mp positive]

theorem magnitudeBytes_of_lt {absvalue : Nat} (positive : 0 < absvalue) (small : absvalue < 256) :
    magnitudeBytes absvalue = [UInt8.ofNat absvalue] := by
  rw [magnitudeBytes_of_pos positive, Nat.div_eq_of_lt small, Nat.mod_eq_of_lt small,
    magnitudeBytes]
  simp

/-- A value in `1 ..= 127` is its own one-byte encoding. -/
theorem serialize_of_small {value : Nat} (positive : 0 < value) (small : value < 128) :
    serialize value = [UInt8.ofNat value] := by
  have natAbs : (value : Int).natAbs = value := Int.natAbs_natCast value
  have topClear : UInt8.ofNat value &&& 0x80 = 0 := by
    apply UInt8.toNat_inj.mp
    rw [UInt8.toNat_and, UInt8.toNat_ofNat_of_lt' (by simp [UInt8.size]; omega)]
    have clear : value &&& 2 ^ 7 = 0 := and_two_pow_of_lt small
    simpa using clear
  simp [serialize, Int.natCast_eq_zero, Nat.pos_iff_ne_zero.mp positive, natAbs,
    magnitudeBytes_of_lt positive (by omega), topClear]

/-! ## Serialization and decoding are inverse -/

theorem readLE_magnitudeBytes (absvalue : Nat) : readLE (magnitudeBytes absvalue) = absvalue := by
  induction absvalue using Nat.strong_induction_on with
  | _ absvalue inductionHypothesis =>
      rcases Nat.eq_zero_or_pos absvalue with zero | positive
      · subst zero
        simp [magnitudeBytes]
      · have lowByte : (UInt8.ofNat (absvalue % 256)).toNat = absvalue % 256 :=
          UInt8.toNat_ofNat_of_lt' (by simp [UInt8.size]; omega)
        rw [magnitudeBytes_of_pos positive, readLE_cons, lowByte,
          inductionHypothesis _ (Nat.div_lt_self positive (by norm_num : 1 < 256))]
        omega

/-- The magnitude bytes end in a non-zero byte. -/
theorem getLast?_magnitudeBytes_ne_zero (absvalue : Nat) : (magnitudeBytes absvalue).getLast? ≠ some 0 := by
  induction absvalue using Nat.strong_induction_on with
  | _ absvalue inductionHypothesis =>
      rcases Nat.eq_zero_or_pos absvalue with zero | positive
      · subst zero
        simp [magnitudeBytes]
      · rw [magnitudeBytes_of_pos positive]
        by_cases small : absvalue < 256
        · rw [Nat.div_eq_of_lt small, magnitudeBytes, if_pos rfl, List.getLast?_singleton]
          intro zero
          have : absvalue % 256 = 0 := by
            have := congrArg UInt8.toNat (Option.some.inj zero)
            rwa [UInt8.toNat_ofNat_of_lt' (by simp [UInt8.size]; omega)] at this
          omega
        · have higher := inductionHypothesis _ (Nat.div_lt_self positive (by norm_num : 1 < 256))
          rw [magnitudeBytes_of_pos (by omega)] at higher ⊢
          rwa [List.getLast?_cons_cons]

/-- A byte string that ends in a non-zero byte has a positive value. -/
theorem readLE_pos {bytes : valtype} (nonEmpty : bytes ≠ []) (noZero : bytes.getLast? ≠ some 0) :
    0 < readLE bytes := by
  obtain ⟨pre, last, rfl⟩ : ∃ pre last, bytes = pre ++ [last] :=
    ⟨_, _, (List.dropLast_append_getLast nonEmpty).symm⟩
  have lastPositive : 0 < last.toNat := by
    rw [List.getLast?_concat, ne_eq, Option.some.injEq, ← UInt8.toNat_inj] at noZero
    exact Nat.pos_of_ne_zero noZero
  rw [readLE_append_singleton]
  have : 0 < last.toNat * 256 ^ pre.length := Nat.mul_pos lastPositive (pow_pos (by norm_num) _)
  omega

/-- The magnitude bytes of a value are its little-endian bytes without trailing
zeros, so they invert `readLE` there. -/
theorem magnitudeBytes_readLE {bytes : valtype} (noZero : bytes.getLast? ≠ some 0) :
    magnitudeBytes (readLE bytes) = bytes := by
  induction bytes with
  | nil => simp [magnitudeBytes]
  | cons byte rest inductionHypothesis =>
      have byteBound := byte.toNat_lt
      cases rest with
      | nil =>
          have nonZero : 0 < byte.toNat := by
            rw [List.getLast?_singleton, ne_eq, Option.some.injEq, ← UInt8.toNat_inj] at noZero
            exact Nat.pos_of_ne_zero noZero
          rw [readLE_cons, readLE_nil, mul_zero, add_zero, magnitudeBytes_of_lt nonZero byteBound,
            UInt8.ofNat_toNat]
      | cons next more =>
          rw [List.getLast?_cons_cons] at noZero
          have restPositive := readLE_pos (List.cons_ne_nil next more) noZero
          have lowByte : (byte.toNat + 256 * readLE (next :: more)) % 256 = byte.toNat := by omega
          have highBytes : (byte.toNat + 256 * readLE (next :: more)) / 256 = readLE (next :: more) := by
            omega
          rw [readLE_cons, magnitudeBytes_of_pos (by omega), lowByte, highBytes, UInt8.ofNat_toNat,
            inductionHypothesis noZero]

/-- The magnitude bytes of a non-zero value end in a non-zero top byte. -/
theorem magnitudeBytes_eq_concat {value : Int} (nonZero : value ≠ 0) :
    ∃ pre top, magnitudeBytes value.natAbs = pre ++ [top] ∧ top ≠ 0 ∧
      readLE pre + top.toNat * 256 ^ pre.length = value.natAbs := by
  have nonEmpty : magnitudeBytes value.natAbs ≠ [] := by
    rw [magnitudeBytes_of_pos (Int.natAbs_pos.mpr nonZero)]
    exact List.cons_ne_nil _ _
  refine ⟨_, _, (List.dropLast_append_getLast nonEmpty).symm, ?_, ?_⟩
  · intro zero
    apply getLast?_magnitudeBytes_ne_zero value.natAbs
    rw [List.getLast?_eq_some_getLast nonEmpty, zero]
  · rw [← readLE_append_singleton, List.dropLast_append_getLast nonEmpty, readLE_magnitudeBytes]

/-- The value of an encoding split at its last byte: the sign bit of that byte
is the sign, and the rest is the magnitude. -/
theorem setVch_append_singleton (pre : valtype) (last : UInt8) :
    setVch (pre ++ [last]) = if last < 0x80 then ((readLE pre + last.toNat * 256 ^ pre.length : Nat) : Int)
      else -((readLE pre + (last.toNat - 0x80) * 256 ^ pre.length : Nat) : Int) := by
  unfold setVch
  rw [List.getLast?_concat]
  dsimp only
  by_cases low : last < 0x80
  · have clear : ¬ (last &&& 0x80 ≠ 0) := by rw [not_not, and_0x80_eq_zero_iff]; exact low
    rw [if_neg clear, if_pos low, readLE_append_singleton]
  · have set : last &&& 0x80 ≠ 0 := by rw [ne_eq, and_0x80_eq_zero_iff]; exact low
    have high : 0x80 ≤ last.toNat := by
      rw [UInt8.lt_iff_toNat_lt] at low
      simpa using low
    have shifted : 0x80 * 256 ^ pre.length ≤ last.toNat * 256 ^ pre.length := Nat.mul_le_mul_right _ high
    rw [if_pos set, if_neg low, readLE_append_singleton,
      List.length_append, List.length_singleton, Nat.add_sub_cancel, Nat.sub_mul]
    omega

/-- `serialize` on the magnitude bytes `pre ++ [top]` of a non-zero value: a
top byte with its top bit set is followed by a sign byte, otherwise the sign is
folded into the top byte. -/
theorem serialize_of_magnitude {value : Int} {pre : valtype} {top : UInt8} (nonZero : value ≠ 0)
    (magnitude : magnitudeBytes value.natAbs = pre ++ [top]) :
    serialize value = if top < 0x80 then pre ++ [if value < 0 then top ||| 0x80 else top]
      else pre ++ [top, if value < 0 then 0x80 else 0] := by
  unfold serialize
  rw [if_neg nonZero]
  simp only [magnitude, List.getLast?_concat, Option.getD_some, List.dropLast_concat]
  by_cases low : top < 0x80
  · have clear : top &&& 0x80 = 0 := (and_0x80_eq_zero_iff top).mpr low
    by_cases negative : value < 0 <;> simp [clear, low, negative]
  · have set : top &&& 0x80 ≠ 0 := fun clear => low ((and_0x80_eq_zero_iff top).mp clear)
    simp [set, low]

/-- `set_vch` reads back what `serialize` writes. -/
theorem setVch_serialize (value : Int) : setVch (serialize value) = value := by
  rcases eq_or_ne value 0 with rfl | nonZero
  · simp [setVch]
  obtain ⟨pre, top, magnitude, -, size⟩ := magnitudeBytes_eq_concat nonZero
  rw [serialize_of_magnitude nonZero magnitude]
  by_cases low : top < 0x80
  · rw [if_pos low]
    by_cases negative : value < 0
    · have high : ¬ (top ||| 0x80) < 0x80 := by
        rw [UInt8.lt_iff_toNat_lt, toNat_or_0x80 low]
        simp
      rw [if_pos negative, setVch_append_singleton, if_neg high, toNat_or_0x80 low, Nat.add_sub_cancel, size]
      omega
    · rw [if_neg negative, setVch_append_singleton, if_pos low, size]
      omega
  · rw [if_neg low, show pre ++ [top, if value < 0 then 0x80 else 0] =
      (pre ++ [top]) ++ [if value < 0 then 0x80 else 0] by simp, setVch_append_singleton,
      readLE_append_singleton, size]
    by_cases negative : value < 0
    · have signBit : ¬ (0x80 : UInt8) < 0x80 := by decide
      rw [if_pos negative, if_neg signBit, show (0x80 : UInt8).toNat - 128 = 0 from rfl, Nat.zero_mul, Nat.add_zero]
      omega
    · have noSignBit : (0 : UInt8) < 0x80 := by decide
      rw [if_neg negative, if_pos noSignBit, show (0 : UInt8).toNat = 0 from rfl, Nat.zero_mul, Nat.add_zero]
      omega

/-- A non-minimal encoding in the words of the decoder: the last byte holds no
bit but the sign bit, and the byte before it, if any, has its top bit clear. -/
def NonMinimal (vch : valtype) : Prop :=
  ∃ pre last, vch = pre ++ [last] ∧ (last = 0 ∨ last = 0x80) ∧
    ∀ second, pre.getLast? = some second → second < 0x80

theorem nonMinimal_concat_iff (pre : valtype) (last : UInt8) :
    NonMinimal (pre ++ [last]) ↔
      (last = 0 ∨ last = 0x80) ∧ ∀ second, pre.getLast? = some second → second < 0x80 := by
  constructor
  · rintro ⟨pre', last', same, signOnly, clear⟩
    obtain ⟨rfl, lastSame⟩ := List.append_inj' same rfl
    obtain rfl := List.singleton_inj.mp lastSame
    exact ⟨signOnly, clear⟩
  · rintro ⟨signOnly, clear⟩
    exact ⟨pre, last, rfl, signOnly, clear⟩

/-- The minimality test of the decoder rejects exactly the non-minimal encodings. -/
theorem isMinimallyEncoded_eq_false_iff (vch : valtype) :
    isMinimallyEncoded vch = false ↔ NonMinimal vch := by
  rcases List.eq_nil_or_concat vch with rfl | ⟨pre, last, rfl⟩
  · simp [isMinimallyEncoded, NonMinimal]
  rw [List.concat_eq_append, nonMinimal_concat_iff, ← and_0x7f_eq_zero_iff]
  unfold isMinimallyEncoded
  rw [List.reverse_concat]
  dsimp only
  have lastOfReverse : pre.getLast? = pre.reverse.head? := List.head?_reverse.symm
  cases reversed : pre.reverse with
  | nil => simp [lastOfReverse, reversed]
  | cons second rest => simp [lastOfReverse, reversed, and_0x80_eq_zero_iff]

theorem isMinimallyEncoded_of_not_nonMinimal {vch : valtype} (minimal : ¬ NonMinimal vch) :
    isMinimallyEncoded vch = true := by
  rw [← Bool.not_eq_false, isMinimallyEncoded_eq_false_iff]
  exact minimal

/-- `serialize` writes minimal encodings. -/
theorem isMinimallyEncoded_serialize (value : Int) : isMinimallyEncoded (serialize value) = true := by
  rcases eq_or_ne value 0 with rfl | nonZero
  · rfl
  obtain ⟨pre, top, magnitude, topNonZero, -⟩ := magnitudeBytes_eq_concat nonZero
  apply isMinimallyEncoded_of_not_nonMinimal
  rw [serialize_of_magnitude nonZero magnitude]
  by_cases low : top < 0x80
  · have topBits : top.toNat ≠ 0 := fun zero => topNonZero (UInt8.toNat_inj.mp zero)
    have lowNat : top.toNat < 0x80 := UInt8.lt_iff_toNat_lt.mp low
    rw [if_pos low, nonMinimal_concat_iff]
    rintro ⟨signOnly | signOnly, -⟩ <;> split_ifs at signOnly <;>
      simp [← UInt8.toNat_inj, toNat_or_0x80 low] at signOnly <;> omega
  · rw [if_neg low, show pre ++ [top, if value < 0 then 0x80 else 0] =
      (pre ++ [top]) ++ [if value < 0 then 0x80 else 0] by simp, nonMinimal_concat_iff]
    rintro ⟨-, clear⟩
    exact low (clear top List.getLast?_concat)

/-- `serialize` on a value whose magnitude is written `pre ++ [top]` with a
non-zero top byte. -/
theorem serialize_of_readLE {value : Int} (pre : valtype) {top : UInt8} (topNonZero : top ≠ 0)
    (size : value.natAbs = readLE (pre ++ [top])) :
    serialize value = if top < 0x80 then pre ++ [if value < 0 then top ||| 0x80 else top]
      else pre ++ [top, if value < 0 then 0x80 else 0] := by
  have noZero : (pre ++ [top]).getLast? ≠ some 0 := by
    rw [List.getLast?_concat, ne_eq, Option.some.injEq]
    exact topNonZero
  have nonZero : value ≠ 0 := by
    rw [← Int.natAbs_pos, size]
    exact readLE_pos (List.concat_ne_nil _ _) noZero
  rw [serialize_of_magnitude nonZero (by rw [size, magnitudeBytes_readLE noZero])]

/-- In a minimal encoding, a last byte that holds the sign alone follows a byte
with its top bit set. -/
theorem signByte_of_minimal {pre : valtype} {last : UInt8} (minimal : isMinimallyEncoded (pre ++ [last]) = true)
    (signOnly : last = 0 ∨ last = 0x80) : ∃ pre' second, pre = pre' ++ [second] ∧ 0x80 ≤ second := by
  have needed : ∃ second, pre.getLast? = some second ∧ 0x80 ≤ second := by
    by_contra none
    push Not at none
    have nonMinimal : NonMinimal (pre ++ [last]) := (nonMinimal_concat_iff pre last).mpr
      ⟨signOnly, fun second secondLast => UInt8.not_le.mp (none second secondLast)⟩
    rw [← isMinimallyEncoded_eq_false_iff, minimal] at nonMinimal
    exact Bool.noConfusion nonMinimal
  obtain ⟨second, secondLast, high⟩ := needed
  obtain ⟨pre', rfl⟩ := List.getLast?_eq_some_iff.mp secondLast
  exact ⟨pre', second, rfl, high⟩

/-- A minimal encoding is the one `serialize` writes for its value. -/
theorem serialize_setVch {vch : valtype} (minimal : isMinimallyEncoded vch = true) :
    serialize (setVch vch) = vch := by
  rcases List.eq_nil_or_concat vch with rfl | ⟨pre, last, rfl⟩
  · rfl
  rw [List.concat_eq_append] at minimal ⊢
  rw [setVch_append_singleton]
  by_cases low : last < 0x80
  · rw [if_pos low]
    have nonNegative : ¬ ((readLE pre + last.toNat * 256 ^ pre.length : Nat) : Int) < 0 :=
      not_lt.mpr (Int.natCast_nonneg _)
    by_cases zero : last = 0
    · obtain ⟨pre', second, rfl, high⟩ := signByte_of_minimal minimal (Or.inl zero)
      have secondNonZero : second ≠ 0 := fun zero => absurd high (by rw [zero]; decide)
      have secondHigh : ¬ second < 0x80 := UInt8.not_lt.mpr high
      subst zero
      rw [serialize_of_readLE pre' secondNonZero (by simp), if_neg secondHigh, if_neg nonNegative]
      simp
    · rw [serialize_of_readLE pre zero (by rw [Int.natAbs_natCast, readLE_append_singleton]), if_pos low,
        if_neg nonNegative]
  · rw [if_neg low]
    have high : 0x80 ≤ last.toNat := by
      rw [UInt8.lt_iff_toNat_lt] at low
      simpa using low
    by_cases signOnly : last = 0x80
    · obtain ⟨pre', second, rfl, high'⟩ := signByte_of_minimal minimal (Or.inr signOnly)
      have secondNonZero : second ≠ 0 := fun zero => absurd high' (by rw [zero]; decide)
      have secondHigh : ¬ second < 0x80 := UInt8.not_lt.mpr high'
      subst signOnly
      have negative : -((readLE (pre' ++ [second]) + ((0x80 : UInt8).toNat - 0x80) *
          256 ^ (pre' ++ [second]).length : Nat) : Int) < 0 := by
        have positive := readLE_pos (List.concat_ne_nil second pre')
          (by rw [List.getLast?_concat, ne_eq, Option.some.injEq]; exact secondNonZero)
        simp only [UInt8.reduceToNat, Nat.sub_self, zero_mul, add_zero]
        omega
      rw [serialize_of_readLE pre' secondNonZero (by simp), if_neg secondHigh, if_pos negative]
      simp
    · have topNat : (UInt8.ofNat (last.toNat - 0x80)).toNat = last.toNat - 0x80 :=
        UInt8.toNat_ofNat_of_lt' (by have := last.toNat_lt; simp [UInt8.size]; omega)
      have notSign : last.toNat ≠ 0x80 := fun same => signOnly (UInt8.toNat_inj.mp same)
      have topNonZero : UInt8.ofNat (last.toNat - 0x80) ≠ 0 := by
        intro zero
        have zeroNat := congrArg UInt8.toNat zero
        rw [topNat, UInt8.toNat_zero] at zeroNat
        omega
      have topLow : UInt8.ofNat (last.toNat - 0x80) < 0x80 := by
        rw [UInt8.lt_iff_toNat_lt, topNat]
        have := last.toNat_lt
        simp only [UInt8.reduceToNat]
        omega
      have negative : -((readLE pre + (last.toNat - 0x80) * 256 ^ pre.length : Nat) : Int) < 0 := by
        have positive : 0 < (last.toNat - 0x80) * 256 ^ pre.length :=
          Nat.mul_pos (by omega) (pow_pos (by norm_num) _)
        omega
      have signed : UInt8.ofNat (last.toNat - 0x80) ||| 0x80 = last := by
        rw [← UInt8.toNat_inj, toNat_or_0x80 topLow, topNat]
        omega
      rw [serialize_of_readLE pre topNonZero (by rw [Int.natAbs_neg, Int.natAbs_natCast,
        readLE_append_singleton, topNat]), if_pos topLow, if_pos negative, signed]

/-- An encoding of `n` bytes holds a magnitude below `128 * 256 ^ (n - 1)`: its
top byte keeps one bit for the sign. -/
theorem natAbs_setVch_lt {vch : valtype} (nonEmpty : vch ≠ []) :
    (setVch vch).natAbs < 128 * 256 ^ (vch.length - 1) := by
  obtain ⟨pre, last, rfl⟩ : ∃ pre last, vch = pre ++ [last] :=
    ⟨_, _, (List.dropLast_append_getLast nonEmpty).symm⟩
  have lower := readLE_lt pre
  have lastBound := last.toNat_lt
  rw [setVch_append_singleton, List.length_append, List.length_singleton, Nat.add_sub_cancel]
  split_ifs with low
  · have lowNat : last.toNat ≤ 127 := by
      rw [UInt8.lt_iff_toNat_lt] at low
      simp only [UInt8.reduceToNat] at low
      omega
    have top : last.toNat * 256 ^ pre.length ≤ 127 * 256 ^ pre.length := Nat.mul_le_mul_right _ lowNat
    rw [Int.natAbs_natCast]
    omega
  · have top : (last.toNat - 0x80) * 256 ^ pre.length ≤ 127 * 256 ^ pre.length :=
      Nat.mul_le_mul_right _ (by omega)
    rw [Int.natAbs_neg, Int.natAbs_natCast]
    omega

/-- A minimal encoding of `n` bytes holds a magnitude of at least
`128 * 256 ^ (n - 2)`, and a non-zero one when `n = 1`. -/
theorem pow_le_natAbs_setVch {vch : valtype} (minimal : isMinimallyEncoded vch = true) (nonEmpty : vch ≠ []) :
    128 * 256 ^ (vch.length - 1) ≤ 256 * (setVch vch).natAbs := by
  obtain ⟨pre, last, rfl⟩ : ∃ pre last, vch = pre ++ [last] :=
    ⟨_, _, (List.dropLast_append_getLast nonEmpty).symm⟩
  rw [List.length_append, List.length_singleton, Nat.add_sub_cancel]
  obtain ⟨magnitude, size, magnitudeBound⟩ : ∃ magnitude, (setVch (pre ++ [last])).natAbs =
      readLE pre + magnitude * 256 ^ pre.length ∧ (magnitude = 0 ↔ last = 0 ∨ last = 0x80) := by
    rw [setVch_append_singleton]
    split_ifs with low
    · refine ⟨last.toNat, Int.natAbs_natCast _, ?_⟩
      rw [UInt8.lt_iff_toNat_lt] at low
      simp only [← UInt8.toNat_inj, UInt8.reduceToNat, UInt8.toNat_zero] at low ⊢
      omega
    · refine ⟨last.toNat - 0x80, by rw [Int.natAbs_neg, Int.natAbs_natCast], ?_⟩
      rw [UInt8.lt_iff_toNat_lt] at low
      have := last.toNat_lt
      simp only [← UInt8.toNat_inj, UInt8.reduceToNat, UInt8.toNat_zero] at low ⊢
      omega
  rw [size]
  by_cases signOnly : last = 0 ∨ last = 0x80
  · obtain ⟨pre', second, rfl, high⟩ := signByte_of_minimal minimal signOnly
    have highNat : 0x80 ≤ second.toNat := UInt8.le_iff_toNat_le.mp high
    have place : 0x80 * 256 ^ pre'.length ≤ second.toNat * 256 ^ pre'.length :=
      Nat.mul_le_mul_right _ highNat
    rw [readLE_append_singleton, List.length_append, List.length_singleton, pow_succ]
    omega
  · have positive : 1 ≤ magnitude := Nat.one_le_iff_ne_zero.mpr (fun zero => signOnly (magnitudeBound.mp zero))
    have place : 256 ^ pre.length ≤ magnitude * 256 ^ pre.length := Nat.le_mul_of_pos_left _ positive
    omega

/-- Two bounds on one magnitude give a bound on the length: a minimal encoding
is no longer than any encoding of the same magnitude bound. -/
theorem length_le_of_bounds {minimalLength bound : Nat} {magnitude : Nat} (positive : 0 < bound)
    (lower : 128 * 256 ^ (minimalLength - 1) ≤ 256 * magnitude)
    (upper : magnitude < 128 * 256 ^ (bound - 1)) : minimalLength ≤ bound := by
  obtain ⟨previous, rfl⟩ : ∃ previous, bound = previous + 1 := ⟨bound - 1, by omega⟩
  have scaled : 256 * (128 * 256 ^ previous) = 128 * 256 ^ (previous + 1) := by ring
  have powers : 256 ^ (minimalLength - 1) < 256 ^ (previous + 1) := by
    rw [Nat.add_sub_cancel] at upper
    omega
  have exponents := (Nat.pow_lt_pow_iff_right (by norm_num)).mp powers
  omega

/-- No encoding of a value is shorter than the one `serialize` writes for it. -/
theorem length_serialize_setVch_le (vch : valtype) : (serialize (setVch vch)).length ≤ vch.length := by
  rcases eq_or_ne (serialize (setVch vch)) [] with empty | written
  · rw [empty]
    exact Nat.zero_le _
  have nonEmpty : vch ≠ [] := by
    rintro rfl
    exact written rfl
  have lower := pow_le_natAbs_setVch (isMinimallyEncoded_serialize (setVch vch)) written
  rw [setVch_serialize] at lower
  exact length_le_of_bounds (List.length_pos_of_ne_nil nonEmpty) lower (natAbs_setVch_lt nonEmpty)

/-- A value of magnitude below `2 ^ 39` is written in at most five bytes. -/
theorem length_serialize_le_five {value : Int} (small : value.natAbs < 2 ^ 39) : (serialize value).length ≤ 5 := by
  rcases eq_or_ne (serialize value) [] with empty | written
  · rw [empty]
    exact Nat.zero_le _
  have lower := pow_le_natAbs_setVch (isMinimallyEncoded_serialize value) written
  rw [setVch_serialize] at lower
  exact length_le_of_bounds (by norm_num) lower (by norm_num; omega)

theorem decode_eq_some {vch : valtype} {fRequireMinimal : Bool} {nMaxNumSize : Nat} {value : Int}
    (decoded : decode vch fRequireMinimal nMaxNumSize = some value) :
    vch.length ≤ nMaxNumSize ∧ (fRequireMinimal = true → isMinimallyEncoded vch = true) ∧ setVch vch = value := by
  unfold decode at decoded
  split_ifs at decoded with long nonMinimal
  cases decoded
  refine ⟨Nat.le_of_not_lt long, fun required => ?_, rfl⟩
  simpa [required] using nonMinimal

/-- The decoder with minimality required throws exactly on a vector that is
too long or not minimally encoded. -/
theorem decode_eq_none_iff (vch : valtype) (nMaxNumSize : Nat) :
    decode vch true nMaxNumSize = none ↔ nMaxNumSize < vch.length ∨ NonMinimal vch := by
  rw [← isMinimallyEncoded_eq_false_iff]
  unfold decode
  by_cases long : vch.length > nMaxNumSize
  · simp [long]
  · simp [long]

end CScriptNum

end Qbitcoin
