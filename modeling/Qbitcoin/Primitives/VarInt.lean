import Qbitcoin.Primitives.Unserialize

/-!
# Variable-length integers

`WriteVarInt`, `GetSizeOfVarInt` and `ReadVarInt<I>` of `serialize.h`: a
big-endian base-128 code in which every digit but the last has its top bit set
and is one less than its value, so that every number has exactly one encoding.
An unsigned type `I` is represented by its width; the reader's overflow checks
compare against `2 ^ width - 1`.

The writer recurses on the value, one digit per step (`writeVarIntDigits`), and
the reader's loop goes byte by byte.  Reading the digits of a value with their
top bits set leaves the value plus one (`readVarIntLoop_writeVarIntDigits`), and
what the loop accepts after the digits that brought it to its current value is
the encoding of what it returns (`readVarIntLoop_reads`).  Together with the
`CompactSize` lemmas of `Primitives/Unserialize.lean` this makes both codes
bijective.
-/

namespace Qbitcoin

open ByteCodec Decoding

/-- `GetSizeOfVarInt`: one byte per base-128 digit. -/
def getSizeOfVarInt (n : Nat) : Nat :=
  if n ≤ 0x7F then 1 else getSizeOfVarInt ((n >>> 7) - 1) + 1
termination_by n
decreasing_by
  rw [Nat.shiftRight_eq_div_pow]
  omega

/-- The bytes `WriteVarInt` writes for `n`, most significant digit first.
`high` is set for every digit but the one `WriteVarInt` computes first (its
`len ? 0x80 : 0x00`), which is written last. -/
def writeVarIntDigits (n : Nat) (high : Bool) : List UInt8 :=
  let digit := UInt8.ofNat ((n &&& 0x7F) ||| if high then 0x80 else 0)
  if n ≤ 0x7F then [digit] else writeVarIntDigits ((n >>> 7) - 1) true ++ [digit]
termination_by n
decreasing_by
  rw [Nat.shiftRight_eq_div_pow]
  omega

/-- `WriteVarInt`. -/
def writeVarInt (n : Nat) : List UInt8 := writeVarIntDigits n false

/-- The loop of `ReadVarInt<I>` for an unsigned type of `width` bits, from the
value `n` read so far.  The assignment to `n` keeps `width` bits, as the C++
assignment to an `I` does. -/
def readVarIntLoop (width : Nat) (n : Nat) : List UInt8 → Except String (Nat × List UInt8)
  | [] => .error "DataStream::read(): end of data"
  | chData :: rest =>
      if n > (2 ^ width - 1) >>> 7 then .error "ReadVarInt(): size too large"
      else
        let n := ((n <<< 7) ||| (chData.toNat &&& 0x7F)) % 2 ^ width
        if chData &&& 0x80 ≠ 0 then
          if n = 2 ^ width - 1 then .error "ReadVarInt(): size too large"
          else readVarIntLoop width (n + 1) rest
        else .ok (n, rest)

/-- `ReadVarInt<I>` for an unsigned type of `width` bits. -/
def readVarInt (width : Nat) : ByteDecoder Nat := fun s => readVarIntLoop width 0 s

/-! ## Digits -/

theorem and_0x7f_eq_mod (n : Nat) : n &&& 0x7F = n % 128 := Nat.and_two_pow_sub_one_eq_mod n 7

theorem shiftRight_seven (n : Nat) : n >>> 7 = n / 128 := Nat.shiftRight_eq_div_pow n 7

/-- Appending a digit below the base: `(n << 7) | digit`. -/
theorem shiftLeft_seven_or {n digit : Nat} (small : digit < 128) : (n <<< 7) ||| digit = 128 * n + digit := by
  have disjoint := Nat.two_pow_add_eq_or_of_lt (show digit < 2 ^ 7 by simpa using small) n
  rw [Nat.shiftLeft_eq, Nat.mul_comm, ← disjoint]

theorem toNat_digit (n : Nat) (high : Bool) :
    (UInt8.ofNat ((n &&& 0x7F) ||| if high then 0x80 else 0)).toNat = n % 128 + if high then 128 else 0 := by
  have low : n % 128 < 2 ^ 7 := Nat.mod_lt _ (by norm_num)
  cases high with
  | false =>
      simp only [and_0x7f_eq_mod, Bool.false_eq_true, if_false, Nat.or_zero, Nat.add_zero]
      exact UInt8.toNat_ofNat_of_lt' (by simp [UInt8.size]; omega)
  | true =>
      have disjoint := Nat.two_pow_add_eq_or_of_lt low 1
      norm_num at disjoint
      simp only [and_0x7f_eq_mod, if_true, Nat.or_comm (n % 128)]
      rw [← disjoint, Nat.add_comm]
      exact UInt8.toNat_ofNat_of_lt' (by simp [UInt8.size]; omega)

theorem writeVarIntDigits_of_le {n : Nat} (small : n ≤ 0x7F) (high : Bool) :
    writeVarIntDigits n high = [UInt8.ofNat ((n &&& 0x7F) ||| if high then 0x80 else 0)] := by
  rw [writeVarIntDigits, if_pos small]

theorem writeVarIntDigits_of_lt {n : Nat} (large : 0x7F < n) (high : Bool) :
    writeVarIntDigits n high = writeVarIntDigits (n / 128 - 1) true ++
      [UInt8.ofNat ((n &&& 0x7F) ||| if high then 0x80 else 0)] := by
  rw [writeVarIntDigits, if_neg (by omega), shiftRight_seven]

theorem length_writeVarIntDigits (n : Nat) (high : Bool) :
    (writeVarIntDigits n high).length = getSizeOfVarInt n := by
  induction n using Nat.strong_induction_on generalizing high with
  | _ n inductionHypothesis =>
      rw [getSizeOfVarInt]
      by_cases small : n ≤ 0x7F
      · rw [writeVarIntDigits_of_le small, if_pos small, List.length_singleton]
      · rw [writeVarIntDigits_of_lt (by omega), if_neg small, shiftRight_seven, List.length_append,
          List.length_singleton, inductionHypothesis _ (by omega)]

/-! ## Reading -/

/-- One byte of `ReadVarInt` below the size limit: its low seven bits are
appended to the value read so far, and its top bit says whether more follow. -/
theorem readVarIntLoop_cons {width n : Nat} (b : UInt8) (rest : List UInt8)
    (room : n ≤ (2 ^ width - 1) / 128) :
    readVarIntLoop width n (b :: rest) =
      if b < 0x80 then .ok ((128 * n + b.toNat % 128) % 2 ^ width, rest)
      else if (128 * n + b.toNat % 128) % 2 ^ width = 2 ^ width - 1 then .error "ReadVarInt(): size too large"
      else readVarIntLoop width ((128 * n + b.toNat % 128) % 2 ^ width + 1) rest := by
  have appended : (n <<< 7) ||| (b.toNat &&& 0x7F) = 128 * n + b.toNat % 128 := by
    rw [and_0x7f_eq_mod, shiftLeft_seven_or (Nat.mod_lt _ (by norm_num))]
  rw [readVarIntLoop, if_neg (by rw [shiftRight_seven]; omega)]
  simp only [appended, ne_eq, and_0x80_eq_zero_iff]
  by_cases low : b < 0x80
  · simp [low]
  · simp [low]

/-- A digit the writer wrote, read back below the size limit. -/
theorem readVarIntLoop_digit {width n v : Nat} (high : Bool) (rest : List UInt8)
    (room : n ≤ (2 ^ width - 1) / 128) (value : 128 * n + v % 128 = v) (fits : v < 2 ^ width) :
    readVarIntLoop width n (UInt8.ofNat ((v &&& 0x7F) ||| if high then 0x80 else 0) :: rest) =
      if high then (if v = 2 ^ width - 1 then .error "ReadVarInt(): size too large"
        else readVarIntLoop width (v + 1) rest)
      else .ok (v, rest) := by
  have digit := toNat_digit v high
  have lowBits : (UInt8.ofNat ((v &&& 0x7F) ||| if high then 0x80 else 0)).toNat % 128 = v % 128 := by
    rw [digit]
    cases high <;> simp
  rw [readVarIntLoop_cons _ _ room, lowBits, value, Nat.mod_eq_of_lt fits]
  cases high with
  | false =>
      simp only [Bool.false_eq_true, if_false] at digit ⊢
      have low : UInt8.ofNat ((v &&& 0x7F) ||| 0) < 0x80 := by
        rw [UInt8.lt_iff_toNat_lt, digit]
        simp only [Nat.add_zero, UInt8.reduceToNat]
        omega
      rw [if_pos low]
  | true =>
      simp only [if_true] at digit ⊢
      have high : ¬ UInt8.ofNat ((v &&& 0x7F) ||| 0x80) < 0x80 := by
        rw [UInt8.lt_iff_toNat_lt, digit]
        simp
      rw [if_neg high]

/-- Reading the digits written with their top bits set leaves the value
plus one, the `n++` of each continued digit. -/
theorem readVarIntLoop_writeVarIntDigits {width : Nat} (rest : List UInt8) (v : Nat)
    (room : v / 128 ≤ (2 ^ width - 1) / 128) (below : v < 2 ^ width - 1) :
    readVarIntLoop width 0 (writeVarIntDigits v true ++ rest) = readVarIntLoop width (v + 1) rest := by
  induction v using Nat.strong_induction_on generalizing rest with
  | _ v inductionHypothesis =>
      by_cases small : v ≤ 0x7F
      · rw [writeVarIntDigits_of_le small, List.singleton_append,
          readVarIntLoop_digit true rest (Nat.zero_le _) (by omega) (by omega), if_pos rfl, if_neg (by omega)]
      · have higher : v / 128 - 1 < v := by omega
        rw [writeVarIntDigits_of_lt (by omega), List.append_assoc, List.singleton_append,
          inductionHypothesis _ higher _ (by omega) (by omega), Nat.sub_add_cancel (by omega),
          readVarIntLoop_digit true rest room (by omega) (by omega), if_pos rfl, if_neg (by omega)]

/-- `ReadVarInt` reads back what `WriteVarInt` writes, for every value of the type. -/
theorem readVarInt_writeVarInt (width : Nat) {n : Nat} (fits : n < 2 ^ width) :
    Encodes (readVarInt width) writeVarInt n := by
  intro rest
  show readVarIntLoop width 0 (writeVarIntDigits n false ++ rest) = .ok (n, rest)
  by_cases small : n ≤ 0x7F
  · rw [writeVarIntDigits_of_le small, List.singleton_append,
      readVarIntLoop_digit false rest (Nat.zero_le _) (by omega) fits, if_neg Bool.false_ne_true]
  · have room : n / 128 ≤ (2 ^ width - 1) / 128 := Nat.div_le_div_right (by omega)
    rw [writeVarIntDigits_of_lt (by omega), List.append_assoc, List.singleton_append,
      readVarIntLoop_writeVarIntDigits _ _ (by omega) (by omega), Nat.sub_add_cancel (by omega),
      readVarIntLoop_digit false rest room (by omega) fits, if_neg Bool.false_ne_true]

/-- The digits that bring the loop of `ReadVarInt` to the value `n` read so
far: none for `0`, else the digits of `n - 1` with their top bits set. -/
def pendingDigits : Nat → List UInt8
  | 0 => []
  | v + 1 => writeVarIntDigits v true

/-- A byte is the digit the writer writes for a value with its low seven bits,
with the top bit as the byte has it. -/
theorem digit_eq {b : UInt8} {n : Nat} {high : Bool} (lowBits : n % 128 = b.toNat % 128)
    (topBit : high = true ↔ 0x80 ≤ b) : UInt8.ofNat ((n &&& 0x7F) ||| if high then 0x80 else 0) = b := by
  have bound := b.toNat_lt
  rw [← UInt8.toNat_inj, toNat_digit, lowBits]
  rw [UInt8.le_iff_toNat_le] at topBit
  cases high <;> simp at topBit <;> simp <;> omega

/-- The pending digits followed by one more byte are the digits of the value
that byte makes. -/
theorem pendingDigits_append {acc : Nat} {b : UInt8} (high : Bool) (topBit : high = true ↔ 0x80 ≤ b) :
    pendingDigits acc ++ [b] = writeVarIntDigits (128 * acc + b.toNat % 128) high := by
  have lowBits : (128 * acc + b.toNat % 128) % 128 = b.toNat % 128 := by omega
  cases acc with
  | zero =>
      rw [pendingDigits, List.nil_append, writeVarIntDigits_of_le (by omega), digit_eq lowBits topBit]
  | succ v =>
      have above : (128 * (v + 1) + b.toNat % 128) / 128 - 1 = v := by omega
      rw [pendingDigits, writeVarIntDigits_of_lt (show 0x7F < 128 * (v + 1) + b.toNat % 128 by omega) high,
        above, digit_eq lowBits topBit]

/-- What the loop of `ReadVarInt` accepts, after the pending digits, is the
encoding of the value it returns. -/
theorem readVarIntLoop_reads {width : Nat} (wide : 7 ≤ width) {acc r : Nat} {s s' : List UInt8}
    (read : readVarIntLoop width acc s = .ok (r, s')) : pendingDigits acc ++ s = writeVarInt r ++ s' := by
  induction s generalizing acc with
  | nil => cases read
  | cons b rest inductionHypothesis =>
      have room : acc ≤ (2 ^ width - 1) / 128 := by
        by_contra tooLarge
        rw [readVarIntLoop, if_pos (by rw [shiftRight_seven]; omega)] at read
        cases read
      have noWrap : (128 * acc + b.toNat % 128) % 2 ^ width = 128 * acc + b.toNat % 128 := by
        obtain ⟨k, power⟩ : ∃ k, 2 ^ width = 128 * k := ⟨2 ^ (width - 7), by rw [← pow_sub_mul_pow 2 wide]; ring⟩
        have positive : 0 < k := by
          have := Nat.two_pow_pos width
          omega
        apply Nat.mod_eq_of_lt
        have := Nat.mod_lt b.toNat (by norm_num : 0 < 128)
        rw [power] at room ⊢
        omega
      rw [readVarIntLoop_cons b rest room, noWrap] at read
      by_cases low : b < 0x80
      · rw [if_pos low] at read
        cases read
        rw [← List.singleton_append, ← List.append_assoc,
          pendingDigits_append false (by simpa using low)]
        rfl
      · rw [if_neg low] at read
        split_ifs at read
        rw [← List.singleton_append, ← List.append_assoc,
          pendingDigits_append true (by simpa using low)]
        exact inductionHypothesis read

/-- `ReadVarInt` for a type of at least seven bits reads nothing but encodings. -/
theorem readsEncoding_readVarInt {width : Nat} (wide : 7 ≤ width) :
    ReadsEncoding (readVarInt width) writeVarInt := by
  intro s r s' read
  exact readVarIntLoop_reads wide read

/-- `CompactSize` and `VarInt` are bijective codes: every size up to `MAX_SIZE`
and every value of an unsigned type is read back from its encoding, consuming
exactly the bytes the size functions count, and every byte string the readers
accept is the encoding of what they return. -/
theorem compactSize_varInt_bijective :
    (∀ (rangeCheck : Bool) (n : Nat), n ≤ MAX_SIZE →
      Encodes (readCompactSize rangeCheck) writeCompactSize n ∧
        (writeCompactSize n).length = getSizeOfCompactSize n) ∧
    (∀ rangeCheck : Bool, ReadsEncoding (readCompactSize rangeCheck) writeCompactSize) ∧
    (∀ width : Nat,
      (∀ n < 2 ^ width, Encodes (readVarInt width) writeVarInt n ∧
        (writeVarInt n).length = getSizeOfVarInt n) ∧
      (7 ≤ width → ReadsEncoding (readVarInt width) writeVarInt)) := by
  refine ⟨fun rangeCheck n small => ⟨?_, writeCompactSize_length n⟩, readsEncoding_readCompactSize,
    fun width => ⟨fun n fits => ⟨readVarInt_writeVarInt width fits, length_writeVarIntDigits n false⟩,
      readsEncoding_readVarInt⟩⟩
  have fits : n < 2 ^ 64 := lt_of_le_of_lt small (by decide)
  exact readCompactSize_writeCompactSize fits (fun _ => small)

end Qbitcoin
