import Qbitcoin.Lib.Numeral
import Qbitcoin.Crypto.Hashes
import Mathlib

/-!
# Base58 and Base58Check

`base58.cpp`: a byte string is written as its number in base 58, with the
alphabet `pszBase58`, behind one `1` for each leading zero byte, and
Base58Check appends to the payload the first four bytes of its `Hash` first.

Both directions convert between bases with one pass of a carry loop per input
digit: the buffer, `b58` or `b256`, is multiplied by the input base and the
digit is added, from its least significant end, until the carry is spent and
the digits in use are passed.  Between two input digits the buffer holds the
digits of the number read so far, padded with zeros (`Nat.digitsAppend`), and
`length` is how many of them are in use (`carryLoop_digitsAppend`).  Each
buffer is sized from a rational bound on the ratio of the logarithms of the two
bases (`138 / 100` and `733 / 1000`), which `Numeral.pow_lt_pow_div_succ`
shows to be enough, so `assert(carry == 0)` never fails while that size fits an
`int`.

The model keeps each buffer least significant digit first, so that the reverse
iterator reads the list from its head, and its digits as `Nat`: they are below
58 or 256, which an `unsigned char` holds exactly.  A failed assertion is
`none`, as a refused string is.  Strings are their bytes; a `const char*` is
the characters before its terminating zero.  The buffer size is computed on
`size_t` and stored in an `int` (`intSize`): past `INT_MAX` it wraps, and a
negative size makes the `std::vector` constructor throw, which is `none`
(`allocate`).  The counters `zeroes` and `length` are natural numbers; they
stay below the buffer size or `max_ret_len`, so below `INT_MAX`, wherever the
theorems' size bounds hold.
-/

namespace Qbitcoin

/-- `IsSpace` of `util/strencodings.h`: a space, `\f`, `\n`, `\r`, `\t` or `\v`. -/
def isSpace (c : UInt8) : Bool :=
  c == 0x20 || c == 0x0c || c == 0x0a || c == 0x0d || c == 0x09 || c == 0x0b

namespace Base58

open Nat (digits ofDigits digitsAppend)

/-- `pszBase58`: the alphanumeric characters but `0`, `I`, `O` and `l`. -/
def pszBase58 : List UInt8 :=
  [0x31, 0x32, 0x33, 0x34, 0x35, 0x36, 0x37, 0x38, 0x39, 0x41, 0x42, 0x43, 0x44, 0x45, 0x46, 0x47,
   0x48, 0x4a, 0x4b, 0x4c, 0x4d, 0x4e, 0x50, 0x51, 0x52, 0x53, 0x54, 0x55, 0x56, 0x57, 0x58, 0x59,
   0x5a, 0x61, 0x62, 0x63, 0x64, 0x65, 0x66, 0x67, 0x68, 0x69, 0x6a, 0x6b, 0x6d, 0x6e, 0x6f, 0x70,
   0x71, 0x72, 0x73, 0x74, 0x75, 0x76, 0x77, 0x78, 0x79, 0x7a]

/-- `mapBase58`: the value of each character, `-1` for those outside the alphabet. -/
def mapBase58 : List Int :=
  [-1, -1, -1, -1, -1, -1, -1, -1, -1, -1, -1, -1, -1, -1, -1, -1,
   -1, -1, -1, -1, -1, -1, -1, -1, -1, -1, -1, -1, -1, -1, -1, -1,
   -1, -1, -1, -1, -1, -1, -1, -1, -1, -1, -1, -1, -1, -1, -1, -1,
   -1, 0, 1, 2, 3, 4, 5, 6, 7, 8, -1, -1, -1, -1, -1, -1,
   -1, 9, 10, 11, 12, 13, 14, 15, 16, -1, 17, 18, 19, 20, 21, -1,
   22, 23, 24, 25, 26, 27, 28, 29, 30, 31, 32, -1, -1, -1, -1, -1,
   -1, 33, 34, 35, 36, 37, 38, 39, 40, 41, 42, 43, -1, 44, 45, 46,
   47, 48, 49, 50, 51, 52, 53, 54, 55, 56, 57, -1, -1, -1, -1, -1,
   -1, -1, -1, -1, -1, -1, -1, -1, -1, -1, -1, -1, -1, -1, -1, -1,
   -1, -1, -1, -1, -1, -1, -1, -1, -1, -1, -1, -1, -1, -1, -1, -1,
   -1, -1, -1, -1, -1, -1, -1, -1, -1, -1, -1, -1, -1, -1, -1, -1,
   -1, -1, -1, -1, -1, -1, -1, -1, -1, -1, -1, -1, -1, -1, -1, -1,
   -1, -1, -1, -1, -1, -1, -1, -1, -1, -1, -1, -1, -1, -1, -1, -1,
   -1, -1, -1, -1, -1, -1, -1, -1, -1, -1, -1, -1, -1, -1, -1, -1,
   -1, -1, -1, -1, -1, -1, -1, -1, -1, -1, -1, -1, -1, -1, -1, -1,
   -1, -1, -1, -1, -1, -1, -1, -1, -1, -1, -1, -1, -1, -1, -1, -1]

/-- `pszBase58[d]`. -/
def pszBase58At (d : Nat) : UInt8 := pszBase58.getD d 0

/-- `mapBase58[(uint8_t)c]`. -/
def mapBase58At (c : UInt8) : Int := mapBase58.getD c.toNat (-1)

/-- `std::numeric_limits<int>::max()`. -/
def INT_MAX : Nat := 2147483647

/-- `int size = n * num / den + 1` with `n` a `size_t`: the product is taken
modulo `2 ^ 64`, and the result is converted to `int`, which keeps it modulo
`2 ^ 32` in the signed range. -/
def intSize (n num den : Nat) : Int := (Int32.ofNat (n * num % 2 ^ 64 / den + 1)).toInt

/-- `std::vector<unsigned char> b(size)` for an `int size`: `size` zeros.  A
negative `size` converts to a `size_type` above `max_size()`, and the
constructor throws. -/
def allocate (size : Int) : Option (List Nat) :=
  if size < 0 then none else some (List.replicate size.toNat 0)

/-- The inner loop of both conversions,
`for (it = b.rbegin(); (carry != 0 || i < length) && (it != b.rend()); ++it, ++i)`,
whose body is `carry += mul * (*it); *it = carry % radix; carry /= radix`.  It
returns the buffer, the carry and `i`. -/
def carryLoop (mul radix length : Nat) (carry i : Nat) : List Nat → List Nat × Nat × Nat
  | [] => ([], carry, i)
  | digit :: rest =>
    if carry ≠ 0 ∨ i < length then
      let carry := carry + mul * digit
      let next := carryLoop mul radix length (carry / radix) (i + 1) rest
      (carry % radix :: next.1, next.2.1, next.2.2)
    else (digit :: rest, carry, i)

/-! ## `EncodeBase58` -/

/-- `while (input.size() > 0 && input[0] == 0)`: the number of leading zero
bytes, and the rest. -/
def leadingZeroes : List UInt8 → Nat × List UInt8
  | [] => (0, [])
  | byte :: rest => if byte = 0 then ((leadingZeroes rest).1 + 1, (leadingZeroes rest).2) else (0, byte :: rest)

/-- The loop `while (input.size() > 0)` of `EncodeBase58` over `b58` and
`length`: each byte is multiplied into the buffer, and `assert(carry == 0)`. -/
def encodeLoop : List Nat × Nat → List UInt8 → Option (List Nat × Nat)
  | state, [] => some state
  | state, byte :: rest =>
    let run := carryLoop 256 58 state.2 byte.toNat 0 state.1
    if run.2.1 = 0 then encodeLoop (run.1, run.2.2) rest else none

/-- `EncodeBase58`.  Its assertion never fails while its size fits an `int`
(`encodeBase58_eq`).  The string is read from `b58.begin() + (size - length)`
with the zeros after it skipped: the digits in use, most significant first. -/
def encodeBase58 (input : List UInt8) : Option (List UInt8) := do
  let zeroes := leadingZeroes input
  let b58 ← allocate (intSize zeroes.2.length 138 100)
  let run ← encodeLoop (b58, 0) zeroes.2
  pure (List.replicate zeroes.1 0x31 ++ ((run.1.take run.2).reverse.dropWhile (· == 0)).map pszBase58At)

/-! ## `DecodeBase58` -/

/-- The loop `while (*psz == '1')` of `DecodeBase58`: each `1` is a zero byte,
and more than `max_ret_len` of them fail. -/
def leadingOnes (maxRetLen zeroes : Nat) : List UInt8 → Option (Nat × List UInt8)
  | [] => some (zeroes, [])
  | c :: rest =>
    if c = 0x31 then
      if zeroes + 1 > maxRetLen then none else leadingOnes maxRetLen (zeroes + 1) rest
    else some (zeroes, c :: rest)

/-- The loop `while (*psz && !IsSpace(*psz))` of `DecodeBase58` over `b256`
and `length`: each character's value is multiplied into the buffer.  A
character outside the alphabet fails, so does `assert(carry == 0)`, and so does
a result longer than `max_ret_len`.  The rest of the string comes back with the
buffer. -/
def decodeLoop (maxRetLen zeroes : Nat) : List Nat × Nat → List UInt8 → Option (List Nat × Nat × List UInt8)
  | state, [] => some (state.1, state.2, [])
  | state, c :: rest =>
    if isSpace c then some (state.1, state.2, c :: rest)
    else if mapBase58At c = -1 then none
    else
      let run := carryLoop 58 256 state.2 (mapBase58At c).toNat 0 state.1
      if run.2.1 ≠ 0 then none
      else if run.2.2 + zeroes > maxRetLen then none
      else decodeLoop maxRetLen zeroes (run.1, run.2.2) rest

/-- `DecodeBase58(const char* psz, vch, max_ret_len)`: leading spaces, the
leading `1`s, the digits, then trailing spaces and the end of the string. -/
def decodeBase58Psz (psz : List UInt8) (maxRetLen : Nat) : Option (List UInt8) := do
  let ones ← leadingOnes maxRetLen 0 (psz.dropWhile isSpace)
  let b256 ← allocate (intSize ones.2.length 733 1000)
  let run ← decodeLoop maxRetLen ones.1 (b256, 0) ones.2
  if run.2.2.dropWhile isSpace ≠ [] then none
  else some (List.replicate ones.1 0 ++ (run.1.take run.2.1).reverse.map Nat.toUInt8)

/-- `DecodeBase58(const std::string& str, vchRet, max_ret_len)`: a string that
holds a `NUL` is refused. -/
def decodeBase58 (str : List UInt8) (maxRetLen : Nat) : Option (List UInt8) :=
  if str.contains 0 then none else decodeBase58Psz str maxRetLen

/-! ## Base58Check -/

/-- `EncodeBase58Check`: the payload, then the first four bytes of its `Hash`. -/
def encodeBase58Check (hashes : Hashes) (input : List UInt8) : Option (List UInt8) :=
  encodeBase58 (input ++ (hashes.hash256 input).take 4)

/-- `DecodeBase58Check(const char* psz, vchRet, max_ret_len)`: a payload of at
most `max_ret_len` bytes whose checksum matches. -/
def decodeBase58CheckPsz (hashes : Hashes) (psz : List UInt8) (maxRetLen : Nat) : Option (List UInt8) := do
  let vchRet ← decodeBase58Psz psz (if maxRetLen > INT_MAX - 4 then INT_MAX else maxRetLen + 4)
  if vchRet.length < 4 then none
  else if (hashes.hash256 (vchRet.take (vchRet.length - 4))).take 4 ≠ vchRet.drop (vchRet.length - 4) then none
  else some (vchRet.take (vchRet.length - 4))

/-- `DecodeBase58Check(const std::string& str, vchRet, max_ret)`: a string
that holds a `NUL` is refused. -/
def decodeBase58Check (hashes : Hashes) (str : List UInt8) (maxRetLen : Nat) : Option (List UInt8) :=
  if str.contains 0 then none else decodeBase58CheckPsz hashes str maxRetLen

/-! ## The alphabet -/

set_option maxRecDepth 4000 in
/-- The two tables checked once against each other: each digit's character
reads back as the digit and is neither a space nor `NUL`, only the first is
`1`; each character with a value is the character of its value; every value
is below 58; and the alphabet is ASCII. -/
theorem alphabet_tables :
    (∀ n : Fin 58, mapBase58At (pszBase58At n) = n ∧ isSpace (pszBase58At n) = false ∧ pszBase58At n ≠ 0 ∧
      (pszBase58At n = 0x31 ↔ n.val = 0)) ∧
    (∀ n : Fin 256, (mapBase58At (UInt8.ofNat n) ≠ -1 →
      (mapBase58At (UInt8.ofNat n)).toNat < 58 ∧ pszBase58At (mapBase58At (UInt8.ofNat n)).toNat = UInt8.ofNat n) ∧
        (mapBase58At (UInt8.ofNat n)).toNat < 58) ∧
    pszBase58.all (fun c => decide (c.toNat < 128)) = true := by
  decide

theorem mapBase58At_pszBase58At {d : Nat} (small : d < 58) : mapBase58At (pszBase58At d) = d :=
  (alphabet_tables.1 ⟨d, small⟩).1

/-- A character with a value is the character of its value. -/
theorem pszBase58At_mapBase58At {c : UInt8} (valid : mapBase58At c ≠ -1) :
    (mapBase58At c).toNat < 58 ∧ pszBase58At (mapBase58At c).toNat = c := by
  simpa using (alphabet_tables.2.1 ⟨c.toNat, c.toNat_lt⟩).1 (by simpa using valid)

/-- No character of the alphabet is a space or `NUL`, and only the first is `1`. -/
theorem pszBase58At_spec {d : Nat} (small : d < 58) :
    isSpace (pszBase58At d) = false ∧ pszBase58At d ≠ 0 ∧ (pszBase58At d = 0x31 ↔ d = 0) :=
  (alphabet_tables.1 ⟨d, small⟩).2

/-- `EncodeBase58` writes ASCII: every character of the alphabet, and the
default past it, is below 128. -/
theorem toNat_pszBase58At_lt (d : Nat) : (pszBase58At d).toNat < 128 := by
  unfold pszBase58At
  rw [List.getD_eq_getElem?_getD]
  cases found : pszBase58[d]? with
  | none => decide
  | some c => exact of_decide_eq_true (List.all_eq_true.mp alphabet_tables.2.2 c (List.mem_of_getElem? found))

/-- Every character has a value below 58, `-1` reading as `0`. -/
theorem toNat_mapBase58At_lt (c : UInt8) : (mapBase58At c).toNat < 58 := by
  simpa using (alphabet_tables.2.1 ⟨c.toNat, c.toNat_lt⟩).2

/-! ## The sizes -/

/-- A size below `INT_MAX` survives the conversion to `int`. -/
theorem intSize_of_lt {n num den : Nat} (positive : 0 < den) (scale : den ≤ 1000) (small : n * num / den < INT_MAX) :
    intSize n num den = ((n * num / den + 1 : Nat) : Int) := by
  have product : n * num < 2 ^ 64 := by
    have below := (Nat.div_lt_iff_lt_mul positive).mp small
    have bound : INT_MAX * den ≤ INT_MAX * 1000 := Nat.mul_le_mul_left _ scale
    unfold INT_MAX at below bound
    omega
  rw [intSize, Nat.mod_eq_of_lt product, Int32.toInt_ofNat_of_lt (by unfold INT_MAX at small; omega)]

theorem allocate_intSize {n num den : Nat} (positive : 0 < den) (scale : den ≤ 1000) (small : n * num / den < INT_MAX) :
    allocate (intSize n num den) = some (List.replicate (n * num / den + 1) 0) := by
  rw [allocate, intSize_of_lt positive scale small, if_neg (Int.not_lt.mpr (Int.natCast_nonneg _)), Int.toNat_natCast]

theorem eq_replicate_of_allocate {size : Int} {buffer : List Nat} (allocated : allocate size = some buffer) :
    buffer = List.replicate size.toNat 0 := by
  unfold allocate at allocated
  split at allocated
  · cases allocated
  · exact (Option.some_inj.mp allocated).symm

/-! ## The carry loop -/

section CarryLoop

variable {mul radix : Nat}

/-- The digits in use after one more step are those of the quotient. -/
theorem length_sub_succ_digits (base : 1 < radix) {length i u : Nat} (inUse : length - i = (digits radix u).length) :
    length - (i + 1) = (digits radix (u / radix)).length := by
  rcases Nat.eq_zero_or_pos u with zero | uPositive
  · simp only [zero, Nat.digits_zero, List.length_nil, Nat.zero_div] at inUse ⊢
    omega
  · rw [Nat.digits_def' base uPositive, List.length_cons] at inUse
    omega

/-- One pass of the carry loop over the buffer of `u`, whose `length` digits
from `i` on are in use, multiplies `u` by `mul` and adds the carry: it leaves the
buffer of the result, no carry, and `i` past the result's digits, as long as the
result fits the buffer. -/
theorem carryLoop_digitsAppend (positive : 0 < mul) (base : 1 < radix) :
    ∀ (n u carry i length : Nat), length - i = (digits radix u).length → mul * u + carry < radix ^ n →
      carryLoop mul radix length carry i (digitsAppend radix n u) =
        (digitsAppend radix n (mul * u + carry), 0, i + (digits radix (mul * u + carry)).length) := by
  intro n
  induction n with
  | zero =>
    intro u carry i length _ fits
    have zero : mul * u + carry = 0 := by simpa using fits
    have uZero : u = 0 := by
      rcases Nat.eq_zero_or_pos u with h | h
      · exact h
      · exact absurd zero (Nat.pos_iff_ne_zero.mp (Nat.add_pos_left (Nat.mul_pos positive h) _))
    subst uZero
    simp [carryLoop, show carry = 0 by omega]
  | succ n inductionHypothesis =>
    intro u carry i length inUse fits
    rw [Numeral.digitsAppend_succ base, carryLoop]
    by_cases going : carry ≠ 0 ∨ i < length
    · rw [if_pos going]
      dsimp only
      have resultPositive : 0 < mul * u + carry := by
        rcases going with carried | below
        · omega
        · have : (digits radix u).length ≠ 0 := by omega
          have : u ≠ 0 := fun zero => this (by simp [zero])
          exact Nat.add_pos_left (Nat.mul_pos positive (Nat.pos_of_ne_zero this)) _
      have restInUse := length_sub_succ_digits base inUse
      have carried : mul * (u / radix) + (carry + mul * (u % radix)) / radix = (mul * u + carry) / radix :=
        (Numeral.mul_add_div_base (by omega) mul u carry).symm
      have restFits : mul * (u / radix) + (carry + mul * (u % radix)) / radix < radix ^ n := by
        rw [carried, Nat.div_lt_iff_lt_mul (by omega), ← pow_succ]
        exact fits
      rw [inductionHypothesis _ _ _ _ restInUse restFits, carried, ← Numeral.mul_add_mod_base,
        Numeral.digitsAppend_succ base, Nat.digits_def' base resultPositive, List.length_cons]
      simp only [Prod.mk.injEq, true_and]
      omega
    · rw [if_neg going]
      have stopped : carry = 0 ∧ length ≤ i := by omega
      have uZero : u = 0 :=
        Nat.digits_eq_nil_iff_eq_zero.mp (List.length_eq_zero_iff.mp (show (digits radix u).length = 0 by omega))
      subst uZero
      simp [stopped.1, Numeral.digitsAppend_succ base]

/-- When the result does not fit the buffer of `u`, the pass ends with a carry
left, which `assert(carry == 0)` catches. -/
theorem carryLoop_carry_of_overflow (base : 1 < radix) :
    ∀ (n u carry i length : Nat), length - i = (digits radix u).length → u < radix ^ n →
      radix ^ n ≤ mul * u + carry → (carryLoop mul radix length carry i (digitsAppend radix n u)).2.1 ≠ 0 := by
  intro n
  induction n with
  | zero =>
    intro u carry i length _ fits outgrown
    have uZero : u = 0 := by simpa using fits
    subst uZero
    simp only [Nat.mul_zero, Nat.zero_add, pow_zero] at outgrown
    simp only [Numeral.digitsAppend_zero, List.replicate_zero, carryLoop]
    omega
  | succ n inductionHypothesis =>
    intro u carry i length inUse fits outgrown
    rw [Numeral.digitsAppend_succ base, carryLoop]
    have going : carry ≠ 0 ∨ i < length := by
      by_contra stopped
      have uZero : u = 0 :=
        Nat.digits_eq_nil_iff_eq_zero.mp (List.length_eq_zero_iff.mp (show (digits radix u).length = 0 by omega))
      have noCarry : carry = 0 := by omega
      rw [uZero, noCarry, Nat.mul_zero, Nat.zero_add] at outgrown
      exact absurd outgrown (Nat.not_le.mpr (Nat.pow_pos (by omega)))
    rw [if_pos going]
    dsimp only
    have carried : mul * (u / radix) + (carry + mul * (u % radix)) / radix = (mul * u + carry) / radix :=
      (Numeral.mul_add_div_base (by omega) mul u carry).symm
    have restFits : u / radix < radix ^ n := by
      rw [Nat.div_lt_iff_lt_mul (by omega), ← pow_succ]
      exact fits
    have restOver : radix ^ n ≤ mul * (u / radix) + (carry + mul * (u % radix)) / radix := by
      rw [carried, Nat.le_div_iff_mul_le (by omega), ← pow_succ]
      exact outgrown
    exact inductionHypothesis _ _ _ _ (length_sub_succ_digits base inUse) restFits restOver

end CarryLoop

/-! ## What `EncodeBase58` writes -/

/-- The input is its leading zero bytes, then a rest that does not start with
one. -/
theorem leadingZeroes_spec (input : List UInt8) :
    input = List.replicate (leadingZeroes input).1 0 ++ (leadingZeroes input).2 ∧
      (leadingZeroes input).2.head? ≠ some 0 := by
  induction input with
  | nil => simp [leadingZeroes]
  | cons byte rest inductionHypothesis =>
    by_cases zero : byte = 0
    · simp only [leadingZeroes, if_pos zero, List.replicate_succ, List.cons_append]
      exact ⟨by rw [zero, ← inductionHypothesis.1], inductionHypothesis.2⟩
    · simp [leadingZeroes, zero]

/-- A numeral without a leading zero has no zeros to skip. -/
theorem dropWhile_eq_self_of_head? {l : List Nat} (leading : l.head? ≠ some 0) : l.dropWhile (· == 0) = l := by
  cases l with
  | nil => rfl
  | cons d rest =>
    have nonzero : d ≠ 0 := fun zero => leading (by rw [zero]; rfl)
    rw [List.dropWhile_cons, if_neg (by simpa using nonzero)]

/-- Each byte of the loop of `EncodeBase58` multiplies the number in `b58` by
256 and adds the byte, while the result fits. -/
theorem encodeLoop_digitsAppend {size : Nat} : ∀ (bytes : List UInt8) (u : Nat),
    (bytes.map UInt8.toNat).foldl (fun acc d => 256 * acc + d) u < 58 ^ size →
      encodeLoop (digitsAppend 58 size u, (digits 58 u).length) bytes =
        some (digitsAppend 58 size ((bytes.map UInt8.toNat).foldl (fun acc d => 256 * acc + d) u),
          (digits 58 ((bytes.map UInt8.toNat).foldl (fun acc d => 256 * acc + d) u)).length) := by
  intro bytes
  induction bytes with
  | nil => intro u _; rfl
  | cons byte rest inductionHypothesis =>
    intro u fits
    rw [List.map_cons, List.foldl_cons] at fits ⊢
    have stepFits : 256 * u + byte.toNat < 58 ^ size :=
      lt_of_le_of_lt (Numeral.le_foldl_mul_add (by decide) _ _) fits
    have run := carryLoop_digitsAppend (by decide) (by decide) size u byte.toNat 0 (digits 58 u).length
      (Nat.sub_zero _) stepFits
    rw [encodeLoop]
    dsimp only
    rw [run, if_pos rfl, Nat.zero_add]
    exact inductionHypothesis _ fits

/-- The number `n` bytes stand for is below `256 ^ n`. -/
theorem ofDigits_bytes_lt (bytes : List UInt8) : ofDigits 256 (bytes.map UInt8.toNat).reverse < 256 ^ bytes.length :=
  calc ofDigits 256 (bytes.map UInt8.toNat).reverse < 256 ^ (bytes.map UInt8.toNat).reverse.length :=
        Nat.ofDigits_lt_base_pow_length (by decide) fun d member => by
          obtain ⟨byte, _, rfl⟩ := List.mem_map.mp (List.mem_reverse.mp member)
          exact byte.toNat_lt
    _ = 256 ^ bytes.length := by simp

/-- The buffer of `EncodeBase58` is large enough: the number of `n` bytes is
below `58 ^ (n * 138 / 100 + 1)`, since `256 ^ 100 ≤ 58 ^ 138`. -/
theorem ofDigits_lt_b58 (bytes : List UInt8) :
    ofDigits 256 (bytes.map UInt8.toNat).reverse < 58 ^ (bytes.length * 138 / 100 + 1) :=
  (ofDigits_bytes_lt bytes).trans (Numeral.pow_lt_pow_div_succ (by decide) (by decide) (by decide) _)

/-- What `EncodeBase58` writes: a `1` for each leading zero byte, then the
digits in base 58 of the number the rest stands for, most significant first.
In particular its assertion never fails. -/
theorem encodeBase58_eq (input : List UInt8) (small : input.length * 138 / 100 < INT_MAX) :
    encodeBase58 input = some (List.replicate (leadingZeroes input).1 0x31 ++
      (digits 58 (ofDigits 256 ((leadingZeroes input).2.map UInt8.toNat).reverse)).reverse.map pszBase58At) := by
  have restShort : (leadingZeroes input).2.length ≤ input.length := by
    have split := congrArg List.length (leadingZeroes_spec input).1
    simp only [List.length_append, List.length_replicate] at split
    omega
  have allocated := allocate_intSize (by decide) (by decide)
    (lt_of_le_of_lt (Nat.div_le_div_right (Nat.mul_le_mul_right 138 restShort)) small)
  have value : ((leadingZeroes input).2.map UInt8.toNat).foldl (fun acc d => 256 * acc + d) 0 =
      ofDigits 256 ((leadingZeroes input).2.map UInt8.toNat).reverse := by
    rw [Numeral.foldl_mul_add]
    simp
  have loop := encodeLoop_digitsAppend (leadingZeroes input).2 0 (by rw [value]; exact ofDigits_lt_b58 _)
  rw [Numeral.digitsAppend_zero, Nat.digits_zero, List.length_nil, value] at loop
  unfold encodeBase58
  dsimp only
  rw [allocated]
  simp only [Option.bind_eq_bind, Option.bind_some]
  rw [loop, Option.bind_some, Numeral.take_digitsAppend, dropWhile_eq_self_of_head? (Numeral.head?_reverse_digits _)]
  rfl

/-! ## What `DecodeBase58` reads -/

/-- The leading `1`s are counted, and refused when there are more than
`max_ret_len` of them in all. -/
theorem leadingOnes_eq {maxRetLen : Nat} : ∀ (str : List UInt8) (zeroes : Nat), zeroes ≤ maxRetLen →
    leadingOnes maxRetLen zeroes str =
      if zeroes + (str.takeWhile (· == 0x31)).length ≤ maxRetLen then
        some (zeroes + (str.takeWhile (· == 0x31)).length, str.dropWhile (· == 0x31))
      else none := by
  intro str
  induction str with
  | nil => intro zeroes within; simp [leadingOnes, within]
  | cons c rest inductionHypothesis =>
    intro zeroes within
    by_cases one : c = 0x31
    · rw [leadingOnes, if_pos one, List.takeWhile_cons_of_pos (by simp [one]),
        List.dropWhile_cons_of_pos (by simp [one]), List.length_cons]
      by_cases tooMany : zeroes + 1 > maxRetLen
      · rw [if_pos tooMany, if_neg (by omega)]
      · rw [if_neg tooMany, inductionHypothesis (zeroes + 1) (by omega), Nat.add_assoc, Nat.add_comm 1]
    · rw [leadingOnes, if_neg one, List.takeWhile_cons_of_neg (by simp [one]),
        List.dropWhile_cons_of_neg (by simp [one])]
      simp [within]

/-- The digits `DecodeBase58` multiplies into `b256`, from a number `u` already
there: the value of each character before the first space, read most
significant first.  The loop ends with the buffer of the number read, unless a
character is outside the alphabet, the number outgrows the buffer (a carry is
left) or the result is longer than `max_ret_len`. -/
theorem decodeLoop_digitsAppend {maxRetLen zeroes size : Nat} : ∀ (str : List UInt8) (u : Nat),
    u < 256 ^ size → zeroes + (digits 256 u).length ≤ maxRetLen →
      decodeLoop maxRetLen zeroes (digitsAppend 256 size u, (digits 256 u).length) str =
        if (∀ c ∈ str.takeWhile (fun c => !isSpace c), mapBase58At c ≠ -1) ∧
            zeroes + (digits 256 (((str.takeWhile fun c => !isSpace c).map fun c => (mapBase58At c).toNat).foldl
              (fun acc d => 58 * acc + d) u)).length ≤ maxRetLen ∧
            ((str.takeWhile fun c => !isSpace c).map fun c => (mapBase58At c).toNat).foldl
              (fun acc d => 58 * acc + d) u < 256 ^ size then
          some (digitsAppend 256 size (((str.takeWhile fun c => !isSpace c).map fun c => (mapBase58At c).toNat).foldl
              (fun acc d => 58 * acc + d) u),
            (digits 256 (((str.takeWhile fun c => !isSpace c).map fun c => (mapBase58At c).toNat).foldl
              (fun acc d => 58 * acc + d) u)).length,
            str.dropWhile fun c => !isSpace c)
        else none := by
  intro str
  induction str with
  | nil => intro u fits within; simp [decodeLoop, within, fits]
  | cons c rest inductionHypothesis =>
    intro u fits within
    by_cases space : isSpace c = true
    · rw [decodeLoop, if_pos space, List.takeWhile_cons_of_neg (by simp [space]),
        List.dropWhile_cons_of_neg (by simp [space])]
      simp [within, fits]
    have notSpace : (!isSpace c) = true := by simpa using space
    rw [decodeLoop, if_neg space, List.takeWhile_cons_of_pos (p := fun c => !isSpace c) notSpace,
      List.dropWhile_cons_of_pos (p := fun c => !isSpace c) notSpace,
      List.map_cons, List.foldl_cons]
    by_cases invalid : mapBase58At c = -1
    · rw [if_pos invalid, if_neg (fun valid => valid.1 c List.mem_cons_self invalid)]
    rw [if_neg invalid]
    dsimp only
    have grows := Numeral.le_foldl_mul_add (b := 58) (by decide)
      ((rest.takeWhile fun c => !isSpace c).map fun c => (mapBase58At c).toNat) (58 * u + (mapBase58At c).toNat)
    by_cases overflow : 256 ^ size ≤ 58 * u + (mapBase58At c).toNat
    · have carried := carryLoop_carry_of_overflow (by decide) size u _ 0 _ (Nat.sub_zero _) fits overflow
      rw [if_pos carried, if_neg (fun accepted => absurd accepted.2.2 (by omega))]
    have stepFits : 58 * u + (mapBase58At c).toNat < 256 ^ size := Nat.lt_of_not_le overflow
    rw [carryLoop_digitsAppend (by decide) (by decide) size u _ 0 _ (Nat.sub_zero _) stepFits, Nat.zero_add]
    simp only [ne_eq, not_true_eq_false, if_false, List.mem_cons, forall_eq_or_imp]
    by_cases tooLong : (digits 256 (58 * u + (mapBase58At c).toNat)).length + zeroes > maxRetLen
    · rw [if_pos tooLong, if_neg]
      intro accepted
      have longer := Nat.le_length_digits_le 256 _ _ grows
      omega
    · rw [if_neg tooLong, inductionHypothesis _ stepFits (by omega)]
      simp [invalid]

/-- The buffer of `DecodeBase58` is large enough: a number of `n` digits of
base 58 is below `256 ^ (n * 733 / 1000 + 1)`, since `58 ^ 1000 ≤ 256 ^ 733`,
the fourth power of `58 ^ 250 ≤ 256 ^ 183 * 4`. -/
theorem pow_lt_b256 (n : Nat) : 58 ^ n < 256 ^ (n * 733 / 1000 + 1) := by
  have quarter : 58 ^ 250 ≤ 256 ^ 183 * 4 := by decide
  have ratio : 58 ^ 1000 ≤ 256 ^ 733 :=
    calc 58 ^ 1000 = (58 ^ 250) ^ 4 := by rw [← pow_mul]
      _ ≤ (256 ^ 183 * 4) ^ 4 := Nat.pow_le_pow_left quarter 4
      _ = 256 ^ 733 := by rw [mul_pow, ← pow_mul, show (4 : Nat) ^ 4 = 256 from rfl, ← pow_succ]
  exact Numeral.pow_lt_pow_div_succ (by decide) (by decide) ratio n

/-- What `DecodeBase58` accepts and returns once `b256` is allocated with
`size` zeros: after the leading spaces, a `1` for each zero byte, then
characters of the alphabet up to the first space, read as a number in base 58
that fits `b256`, and nothing but spaces after them.  The result is the zero
bytes, then the number in base 256, most significant first, and is at most
`max_ret_len` bytes long. -/
theorem decodeBase58Psz_of_allocate (psz : List UInt8) (maxRetLen : Nat) {size : Nat}
    (allocated : allocate (intSize ((psz.dropWhile isSpace).dropWhile (· == 0x31)).length 733 1000) =
      some (List.replicate size 0)) :
    decodeBase58Psz psz maxRetLen =
      let str := psz.dropWhile isSpace
      let rest := str.dropWhile (· == 0x31)
      let word := rest.takeWhile fun c => !isSpace c
      let zeroes := (str.takeWhile (· == 0x31)).length
      let v := ofDigits 58 (word.map fun c => (mapBase58At c).toNat).reverse
      if (∀ c ∈ word, mapBase58At c ≠ -1) ∧ zeroes + (digits 256 v).length ≤ maxRetLen ∧ v < 256 ^ size ∧
          (rest.dropWhile fun c => !isSpace c).dropWhile isSpace = [] then
        some (List.replicate zeroes 0 ++ (digits 256 v).reverse.map Nat.toUInt8)
      else none := by
  dsimp only
  unfold decodeBase58Psz
  rw [leadingOnes_eq _ 0 (Nat.zero_le _), Nat.zero_add]
  by_cases ones : ((psz.dropWhile isSpace).takeWhile (· == 0x31)).length ≤ maxRetLen
  swap
  · rw [if_neg ones, if_neg (fun accepted => ones (by omega))]
    rfl
  rw [if_pos ones]
  have start : (List.replicate size 0, 0) = (digitsAppend 256 size 0, (digits 256 0).length) := by
    simp
  have value : ∀ ds : List Nat, ds.foldl (fun acc d => 58 * acc + d) 0 = ofDigits 58 ds.reverse := by
    intro ds
    rw [Numeral.foldl_mul_add]
    simp
  simp only [Option.bind_eq_bind, Option.bind_some]
  rw [allocated, Option.bind_some, start,
    decodeLoop_digitsAppend _ 0 (Nat.pow_pos (by decide)) (by simpa using ones), value]
  by_cases read : (∀ c ∈ ((psz.dropWhile isSpace).dropWhile (· == 0x31)).takeWhile (fun c => !isSpace c),
      mapBase58At c ≠ -1) ∧ ((psz.dropWhile isSpace).takeWhile (· == 0x31)).length +
        (digits 256 (ofDigits 58 ((((psz.dropWhile isSpace).dropWhile (· == 0x31)).takeWhile
          (fun c => !isSpace c)).map fun c => (mapBase58At c).toNat).reverse)).length ≤ maxRetLen ∧
      ofDigits 58 ((((psz.dropWhile isSpace).dropWhile (· == 0x31)).takeWhile
          (fun c => !isSpace c)).map fun c => (mapBase58At c).toNat).reverse < 256 ^ size
  · rw [if_pos read, Option.bind_some]
    dsimp only
    rw [Numeral.take_digitsAppend]
    by_cases trailing : ((((psz.dropWhile isSpace).dropWhile (· == 0x31)).dropWhile
        fun c => !isSpace c).dropWhile isSpace) = []
    · rw [if_neg (not_not.mpr trailing), if_pos ⟨read.1, read.2.1, read.2.2, trailing⟩]
    · rw [if_pos trailing, if_neg (fun accepted => trailing accepted.2.2.2)]
  · rw [if_neg read, if_neg (fun accepted => read ⟨accepted.1, accepted.2.1, accepted.2.2.1⟩)]
    rfl

/-- A `b256` whose size does not fit an `int` throws. -/
theorem decodeBase58Psz_of_allocate_none (psz : List UInt8) (maxRetLen : Nat)
    (failed : allocate (intSize ((psz.dropWhile isSpace).dropWhile (· == 0x31)).length 733 1000) = none) :
    decodeBase58Psz psz maxRetLen = none := by
  unfold decodeBase58Psz
  rw [leadingOnes_eq _ 0 (Nat.zero_le _), Nat.zero_add]
  split_ifs
  · simp only [Option.bind_eq_bind, Option.bind_some]
    rw [failed]
    rfl
  · rfl

/-- When its size fits an `int`, `b256` holds every number the word can stand
for, so `DecodeBase58` accepts exactly the strings of `decodeBase58Psz_of_allocate`. -/
theorem decodeBase58Psz_eq (psz : List UInt8) (maxRetLen : Nat) (small : psz.length * 733 / 1000 < INT_MAX) :
    decodeBase58Psz psz maxRetLen =
      let str := psz.dropWhile isSpace
      let rest := str.dropWhile (· == 0x31)
      let word := rest.takeWhile fun c => !isSpace c
      let zeroes := (str.takeWhile (· == 0x31)).length
      let v := ofDigits 58 (word.map fun c => (mapBase58At c).toNat).reverse
      if (∀ c ∈ word, mapBase58At c ≠ -1) ∧ zeroes + (digits 256 v).length ≤ maxRetLen ∧
          (rest.dropWhile fun c => !isSpace c).dropWhile isSpace = [] then
        some (List.replicate zeroes 0 ++ (digits 256 v).reverse.map Nat.toUInt8)
      else none := by
  have restShort : ((psz.dropWhile isSpace).dropWhile (· == 0x31)).length ≤ psz.length :=
    (List.length_dropWhile_le _ _).trans (List.length_dropWhile_le _ _)
  have allocated := allocate_intSize (by decide) (by decide)
    (lt_of_le_of_lt (Nat.div_le_div_right (Nat.mul_le_mul_right 733 restShort)) small)
  rw [decodeBase58Psz_of_allocate psz maxRetLen allocated]
  dsimp only
  have fits : ofDigits 58 ((((psz.dropWhile isSpace).dropWhile (· == 0x31)).takeWhile
      (fun c => !isSpace c)).map fun c => (mapBase58At c).toNat).reverse <
        256 ^ (((psz.dropWhile isSpace).dropWhile (· == 0x31)).length * 733 / 1000 + 1) :=
    calc _ < 58 ^ ((((psz.dropWhile isSpace).dropWhile (· == 0x31)).takeWhile
            (fun c => !isSpace c)).map fun c => (mapBase58At c).toNat).reverse.length :=
          Nat.ofDigits_lt_base_pow_length (by decide) fun d member => by
            obtain ⟨c, _, rfl⟩ := List.mem_map.mp (List.mem_reverse.mp member)
            exact toNat_mapBase58At_lt c
      _ ≤ 58 ^ ((psz.dropWhile isSpace).dropWhile (· == 0x31)).length := by
          rw [List.length_reverse, List.length_map]
          exact Nat.pow_le_pow_right (by decide) (List.takeWhile_prefix _).length_le
      _ < _ := pow_lt_b256 _
  simp only [fits, true_and]

/-- Whatever size `b256` is allocated with, what `DecodeBase58` returns is the
zero bytes and the number of the word in base 256, from a string of the form
of `decodeBase58Psz_of_allocate`. -/
theorem decodeBase58Psz_sound {psz out : List UInt8} {maxRetLen : Nat}
    (decoded : decodeBase58Psz psz maxRetLen = some out) :
    let str := psz.dropWhile isSpace
    let rest := str.dropWhile (· == 0x31)
    let word := rest.takeWhile fun c => !isSpace c
    let zeroes := (str.takeWhile (· == 0x31)).length
    let v := ofDigits 58 (word.map fun c => (mapBase58At c).toNat).reverse
    (∀ c ∈ word, mapBase58At c ≠ -1) ∧ zeroes + (digits 256 v).length ≤ maxRetLen ∧
      (rest.dropWhile fun c => !isSpace c).dropWhile isSpace = [] ∧
      out = List.replicate zeroes 0 ++ (digits 256 v).reverse.map Nat.toUInt8 := by
  dsimp only
  cases allocated : allocate (intSize ((psz.dropWhile isSpace).dropWhile (· == 0x31)).length 733 1000) with
  | none =>
    rw [decodeBase58Psz_of_allocate_none psz maxRetLen allocated] at decoded
    cases decoded
  | some buffer =>
    have zeros := eq_replicate_of_allocate allocated
    subst zeros
    rw [decodeBase58Psz_of_allocate psz maxRetLen allocated] at decoded
    dsimp only at decoded
    split at decoded
    · rename_i accepted
      exact ⟨accepted.1, accepted.2.1, accepted.2.2.2, (Option.some_inj.mp decoded).symm⟩
    · cases decoded

/-! ## The round trips -/

theorem dropWhile_eq_self {α : Type} {p : α → Bool} {l : List α} (kept : ∀ c ∈ l, p c = false) :
    l.dropWhile p = l := by
  cases l with
  | nil => rfl
  | cons c rest => rw [List.dropWhile_cons_of_neg (by simp [kept c List.mem_cons_self])]

/-- Digits below 58 written with the alphabet read back as themselves. -/
theorem map_mapBase58At_pszBase58At {ds : List Nat} (small : ∀ d ∈ ds, d < 58) :
    (∀ c ∈ ds.map pszBase58At, mapBase58At c ≠ -1) ∧
      (ds.map pszBase58At).map (fun c => (mapBase58At c).toNat) = ds := by
  constructor
  · intro c member
    obtain ⟨d, inDs, rfl⟩ := List.mem_map.mp member
    rw [mapBase58At_pszBase58At (small d inDs)]
    omega
  · rw [List.map_map]
    calc ds.map ((fun c => (mapBase58At c).toNat) ∘ pszBase58At) = ds.map id :=
          List.map_congr_left fun d inDs => by simp [mapBase58At_pszBase58At (small d inDs)]
      _ = ds := List.map_id ds

/-- The `1`s in front of a numeral without a leading zero are exactly the zero
bytes: the numeral's first character is not a `1`. -/
theorem takeWhile_dropWhile_ones {ds : List Nat} (small : ∀ d ∈ ds, d < 58) (leading : ds.head? ≠ some 0)
    (zeroes : Nat) :
    (List.replicate zeroes 0x31 ++ ds.map pszBase58At).takeWhile (· == 0x31) = List.replicate zeroes 0x31 ∧
      (List.replicate zeroes 0x31 ++ ds.map pszBase58At).dropWhile (· == 0x31) = ds.map pszBase58At := by
  have allOnes : ∀ c ∈ List.replicate zeroes (0x31 : UInt8), (c == 0x31) = true := by
    intro c member
    simp [List.eq_of_mem_replicate member]
  rw [List.takeWhile_append_of_pos allOnes, List.dropWhile_append_of_pos allOnes]
  cases ds with
  | nil => simp
  | cons d rest =>
    have notOne : (pszBase58At d == 0x31) = false := by
      have positive : d ≠ 0 := fun zero => leading (by rw [zero]; rfl)
      simpa using fun same => positive ((pszBase58At_spec (small d List.mem_cons_self)).2.2.mp same)
    rw [List.map_cons, List.takeWhile_cons_of_neg (by simp [notOne]),
      List.dropWhile_cons_of_neg (by simp [notOne]), List.append_nil]
    exact ⟨rfl, rfl⟩

/-- What `EncodeBase58` writes has no `NUL`, and `DecodeBase58` reads it back
whenever the input fits `max_ret_len`. -/
theorem decodeBase58Psz_encodeBase58 {input : List UInt8} {maxRetLen : Nat} (fits : input.length ≤ maxRetLen)
    (small : input.length * 138 / 100 < INT_MAX) :
    ∃ str, encodeBase58 input = some str ∧ str.contains 0 = false ∧ decodeBase58Psz str maxRetLen = some input := by
  obtain ⟨split, leading⟩ := leadingZeroes_spec input
  have digitsSmall : ∀ d ∈ (digits 58 (ofDigits 256 ((leadingZeroes input).2.map UInt8.toNat).reverse)).reverse, d < 58 :=
    fun d member => Nat.digits_lt_base (by decide) (List.mem_reverse.mp member)
  have written : ∀ c ∈ List.replicate (leadingZeroes input).1 (0x31 : UInt8) ++
      (digits 58 (ofDigits 256 ((leadingZeroes input).2.map UInt8.toNat).reverse)).reverse.map pszBase58At,
      isSpace c = false ∧ c ≠ 0 := by
    intro c member
    rcases List.mem_append.mp member with one | digit
    · rw [List.eq_of_mem_replicate one]
      decide
    · obtain ⟨d, inDigits, rfl⟩ := List.mem_map.mp digit
      exact ⟨(pszBase58At_spec (digitsSmall d inDigits)).1, (pszBase58At_spec (digitsSmall d inDigits)).2.1⟩
  refine ⟨_, encodeBase58_eq input small, by simpa using fun mem => (written 0 mem).2 rfl, ?_⟩
  obtain ⟨ones, digitsPart⟩ := takeWhile_dropWhile_ones digitsSmall (Numeral.head?_reverse_digits _) (leadingZeroes input).1
  have digitChars : ∀ c ∈ (digits 58 (ofDigits 256 ((leadingZeroes input).2.map UInt8.toNat).reverse)).reverse.map
      pszBase58At, (!isSpace c) = true := fun c member =>
    by simp [(written c (List.mem_append_right _ member)).1]
  obtain ⟨valid, values⟩ := map_mapBase58At_pszBase58At digitsSmall
  have restLeading : ((leadingZeroes input).2.map UInt8.toNat).head? ≠ some 0 := by
    rw [List.head?_map]
    intro zero
    obtain ⟨byte, first, isZero⟩ := Option.map_eq_some_iff.mp zero
    exact leading (by rw [first, show byte = 0 from UInt8.toNat_inj.mp isZero])
  have bytes := Numeral.digits_ofDigits_reverse (b := 256) (by decide)
    (fun d member => by obtain ⟨byte, _, rfl⟩ := List.mem_map.mp member; exact byte.toNat_lt) restLeading
  have lengths : input.length = (leadingZeroes input).1 + (leadingZeroes input).2.length := by
    conv_lhs => rw [split]
    simp
  have strSmall : (List.replicate (leadingZeroes input).1 (0x31 : UInt8) ++
      (digits 58 (ofDigits 256 ((leadingZeroes input).2.map UInt8.toNat).reverse)).reverse.map
        pszBase58At).length * 733 / 1000 < INT_MAX := by
    have digitCount := (Nat.digits_length_le_iff (by decide) _).mpr (ofDigits_lt_b58 (leadingZeroes input).2)
    simp only [List.length_append, List.length_replicate, List.length_map, List.length_reverse]
    unfold INT_MAX at small ⊢
    omega
  rw [decodeBase58Psz_eq _ _ strSmall]
  dsimp only
  rw [dropWhile_eq_self fun c member => (written c member).1, ones, digitsPart,
    List.takeWhile_eq_self_iff.mpr digitChars, List.dropWhile_eq_nil_iff.mpr digitChars, values,
    List.reverse_reverse, Nat.ofDigits_digits, bytes, List.length_replicate, List.length_reverse, List.length_map]
  rw [if_pos ⟨valid, by omega, rfl⟩, List.reverse_reverse]
  simp [Function.comp_def, ← split]

/-- `DecodeBase58` reads back what `EncodeBase58` writes, for every input of at
most `max_ret_len` bytes. -/
theorem decodeBase58_encodeBase58 (input : List UInt8) {maxRetLen : Nat} (fits : input.length ≤ maxRetLen)
    (small : input.length * 138 / 100 < INT_MAX) :
    (encodeBase58 input).bind (decodeBase58 · maxRetLen) = some input := by
  obtain ⟨str, encoded, noNul, decoded⟩ := decodeBase58Psz_encodeBase58 fits small
  rw [encoded, Option.bind_some, decodeBase58, noNul, if_neg Bool.false_ne_true]
  exact decoded

theorem decodeBase58_encodeBase58_leadingZeroes :
    [0, 0, 0x2a].length ≤ 3 ∧ [0, 0, 0x2a].length * 138 / 100 < INT_MAX ∧
      (encodeBase58 [0, 0, 0x2a]).bind (decodeBase58 · 3) = some [0, 0, 0x2a] :=
  ⟨by decide, by decide, decodeBase58_encodeBase58 [0, 0, 0x2a] (by decide) (by decide)⟩

/-- Zero bytes in front of a rest that does not start with one are counted as
such. -/
theorem leadingZeroes_replicate_append (zeroes : Nat) {l : List UInt8} (leading : l.head? ≠ some 0) :
    leadingZeroes (List.replicate zeroes 0 ++ l) = (zeroes, l) := by
  induction zeroes with
  | zero =>
    cases l with
    | nil => rfl
    | cons byte rest =>
      have nonzero : byte ≠ 0 := fun zero => leading (by rw [zero]; rfl)
      simp [leadingZeroes, nonzero]
  | succ zeroes inductionHypothesis => simp [List.replicate_succ, leadingZeroes, inductionHypothesis]

/-- The bytes `DecodeBase58` returns for a number: its digits in base 256, most
significant first, with no leading zero. -/
theorem bytes_of_digits (v : Nat) :
    ((digits 256 v).reverse.map Nat.toUInt8).head? ≠ some 0 ∧
      ofDigits 256 (((digits 256 v).reverse.map Nat.toUInt8).map UInt8.toNat).reverse = v := by
  have small : ∀ d ∈ (digits 256 v).reverse, d < 256 :=
    fun d member => Nat.digits_lt_base (by decide) (List.mem_reverse.mp member)
  have bytes : ((digits 256 v).reverse.map Nat.toUInt8).map UInt8.toNat = (digits 256 v).reverse := by
    rw [List.map_map]
    calc (digits 256 v).reverse.map (UInt8.toNat ∘ Nat.toUInt8) = (digits 256 v).reverse.map id :=
          List.map_congr_left fun d member => by simp [Nat.mod_eq_of_lt (small d member)]
      _ = (digits 256 v).reverse := List.map_id _
  refine ⟨?_, by rw [bytes, List.reverse_reverse, Nat.ofDigits_digits]⟩
  intro zero
  rw [List.head?_map] at zero
  obtain ⟨d, first, isZero⟩ := Option.map_eq_some_iff.mp zero
  have dSmall := small d (List.mem_of_head? first)
  have : d = 0 := by
    have := congrArg UInt8.toNat isZero
    simpa [Nat.mod_eq_of_lt dSmall] using this
  exact Numeral.head?_reverse_digits v (by rw [first, this])

/-- Characters of the alphabet whose first is not `1`, read as a number and
written back, are themselves. -/
theorem writes_word {word : List UInt8} (valid : ∀ c ∈ word, mapBase58At c ≠ -1) (leading : word.head? ≠ some 0x31) :
    (digits 58 (ofDigits 58 (word.map fun c => (mapBase58At c).toNat).reverse)).reverse.map pszBase58At = word := by
  have small : ∀ d ∈ word.map (fun c => (mapBase58At c).toNat), d < 58 := by
    intro d member
    obtain ⟨c, inWord, rfl⟩ := List.mem_map.mp member
    exact (pszBase58At_mapBase58At (valid c inWord)).1
  have noZero : (word.map fun c => (mapBase58At c).toNat).head? ≠ some 0 := by
    rw [List.head?_map]
    intro zero
    obtain ⟨c, first, isZero⟩ := Option.map_eq_some_iff.mp zero
    have written := (pszBase58At_mapBase58At (valid c (List.mem_of_head? first))).2
    rw [isZero] at written
    exact leading (by rw [first, ← written]; rfl)
  rw [Numeral.digits_ofDigits_reverse (by decide) small noZero, List.reverse_reverse, List.map_map]
  calc word.map (pszBase58At ∘ fun c => (mapBase58At c).toNat) = word.map id :=
        List.map_congr_left fun c member => (pszBase58At_mapBase58At (valid c member)).2
    _ = word := List.map_id word

/-- Every string the `const char*` form of `DecodeBase58` accepts is, but for
the spaces around it, what `EncodeBase58` writes for the bytes it returns. -/
theorem encodeBase58_decodeBase58Psz {str out : List UInt8} {maxRetLen : Nat}
    (decoded : decodeBase58Psz str maxRetLen = some out) (small : out.length * 138 / 100 < INT_MAX) :
    ∃ lead core trail, encodeBase58 out = some core ∧ str = lead ++ core ++ trail ∧
      ∀ c ∈ lead ++ trail, isSpace c = true := by
  have sound := decodeBase58Psz_sound decoded
  dsimp only at sound
  obtain ⟨valid, -, trailing, rfl⟩ := sound
  have ones : (str.dropWhile isSpace).takeWhile (· == 0x31) =
      List.replicate ((str.dropWhile isSpace).takeWhile (· == 0x31)).length 0x31 :=
    List.eq_replicate_iff.mpr ⟨rfl, fun c member => by simpa using List.mem_takeWhile_imp member⟩
  have wordLeading : (((str.dropWhile isSpace).dropWhile (· == 0x31)).takeWhile fun c => !isSpace c).head? ≠
      some 0x31 := by
    rw [List.head?_takeWhile]
    have notOne := List.head?_dropWhile_not (· == (0x31 : UInt8)) (str.dropWhile isSpace)
    intro first
    rw [(Option.filter_eq_some_iff.mp first).1] at notOne
    simp at notOne
  obtain ⟨bytesLeading, bytesValue⟩ := bytes_of_digits (ofDigits 58
    ((((str.dropWhile isSpace).dropWhile (· == 0x31)).takeWhile fun c => !isSpace c).map
      fun c => (mapBase58At c).toNat).reverse)
  refine ⟨str.takeWhile isSpace,
    List.replicate ((str.dropWhile isSpace).takeWhile (· == 0x31)).length 0x31 ++
      ((str.dropWhile isSpace).dropWhile (· == 0x31)).takeWhile fun c => !isSpace c,
    ((str.dropWhile isSpace).dropWhile (· == 0x31)).dropWhile fun c => !isSpace c, ?_, ?_, ?_⟩
  · rw [encodeBase58_eq _ small, leadingZeroes_replicate_append _ bytesLeading, bytesValue, writes_word valid wordLeading]
  · calc str = str.takeWhile isSpace ++ ((str.dropWhile isSpace).takeWhile (· == 0x31) ++
          ((((str.dropWhile isSpace).dropWhile (· == 0x31)).takeWhile fun c => !isSpace c) ++
            (((str.dropWhile isSpace).dropWhile (· == 0x31)).dropWhile fun c => !isSpace c))) := by
          rw [List.takeWhile_append_dropWhile, List.takeWhile_append_dropWhile, List.takeWhile_append_dropWhile]
      _ = _ := by
          rw [← ones]
          simp only [List.append_assoc]
  · intro c member
    rcases List.mem_append.mp member with leading | inTrail
    · exact List.mem_takeWhile_imp leading
    · exact List.dropWhile_eq_nil_iff.mp trailing c inTrail

/-- Every string `DecodeBase58` accepts is, but for the spaces around it, what
`EncodeBase58` writes for the bytes it returns. -/
theorem encodeBase58_decodeBase58 {str out : List UInt8} {maxRetLen : Nat}
    (decoded : decodeBase58 str maxRetLen = some out) (small : out.length * 138 / 100 < INT_MAX) :
    ∃ lead core trail, encodeBase58 out = some core ∧ str = lead ++ core ++ trail ∧
      ∀ c ∈ lead ++ trail, isSpace c = true := by
  unfold decodeBase58 at decoded
  split at decoded
  · cases decoded
  exact encodeBase58_decodeBase58Psz decoded small

theorem encodeBase58_decodeBase58_spaced :
    decodeBase58 [0x20, 0x31, 0x32, 0x0a] 2 = some [0, 1] ∧ [0, 1].length * 138 / 100 < INT_MAX ∧
      ∃ lead core trail, encodeBase58 [0, 1] = some core ∧ [0x20, 0x31, 0x32, 0x0a] = lead ++ core ++ trail ∧
        ∀ c ∈ lead ++ trail, isSpace c = true :=
  have decoded : decodeBase58 [0x20, 0x31, 0x32, 0x0a] 2 = some [0, 1] := by decide
  ⟨decoded, by decide, encodeBase58_decodeBase58 decoded (by decide)⟩

/-- The string `EncodeBase58Check` writes for a payload that fits is read back
by `DecodeBase58Check`. -/
theorem decodeBase58Check_of_encodeBase58Check (hashes : Hashes) {input str : List UInt8} {maxRetLen : Nat}
    (fits : input.length ≤ maxRetLen) (small : (input.length + 4) * 138 / 100 < INT_MAX)
    (written : encodeBase58Check hashes input = some str) : decodeBase58Check hashes str maxRetLen = some input := by
  have checked : (input ++ (hashes.hash256 input).take 4).length = input.length + 4 := by simp
  have bound : (input ++ (hashes.hash256 input).take 4).length ≤
      if maxRetLen > INT_MAX - 4 then INT_MAX else maxRetLen + 4 := by
    split <;> omega
  obtain ⟨encodedStr, encoded, noNul, decoded⟩ := decodeBase58Psz_encodeBase58 bound (by rw [checked]; exact small)
  rw [encodeBase58Check, encoded, Option.some_inj] at written
  subst written
  rw [decodeBase58Check, noNul, if_neg Bool.false_ne_true]
  simp [decodeBase58CheckPsz, decoded, checked]

/-- `DecodeBase58Check` reads back what `EncodeBase58Check` writes, whatever
the hash function, for every payload of at most `max_ret_len` bytes whose
checked form still fits an `int`. -/
theorem decodeBase58Check_encodeBase58Check (hashes : Hashes) (input : List UInt8) {maxRetLen : Nat}
    (fits : input.length ≤ maxRetLen) (small : (input.length + 4) * 138 / 100 < INT_MAX) :
    (encodeBase58Check hashes input).bind (decodeBase58Check hashes · maxRetLen) = some input := by
  have checked : (input ++ (hashes.hash256 input).take 4).length = input.length + 4 := by simp
  have written : encodeBase58Check hashes input = some _ := encodeBase58_eq _ (by rw [checked]; exact small)
  rw [written, Option.bind_some]
  exact decodeBase58Check_of_encodeBase58Check hashes fits small written

/-- `DecodeBase58` returns at most `max_ret_len` bytes. -/
theorem decodeBase58Psz_length_le {psz out : List UInt8} {maxRetLen : Nat}
    (decoded : decodeBase58Psz psz maxRetLen = some out) : out.length ≤ maxRetLen := by
  have sound := decodeBase58Psz_sound decoded
  dsimp only at sound
  obtain ⟨-, within, -, rfl⟩ := sound
  simpa using within

/-- What `DecodeBase58` returns does not depend on `max_ret_len`, which only
decides whether it returns. -/
theorem decodeBase58Psz_unique {psz out out' : List UInt8} {maxRetLen maxRetLen' : Nat}
    (decoded : decodeBase58Psz psz maxRetLen = some out) (decoded' : decodeBase58Psz psz maxRetLen' = some out') :
    out = out' := by
  have sound := decodeBase58Psz_sound decoded
  have sound' := decodeBase58Psz_sound decoded'
  dsimp only at sound sound'
  rw [sound.2.2.2, sound'.2.2.2]

/-- What `DecodeBase58Check` accepts: a string that `DecodeBase58` reads,
within `max_ret_len + 4` bytes, into the payload it returns followed by the
first four bytes of the payload's `Hash`. -/
theorem decodeBase58Check_eq_some {hashes : Hashes} {str out : List UInt8} {maxRetLen : Nat}
    (decoded : decodeBase58Check hashes str maxRetLen = some out) :
    ∃ vchRet, decodeBase58Psz str (if maxRetLen > INT_MAX - 4 then INT_MAX else maxRetLen + 4) = some vchRet ∧
      4 ≤ vchRet.length ∧ vchRet = out ++ (hashes.hash256 out).take 4 ∧ out = vchRet.take (vchRet.length - 4) := by
  unfold decodeBase58Check decodeBase58CheckPsz at decoded
  split at decoded
  · cases decoded
  obtain ⟨vchRet, read, checked⟩ := Option.bind_eq_some_iff.mp decoded
  split at checked
  · cases checked
  split at checked
  · cases checked
  rename_i longEnough sameChecksum
  cases checked
  refine ⟨vchRet, read, by omega, ?_, rfl⟩
  rw [not_not.mp sameChecksum, List.take_append_drop]

/-- Nor does what `DecodeBase58Check` returns. -/
theorem decodeBase58Check_unique {hashes : Hashes} {str out out' : List UInt8} {maxRetLen maxRetLen' : Nat}
    (decoded : decodeBase58Check hashes str maxRetLen = some out)
    (decoded' : decodeBase58Check hashes str maxRetLen' = some out') : out = out' := by
  obtain ⟨vchRet, read, -, -, rfl⟩ := decodeBase58Check_eq_some decoded
  obtain ⟨vchRet', read', -, -, rfl⟩ := decodeBase58Check_eq_some decoded'
  rw [decodeBase58Psz_unique read read']

/-- `DecodeBase58Check` returns a payload of at most `max_ret_len` bytes. -/
theorem decodeBase58Check_length_le {hashes : Hashes} {str out : List UInt8} {maxRetLen : Nat}
    (decoded : decodeBase58Check hashes str maxRetLen = some out) : out.length ≤ maxRetLen := by
  obtain ⟨vchRet, read, -, -, rfl⟩ := decodeBase58Check_eq_some decoded
  have within := decodeBase58Psz_length_le read
  rw [List.length_take]
  split at within <;> omega

/-- With a bound below the length of a payload it reads, `DecodeBase58Check`
refuses the string. -/
theorem decodeBase58Check_eq_none_of_lt {hashes : Hashes} {str out : List UInt8} {maxRetLen maxRetLen' : Nat}
    (decoded : decodeBase58Check hashes str maxRetLen = some out) (long : maxRetLen' < out.length) :
    decodeBase58Check hashes str maxRetLen' = none := by
  cases decoded' : decodeBase58Check hashes str maxRetLen' with
  | none => rfl
  | some out' =>
      have within := decodeBase58Check_length_le decoded'
      rw [decodeBase58Check_unique decoded' decoded] at within
      omega

/-- Every string `DecodeBase58Check` accepts is, but for the spaces around it,
what `EncodeBase58Check` writes for the payload it returns: the checksum it
compared is the one `EncodeBase58Check` appends. -/
theorem encodeBase58Check_decodeBase58Check {hashes : Hashes} {str out : List UInt8} {maxRetLen : Nat}
    (decoded : decodeBase58Check hashes str maxRetLen = some out) (small : (out.length + 4) * 138 / 100 < INT_MAX) :
    ∃ lead core trail, encodeBase58Check hashes out = some core ∧ str = lead ++ core ++ trail ∧
      ∀ c ∈ lead ++ trail, isSpace c = true := by
  obtain ⟨vchRet, read, longEnough, whole, rfl⟩ := decodeBase58Check_eq_some decoded
  have readSmall : vchRet.length * 138 / 100 < INT_MAX := by
    rw [List.length_take] at small
    omega
  rw [encodeBase58Check, ← whole]
  exact encodeBase58_decodeBase58Psz read readSmall

theorem decodeBase58Check_encodeBase58Check_zeros :
    [1, 2, 3].length ≤ 3 ∧ ([1, 2, 3].length + 4) * 138 / 100 < INT_MAX ∧
      (encodeBase58Check Hashes.zeros [1, 2, 3]).bind (decodeBase58Check Hashes.zeros · 3) = some [1, 2, 3] :=
  ⟨by decide, by decide, decodeBase58Check_encodeBase58Check Hashes.zeros [1, 2, 3] (by decide) (by decide)⟩

end Base58

end Qbitcoin
