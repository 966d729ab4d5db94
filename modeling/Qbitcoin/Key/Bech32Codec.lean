import Qbitcoin.Key.Bech32

/-!
# The Bech32 codec round-trips

`Decode` reads back what `Encode` writes, for every HRP of printable
characters without upper-case letters and every list of 5-bit values within
the length limit (`decode_encode`).  Conversely, every string `Decode` accepts
is, up to the case of its letters, what `Encode` writes for the result
(`encode_decode`): the checksum leaves no choice, and the separator is the
last `1`, since the alphabet has none.
-/

namespace Qbitcoin

namespace Bech32

/-! ## The two tables -/

set_option maxRecDepth 4000 in
/-- The two tables checked once against each other: each value's character
is printable, not an upper-case letter and not the separator, and decodes to
the value; each character that decodes stands, up to its case, for the
value's character. -/
theorem charset_tables :
    (∀ n : Fin 32, decodeValue (charsetAt (UInt8.ofNat n)) = some (UInt8.ofNat n) ∧
      33 ≤ (charsetAt (UInt8.ofNat n)).toNat ∧ (charsetAt (UInt8.ofNat n)).toNat ≤ 126 ∧
      ¬(0x41 ≤ (charsetAt (UInt8.ofNat n)).toNat ∧ (charsetAt (UInt8.ofNat n)).toNat ≤ 0x5a) ∧
      charsetAt (UInt8.ofNat n) ≠ SEPARATOR) ∧
    ∀ n : Fin 256, (decodeValue (UInt8.ofNat n)).all
      (fun v => decide (v.toNat < 32 ∧ charsetAt v = lowerCase (UInt8.ofNat n))) = true := by
  decide

theorem decodeValue_charsetAt {v : UInt8} (small : v.toNat < 32) : decodeValue (charsetAt v) = some v := by
  simpa using (charset_tables.1 ⟨v.toNat, small⟩).1

/-- Each value is written with a printable character that is not an upper-case
letter and not the separator. -/
theorem charsetAt_printable {v : UInt8} (small : v.toNat < 32) :
    33 ≤ (charsetAt v).toNat ∧ (charsetAt v).toNat ≤ 126 ∧ ¬(0x41 ≤ (charsetAt v).toNat ∧ (charsetAt v).toNat ≤ 0x5a) ∧
      charsetAt v ≠ SEPARATOR := by
  simpa using (charset_tables.1 ⟨v.toNat, small⟩).2

/-- A character that decodes stands, up to its case, for the value's character. -/
theorem decodeValue_eq_some {c v : UInt8} (decoded : decodeValue c = some v) :
    v.toNat < 32 ∧ charsetAt v = lowerCase c := by
  simpa [decoded] using charset_tables.2 ⟨c.toNat, c.toNat_lt⟩

theorem lowerCase_of_not_upper {c : UInt8} (notUpper : ¬(0x41 ≤ c.toNat ∧ c.toNat ≤ 0x5a)) : lowerCase c = c := by
  unfold lowerCase
  rw [if_neg]
  simpa [UInt8.le_iff_toNat_le] using notUpper

/-! ## The strings -/

/-- Printable characters with no upper-case letter pass `CheckCharacters`,
whatever letters came before them. -/
theorem checkCharactersFrom_eq_nil (str : List UInt8)
    (printable : ∀ c ∈ str, 33 ≤ c.toNat ∧ c.toNat ≤ 126 ∧ ¬(0x41 ≤ c.toNat ∧ c.toNat ≤ 0x5a)) :
    ∀ i lower, checkCharactersFrom i lower false str = [] := by
  induction str with
  | nil => intro _ _; rfl
  | cons c rest inductionHypothesis =>
    intro i lower
    obtain ⟨low, high, notUpper⟩ := printable c List.mem_cons_self
    have restEmpty := inductionHypothesis fun d member => printable d (List.mem_cons_of_mem c member)
    simp only [checkCharactersFrom, ge_iff_le, UInt8.le_iff_toNat_le, UInt8.lt_iff_toNat_lt, UInt8.reduceToNat,
      gt_iff_lt, Bool.false_eq_true, if_false]
    split_ifs <;> first | omega | exact restEmpty _ _

theorem rfind_eq_none {c : UInt8} {str : List UInt8} (absent : c ∉ str) : rfind c str = none := by
  induction str with
  | nil => rfl
  | cons x rest inductionHypothesis =>
    rw [List.mem_cons, not_or] at absent
    rw [rfind, inductionHypothesis absent.2, if_neg (Ne.symm absent.1)]

/-- The last `c` of a string is the one after which no `c` comes. -/
theorem rfind_append_cons (c : UInt8) (front : List UInt8) {back : List UInt8} (absent : c ∉ back) :
    rfind c (front ++ c :: back) = some front.length := by
  induction front with
  | nil => rw [List.nil_append, rfind, rfind_eq_none absent, if_pos rfl, List.length_nil]
  | cons x front inductionHypothesis => rw [List.cons_append, rfind, inductionHypothesis, List.length_cons]

theorem rfind_eq_some {c : UInt8} {str : List UInt8} {pos : Nat} (found : rfind c str = some pos) :
    str = str.take pos ++ c :: str.drop (pos + 1) := by
  induction str generalizing pos with
  | nil => cases found
  | cons x rest inductionHypothesis =>
    unfold rfind at found
    split at found
    · rename_i later laterFound
      cases found
      rw [List.take_succ_cons, List.drop_succ_cons, List.cons_append, ← inductionHypothesis laterFound]
    · split_ifs at found with isC
      cases found
      rw [isC, List.take_zero, List.drop_one, List.tail_cons, List.nil_append]

/-- Written values read back. -/
theorem mapM_decodeValue_map {vs : List UInt8} (fiveBit : ∀ v ∈ vs, v.toNat < 32) :
    (vs.map charsetAt).mapM decodeValue = some vs := by
  induction vs with
  | nil => rfl
  | cons v vs inductionHypothesis =>
    rw [List.map_cons, List.mapM_cons, decodeValue_charsetAt (fiveBit v List.mem_cons_self),
      inductionHypothesis fun w member => fiveBit w (List.mem_cons_of_mem v member)]
    rfl

/-- Read values are 5-bit, and written back they give the string in lower case. -/
theorem mapM_decodeValue_eq_some {str vs : List UInt8} (decoded : str.mapM decodeValue = some vs) :
    (∀ v ∈ vs, v.toNat < 32) ∧ vs.map charsetAt = str.map lowerCase := by
  induction str generalizing vs with
  | nil =>
    cases decoded
    exact ⟨fun _ impossible => absurd impossible List.not_mem_nil, rfl⟩
  | cons c rest inductionHypothesis =>
    rw [List.mapM_cons] at decoded
    obtain ⟨v, first, decoded⟩ := Option.bind_eq_some_iff.mp decoded
    obtain ⟨more, restDecoded, joined⟩ := Option.bind_eq_some_iff.mp decoded
    cases joined
    obtain ⟨small, written⟩ := decodeValue_eq_some first
    obtain ⟨restSmall, restWritten⟩ := inductionHypothesis restDecoded
    refine ⟨?_, by rw [List.map_cons, List.map_cons, written, restWritten]⟩
    intro w member
    rcases List.mem_cons.mp member with rfl | later
    · exact small
    · exact restSmall w later

/-! ## The round trips -/

/-- `Decode` of a string written as an HRP, the separator and 5-bit values
with a valid checksum: it splits at the separator after the HRP and returns
the encoding `VerifyChecksum` finds, with the values before the checksum. -/
theorem decode_of_verified {encoding : Encoding} (valid : encoding ≠ .invalid) {hrp written : List UInt8}
    (hrpNonempty : hrp ≠ []) (hrpPrintable : ∀ c ∈ hrp, 33 ≤ c ∧ c ≤ 126 ∧ ¬(0x41 ≤ c ∧ c ≤ 0x5a))
    (fiveBit : ∀ v ∈ written, v.toNat < 32) (long : CHECKSUM_SIZE ≤ written.length) {limit : Nat}
    (fits : hrp.length + 1 + written.length ≤ limit) (verified : verifyChecksum hrp written = encoding) :
    decode (hrp ++ SEPARATOR :: written.map charsetAt) limit =
      ⟨encoding, hrp, written.take (written.length - CHECKSUM_SIZE)⟩ := by
  have printable : ∀ c ∈ hrp ++ SEPARATOR :: written.map charsetAt,
      33 ≤ c.toNat ∧ c.toNat ≤ 126 ∧ ¬(0x41 ≤ c.toNat ∧ c.toNat ≤ 0x5a) := by
    intro c member
    rw [List.mem_append, List.mem_cons, List.mem_map] at member
    rcases member with inHrp | rfl | ⟨v, inWritten, rfl⟩
    · simpa [UInt8.le_iff_toNat_le] using hrpPrintable c inHrp
    · decide
    · exact (charsetAt_printable (fiveBit v inWritten)).imp_right fun rest => ⟨rest.1, rest.2.1⟩
  have separatorLast : SEPARATOR ∉ written.map charsetAt := by
    rw [List.mem_map]
    rintro ⟨v, inWritten, separator⟩
    exact (charsetAt_printable (fiveBit v inWritten)).2.2.2 separator
  have length : (hrp ++ SEPARATOR :: written.map charsetAt).length = hrp.length + 1 + written.length := by
    simp
    omega
  have lowered : hrp.map lowerCase = hrp := by
    calc hrp.map lowerCase = hrp.map id := List.map_congr_left fun c member =>
          lowerCase_of_not_upper (by simpa [UInt8.le_iff_toNat_le] using (hrpPrintable c member).2.2)
      _ = hrp := List.map_id hrp
  have hrpPositive : hrp.length ≠ 0 := fun zero => hrpNonempty (List.length_eq_zero_iff.mp zero)
  have afterSeparator : (hrp ++ SEPARATOR :: written.map charsetAt).drop (hrp.length + 1) = written.map charsetAt := by
    simp
  have beforeSeparator : (hrp ++ SEPARATOR :: written.map charsetAt).take hrp.length = hrp := by
    simp
  unfold decode
  rw [checkCharacters, checkCharactersFrom_eq_nil _ printable, length, rfind_append_cons _ _ separatorLast]
  simp only [List.isEmpty_nil, Bool.not_true, Bool.false_eq_true, if_false]
  rw [if_neg (by omega), if_neg (by omega), afterSeparator, mapM_decodeValue_map fiveBit]
  simp only [beforeSeparator, lowered, verified]

/-- The string `Encode` writes: the HRP, the separator, and the values with
the checksum after them. -/
theorem encode_eq (encoding : Encoding) (hrp values : List UInt8) :
    encode encoding hrp values = hrp ++ SEPARATOR :: (values ++ createChecksum encoding hrp values).map charsetAt := by
  simp [encode]

/-- `VerifyChecksum` accepts what `CreateChecksum` appends, as the encoding it
was made for. -/
theorem verifyChecksum_createChecksum {encoding : Encoding} (valid : encoding ≠ .invalid) (hrp values : List UInt8) :
    verifyChecksum hrp (values ++ createChecksum encoding hrp values) = encoding :=
  (verifyChecksum_eq_iff valid).mpr (polyMod_createChecksum encoding hrp values)

theorem fiveBit_append_createChecksum (encoding : Encoding) (hrp : List UInt8) {values : List UInt8}
    (fiveBit : ∀ v ∈ values, v < 32) : ∀ v ∈ values ++ createChecksum encoding hrp values, v.toNat < 32 := by
  intro v member
  rcases List.mem_append.mp member with inValues | inChecksum
  · exact UInt8.lt_iff_toNat_lt.mp (fiveBit v inValues)
  · exact fiveBit_checksumValues _ v inChecksum

theorem length_append_createChecksum (encoding : Encoding) (hrp values : List UInt8) :
    (values ++ createChecksum encoding hrp values).length = values.length + CHECKSUM_SIZE := by
  rw [List.length_append, length_createChecksum]

/-- The data are what comes before the six of the checksum. -/
theorem take_append_createChecksum (encoding : Encoding) (hrp values : List UInt8) :
    (values ++ createChecksum encoding hrp values).take
      ((values ++ createChecksum encoding hrp values).length - CHECKSUM_SIZE) = values := by
  rw [length_append_createChecksum, Nat.add_sub_cancel, List.take_left]

/-- `Decode` reads back what `Encode` writes: for either encoding, every
non-empty HRP of printable characters without upper-case letters, and every
list of 5-bit values that fits the limit with the separator and the checksum. -/
theorem decode_encode {encoding : Encoding} (valid : encoding ≠ .invalid) {hrp values : List UInt8}
    (hrpNonempty : hrp ≠ []) (hrpPrintable : ∀ c ∈ hrp, 33 ≤ c ∧ c ≤ 126 ∧ ¬(0x41 ≤ c ∧ c ≤ 0x5a))
    (fiveBit : ∀ v ∈ values, v < 32) {limit : Nat}
    (fits : hrp.length + 1 + values.length + CHECKSUM_SIZE ≤ limit) :
    decode (encode encoding hrp values) limit = ⟨encoding, hrp, values⟩ := by
  rw [encode_eq, decode_of_verified valid hrpNonempty hrpPrintable (fiveBit_append_createChecksum encoding hrp fiveBit)
    (by rw [length_append_createChecksum]; omega) (by rw [length_append_createChecksum]; omega)
    (verifyChecksum_createChecksum valid hrp values), take_append_createChecksum]

theorem decode_encode_bc :
    Encoding.bech32 ≠ .invalid ∧ [0x62, 0x63] ≠ ([] : List UInt8) ∧
      (∀ c ∈ ([0x62, 0x63] : List UInt8), 33 ≤ c ∧ c ≤ 126 ∧ ¬(0x41 ≤ c ∧ c ≤ 0x5a)) ∧
      (∀ v ∈ ([0] : List UInt8), v < 32) ∧
      [0x62, 0x63].length + 1 + [0].length + CHECKSUM_SIZE ≤ CharLimit.BECH32 ∧
      decode (encode .bech32 [0x62, 0x63] [0]) CharLimit.BECH32 = ⟨.bech32, [0x62, 0x63], [0]⟩ := by
  have valid : Encoding.bech32 ≠ .invalid := by decide
  have nonempty : [0x62, 0x63] ≠ ([] : List UInt8) := List.cons_ne_nil _ _
  have printable : ∀ c ∈ ([0x62, 0x63] : List UInt8), 33 ≤ c ∧ c ≤ 126 ∧ ¬(0x41 ≤ c ∧ c ≤ 0x5a) := by
    simp [UInt8.le_iff_toNat_le]
  have fiveBit : ∀ v ∈ ([0] : List UInt8), v < 32 := by simp [UInt8.lt_iff_toNat_lt]
  have fits : [0x62, 0x63].length + 1 + [0].length + CHECKSUM_SIZE ≤ CharLimit.BECH32 := by decide
  exact ⟨valid, nonempty, printable, fiveBit, fits, decode_encode valid nonempty printable fiveBit fits⟩

/-- What an accepted string is made of: an HRP before the last separator, and
after it characters that all decode and that carry a valid checksum. -/
theorem decode_eq_valid {str : List UInt8} {limit : Nat} {result : DecodeResult}
    (decoded : decode str limit = result) (valid : result.encoding ≠ .invalid) :
    ∃ pos values, rfind SEPARATOR str = some pos ∧ pos ≠ 0 ∧ pos + CHECKSUM_SIZE < str.length ∧
      str.length ≤ limit ∧ (str.drop (pos + 1)).mapM decodeValue = some values ∧
      verifyChecksum ((str.take pos).map lowerCase) values = result.encoding ∧
      result.hrp = (str.take pos).map lowerCase ∧ result.data = values.take (values.length - CHECKSUM_SIZE) := by
  unfold decode at decoded
  split at decoded
  · subst decoded; exact absurd rfl valid
  split at decoded
  · subst decoded; exact absurd rfl valid
  rename_i short
  split at decoded
  · subst decoded; exact absurd rfl valid
  rename_i pos found
  split at decoded
  · subst decoded; exact absurd rfl valid
  rename_i bounds
  split at decoded
  · subst decoded; exact absurd rfl valid
  rename_i values read
  dsimp only at decoded
  split at decoded
  · subst decoded; exact absurd rfl valid
  subst decoded
  exact ⟨pos, values, found, by omega, by omega, by omega, read, rfl, rfl, rfl⟩

/-- An accepted string in lower case: the HRP, the separator, and 5-bit
values that end with a valid checksum, the data before it. -/
theorem map_lowerCase_of_decode {str : List UInt8} {limit : Nat} {result : DecodeResult}
    (decoded : decode str limit = result) (valid : result.encoding ≠ .invalid) :
    ∃ values, str.map lowerCase = result.hrp ++ SEPARATOR :: values.map charsetAt ∧ (∀ v ∈ values, v.toNat < 32) ∧
      CHECKSUM_SIZE ≤ values.length ∧ verifyChecksum result.hrp values = result.encoding ∧
      result.data = values.take (values.length - CHECKSUM_SIZE) := by
  obtain ⟨pos, values, found, -, bounds, -, read, verified, hrpEq, dataEq⟩ := decode_eq_valid decoded valid
  obtain ⟨fiveBit, written⟩ := mapM_decodeValue_eq_some read
  have length : values.length = str.length - (pos + 1) := by
    simpa using congrArg List.length written
  have separatorLower : lowerCase SEPARATOR = SEPARATOR := rfl
  refine ⟨values, ?_, fiveBit, by omega, hrpEq ▸ verified, dataEq⟩
  conv_lhs => rw [rfind_eq_some found]
  rw [List.map_append, List.map_cons, separatorLower, hrpEq, written]

/-- `Encode` writes a checksummed string back: 5-bit values that end with a
valid checksum are the data before it followed by `CreateChecksum`. -/
theorem encode_eq_of_verified {encoding : Encoding} (valid : encoding ≠ .invalid) {hrp values : List UInt8}
    (fiveBit : ∀ v ∈ values, v.toNat < 32) (long : CHECKSUM_SIZE ≤ values.length)
    (verified : verifyChecksum hrp values = encoding) :
    encode encoding hrp (values.take (values.length - CHECKSUM_SIZE)) = hrp ++ SEPARATOR :: values.map charsetAt := by
  have split : values = values.take (values.length - CHECKSUM_SIZE) ++ values.drop (values.length - CHECKSUM_SIZE) :=
    (List.take_append_drop _ _).symm
  have six : (values.drop (values.length - CHECKSUM_SIZE)).length = CHECKSUM_SIZE := by
    rw [List.length_drop]
    omega
  have checked := (verifyChecksum_eq_iff valid).mp verified
  rw [split] at checked
  have checksum := eq_createChecksum six (fun v member => fiveBit v (List.mem_of_mem_drop member)) checked
  unfold encode
  rw [← checksum, List.append_assoc, ← List.map_append, ← split, List.append_assoc, List.singleton_append]

/-- Every string `Decode` accepts is, with its letters in lower case, what
`Encode` writes for the result. -/
theorem encode_decode {str : List UInt8} {limit : Nat} {result : DecodeResult}
    (decoded : decode str limit = result) (valid : result.encoding ≠ .invalid) :
    encode result.encoding result.hrp result.data = str.map lowerCase := by
  obtain ⟨values, lowered, fiveBit, long, verified, dataEq⟩ := map_lowerCase_of_decode decoded valid
  rw [dataEq, encode_eq_of_verified valid fiveBit long verified, lowered]

/-- The upper-case test string `A12UEL5L` of BIP 173 decodes, and its
encoding is the string in lower case. -/
theorem encode_decode_upperCase :
    decode [0x41, 0x31, 0x32, 0x55, 0x45, 0x4c, 0x35, 0x4c] CharLimit.BECH32 = ⟨.bech32, [0x61], []⟩ ∧
      Encoding.bech32 ≠ .invalid ∧
      encode .bech32 [0x61] [] = [0x41, 0x31, 0x32, 0x55, 0x45, 0x4c, 0x35, 0x4c].map lowerCase := by
  have decoded : decode [0x41, 0x31, 0x32, 0x55, 0x45, 0x4c, 0x35, 0x4c] CharLimit.BECH32 =
      ⟨.bech32, [0x61], []⟩ := by
    decide
  have valid : Encoding.bech32 ≠ .invalid := by decide
  exact ⟨decoded, valid, encode_decode decoded valid⟩

end Bech32

end Qbitcoin
