import Qbitcoin.Lib.XorLinear
import Mathlib.Data.UInt

/-!
# Bech32 and Bech32m

`bech32.cpp`: a string is a human-readable part, the separator `1`, and 5-bit
values written with a 32-character alphabet, the last six of them a checksum.
The checksum is a BCH code over GF(32) computed by `PolyMod`, whose step is
linear in exclusive or (`polyModStep_linear`).  That is all the algebra the
codec needs: a checksum computed over six zeros is the correction that brings
`PolyMod` to the encoding's constant (`polyMod_createChecksum`), and it is the
only such correction (`eq_createChecksum`).

Strings are their bytes.  `hrp[i] >> 5` reads a `char`, signed on the
platforms the node is built for; the other reads are of `unsigned char`.
-/

namespace Qbitcoin

namespace Bech32

/-- `CHECKSUM_SIZE`. -/
def CHECKSUM_SIZE : Nat := 6

/-- `SEPARATOR`, the character `1`. -/
def SEPARATOR : UInt8 := 0x31

/-- `CharLimit::BECH32`. -/
def CharLimit.BECH32 : Nat := 90

/-- `Encoding`. -/
inductive Encoding where
  | invalid
  | bech32
  | bech32m
  deriving DecidableEq, Repr

/-- `CHARSET`, the bytes of `qpzry9x8gf2tvdw0s3jn54khce6mua7l`. -/
def CHARSET : List UInt8 :=
  [0x71, 0x70, 0x7a, 0x72, 0x79, 0x39, 0x78, 0x38, 0x67, 0x66, 0x32, 0x74, 0x76, 0x64, 0x77, 0x30,
   0x73, 0x33, 0x6a, 0x6e, 0x35, 0x34, 0x6b, 0x68, 0x63, 0x65, 0x36, 0x6d, 0x75, 0x61, 0x37, 0x6c]

/-- `CHARSET_REV`: the value of each character, `-1` for those outside the
alphabet. -/
def CHARSET_REV : List Int :=
  [-1, -1, -1, -1, -1, -1, -1, -1, -1, -1, -1, -1, -1, -1, -1, -1,
   -1, -1, -1, -1, -1, -1, -1, -1, -1, -1, -1, -1, -1, -1, -1, -1,
   -1, -1, -1, -1, -1, -1, -1, -1, -1, -1, -1, -1, -1, -1, -1, -1,
   15, -1, 10, 17, 21, 20, 26, 30, 7, 5, -1, -1, -1, -1, -1, -1,
   -1, 29, -1, 24, 13, 25, 9, 8, 23, -1, 18, 22, 31, 27, 19, -1,
   1, 0, 3, 16, 11, 28, 12, 14, 6, 4, 2, -1, -1, -1, -1, -1,
   -1, 29, -1, 24, 13, 25, 9, 8, 23, -1, 18, 22, 31, 27, 19, -1,
   1, 0, 3, 16, 11, 28, 12, 14, 6, 4, 2, -1, -1, -1, -1, -1]

/-- `CHARSET[i]`; past the 32 characters the literal's terminating zero. -/
def charsetAt (i : UInt8) : UInt8 := CHARSET.getD i.toNat 0

/-- `CHARSET_REV[c]`; a byte past the table reads as `-1`. -/
def charsetRev (c : UInt8) : Int := CHARSET_REV.getD c.toNat (-1)

/-- `EncodingConstant`; its assertion excludes `INVALID`. -/
def encodingConstant (encoding : Encoding) : UInt32 := if encoding = .bech32 then 1 else 0x2bc830a3

/-! ## `PolyMod` -/

/-- One iteration of the loop of `PolyMod`: shift in `v_i`, and add the
generator's multiples selected by the five bits shifted out. -/
def polyModStep (c : UInt32) (v_i : UInt8) : UInt32 :=
  let c0 : UInt8 := (c >>> 25).toUInt8
  let c := ((c &&& 0x1ffffff) <<< 5) ^^^ v_i.toUInt32
  let c := if c0 &&& 1 ≠ 0 then c ^^^ 0x3b6a57b2 else c
  let c := if c0 &&& 2 ≠ 0 then c ^^^ 0x26508e6d else c
  let c := if c0 &&& 4 ≠ 0 then c ^^^ 0x1ea119fa else c
  let c := if c0 &&& 8 ≠ 0 then c ^^^ 0x3d4233dd else c
  if c0 &&& 16 ≠ 0 then c ^^^ 0x2a1462b3 else c

/-- `PolyMod`. -/
def polyMod (v : List UInt8) : UInt32 := v.foldl polyModStep 1

/-- `hrp[i] >> 5` on a signed `char`, stored in a byte. -/
def charShiftFive (c : UInt8) : UInt8 := (c.toInt8 >>> 5).toUInt8

/-- `PreparePolynomialCoefficients`: the expanded HRP, then the values. -/
def preparePolynomialCoefficients (hrp values : List UInt8) : List UInt8 :=
  hrp.map charShiftFive ++ [0] ++ hrp.map (· &&& 0x1f) ++ values

/-- `VerifyChecksum`. -/
def verifyChecksum (hrp values : List UInt8) : Encoding :=
  let check := polyMod (preparePolynomialCoefficients hrp values)
  if check = encodingConstant .bech32 then .bech32
  else if check = encodingConstant .bech32m then .bech32m
  else .invalid

/-- The loop of `CreateChecksum`: the six 5-bit groups of `mod`, the most
significant first. -/
def checksumValues (mod : UInt32) : List UInt8 :=
  (List.range CHECKSUM_SIZE).map fun i => ((mod >>> (5 * (5 - i)).toUInt32) &&& 31).toUInt8

/-- `CreateChecksum`. -/
def createChecksum (encoding : Encoding) (hrp values : List UInt8) : List UInt8 :=
  let enc := preparePolynomialCoefficients hrp values ++ List.replicate CHECKSUM_SIZE 0
  checksumValues (polyMod enc ^^^ encodingConstant encoding)

/-! ## The codec -/

/-- `Encode`; its assertion that the HRP has no upper-case letter is a
precondition. -/
def encode (encoding : Encoding) (hrp values : List UInt8) : List UInt8 :=
  hrp ++ [SEPARATOR] ++ values.map charsetAt ++ (createChecksum encoding hrp values).map charsetAt

/-- `LowerCase`. -/
def lowerCase (c : UInt8) : UInt8 := if c ≥ 0x41 ∧ c ≤ 0x5a then c - 0x41 + 0x61 else c

/-- The loop of `CheckCharacters` from position `i`, with whether a lower-case
and an upper-case letter were seen: the positions of the characters it
rejects. -/
def checkCharactersFrom (i : Nat) (lower upper : Bool) : List UInt8 → List Nat
  | [] => []
  | c :: rest =>
    if c ≥ 0x61 ∧ c ≤ 0x7a then
      if upper then i :: checkCharactersFrom (i + 1) lower upper rest
      else checkCharactersFrom (i + 1) true upper rest
    else if c ≥ 0x41 ∧ c ≤ 0x5a then
      if lower then i :: checkCharactersFrom (i + 1) lower upper rest
      else checkCharactersFrom (i + 1) lower true rest
    else if c < 33 ∨ c > 126 then i :: checkCharactersFrom (i + 1) lower upper rest
    else checkCharactersFrom (i + 1) lower upper rest

/-- `CheckCharacters`: the positions of the invalid characters; it succeeds
when there is none. -/
def checkCharacters (str : List UInt8) : List Nat := checkCharactersFrom 0 false false str

/-- `std::string::rfind(c)`: the position of the last `c`, `none` for `npos`. -/
def rfind (c : UInt8) : List UInt8 → Option Nat
  | [] => none
  | x :: rest =>
    match rfind c rest with
    | some i => some (i + 1)
    | none => if x = c then some 0 else none

/-- `DecodeResult`. -/
structure DecodeResult where
  encoding : Encoding
  hrp : List UInt8
  data : List UInt8
  deriving DecidableEq, Repr

/-- `DecodeResult()`: a failed decoding. -/
def DecodeResult.invalid : DecodeResult := ⟨.invalid, [], []⟩

/-- The value of one character after the separator, `none` where `CHARSET_REV`
has `-1`. -/
def decodeValue (c : UInt8) : Option UInt8 :=
  if charsetRev c = -1 then none else some (charsetRev c).toNat.toUInt8

/-- `Decode(str, limit)`. -/
def decode (str : List UInt8) (limit : Nat) : DecodeResult :=
  if !(checkCharacters str).isEmpty then .invalid
  else if str.length > limit then .invalid
  else
    match rfind SEPARATOR str with
    | none => .invalid
    | some pos =>
      if pos = 0 ∨ pos + CHECKSUM_SIZE ≥ str.length then .invalid
      else
        match (str.drop (pos + 1)).mapM decodeValue with
        | none => .invalid
        | some values =>
          let hrp := (str.take pos).map lowerCase
          match verifyChecksum hrp values with
          | .invalid => .invalid
          | result => ⟨result, hrp, values.take (values.length - CHECKSUM_SIZE)⟩

/-! ## The step of `PolyMod` is linear -/

/-- The multiples of the generator the step adds for the bits `c0` shifted out. -/
def generator (c0 : UInt8) : UInt32 :=
  (if c0 &&& 1 ≠ 0 then 0x3b6a57b2 else 0) ^^^ (if c0 &&& 2 ≠ 0 then 0x26508e6d else 0) ^^^
    (if c0 &&& 4 ≠ 0 then 0x1ea119fa else 0) ^^^ (if c0 &&& 8 ≠ 0 then 0x3d4233dd else 0) ^^^
    (if c0 &&& 16 ≠ 0 then 0x2a1462b3 else 0)

theorem polyModStep_eq (c : UInt32) (v_i : UInt8) :
    polyModStep c v_i = ((c &&& 0x1ffffff) <<< 5) ^^^ v_i.toUInt32 ^^^ generator (c >>> 25).toUInt8 := by
  unfold polyModStep generator
  dsimp only
  split_ifs <;> (try simp only [UInt32.xor_zero]) <;> ac_rfl

theorem and_ne_zero_iff_testBit (x m : UInt8) {k : Nat} (bit : m.toNat = 2 ^ k) :
    (x &&& m ≠ 0) ↔ x.toNat.testBit k = true := by
  rw [ne_eq, UInt8.ext_iff, UInt8.toNat_and, bit, Nat.and_two_pow]
  cases x.toNat.testBit k <;> simp

theorem ite_xor_ite (p q : Bool) (k : UInt32) :
    (if (p ^^ q) = true then k else 0) = (if p = true then k else 0) ^^^ (if q = true then k else 0) := by
  cases p <;> cases q <;> simp

theorem generator_xor (x y : UInt8) : generator (x ^^^ y) = generator x ^^^ generator y := by
  unfold generator
  simp only [and_ne_zero_iff_testBit _ 1 (show (1 : UInt8).toNat = 2 ^ 0 from rfl),
    and_ne_zero_iff_testBit _ 2 (show (2 : UInt8).toNat = 2 ^ 1 from rfl),
    and_ne_zero_iff_testBit _ 4 (show (4 : UInt8).toNat = 2 ^ 2 from rfl),
    and_ne_zero_iff_testBit _ 8 (show (8 : UInt8).toNat = 2 ^ 3 from rfl),
    and_ne_zero_iff_testBit _ 16 (show (16 : UInt8).toNat = 2 ^ 4 from rfl),
    UInt8.toNat_xor, Nat.testBit_xor, ite_xor_ite]
  ac_rfl

theorem xor_and (a b m : UInt32) : (a ^^^ b) &&& m = (a &&& m) ^^^ (b &&& m) := by
  rw [UInt32.ext_iff, UInt32.toNat_and, UInt32.toNat_xor, UInt32.toNat_xor, UInt32.toNat_and, UInt32.toNat_and,
    Nat.and_xor_distrib_right]

theorem polyModStep_linear : XorLinear polyModStep := by
  intro a b x y
  simp only [polyModStep_eq, UInt32.shiftRight_xor, UInt32.toUInt8_xor, generator_xor, UInt8.toUInt32_xor,
    xor_and, UInt32.shiftLeft_xor]
  ac_rfl

/-! ## The residue stays within 30 bits -/

theorem generator_lt (c0 : UInt8) : (generator c0).toNat < 2 ^ 30 := by
  unfold generator
  simp only [UInt32.toNat_xor]
  refine Nat.xor_lt_two_pow (Nat.xor_lt_two_pow (Nat.xor_lt_two_pow (Nat.xor_lt_two_pow ?_ ?_) ?_) ?_) ?_ <;>
    split <;> simp

theorem polyModStep_lt (c : UInt32) (v_i : UInt8) : (polyModStep c v_i).toNat < 2 ^ 30 := by
  rw [polyModStep_eq, UInt32.toNat_xor, UInt32.toNat_xor]
  refine Nat.xor_lt_two_pow (Nat.xor_lt_two_pow ?_ ?_) (generator_lt _)
  · rw [UInt32.toNat_shiftLeft, UInt32.toNat_and]
    have masked : c.toNat &&& (0x1ffffff : UInt32).toNat < 2 ^ 25 := Nat.and_lt_two_pow _ (by decide)
    simp only [UInt32.reduceToNat, Nat.reduceMod, Nat.shiftLeft_eq] at masked ⊢
    omega
  · have := v_i.toNat_lt
    simp only [UInt8.toNat_toUInt32]
    omega

theorem polyMod_lt {v : List UInt8} (nonempty : v ≠ []) : (polyMod v).toNat < 2 ^ 30 := by
  rw [polyMod, ← List.dropLast_append_getLast nonempty, List.foldl_append, List.foldl_cons, List.foldl_nil]
  exact polyModStep_lt _ _

/-! ## Six 5-bit values from zero -/

/-- Below `2 ^ 25` the step only shifts in its value. -/
theorem polyModStep_small {c : UInt32} {v_i : UInt8} (small : c.toNat < 2 ^ 25) (fiveBit : v_i.toNat < 32) :
    (polyModStep c v_i).toNat = c.toNat * 32 + v_i.toNat := by
  have top : (c >>> 25).toUInt8 = 0 := by
    rw [UInt8.ext_iff, UInt32.toNat_toUInt8, UInt32.toNat_shiftRight]
    simp only [UInt32.reduceToNat, Nat.reduceMod, Nat.shiftRight_eq_div_pow]
    rw [Nat.div_eq_of_lt small]
    rfl
  have masked : (c &&& 0x1ffffff).toNat = c.toNat := by
    rw [UInt32.toNat_and, show (0x1ffffff : UInt32).toNat = 2 ^ 25 - 1 from rfl, Nat.and_two_pow_sub_one_eq_mod,
      Nat.mod_eq_of_lt small]
  rw [polyModStep_eq, top, show generator 0 = 0 from rfl, UInt32.xor_zero, UInt32.toNat_xor,
    UInt32.toNat_shiftLeft, masked, UInt8.toNat_toUInt32]
  simp only [UInt32.reduceToNat, Nat.reduceMod, Nat.shiftLeft_eq]
  rw [Nat.mod_eq_of_lt (by omega)]
  exact mul_two_pow_xor_of_lt c.toNat v_i.toNat 5 fiveBit

/-- A run over 5-bit values that cannot reach bit 30 reads them as base-32
digits. -/
theorem foldl_polyModStep_small (vs : List UInt8) (fiveBit : ∀ v ∈ vs, v.toNat < 32) :
    ∀ c : UInt32, (c.toNat + 1) * 32 ^ vs.length ≤ 2 ^ 30 →
      (vs.foldl polyModStep c).toNat = vs.foldl (fun acc v => acc * 32 + v.toNat) c.toNat := by
  induction vs with
  | nil => intro c _; rfl
  | cons v vs inductionHypothesis =>
    intro c room
    have digit := fiveBit v List.mem_cons_self
    have pow : 32 ≤ 32 ^ (vs.length + 1) := Nat.le_self_pow (by omega) 32
    have small : c.toNat < 2 ^ 25 := by
      have : (c.toNat + 1) * 32 ≤ 2 ^ 30 := (Nat.mul_le_mul_left _ pow).trans (by simpa using room)
      omega
    have stepped := polyModStep_small small digit
    rw [List.foldl_cons, List.foldl_cons, ← stepped]
    refine inductionHypothesis (fun w member => fiveBit w (List.mem_cons_of_mem v member)) _ ?_
    calc ((polyModStep c v).toNat + 1) * 32 ^ vs.length ≤ (c.toNat + 1) * 32 * 32 ^ vs.length :=
          Nat.mul_le_mul_right _ (by omega)
      _ = (c.toNat + 1) * 32 ^ (vs.length + 1) := by rw [Nat.pow_succ, Nat.mul_comm (32 ^ _), Nat.mul_assoc]
      _ ≤ 2 ^ 30 := by simpa using room

theorem toNat_checksumValue (mod : UInt32) {k : Nat} (small : k < 32) :
    ((mod >>> k.toUInt32) &&& 31).toUInt8.toNat = mod.toNat / 2 ^ k % 32 := by
  rw [UInt32.toNat_toUInt8, UInt32.toNat_and, show (31 : UInt32).toNat = 2 ^ 5 - 1 from rfl,
    Nat.and_two_pow_sub_one_eq_mod, UInt32.toNat_shiftRight, Nat.shiftRight_eq_div_pow]
  rw [Nat.toUInt32_eq, UInt32.toNat_ofNat', Nat.mod_eq_of_lt (by omega : k < 2 ^ 32), Nat.mod_eq_of_lt small]
  omega

theorem checksumValues_eq (mod : UInt32) :
    (checksumValues mod).map UInt8.toNat =
      [mod.toNat / 2 ^ 25 % 32, mod.toNat / 2 ^ 20 % 32, mod.toNat / 2 ^ 15 % 32, mod.toNat / 2 ^ 10 % 32,
        mod.toNat / 2 ^ 5 % 32, mod.toNat / 2 ^ 0 % 32] := by
  simp only [checksumValues, CHECKSUM_SIZE, List.range_succ, List.range_zero, List.nil_append,
    List.cons_append, List.map_cons, List.map_nil]
  simp only [toNat_checksumValue mod (by decide : (25 : Nat) < 32), toNat_checksumValue mod (by decide : 20 < 32),
    toNat_checksumValue mod (by decide : 15 < 32), toNat_checksumValue mod (by decide : 10 < 32),
    toNat_checksumValue mod (by decide : 5 < 32), toNat_checksumValue mod (by decide : 0 < 32)]

theorem fiveBit_checksumValues (mod : UInt32) : ∀ v ∈ checksumValues mod, v.toNat < 32 := by
  intro v member
  have digit : v.toNat ∈ (checksumValues mod).map UInt8.toNat := List.mem_map_of_mem member
  rw [checksumValues_eq] at digit
  simp only [List.mem_cons, List.not_mem_nil, or_false] at digit
  omega

theorem length_checksumValues (mod : UInt32) : (checksumValues mod).length = CHECKSUM_SIZE := by
  simp [checksumValues]

theorem foldl_checksumValues {mod : UInt32} (small : mod.toNat < 2 ^ 30) :
    (checksumValues mod).foldl polyModStep 0 = mod := by
  have room : (0 + 1) * 32 ^ (checksumValues mod).length ≤ 2 ^ 30 := by
    rw [length_checksumValues]
    decide
  rw [UInt32.ext_iff, foldl_polyModStep_small _ (fiveBit_checksumValues mod) 0 room, ← List.foldl_map,
    checksumValues_eq]
  simp only [List.foldl_cons, List.foldl_nil, UInt32.reduceToNat]
  omega

theorem eq_checksumValues {cs : List UInt8} (six : cs.length = CHECKSUM_SIZE) (fiveBit : ∀ v ∈ cs, v.toNat < 32) :
    cs = checksumValues (cs.foldl polyModStep 0) := by
  apply List.map_injective_iff.mpr (fun _ _ same => UInt8.toNat_inj.mp same)
  rw [checksumValues_eq, foldl_polyModStep_small _ fiveBit 0 (by rw [six]; decide), ← List.foldl_map]
  rcases cs with _ | ⟨a, _ | ⟨b, _ | ⟨c, _ | ⟨d, _ | ⟨e, _ | ⟨f, _ | ⟨g, rest⟩⟩⟩⟩⟩⟩⟩ <;>
    simp only [CHECKSUM_SIZE, List.length_cons, List.length_nil] at six <;> try omega
  have digits : a.toNat < 32 ∧ b.toNat < 32 ∧ c.toNat < 32 ∧ d.toNat < 32 ∧ e.toNat < 32 ∧ f.toNat < 32 := by
    simpa using fiveBit
  simp only [List.map_cons, List.map_nil, List.foldl_cons, List.foldl_nil, UInt32.reduceToNat, List.cons.injEq,
    Nat.reducePow]
  refine ⟨?_, ?_, ?_, ?_, ?_, ?_, trivial⟩ <;> omega

/-! ## The checksum -/

theorem preparePolynomialCoefficients_append (hrp values more : List UInt8) :
    preparePolynomialCoefficients hrp (values ++ more) = preparePolynomialCoefficients hrp values ++ more := by
  simp [preparePolynomialCoefficients]

/-- `PolyMod` of a message followed by a correction: that of the message
followed by zeros, and the correction read from zero on top. -/
theorem polyMod_append (pre fix : List UInt8) :
    polyMod (pre ++ fix) = polyMod (pre ++ List.replicate fix.length 0) ^^^ fix.foldl polyModStep 0 :=
  polyModStep_linear.foldl_append (fun _ => UInt32.xor_zero) (fun _ => UInt8.zero_xor) 1 pre fix

theorem encodingConstant_lt (encoding : Encoding) : (encodingConstant encoding).toNat < 2 ^ 30 := by
  unfold encodingConstant
  split <;> simp

theorem length_createChecksum (encoding : Encoding) (hrp values : List UInt8) :
    (createChecksum encoding hrp values).length = CHECKSUM_SIZE :=
  length_checksumValues _

/-- The checksum brings `PolyMod` to the encoding's constant. -/
theorem polyMod_createChecksum (encoding : Encoding) (hrp values : List UInt8) :
    polyMod (preparePolynomialCoefficients hrp (values ++ createChecksum encoding hrp values)) =
      encodingConstant encoding := by
  have residue : (polyMod (preparePolynomialCoefficients hrp values ++ List.replicate CHECKSUM_SIZE 0) ^^^
      encodingConstant encoding).toNat < 2 ^ 30 := by
    rw [UInt32.toNat_xor]
    exact Nat.xor_lt_two_pow (polyMod_lt (by simp [preparePolynomialCoefficients])) (encodingConstant_lt encoding)
  rw [preparePolynomialCoefficients_append, polyMod_append, length_createChecksum, createChecksum,
    foldl_checksumValues residue, ← UInt32.xor_assoc, UInt32.xor_self, UInt32.zero_xor]

/-- It is the only six 5-bit values that do. -/
theorem eq_createChecksum {encoding : Encoding} {hrp values cs : List UInt8} (six : cs.length = CHECKSUM_SIZE)
    (fiveBit : ∀ v ∈ cs, v.toNat < 32)
    (checked : polyMod (preparePolynomialCoefficients hrp (values ++ cs)) = encodingConstant encoding) :
    cs = createChecksum encoding hrp values := by
  rw [preparePolynomialCoefficients_append, polyMod_append, six] at checked
  have read : cs.foldl polyModStep 0 =
      polyMod (preparePolynomialCoefficients hrp values ++ List.replicate CHECKSUM_SIZE 0) ^^^
        encodingConstant encoding := by
    rw [← checked, ← UInt32.xor_assoc, UInt32.xor_self, UInt32.zero_xor]
  rw [eq_checksumValues six fiveBit, read]
  rfl

theorem verifyChecksum_eq_iff {hrp values : List UInt8} {encoding : Encoding} (valid : encoding ≠ .invalid) :
    verifyChecksum hrp values = encoding ↔
      polyMod (preparePolynomialCoefficients hrp values) = encodingConstant encoding := by
  have distinct : encodingConstant .bech32m ≠ encodingConstant .bech32 := by decide
  unfold verifyChecksum
  dsimp only
  cases encoding with
  | invalid => exact absurd rfl valid
  | bech32 => split_ifs <;> simp_all
  | bech32m => split_ifs <;> simp_all [Ne.symm distinct]

end Bech32

end Qbitcoin
