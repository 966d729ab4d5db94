import Qbitcoin.Script.Types

/-!
# Signature and key encodings, `FindAndDelete`

The static helpers of `script/interpreter.cpp` that `OP_CHECKSIG` and
`OP_CHECKMULTISIG` apply before any signature is checked.

This fork extends the public-key tests to accept 1952-byte Dilithium keys,
while the signature test `IsValidSignatureEncoding` is still the strict-DER
test written for ECDSA signatures of at most 73 bytes
(`isValidSignatureEncoding_of_long`).  Its index computations accept exactly
the BIP66 grammar `IsStrictDERSignature`: the proof cuts an accepted signature
at the lengths it declares (`frame_of_isValidSignatureEncoding`) and reads every
check on the cut form (`isValidSignatureEncoding_frame`).
-/

namespace Qbitcoin

open ByteCodec

/-- `CastToBool`: some byte is non-zero, except that a final `0x80` alone is
negative zero. -/
def castToBool : valtype → Bool
  | [] => false
  | [last] => last != 0 && last != 0x80
  | byte :: next :: rest => byte != 0 || castToBool (next :: rest)

/-- `IsValidSignatureEncoding`: strict DER `0x30 len 0x02 lenR R 0x02 lenS S`
followed by one hash-type byte. -/
def isValidSignatureEncoding (sig : valtype) : Bool :=
  let byte (i : Nat) : Nat := (sig.getD i 0).toNat
  if sig.length < 9 then false
  else if sig.length > 73 then false
  else if byte 0 != 0x30 then false
  else if byte 1 != sig.length - 3 then false
  else
    let lenR := byte 3
    if 5 + lenR ≥ sig.length then false
    else
      let lenS := byte (5 + lenR)
      if lenR + lenS + 7 != sig.length then false
      else if byte 2 != 0x02 then false
      else if lenR == 0 then false
      else if byte 4 &&& 0x80 != 0 then false
      else if lenR > 1 && byte 4 == 0x00 && byte 5 &&& 0x80 == 0 then false
      else if byte (lenR + 4) != 0x02 then false
      else if lenS == 0 then false
      else if byte (lenR + 6) &&& 0x80 != 0 then false
      else if lenS > 1 && byte (lenR + 6) == 0x00 && byte (lenR + 7) &&& 0x80 == 0 then false
      else true

/-- Every signature longer than 73 bytes fails the DER test, whatever its content. -/
theorem isValidSignatureEncoding_of_long {sig : valtype} (long : 73 < sig.length) :
    isValidSignatureEncoding sig = false := by
  simp [isValidSignatureEncoding, long, Nat.not_lt.mpr (by omega : 9 ≤ sig.length)]

/-! ## The strict-DER grammar -/

/-- A DER integer as BIP66 wants it: at least one byte, the first below `0x80`
(not negative), and a leading zero only before a byte with its top bit set. -/
def IsDERInteger : valtype → Prop
  | [] => False
  | [first] => first < 0x80
  | first :: next :: _ => first < 0x80 ∧ (first = 0 → 0x80 ≤ next)

instance : DecidablePred IsDERInteger
  | [] => isFalse id
  | [first] => inferInstanceAs (Decidable (first < 0x80))
  | first :: next :: _ => inferInstanceAs (Decidable (first < 0x80 ∧ (first = 0 → 0x80 ≤ next)))

example : IsDERInteger [0x00, 0x80] ∧ ¬ IsDERInteger [0x00, 0x7f] ∧ ¬ IsDERInteger [0x80] := by decide

theorem IsDERInteger.length_pos {x : valtype} (der : IsDERInteger x) : 0 < x.length := by
  cases x with
  | nil => exact der.elim
  | cons => simp

/-- The integer checks of `IsValidSignatureEncoding`, read on an integer `x`
followed by the rest of the signature, are `IsDERInteger x`. -/
theorem isDERInteger_iff (x tail : valtype) :
    IsDERInteger x ↔ x.length ≠ 0 ∧ ((x ++ tail).getD 0 0).toNat &&& 0x80 = 0 ∧
      ¬ (1 < x.length ∧ ((x ++ tail).getD 0 0).toNat = 0 ∧ ((x ++ tail).getD 1 0).toNat &&& 0x80 = 0) := by
  match x with
  | [] => simp [IsDERInteger]
  | [first] => simp [IsDERInteger, toNat_and_0x80_eq_zero_iff]
  | first :: next :: rest =>
      simp [IsDERInteger, toNat_and_0x80_eq_zero_iff, ← UInt8.toNat_inj]

/-- On a signature cut where its two length bytes say, the checks of
`IsValidSignatureEncoding` are the size bound, the header and tag bytes, the
total length byte and the two integer tests. -/
theorem isValidSignatureEncoding_frame {a b c d e f h : UInt8} {R S : valtype}
    (lenR : d.toNat = R.length) (lenS : f.toNat = S.length) :
    isValidSignatureEncoding (a :: b :: c :: d :: (R ++ e :: f :: (S ++ [h]))) = true ↔
      R.length + S.length + 7 ≤ 73 ∧ a = 0x30 ∧ b.toNat = R.length + S.length + 4 ∧ c = 0x02 ∧
        e = 0x02 ∧ IsDERInteger R ∧ IsDERInteger S := by
  have byteR4 : (a :: b :: c :: d :: (R ++ e :: f :: (S ++ [h]))).getD (R.length + 4) 0 = e := by
    simp
  have byteR5 : (a :: b :: c :: d :: (R ++ e :: f :: (S ++ [h]))).getD (5 + R.length) 0 = f := by
    simp [Nat.add_comm 5]
  have byteR6 : (a :: b :: c :: d :: (R ++ e :: f :: (S ++ [h]))).getD (R.length + 6) 0 = (S ++ [h]).getD 0 0 := by
    simp
  have byteR7 : (a :: b :: c :: d :: (R ++ e :: f :: (S ++ [h]))).getD (R.length + 7) 0 = (S ++ [h]).getD 1 0 := by
    simp [List.getElem?_append_right]
  rw [isDERInteger_iff R (e :: f :: (S ++ [h])), isDERInteger_iff S [h]]
  unfold isValidSignatureEncoding
  simp only [byteR4, byteR5, byteR6, byteR7, lenR, lenS, List.getD_cons_zero, List.getD_cons_succ]
  simp [← UInt8.toNat_inj]
  simp only [← List.length_eq_zero_iff]
  omega

/-- An accepted signature cuts into the header, `R`, the header of `S`, `S` and
the hash type, at the lengths its length bytes declare. -/
theorem frame_of_isValidSignatureEncoding {sig : valtype} (valid : isValidSignatureEncoding sig = true) :
    ∃ a b c d e f h R S, sig = a :: b :: c :: d :: (R ++ e :: f :: (S ++ [h])) ∧
      d.toNat = R.length ∧ f.toNat = S.length := by
  unfold isValidSignatureEncoding at valid
  simp at valid
  obtain ⟨long, -, -, -, room, sized, -⟩ := valid
  match sig with
  | a :: b :: c :: d :: T =>
      simp only [List.getElem?_cons_succ, List.getElem?_cons_zero, Option.getD_some, List.length_cons] at room sized
      rw [show 5 + d.toNat = d.toNat + 1 + 4 by omega] at sized
      simp only [List.getElem?_cons_succ] at sized
      have lenR : (T.take d.toNat).length = d.toNat := List.length_take_of_le (by omega)
      obtain ⟨e, f, V, after⟩ : ∃ e f V, T.drop d.toNat = e :: f :: V := by
        match drop : T.drop d.toNat with
        | e :: f :: V => exact ⟨e, f, V, rfl⟩
        | [] | [_] =>
            have shortDrop := congrArg List.length drop
            simp only [List.length_drop, List.length_nil, List.length_singleton] at shortDrop
            omega
      have cut : T = T.take d.toNat ++ e :: f :: V := by rw [← after, List.take_append_drop]
      have byteS : T[d.toNat + 1]? = some f := by
        rw [cut, List.getElem?_append_right (by omega), lenR]
        simp
      have lenV : V.length = f.toNat + 1 := by
        have lenT := congrArg List.length cut
        simp only [List.length_append, List.length_cons, lenR] at lenT
        rw [byteS, Option.getD_some] at sized
        omega
      have nonEmpty : V ≠ [] := List.ne_nil_of_length_pos (by omega)
      refine ⟨a, b, c, d, e, f, V.getLast nonEmpty, T.take d.toNat, V.dropLast, ?_, lenR.symm, ?_⟩
      · rw [List.dropLast_append_getLast nonEmpty, ← cut]
      · simp [lenV]

/-- Strict DER with a hash-type byte, the grammar of BIP66:
`0x30 L 0x02 lenR R 0x02 lenS S hashtype` where `L` counts every byte but the
first two and the hash type, and `R` and `S` are DER integers. -/
def IsStrictDERSignature (sig : valtype) : Prop :=
  ∃ R S hashtype, sig = 0x30 :: UInt8.ofNat (sig.length - 3) :: 0x02 :: UInt8.ofNat R.length ::
      (R ++ 0x02 :: UInt8.ofNat S.length :: (S ++ [hashtype])) ∧
    9 ≤ sig.length ∧ sig.length ≤ 73 ∧ IsDERInteger R ∧ IsDERInteger S

/-- `IsValidSignatureEncoding` accepts exactly the strict-DER signatures with a
hash-type byte. -/
theorem isValidSignatureEncoding_iff_strictDER (sig : valtype) :
    isValidSignatureEncoding sig = true ↔ IsStrictDERSignature sig := by
  constructor
  · intro valid
    obtain ⟨a, b, c, d, e, f, h, R, S, rfl, lenR, lenS⟩ := frame_of_isValidSignatureEncoding valid
    obtain ⟨short, rfl, declared, rfl, rfl, derR, derS⟩ := (isValidSignatureEncoding_frame lenR lenS).mp valid
    have length : (0x30 :: b :: 0x02 :: d :: (R ++ 0x02 :: f :: (S ++ [h]))).length = R.length + S.length + 7 := by
      simp only [List.length_cons, List.length_append, List.length_nil]
      omega
    have nonEmpty := derR.length_pos
    have nonEmptyS := derS.length_pos
    have lenB : UInt8.ofNat (R.length + S.length + 7 - 3) = b := by
      rw [show R.length + S.length + 7 - 3 = b.toNat by omega, UInt8.ofNat_toNat]
    refine ⟨R, S, h, ?_, by rw [length]; omega, by rw [length]; omega, derR, derS⟩
    rw [length, lenB, ← lenR, ← lenS, UInt8.ofNat_toNat, UInt8.ofNat_toNat]
  · rintro ⟨R, S, h, shape, long, short, derR, derS⟩
    have length := congrArg List.length shape
    simp only [List.length_cons, List.length_append, List.length_nil] at length
    have toNat_of_le {n : Nat} (fits : n ≤ 73) : (UInt8.ofNat n).toNat = n :=
      UInt8.toNat_ofNat_of_lt' (by simp [UInt8.size]; omega)
    rw [shape]
    refine (isValidSignatureEncoding_frame (toNat_of_le (by omega)) (toNat_of_le (by omega))).mpr
      ⟨by omega, rfl, ?_, rfl, rfl, derR, derS⟩
    rw [toNat_of_le (by omega)]
    omega

/-- `IsLowDERSignature`: `CQPubKey::CheckLowS` accepts everything in this fork,
so only the DER test remains. -/
def isLowDERSignature (sig : valtype) : Except ScriptError Unit :=
  if !isValidSignatureEncoding sig then .error .sigDer else .ok ()

/-- `SIGHASH_ANYONECANPAY`. -/
def SIGHASH_ANYONECANPAY : Nat := 0x80
/-- `SIGHASH_DEFAULT`: Taproot only, and equivalent to `SIGHASH_ALL`. -/
def SIGHASH_DEFAULT : Nat := 0
/-- `SIGHASH_ALL`. -/
def SIGHASH_ALL : Nat := 1
/-- `SIGHASH_NONE`. -/
def SIGHASH_NONE : Nat := 2
/-- `SIGHASH_SINGLE`. -/
def SIGHASH_SINGLE : Nat := 3

/-- `IsDefinedHashtypeSignature`: the last byte, without the anyone-can-pay
bit, is `ALL`, `NONE` or `SINGLE`. -/
def isDefinedHashtypeSignature (sig : valtype) : Bool :=
  match sig.getLast? with
  | none => false
  | some last =>
      let nHashType := last.toNat &&& (0xff - SIGHASH_ANYONECANPAY)
      !(nHashType < SIGHASH_ALL || nHashType > SIGHASH_SINGLE)

/-- `CheckSignatureEncoding`: the empty signature always passes; otherwise the
flags select the DER, low-S and hash-type tests. -/
def checkSignatureEncoding (sig : valtype) (flags : Nat) : Except ScriptError Unit :=
  if sig.isEmpty then .ok ()
  else if (hasFlag flags (SCRIPT_VERIFY_DERSIG ||| SCRIPT_VERIFY_LOW_S ||| SCRIPT_VERIFY_STRICTENC))
      && !isValidSignatureEncoding sig then .error .sigDer
  else if hasFlag flags SCRIPT_VERIFY_LOW_S && (isLowDERSignature sig).toBool == false then
    isLowDERSignature sig
  else if hasFlag flags SCRIPT_VERIFY_STRICTENC && !isDefinedHashtypeSignature sig then
    .error .sigHashtype
  else .ok ()

/-- Under `DERSIG`, a signature longer than 73 bytes fails as `SIG_DER`. -/
theorem checkSignatureEncoding_of_long {sig : valtype} {flags : Nat}
    (derSig : hasFlag flags SCRIPT_VERIFY_DERSIG = true) (long : 73 < sig.length) :
    checkSignatureEncoding sig flags = .error .sigDer := by
  have nonEmpty : sig.isEmpty = false := by
    cases sig with
    | nil => simp at long
    | cons => rfl
  have strict : hasFlag flags (SCRIPT_VERIFY_DERSIG ||| SCRIPT_VERIFY_LOW_S |||
      SCRIPT_VERIFY_STRICTENC) = true :=
    hasFlag_or_of_left _ (hasFlag_or_of_left _ derSig)
  simp [checkSignatureEncoding, nonEmpty, strict, isValidSignatureEncoding_of_long long]

/-- `DILITHIUM_PUBLICKEY_SIZE` (`CQPubKey::SIZE`). -/
def DILITHIUM_PUBLICKEY_SIZE : Nat := 1952
/-- `DILITHIUM_SECRETKEY_SIZE` (`CQKey::SIZE`). -/
def DILITHIUM_SECRETKEY_SIZE : Nat := 4032
/-- `DILITHIUM_SIGNATURE_SIZE`. -/
def DILITHIUM_SIGNATURE_SIZE : Nat := 3309

/-- `IsCompressedOrUncompressedPubKey`, extended to 1952-byte Dilithium keys. -/
def isCompressedOrUncompressedPubKey (pubkey : valtype) : Bool :=
  if pubkey.length = DILITHIUM_PUBLICKEY_SIZE then true
  else if pubkey.length < 33 then false
  else if pubkey.head? = some 0x04 then pubkey.length == 65
  else if pubkey.head? = some 0x02 ∨ pubkey.head? = some 0x03 then pubkey.length == 33
  else false

/-- `IsCompressedPubKey`, extended to 1952-byte Dilithium keys. -/
def isCompressedPubKey (pubkey : valtype) : Bool :=
  if pubkey.length = DILITHIUM_PUBLICKEY_SIZE then true
  else if pubkey.length != 33 then false
  else pubkey.head? = some 0x02 ∨ pubkey.head? = some 0x03

/-- `CheckPubKeyEncoding`. -/
def checkPubKeyEncoding (pubkey : valtype) (flags : Nat) (sigversion : SigVersion) :
    Except ScriptError Unit :=
  if hasFlag flags SCRIPT_VERIFY_STRICTENC && !isCompressedOrUncompressedPubKey pubkey then
    .error .pubkeytype
  else if hasFlag flags SCRIPT_VERIFY_WITNESS_PUBKEYTYPE && sigversion == .witnessV0 &&
      !isCompressedPubKey pubkey then .error .witnessPubkeytype
  else .ok ()

/-! ## `FindAndDelete` -/

/-- The inner `while` of `FindAndDelete`: skip every match of the pattern that
starts here, counting them. -/
def skipMatches (pattern : valtype) (pc : List UInt8) : Nat × List UInt8 :=
  if nonEmpty : pattern ≠ [] ∧ pattern.length ≤ pc.length ∧ pc.take pattern.length = pattern then
    let (found, rest) := skipMatches pattern (pc.drop pattern.length)
    (found + 1, rest)
  else (0, pc)
termination_by pc.length
decreasing_by
  have : 0 < pattern.length := List.length_pos_iff.mpr nonEmpty.1
  simp only [List.length_drop]
  omega

theorem skipMatches_rest_le (pattern : valtype) (pc : List UInt8) :
    (skipMatches pattern pc).2.length ≤ pc.length := by
  induction pc using Nat.strongRecMeasure List.length with
  | ind pc inductionHypothesis =>
      rw [skipMatches]
      split
      · rename_i matched
        have shorter : (pc.drop pattern.length).length < pc.length := by
          have : 0 < pattern.length := List.length_pos_iff.mpr matched.1
          simp only [List.length_drop]
          omega
        exact le_trans (inductionHypothesis _ shorter) (le_of_lt shorter)
      · exact le_refl _

theorem skipMatches_rest_le_of_eq {pattern pc rest : List UInt8} {found : Nat}
    (skipping : skipMatches pattern pc = (found, rest)) : rest.length ≤ pc.length := by
  have bound := skipMatches_rest_le pattern pc
  rw [skipping] at bound
  exact bound

/-- The `do ... while (GetOp)` loop of `FindAndDelete` from a position just
after an opcode: the matches removed and the bytes kept. -/
def findAndDeleteLoop (pattern : valtype) (pc : List UInt8) : Nat × List UInt8 :=
  match skipping : skipMatches pattern pc with
  | (found, afterMatches) =>
      match reading : getScriptOp afterMatches with
      | none => (found, afterMatches)
      | some (_, _, rest) =>
          let opBytes := afterMatches.take (afterMatches.length - rest.length)
          let (moreFound, kept) := findAndDeleteLoop pattern rest
          (found + moreFound, opBytes ++ kept)
termination_by pc.length
decreasing_by
  have consumed := getScriptOp_rest_lt reading
  have skipped := skipMatches_rest_le_of_eq skipping
  omega

/-- `FindAndDelete(script, b)`: the number of matches removed and the
resulting script, left untouched when nothing matched. -/
def findAndDelete (script : CScript) (pattern : CScript) : Nat × CScript :=
  if pattern.isEmpty then (0, script)
  else
    let (nFound, result) := findAndDeleteLoop pattern script
    if nFound > 0 then (nFound, result) else (0, script)

/-- A pattern longer than the script never matches: the script is unchanged. -/
theorem skipMatches_of_long {pattern pc : List UInt8} (long : pc.length < pattern.length) :
    skipMatches pattern pc = (0, pc) := by
  rw [skipMatches]
  have noRoom : ¬ (pattern ≠ [] ∧ pattern.length ≤ pc.length ∧
      pc.take pattern.length = pattern) := fun matched => by omega
  simp only [noRoom, dite_false]

theorem findAndDeleteLoop_of_long {pattern : valtype} (pc : List UInt8)
    (long : pc.length < pattern.length) : (findAndDeleteLoop pattern pc).1 = 0 := by
  induction pc using Nat.strongRecMeasure List.length with
  | ind pc inductionHypothesis =>
      rw [findAndDeleteLoop]
      split
      rename_i found afterMatches skipping
      obtain ⟨rfl, rfl⟩ : found = 0 ∧ afterMatches = pc := by
        rw [skipMatches_of_long long] at skipping
        simpa [eq_comm] using skipping
      split
      · rfl
      · rename_i rest reading
        have shorter := getScriptOp_rest_lt reading
        simp only [zero_add]
        exact inductionHypothesis rest shorter (by omega)

/-- `FindAndDelete` leaves a script shorter than the pattern untouched. -/
theorem findAndDelete_of_long {script pattern : CScript} (long : script.length < pattern.length) :
    findAndDelete script pattern = (0, script) := by
  unfold findAndDelete
  split
  · rfl
  · have noneFound := findAndDeleteLoop_of_long script long
    simp [noneFound]

end Qbitcoin
