import Qbitcoin.Key.Bech32Codec
import Qbitcoin.Util.ConvertBits
import Qbitcoin.Script.Verify
import Qbitcoin.Primitives.Block

/-!
# Addresses of destinations

`CTxDestination` of `addresstype.h`, and the two halves of `key_io.cpp` that
write a destination as an address and read it back: `DestinationEncoder` and
`DecodeDestination`.  A witness destination's address is the Bech32 (version
0) or Bech32m (later versions) encoding of its version followed by its
program regrouped into 5-bit digits.  Decoding checks the HRP, the checksum
kind against the version and the padding, and then the program size the
version asks for.

Decoding the address of a witness destination gives it back with no error
(`decodeDestination_encodeDestination`).  Every string decoded as a witness
destination is, up to case, the address of what it decodes to
(`encodeDestination_decodeDestination`).  Base58Check and `LocateErrors`
are parameters: a witness address never reaches them.
-/

namespace Qbitcoin

/-- `uint160`. -/
abbrev uint160 := Vector UInt8 20

/-- `CTxDestination` (addresstype.h).  `CNoDestination` keeps the script it was
made from; `PayToAnchor` is the `WitnessUnknown` of version 1 with the anchor
program. -/
inductive CTxDestination
  | noDestination (script : CScript)
  | pubKey (pubkey : valtype)
  | pkHash (hash : uint160)
  | scriptHash (hash : uint160)
  | witnessV0ScriptHash (hash : uint256)
  | witnessV0KeyHash (hash : uint160)
  | witnessV1Taproot (xonly : uint256)
  | payToAnchor
  | witnessUnknown (version : Nat) (program : valtype)
  deriving DecidableEq, Repr

/-- `ANCHOR_BYTES`. -/
def ANCHOR_BYTES : valtype := [0x4e, 0x73]

/-- `BECH32_WITNESS_PROG_MAX_LEN`. -/
def BECH32_WITNESS_PROG_MAX_LEN : Nat := 40

/-- What `CChainParams` gives the address codec: `Base58Prefix(PUBKEY_ADDRESS)`,
`Base58Prefix(SCRIPT_ADDRESS)` and `Bech32HRP()`. -/
structure AddressParams where
  pubkeyAddress : valtype
  scriptAddress : valtype
  bech32Hrp : List UInt8

/-- The main network's (`kernel/chainparams.cpp`). -/
def AddressParams.main : AddressParams := ⟨[0], [5], [0x62, 0x63]⟩

/-- The functions of `base58.cpp` the address codec calls, on byte strings. -/
structure Base58Codec where
  /-- `EncodeBase58Check`. -/
  encodeBase58Check : valtype → List UInt8
  /-- `DecodeBase58Check(str, vchRet, max_ret_len)`. -/
  decodeBase58Check : List UInt8 → Nat → Option valtype
  /-- `DecodeBase58(str, vchRet, max_ret_len)`. -/
  decodeBase58 : List UInt8 → Nat → Option valtype

/-- `ToLower(char)` of `util/strencodings.h`: the expression of `LowerCase` in
`bech32.cpp`. -/
def toLower (c : UInt8) : UInt8 := Bech32.lowerCase c

/-! ## `DestinationEncoder` -/

/-- The body the witness cases of `DestinationEncoder` share: the version,
then the program regrouped into 5-bit digits with padding, under the chain's
HRP.  `ConvertBits` with padding always succeeds, and its result is not
read. -/
def encodeWitnessProgram (encoding : Bech32.Encoding) (hrp : List UInt8) (version : UInt8) (program : valtype) :
    List UInt8 :=
  Bech32.encode encoding hrp (version :: (convertBits 8 5 true program).getD [])

/-- `DestinationEncoder::operator()(const WitnessUnknown&)`: nothing for a
version outside 1 to 16 or a program outside 2 to 40 bytes. -/
def encodeWitnessUnknown (params : AddressParams) (version : Nat) (program : valtype) : List UInt8 :=
  if version < 1 ∨ version > 16 ∨ program.length < 2 ∨ program.length > 40 then []
  else encodeWitnessProgram .bech32m params.bech32Hrp version.toUInt8 program

/-- `EncodeDestination`: `DestinationEncoder` visiting the destination.  A
`PayToAnchor` is a `WitnessUnknown`, and the visitor takes that overload. -/
def encodeDestination (base58 : Base58Codec) (params : AddressParams) : CTxDestination → List UInt8
  | .pkHash id => base58.encodeBase58Check (params.pubkeyAddress ++ id.toList)
  | .scriptHash id => base58.encodeBase58Check (params.scriptAddress ++ id.toList)
  | .witnessV0KeyHash id => encodeWitnessProgram .bech32 params.bech32Hrp 0 id.toList
  | .witnessV0ScriptHash id => encodeWitnessProgram .bech32 params.bech32Hrp 0 id.toList
  | .witnessV1Taproot tap => encodeWitnessProgram .bech32m params.bech32Hrp 1 tap.toList
  | .payToAnchor => encodeWitnessUnknown params 1 ANCHOR_BYTES
  | .witnessUnknown version program => encodeWitnessUnknown params version program
  | .noDestination _ => []
  | .pubKey _ => []

/-! ## `DecodeDestination` -/

/-- A failed decoding: `CNoDestination()` and the message left in `error_str`. -/
def decodeError (message : String) : CTxDestination × String := (.noDestination [], message)

/-- The bytes of a `std::string` as text, one character each. -/
def asciiString (bytes : List UInt8) : String := String.ofList (bytes.map fun b => Char.ofNat b.toNat)

/-- The Base58 branch of `DecodeDestination`, once `DecodeBase58Check` has read
`data`: a hash behind the prefix of one of the two kinds, or an error. -/
def decodeBase58Destination (params : AddressParams) (data : valtype) : CTxDestination × String :=
  if pubkey : data.length = 20 + params.pubkeyAddress.length ∧ params.pubkeyAddress.isPrefixOf data then
    (.pkHash ⟨(data.drop params.pubkeyAddress.length).toArray, by simp [pubkey.1]⟩, "")
  else if script : data.length = 20 + params.scriptAddress.length ∧ params.scriptAddress.isPrefixOf data then
    (.scriptHash ⟨(data.drop params.scriptAddress.length).toArray, by simp [script.1]⟩, "")
  else if (data.length ≥ params.scriptAddress.length ∧ params.scriptAddress.isPrefixOf data) ∨
      (data.length ≥ params.pubkeyAddress.length ∧ params.pubkeyAddress.isPrefixOf data) then
    decodeError "Invalid length for Base58 address (P2PKH or P2SH)"
  else decodeError "Invalid or unsupported Base58-encoded address."

/-- The end of `DecodeDestination`, once the program is regrouped into bytes:
the destination its version and size stand for, or an error. -/
def witnessDestination (version : Nat) (data : valtype) : CTxDestination × String :=
  let byteStr := if data.length = 1 then "byte" else "bytes"
  if version = 0 then
    if keyHash : data.length = 20 then (.witnessV0KeyHash ⟨data.toArray, by simpa using keyHash⟩, "")
    else if scriptHash : data.length = 32 then (.witnessV0ScriptHash ⟨data.toArray, by simpa using scriptHash⟩, "")
    else
      decodeError ("Invalid Bech32 v0 address program size (" ++ toString data.length ++ " " ++ byteStr ++
        "), per BIP141")
  else if taproot : version = 1 ∧ data.length = WITNESS_V1_TAPROOT_SIZE then
    (.witnessV1Taproot ⟨data.toArray, by simpa [WITNESS_V1_TAPROOT_SIZE] using taproot.2⟩, "")
  else if isPayToAnchor version data then (.payToAnchor, "")
  else if version > 16 then decodeError "Invalid Bech32 address witness version"
  else if data.length < 2 ∨ data.length > BECH32_WITNESS_PROG_MAX_LEN then
    decodeError ("Invalid Bech32 address program size (" ++ toString data.length ++ " " ++ byteStr ++ ")")
  else (.witnessUnknown version data, "")

/-- `DecodeDestination(str, params, error_str, error_locations)`: the
destination and `error_str`.  A string whose prefix is not the chain's HRP
goes to Base58; a Bech32 string that fails to decode leaves the message of
`LocateErrors`. -/
def decodeDestination (base58 : Base58Codec) (locateErrors : List UInt8 → String) (params : AddressParams)
    (str : List UInt8) : CTxDestination × String :=
  let isBech32 := (str.take params.bech32Hrp.length).map toLower == params.bech32Hrp
  if !isBech32 then
    match base58.decodeBase58Check str 21 with
    | some data => decodeBase58Destination params data
    | none =>
      if (base58.decodeBase58 str 100).isNone then
        decodeError "Invalid or unsupported Segwit (Bech32) or Base58 encoding."
      else decodeError "Invalid checksum or length of Base58 address (P2PKH or P2SH)"
  else
    let dec := Bech32.decode str Bech32.CharLimit.BECH32
    if dec.encoding = .bech32 ∨ dec.encoding = .bech32m then
      match dec.data with
      | [] => decodeError "Empty Bech32 data section"
      | version :: rest =>
        if dec.hrp ≠ params.bech32Hrp then
          decodeError ("Invalid or unsupported prefix for Segwit (Bech32) address (expected " ++
            asciiString params.bech32Hrp ++ ", got " ++ asciiString dec.hrp ++ ").")
        else if version = 0 ∧ dec.encoding ≠ .bech32 then
          decodeError "Version 0 witness address must use Bech32 checksum"
        else if version ≠ 0 ∧ dec.encoding ≠ .bech32m then
          decodeError "Version 1+ witness address must use Bech32m checksum"
        else
          match convertBits 5 8 false rest with
          | some data => witnessDestination version.toNat data
          | none => decodeError "Invalid padding in Bech32 data section"
    else decodeError (locateErrors str)

/-! ## Witness addresses read back -/

/-- What the address codec needs of the chain's HRP: `Encode` asserts it has
no upper-case letter, `Decode` reads only printable characters, and the
longest witness address, of a 40-byte program, fits `Decode`'s limit. -/
structure AddressParams.ValidHrp (params : AddressParams) : Prop where
  nonempty : params.bech32Hrp ≠ []
  printable : ∀ c ∈ params.bech32Hrp, 33 ≤ c ∧ c ≤ 126 ∧ ¬(0x41 ≤ c ∧ c ≤ 0x5a)
  fits : params.bech32Hrp.length + 72 ≤ Bech32.CharLimit.BECH32

theorem AddressParams.main_validHrp : AddressParams.main.ValidHrp where
  nonempty := List.cons_ne_nil _ _
  printable := by simp [AddressParams.main, UInt8.le_iff_toNat_le]
  fits := by decide

/-- An HRP without upper-case letters is its own `ToLower`. -/
theorem map_toLower_of_printable {hrp : List UInt8} (printable : ∀ c ∈ hrp, 33 ≤ c ∧ c ≤ 126 ∧ ¬(0x41 ≤ c ∧ c ≤ 0x5a)) :
    hrp.map toLower = hrp := by
  calc hrp.map toLower = hrp.map id := List.map_congr_left fun c member =>
        Bech32.lowerCase_of_not_upper (by simpa [UInt8.le_iff_toNat_le] using (printable c member).2.2)
    _ = hrp := List.map_id hrp

/-- The 5-bit digits of a program of at most 40 bytes: at most 64 of them. -/
theorem convertBits_eight_five {program : valtype} (short : program.length ≤ 40) :
    ∃ out, convertBits 8 5 true program = some out ∧ ConvertBits.Fits 5 out ∧ out.length ≤ 64 ∧
      convertBits 5 8 false out = some program := by
  obtain ⟨out, padded, fitsOut, p, pShort, bits⟩ :=
    @ConvertBits.convertBits_pad 8 5 (by decide) (by decide) program (ConvertBits.fits_eight program)
  have lengths := congrArg List.length bits
  simp only [ConvertBits.length_digitBits, List.length_append, List.length_replicate] at lengths
  have regrouped := @ConvertBits.convertBits_roundTrip 8 5 (by decide) (by decide) (by decide) program
    (ConvertBits.fits_eight program)
  rw [padded, Option.bind_some] at regrouped
  exact ⟨out, padded, fitsOut, by omega, regrouped⟩

variable (base58 : Base58Codec) (locateErrors : List UInt8 → String) {params : AddressParams}

/-- The address of a witness program decodes to what `DecodeDestination` makes
of its version and program, with the checksum kind the version asks for. -/
theorem decodeDestination_encodeWitnessProgram (valid : params.ValidHrp) {encoding : Bech32.Encoding}
    (notInvalid : encoding ≠ .invalid) {version : UInt8} (small : version.toNat ≤ 16)
    (kind : version = 0 ↔ encoding = .bech32) {program : valtype} (short : program.length ≤ 40) :
    decodeDestination base58 locateErrors params (encodeWitnessProgram encoding params.bech32Hrp version program) =
      witnessDestination version.toNat program := by
  obtain ⟨out, padded, fitsOut, count, regrouped⟩ := convertBits_eight_five short
  have fiveBit : ∀ v ∈ version :: out, v < 32 := by
    intro v member
    rcases List.mem_cons.mp member with rfl | later
    · exact UInt8.lt_iff_toNat_lt.mpr (by simp; omega)
    · exact UInt8.lt_iff_toNat_lt.mpr (fitsOut v later)
  have decoded : Bech32.decode (encodeWitnessProgram encoding params.bech32Hrp version program)
      Bech32.CharLimit.BECH32 = ⟨encoding, params.bech32Hrp, version :: out⟩ := by
    have room := valid.fits
    rw [encodeWitnessProgram, padded, Option.getD_some, Bech32.encode_eq,
      Bech32.decode_of_verified notInvalid valid.nonempty valid.printable
        (Bech32.fiveBit_append_createChecksum _ _ fiveBit) (by rw [Bech32.length_append_createChecksum]; omega)
        (by simp only [Bech32.length_append_createChecksum, List.length_cons, Bech32.CHECKSUM_SIZE,
          Bech32.CharLimit.BECH32] at room ⊢; omega)
        (Bech32.verifyChecksum_createChecksum notInvalid _ _), Bech32.take_append_createChecksum]
  have isBech32 : ((encodeWitnessProgram encoding params.bech32Hrp version program).take
      params.bech32Hrp.length).map toLower = params.bech32Hrp := by
    rw [encodeWitnessProgram, Bech32.encode, List.append_assoc, List.append_assoc, List.take_left,
      map_toLower_of_printable valid.printable]
  unfold decodeDestination
  simp only [isBech32, beq_self_eq_true, Bool.not_true, Bool.false_eq_true, if_false, decoded, regrouped]
  have pick : encoding = .bech32 ∨ encoding = .bech32m := by
    cases encoding <;> simp_all
  have versionZero : ¬(version = 0 ∧ encoding ≠ .bech32) := fun zeroOther => zeroOther.2 (kind.mp zeroOther.1)
  have versionLater : ¬(version ≠ 0 ∧ encoding ≠ .bech32m) := by
    rintro ⟨later, other⟩
    cases encoding <;> simp_all
  rw [if_pos pick, if_neg (fun differ => differ rfl), if_neg versionZero, if_neg versionLater]

/-! ## What `DecodeDestination` makes of a witness program -/

theorem toList_toArray_vector {n : Nat} (v : Vector UInt8 n) : (⟨v.toList.toArray, by simp⟩ : Vector UInt8 n) = v := by
  ext i below
  simp

theorem witnessDestination_keyHash (id : uint160) : witnessDestination 0 id.toList = (.witnessV0KeyHash id, "") := by
  have sized : id.toList.length = 20 := by simp
  simp only [witnessDestination, if_pos, dif_pos sized, toList_toArray_vector id]

theorem witnessDestination_scriptHash (id : uint256) :
    witnessDestination 0 id.toList = (.witnessV0ScriptHash id, "") := by
  have sized : id.toList.length = 32 := by simp
  simp only [witnessDestination, if_pos, dif_neg (by omega : ¬id.toList.length = 20), dif_pos sized,
    toList_toArray_vector id]

theorem witnessDestination_taproot (tap : uint256) : witnessDestination 1 tap.toList = (.witnessV1Taproot tap, "") := by
  have sized : tap.toList.length = 32 := by simp
  simp only [witnessDestination, WITNESS_V1_TAPROOT_SIZE, sized, Nat.one_ne_zero, if_false, and_self, dite_true,
    toList_toArray_vector tap]

theorem witnessDestination_anchor : witnessDestination 1 ANCHOR_BYTES = (.payToAnchor, "") := by
  simp [witnessDestination, ANCHOR_BYTES, WITNESS_V1_TAPROOT_SIZE, isPayToAnchor]

theorem witnessDestination_unknown {version : Nat} {program : valtype} (later : 1 ≤ version) (small : version ≤ 16)
    (sized : 2 ≤ program.length ∧ program.length ≤ 40) (notTaproot : ¬(version = 1 ∧ program.length = 32))
    (notAnchor : isPayToAnchor version program = false) :
    witnessDestination version program = (.witnessUnknown version program, "") := by
  simp only [witnessDestination, notAnchor, Bool.false_eq_true, if_false]
  rw [if_neg (show version ≠ 0 by omega), dif_neg (show ¬(version = 1 ∧ program.length = WITNESS_V1_TAPROOT_SIZE) from notTaproot),
    if_neg (show ¬version > 16 by omega),
    if_neg (show ¬(program.length < 2 ∨ program.length > BECH32_WITNESS_PROG_MAX_LEN) by
      rw [BECH32_WITNESS_PROG_MAX_LEN]; omega)]

/-- Whether a destination has a Bech32 or Bech32m address that reads back as
itself: the witness kinds, and a `WitnessUnknown` that `DestinationEncoder`
writes, other than a version-1 program of 32 bytes or of the anchor bytes,
whose address is that of a Taproot or an anchor destination. -/
def CTxDestination.hasSegwitAddress : CTxDestination → Bool
  | .witnessV0KeyHash _ | .witnessV0ScriptHash _ | .witnessV1Taproot _ | .payToAnchor => true
  | .witnessUnknown version program =>
    1 ≤ version && version ≤ 16 && 2 ≤ program.length && program.length ≤ 40 &&
      !(version == 1 && program.length == 32) && !isPayToAnchor version program
  | .noDestination _ | .pubKey _ | .pkHash _ | .scriptHash _ => false

theorem toNat_toUInt8_of_le_sixteen {version : Nat} (small : version ≤ 16) : version.toUInt8.toNat = version := by
  rw [Nat.toUInt8_eq, UInt8.toNat_ofNat', Nat.mod_eq_of_lt (by omega)]

/-- Decoding the address of a witness destination gives it back, with no
error, for every HRP the codec can use. -/
theorem decodeDestination_encodeDestination (valid : params.ValidHrp) {dest : CTxDestination}
    (segwit : dest.hasSegwitAddress = true) :
    decodeDestination base58 locateErrors params (encodeDestination base58 params dest) = (dest, "") := by
  cases dest with
  | witnessV0KeyHash id =>
    rw [encodeDestination, decodeDestination_encodeWitnessProgram base58 locateErrors valid (by decide) (by decide)
      (by simp) (by simp)]
    exact witnessDestination_keyHash id
  | witnessV0ScriptHash id =>
    rw [encodeDestination, decodeDestination_encodeWitnessProgram base58 locateErrors valid (by decide) (by decide)
      (by simp) (by simp)]
    exact witnessDestination_scriptHash id
  | witnessV1Taproot tap =>
    rw [encodeDestination, decodeDestination_encodeWitnessProgram base58 locateErrors valid (by decide) (by decide)
      (by simp) (by simp)]
    exact witnessDestination_taproot tap
  | payToAnchor =>
    rw [encodeDestination, encodeWitnessUnknown, if_neg (by decide),
      decodeDestination_encodeWitnessProgram base58 locateErrors valid (by decide) (by decide) (by decide) (by decide)]
    exact witnessDestination_anchor
  | witnessUnknown version program =>
    simp only [CTxDestination.hasSegwitAddress, Bool.and_eq_true, decide_eq_true_eq, Bool.not_eq_true',
      Bool.and_eq_false_iff, beq_eq_false_iff_ne] at segwit
    obtain ⟨⟨⟨⟨⟨later, small⟩, long⟩, short⟩, notTaproot⟩, notAnchor⟩ := segwit
    have version_toNat := toNat_toUInt8_of_le_sixteen small
    have kind : version.toUInt8 = 0 ↔ Bech32.Encoding.bech32m = .bech32 := by
      constructor
      · intro zero
        have := congrArg UInt8.toNat zero
        rw [version_toNat] at this
        simp at this
        omega
      · intro impossible
        cases impossible
    rw [encodeDestination, encodeWitnessUnknown, if_neg (by omega),
      decodeDestination_encodeWitnessProgram base58 locateErrors valid (by decide) (by omega) kind short,
      version_toNat]
    exact witnessDestination_unknown later small ⟨long, short⟩ (by omega) notAnchor
  | noDestination script => cases segwit
  | pubKey pubkey => cases segwit
  | pkHash hash => cases segwit
  | scriptHash hash => cases segwit

theorem decodeDestination_encodeDestination_anchor :
    AddressParams.main.ValidHrp ∧ CTxDestination.payToAnchor.hasSegwitAddress = true ∧
      decodeDestination ⟨fun _ => [], fun _ _ => none, fun _ _ => none⟩ (fun _ => "") AddressParams.main
          (encodeDestination ⟨fun _ => [], fun _ _ => none, fun _ _ => none⟩ AddressParams.main .payToAnchor) =
        (.payToAnchor, "") :=
  ⟨AddressParams.main_validHrp, rfl,
    decodeDestination_encodeDestination ⟨fun _ => [], fun _ _ => none, fun _ _ => none⟩ (fun _ => "")
      AddressParams.main_validHrp rfl⟩

/-! ## Every witness address is an encoding -/

/-- No failed decoding is a witness destination. -/
theorem decodeError_ne_of_hasSegwitAddress {dest : CTxDestination} (segwit : dest.hasSegwitAddress = true)
    (message error : String) : decodeError message ≠ (dest, error) := by
  intro same
  have noAddress : (decodeError message).1.hasSegwitAddress = false := rfl
  rw [same] at noAddress
  exact absurd segwit (by simp [noAddress])

/-- Nor is a destination of the Base58 branch. -/
theorem decodeBase58Destination_ne_of_hasSegwitAddress {dest : CTxDestination}
    (segwit : dest.hasSegwitAddress = true) (params : AddressParams) (data : valtype) (error : String) :
    decodeBase58Destination params data ≠ (dest, error) := by
  intro same
  have noAddress : (decodeBase58Destination params data).1.hasSegwitAddress = false := by
    unfold decodeBase58Destination
    split_ifs <;> rfl
  rw [same] at noAddress
  exact absurd segwit (by simp [noAddress])

/-- A witness destination comes out of `DecodeDestination` only through the
Bech32 branch: the string decodes under the chain's HRP to a version, with the
checksum kind the version asks for, and to digits that regroup into the
program. -/
theorem decodeDestination_segwit {str : List UInt8} {dest : CTxDestination} {error : String}
    (decoded : decodeDestination base58 locateErrors params str = (dest, error))
    (segwit : dest.hasSegwitAddress = true) :
    ∃ version rest data, Bech32.decode str Bech32.CharLimit.BECH32 =
        ⟨if version = 0 then .bech32 else .bech32m, params.bech32Hrp, version :: rest⟩ ∧
      convertBits 5 8 false rest = some data ∧ witnessDestination version.toNat data = (dest, error) := by
  have failed := decodeError_ne_of_hasSegwitAddress segwit
  unfold decodeDestination at decoded
  dsimp only at decoded
  split at decoded
  · split at decoded
    · exact absurd decoded (decodeBase58Destination_ne_of_hasSegwitAddress segwit params _ error)
    · split at decoded <;> exact absurd decoded (failed _ error)
  generalize Bech32.decode str Bech32.CharLimit.BECH32 = dec at decoded ⊢
  obtain ⟨encoding, hrp, values⟩ := dec
  dsimp only at decoded
  split at decoded
  swap
  · exact absurd decoded (failed _ error)
  rename_i pick
  split at decoded
  · exact absurd decoded (failed _ error)
  rename_i version rest
  split at decoded
  · exact absurd decoded (failed _ error)
  rename_i sameHrp
  split at decoded
  · exact absurd decoded (failed _ error)
  rename_i versionZero
  split at decoded
  · exact absurd decoded (failed _ error)
  rename_i versionLater
  split at decoded
  · rename_i data regrouped
    have kind : encoding = if version = 0 then .bech32 else .bech32m := by
      split_ifs with zero
      · exact not_and_not_right.mp versionZero zero
      · exact not_and_not_right.mp versionLater zero
    refine ⟨version, rest, data, ?_, regrouped, decoded⟩
    rw [kind, not_not.mp sameHrp]
  · exact absurd decoded (failed _ error)

/-- What `DecodeDestination` makes of a version and a program, when it is a
witness destination, `DestinationEncoder` writes back with that version and
program, under the checksum kind the version asks for. -/
theorem encodeDestination_of_witnessDestination {version : UInt8} {data : valtype} {dest : CTxDestination}
    {error : String} (classified : witnessDestination version.toNat data = (dest, error))
    (segwit : dest.hasSegwitAddress = true) :
    encodeDestination base58 params dest =
      encodeWitnessProgram (if version = 0 then .bech32 else .bech32m) params.bech32Hrp version data := by
  have failed := decodeError_ne_of_hasSegwitAddress segwit
  unfold witnessDestination at classified
  dsimp only at classified
  by_cases zero : version.toNat = 0
  · have isZero : version = 0 := UInt8.toNat_inj.mp zero
    rw [if_pos zero] at classified
    split at classified
    · cases classified
      rw [encodeDestination, if_pos isZero, isZero]
      simp
    split at classified
    · cases classified
      rw [encodeDestination, if_pos isZero, isZero]
      simp
    exact absurd classified (failed _ error)
  have notZero : version ≠ 0 := fun same => zero (by rw [same]; rfl)
  rw [if_neg zero] at classified
  split at classified
  · rename_i taproot
    have isOne : version = 1 := UInt8.toNat_inj.mp taproot.1
    cases classified
    rw [encodeDestination, if_neg notZero]
    simp [isOne]
  split at classified
  · rename_i anchor
    cases classified
    simp only [isPayToAnchor, Bool.and_eq_true, beq_iff_eq] at anchor
    have isOne : version = 1 := UInt8.toNat_inj.mp anchor.1
    rw [encodeDestination, encodeWitnessUnknown, if_neg (by decide), if_neg notZero, isOne, anchor.2]
    rfl
  split at classified
  · exact absurd classified (failed _ error)
  rename_i small
  split at classified
  · exact absurd classified (failed _ error)
  rename_i sized
  cases classified
  rw [encodeDestination, encodeWitnessUnknown, if_neg (by rw [BECH32_WITNESS_PROG_MAX_LEN] at sized; omega), if_neg notZero]
  simp

/-- Every string `DecodeDestination` reads as a witness destination is, with
its letters in lower case, the address `EncodeDestination` writes for that
destination. -/
theorem encodeDestination_decodeDestination {str : List UInt8} {dest : CTxDestination} {error : String}
    (decoded : decodeDestination base58 locateErrors params str = (dest, error))
    (segwit : dest.hasSegwitAddress = true) :
    encodeDestination base58 params dest = str.map toLower := by
  obtain ⟨version, rest, data, bech32, regrouped, classified⟩ :=
    decodeDestination_segwit base58 locateErrors decoded segwit
  have valid : (if version = 0 then Bech32.Encoding.bech32 else .bech32m) ≠ .invalid := by
    split_ifs <;> decide
  obtain ⟨values, lowered, fiveBit, long, verified, dataEq⟩ := Bech32.map_lowerCase_of_decode bech32 valid
  dsimp only at lowered verified dataEq
  have restFit : ConvertBits.Fits 5 rest := fun x member =>
    fiveBit x (List.mem_of_mem_take (dataEq ▸ List.mem_cons_of_mem version member))
  have padded := ConvertBits.convertBits_pad_of_noPad (by decide) (by decide) (by decide) (by decide) restFit regrouped
  rw [encodeDestination_of_witnessDestination base58 classified segwit, encodeWitnessProgram, padded, Option.getD_some,
    dataEq, Bech32.encode_eq_of_verified valid fiveBit long verified, ← lowered]
  rfl

/-- The upper-case address `BC1SW50QGDZ25J` of BIP 350, a version-16 program
of two bytes, is the address of what it decodes to, in lower case. -/
theorem encodeDestination_decodeDestination_upperCase :
    decodeDestination ⟨fun _ => [], fun _ _ => none, fun _ _ => none⟩ (fun _ => "") AddressParams.main
        [0x42, 0x43, 0x31, 0x53, 0x57, 0x35, 0x30, 0x51, 0x47, 0x44, 0x5a, 0x32, 0x35, 0x4a] = (.witnessUnknown 16 [0x75, 0x1e], "") ∧
      (CTxDestination.witnessUnknown 16 [0x75, 0x1e]).hasSegwitAddress = true ∧
      encodeDestination ⟨fun _ => [], fun _ _ => none, fun _ _ => none⟩ AddressParams.main
          (.witnessUnknown 16 [0x75, 0x1e]) = [0x42, 0x43, 0x31, 0x53, 0x57, 0x35, 0x30, 0x51, 0x47, 0x44, 0x5a, 0x32, 0x35, 0x4a].map toLower := by
  have decoded : decodeDestination ⟨fun _ => [], fun _ _ => none, fun _ _ => none⟩ (fun _ => "") AddressParams.main
      [0x42, 0x43, 0x31, 0x53, 0x57, 0x35, 0x30, 0x51, 0x47, 0x44, 0x5a, 0x32, 0x35, 0x4a] = (.witnessUnknown 16 [0x75, 0x1e], "") := by
    decide +kernel
  exact ⟨decoded, rfl, encodeDestination_decodeDestination _ _ decoded rfl⟩

end Qbitcoin
