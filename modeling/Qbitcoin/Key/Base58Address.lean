import Qbitcoin.Key.Destination
import Qbitcoin.Key.Base58
import Qbitcoin.Key.KeyIO

/-!
# Base58 addresses and keys

The Base58 half of `key_io.cpp`, with the functions of `base58.cpp` in place of
the parameter `Base58Codec` of `Destination` and the parameter `Base58Check`
of `KeyIO`.  `DestinationEncoder` writes a
key or script hash as `EncodeBase58Check` of the chain's prefix and the hash,
and `DecodeDestination` reads a string whose first characters are not the
chain's HRP with `DecodeBase58Check(str, vchRet, 21)`.

On the main network the address of every key hash starts with `1` and that of
every script hash with `3`, so never with the HRP `bc`.  Each decodes back to
its hash with no error, whatever hash function the checksum uses
(`decodeDestination_encodeDestination_base58`).  On every network, a string
that decodes to a hash is, but for spaces around it, the address of that hash
(`encodeDestination_decodeDestination_base58`).

The key codecs call `base58.cpp` on `std::string`s, whose bytes are the UTF-8
encoding of the string; what `EncodeBase58` writes is ASCII, so its bytes are
read back as written (`base58Check_decode_encode`).  An extended key then
survives the Base58Check layer, and `CQExtKey::Decode` restores all of it but
the key (`decodeExtKey_encodeExtKey_base58`).  A secret does not: its payload
is longer than the 34 bytes `DecodeSecret` reads
(`decodeSecret_encodeSecret_base58`).
-/

namespace Qbitcoin

open Nat (digits ofDigits)

/-- The functions of `base58.cpp` as the address codec calls them.  The
assertion of `EncodeBase58` never fails, and its buffer is allocated whenever
its `int` size does not wrap (`Base58.encodeBase58_eq`); past that the C++
throws, which the codec writes as the empty string. -/
def base58Codec (hashes : Hashes) : Base58Codec :=
  ⟨fun input => (Base58.encodeBase58Check hashes input).getD [], Base58.decodeBase58Check hashes,
    Base58.decodeBase58⟩

/-- The destinations with a Base58 address: a key hash and a script hash. -/
def CTxDestination.isBase58 : CTxDestination → Bool
  | .pkHash _ | .scriptHash _ => true
  | _ => false

/-! ## The codec of `base58.cpp` -/

theorem encodeBase58Check_base58Codec {hashes : Hashes} {payload str : valtype}
    (written : Base58.encodeBase58Check hashes payload = some str) :
    (base58Codec hashes).encodeBase58Check payload = str := by
  unfold base58Codec
  dsimp only
  rw [written, Option.getD_some]

/-- A payload behind the prefix `0` is written with a `1` first. -/
theorem encodeBase58_zero_cons {rest : List UInt8} (small : (rest.length + 1) * 138 / 100 < Base58.INT_MAX) :
    ∃ tail, Base58.encodeBase58 (0 :: rest) = some (0x31 :: tail) := by
  rw [Base58.encodeBase58_eq (0 :: rest) small]
  simp [Base58.leadingZeroes, List.replicate_succ]

/-- Twenty-four bytes behind the prefix `5` are written with a `3` first: the
number they stand for lies between `2 * 58 ^ 33` and `3 * 58 ^ 33`. -/
theorem encodeBase58_five_cons {rest : List UInt8} (sized : rest.length = 24) :
    ∃ tail, Base58.encodeBase58 (5 :: rest) = some (0x33 :: tail) := by
  have leading : Base58.leadingZeroes (5 :: rest) = (0, 5 :: rest) := by
    simp [Base58.leadingZeroes]
  have value : ofDigits 256 ((5 :: rest).map UInt8.toNat).reverse =
      ofDigits 256 (rest.map UInt8.toNat).reverse + 256 ^ 24 * 5 := by
    simp [Nat.ofDigits_append, sized]
  have below := Base58.ofDigits_bytes_lt rest
  rw [sized] at below
  have low : 2 * 58 ^ 33 ≤ 256 ^ 24 * 5 := by norm_num
  have high : 256 ^ 24 * 6 ≤ 3 * 58 ^ 33 := by norm_num
  have first : (digits 58 (ofDigits 256 ((5 :: rest).map UInt8.toNat).reverse)).reverse.head? = some 2 := by
    rw [value]
    generalize ofDigits 256 (rest.map UInt8.toNat).reverse = r at below ⊢
    generalize (256 : Nat) ^ 24 = B at below low high ⊢
    have quotient : (r + B * 5) / 58 ^ 33 = 2 := Nat.div_eq_of_lt_le (by omega) (by omega)
    rw [← quotient]
    exact Numeral.head?_reverse_digits_of_lt (by decide) 33 (by omega) (by rw [pow_succ]; omega)
  obtain ⟨tail, digitsEq⟩ := List.head?_eq_some_iff.mp first
  refine ⟨tail.map Base58.pszBase58At, ?_⟩
  rw [Base58.encodeBase58_eq _ (by simp [sized, Base58.INT_MAX]), leading, List.replicate_zero, List.nil_append,
    digitsEq, List.map_cons]
  rfl

/-! ## `DecodeDestination` on a hash -/

/-- No failed decoding is a hash. -/
theorem decodeError_ne_of_isBase58 {dest : CTxDestination} (legacy : dest.isBase58 = true) (message error : String) :
    decodeError message ≠ (dest, error) := by
  intro same
  have noHash : (decodeError message).1.isBase58 = false := rfl
  rw [same] at noHash
  exact absurd legacy (by simp [noHash])

variable (base58 : Base58Codec) (locateErrors : List UInt8 → String) {params : AddressParams}

/-- A string whose first characters are not the HRP is read by
`DecodeBase58Check`, and what it reads goes to the Base58 branch. -/
theorem decodeDestination_of_not_bech32 {str : List UInt8}
    (notBech32 : (str.take params.bech32Hrp.length).map toLower ≠ params.bech32Hrp) {data : valtype}
    (read : base58.decodeBase58Check str 21 = some data) :
    decodeDestination base58 locateErrors params str = decodeBase58Destination params data := by
  unfold decodeDestination
  dsimp only
  rw [if_pos (by simpa using notBech32), read]

/-- No outcome of the Bech32 branch is a hash: each is an error or a witness
destination. -/
theorem decodeDestination_not_isBase58 {str : List UInt8}
    (isBech32 : ((str.take params.bech32Hrp.length).map toLower == params.bech32Hrp) = true) :
    (decodeDestination base58 locateErrors params str).1.isBase58 = false := by
  have witness : ∀ version data, (witnessDestination version data).1.isBase58 = false := by
    intro version data
    unfold witnessDestination
    split_ifs <;> rfl
  unfold decodeDestination
  dsimp only
  simp only [isBech32, Bool.not_true, Bool.false_eq_true, if_false]
  repeat' split
  all_goals first | rfl | exact witness _ _

/-- A hash comes out of `DecodeDestination` only through the Base58 branch. -/
theorem decodeDestination_isBase58 {str : List UInt8} {dest : CTxDestination} {error : String}
    (decoded : decodeDestination base58 locateErrors params str = (dest, error)) (legacy : dest.isBase58 = true) :
    ∃ data, base58.decodeBase58Check str 21 = some data ∧ decodeBase58Destination params data = (dest, error) := by
  have failed := decodeError_ne_of_isBase58 legacy
  by_cases isBech32 : ((str.take params.bech32Hrp.length).map toLower == params.bech32Hrp) = true
  · have noHash := decodeDestination_not_isBase58 base58 locateErrors isBech32
    rw [decoded] at noHash
    exact absurd legacy (by simp [noHash])
  unfold decodeDestination at decoded
  dsimp only at decoded
  rw [if_pos (by simpa using isBech32)] at decoded
  split at decoded
  · exact ⟨_, ‹_›, decoded⟩
  · split at decoded <;> exact absurd decoded (failed _ error)

/-- The Base58 branch reads a payload behind the prefix of a key hash as that
hash. -/
theorem decodeBase58Destination_pubkeyAddress (params : AddressParams) (hash : uint160) :
    decodeBase58Destination params (params.pubkeyAddress ++ hash.toList) = (.pkHash hash, "") := by
  have pubkey : (params.pubkeyAddress ++ hash.toList).length = 20 + params.pubkeyAddress.length ∧
      params.pubkeyAddress.isPrefixOf (params.pubkeyAddress ++ hash.toList) := by
    simp [List.isPrefixOf_iff_prefix, Nat.add_comm]
  rw [decodeBase58Destination, dif_pos pubkey]
  simp only [List.drop_left, toList_toArray_vector]

/-- And a payload behind the prefix of a script hash as that hash, when it is
not also behind the prefix of a key hash. -/
theorem decodeBase58Destination_scriptAddress (params : AddressParams) (hash : uint160)
    (notPubkey : params.pubkeyAddress.isPrefixOf (params.scriptAddress ++ hash.toList) = false) :
    decodeBase58Destination params (params.scriptAddress ++ hash.toList) = (.scriptHash hash, "") := by
  have script : (params.scriptAddress ++ hash.toList).length = 20 + params.scriptAddress.length ∧
      params.scriptAddress.isPrefixOf (params.scriptAddress ++ hash.toList) := by
    simp [List.isPrefixOf_iff_prefix, Nat.add_comm]
  rw [decodeBase58Destination, dif_neg (by simp [notPubkey]), dif_pos script]
  simp only [List.drop_left, toList_toArray_vector]

/-- What the Base58 branch reads as a hash is the payload `DestinationEncoder`
writes for it. -/
theorem encodeDestination_of_decodeBase58Destination {data : valtype} {dest : CTxDestination} {error : String}
    (classified : decodeBase58Destination params data = (dest, error)) (legacy : dest.isBase58 = true) :
    encodeDestination base58 params dest = base58.encodeBase58Check data := by
  have failed := decodeError_ne_of_isBase58 legacy
  unfold decodeBase58Destination at classified
  split at classified
  · rename_i pubkey
    obtain ⟨hash, rfl⟩ := List.isPrefixOf_iff_prefix.mp pubkey.2
    cases classified
    simp [encodeDestination]
  split at classified
  · rename_i script
    obtain ⟨hash, rfl⟩ := List.isPrefixOf_iff_prefix.mp script.2
    cases classified
    simp [encodeDestination]
  split at classified <;> exact absurd classified (failed _ error)

/-! ## Base58 addresses read back -/

/-- On the main network, the address of a key hash or of a script hash decodes
back to it with no error, whatever hash function the checksum uses. -/
theorem decodeDestination_encodeDestination_base58 (hashes : Hashes) (locateErrors : List UInt8 → String)
    (hash : uint160) :
    decodeDestination (base58Codec hashes) locateErrors AddressParams.main
        (encodeDestination (base58Codec hashes) AddressParams.main (.pkHash hash)) = (.pkHash hash, "") ∧
      decodeDestination (base58Codec hashes) locateErrors AddressParams.main
        (encodeDestination (base58Codec hashes) AddressParams.main (.scriptHash hash)) = (.scriptHash hash, "") := by
  have notBech32 : ∀ (c : UInt8) tail, (c = 0x31 ∨ c = 0x33) →
      ((c :: tail).take AddressParams.main.bech32Hrp.length).map toLower ≠ AddressParams.main.bech32Hrp := by
    rintro c tail (rfl | rfl) same <;> simp [AddressParams.main, toLower, Bech32.lowerCase] at same
  have readBack : ∀ (version c : UInt8) tail, (c = 0x31 ∨ c = 0x33) →
      Base58.encodeBase58 (version :: (hash.toList ++ (hashes.hash256 (version :: hash.toList)).take 4)) =
        some (c :: tail) →
      decodeDestination (base58Codec hashes) locateErrors AddressParams.main
          ((base58Codec hashes).encodeBase58Check (version :: hash.toList)) =
        decodeBase58Destination AddressParams.main (version :: hash.toList) := by
    intro version c tail first written
    have checked : Base58.encodeBase58Check hashes (version :: hash.toList) = some (c :: tail) := by
      rw [Base58.encodeBase58Check, List.cons_append, written]
    have read := Base58.decodeBase58Check_of_encodeBase58Check hashes
      (show (version :: hash.toList).length ≤ 21 by simp) (by simp [Base58.INT_MAX]) checked
    rw [encodeBase58Check_base58Codec checked]
    exact decodeDestination_of_not_bech32 _ _ (notBech32 c tail first) read
  constructor
  · obtain ⟨tail, written⟩ := encodeBase58_zero_cons
      (show ((hash.toList ++ (hashes.hash256 (0 :: hash.toList)).take 4).length + 1) * 138 / 100 < Base58.INT_MAX by
        simp [Base58.INT_MAX])
    exact (readBack 0 0x31 tail (.inl rfl) written).trans (decodeBase58Destination_pubkeyAddress AddressParams.main hash)
  · obtain ⟨tail, written⟩ := encodeBase58_five_cons
      (show (hash.toList ++ (hashes.hash256 (5 :: hash.toList)).take 4).length = 24 by simp)
    exact (readBack 5 0x33 tail (.inr rfl) written).trans
      (decodeBase58Destination_scriptAddress AddressParams.main hash rfl)

/-- Every string `DecodeDestination` reads as a key or script hash is, but for
the spaces around it, the address `EncodeDestination` writes for that hash, on
every network and whatever hash function the checksum uses. -/
theorem encodeDestination_decodeDestination_base58 (hashes : Hashes) {str : List UInt8} {dest : CTxDestination} {error : String}
    (decoded : decodeDestination (base58Codec hashes) locateErrors params str = (dest, error))
    (legacy : dest.isBase58 = true) :
    ∃ lead trail, str = lead ++ encodeDestination (base58Codec hashes) params dest ++ trail ∧
      ∀ c ∈ lead ++ trail, isSpace c = true := by
  obtain ⟨data, read, classified⟩ := decodeDestination_isBase58 _ locateErrors decoded legacy
  have small : (data.length + 4) * 138 / 100 < Base58.INT_MAX := by
    have within := Base58.decodeBase58Check_length_le read
    unfold Base58.INT_MAX
    omega
  obtain ⟨lead, core, trail, encoded, split, spaces⟩ := Base58.encodeBase58Check_decodeBase58Check read small
  refine ⟨lead, trail, ?_, spaces⟩
  rw [encodeDestination_of_decodeBase58Destination _ classified legacy, encodeBase58Check_base58Codec encoded, split]

/-- The address of the zero key hash under all-zero checksums, twenty-five `1`s,
read between a space and a newline. -/
theorem encodeDestination_decodeDestination_base58_spaced :
    decodeDestination (base58Codec Hashes.zeros) (fun _ => "") AddressParams.main
        ([0x20] ++ List.replicate 25 0x31 ++ [0x0a]) = (.pkHash (Vector.replicate 20 0), "") ∧
      (CTxDestination.pkHash (Vector.replicate 20 0)).isBase58 = true ∧
      ∃ lead trail, [0x20] ++ List.replicate 25 0x31 ++ [0x0a] =
          lead ++ encodeDestination (base58Codec Hashes.zeros) AddressParams.main (.pkHash (Vector.replicate 20 0)) ++
            trail ∧ ∀ c ∈ lead ++ trail, isSpace c = true :=
  have decoded : decodeDestination (base58Codec Hashes.zeros) (fun _ => "") AddressParams.main
      ([0x20] ++ List.replicate 25 0x31 ++ [0x0a]) = (.pkHash (Vector.replicate 20 0), "") := by
    decide
  ⟨decoded, rfl, encodeDestination_decodeDestination_base58 _ _ decoded rfl⟩

/-! ## The key codecs on `base58.cpp` -/

/-- The bytes of a `std::string`: the UTF-8 encoding of the string. -/
def stringBytes (str : String) : List UInt8 := str.toUTF8.data.toList

/-- The `std::string` of the bytes `EncodeBase58` writes, a character each. -/
def bytesString (bytes : List UInt8) : String := String.ofList (bytes.map fun b => Char.ofNat b.toNat)

/-- The functions of `base58.cpp` as `key_io.cpp` calls them on strings.  As in
`base58Codec`, a payload whose `int` buffer size wraps throws, which is the
empty string here. -/
def base58Check (hashes : Hashes) : Base58Check :=
  ⟨fun input => bytesString ((Base58.encodeBase58Check hashes input).getD []),
    fun str => Base58.decodeBase58Check hashes (stringBytes str)⟩

/-- An ASCII character is one byte in UTF-8. -/
theorem utf8EncodeChar_ofNat {b : UInt8} (ascii : b.toNat < 128) :
    String.utf8EncodeChar (Char.ofNat b.toNat) = [b] := by
  have valid : (b.toNat).isValidChar := by
    unfold Nat.isValidChar
    omega
  have value : (Char.ofNat b.toNat).val.toNat = b.toNat := by
    simp [Char.ofNat, Char.ofNatAux, valid]
  unfold String.utf8EncodeChar
  simp only [value, show b.toNat ≤ 127 by omega, if_true]
  simp

/-- The bytes of a string of ASCII bytes are those bytes. -/
theorem stringBytes_bytesString {bytes : List UInt8} (ascii : ∀ b ∈ bytes, b.toNat < 128) :
    stringBytes (bytesString bytes) = bytes := by
  unfold stringBytes bytesString
  rw [String.toUTF8, String.toByteArray_ofList, List.utf8Encode, List.data_toByteArray, List.toList_toArray,
    List.flatMap_map]
  induction bytes with
  | nil => rfl
  | cons b rest inductionHypothesis =>
      rw [List.flatMap_cons, utf8EncodeChar_ofNat (ascii b List.mem_cons_self),
        inductionHypothesis fun c member => ascii c (List.mem_cons_of_mem b member)]
      rfl

/-- Through the strings of `key_io.cpp`, `DecodeBase58Check` reads back what
`EncodeBase58Check` writes for a payload that fits. -/
theorem base58Check_decode_encode (hashes : Hashes) {payload : valtype} {maxRetLen : Nat}
    (fits : payload.length ≤ maxRetLen) (small : (payload.length + 4) * 138 / 100 < Base58.INT_MAX) :
    (base58Check hashes).decode ((base58Check hashes).encode payload) maxRetLen = some payload := by
  have checked : (payload ++ (hashes.hash256 payload).take 4).length = payload.length + 4 := by simp
  have written : Base58.encodeBase58Check hashes payload = some _ :=
    Base58.encodeBase58_eq _ (by rw [checked]; exact small)
  have ascii : ∀ c ∈ (Base58.encodeBase58Check hashes payload).getD [], c.toNat < 128 := by
    rw [written, Option.getD_some]
    intro c member
    rcases List.mem_append.mp member with one | digit
    · rw [List.eq_of_mem_replicate one]
      decide
    · obtain ⟨d, -, rfl⟩ := List.mem_map.mp digit
      exact Base58.toNat_pszBase58At_lt d
  show Base58.decodeBase58Check hashes (stringBytes (bytesString _)) maxRetLen = some payload
  rw [stringBytes_bytesString ascii, written, Option.getD_some]
  exact Base58.decodeBase58Check_of_encodeBase58Check hashes fits small written

/-- With the functions of `base58.cpp`, an extended key read back from its
encoding on the main network keeps its depth, fingerprint, child number and
chain code, and holds the default key: the Base58Check layer returns the 78
bytes written, and only `Decode` loses the key. -/
theorem decodeExtKey_encodeExtKey_base58 (hashes : Hashes) (x : CQExtKey) :
    decodeExtKey (base58Check hashes) Base58Prefixes.main
        (encodeExtKey (base58Check hashes) Base58Prefixes.main hashes x) = { x with key := CQKey.empty } := by
  have sized : (Base58Prefixes.main.extSecretKey ++ x.encode hashes).length =
      BIP32_EXTKEY_SIZE + Base58Prefixes.main.extSecretKey.length := by
    rw [List.length_append, CQExtKey.length_encode, Nat.add_comm]
  have read := base58Check_decode_encode hashes
    (show (Base58Prefixes.main.extSecretKey ++ x.encode hashes).length ≤ 78 by rw [sized]; rfl)
    (by rw [sized]; decide)
  unfold decodeExtKey encodeExtKey
  rw [read]
  dsimp only
  rw [if_pos (by simp [sized]), List.drop_left' rfl, CQExtKey.empty_decode_encode]

/-- With the functions of `base58.cpp`, `DecodeSecret` refuses the string
`EncodeSecret` writes for a valid key already at the Base58Check layer: the
payload, the prefix, 4032 secret bytes and maybe the flag, is longer than the
34 bytes it reads, so the key read back is the empty one. -/
theorem decodeSecret_encodeSecret_base58 (hashes : Hashes) {key : CQKey} (valid : key.isValid = true) :
    ∃ str, encodeSecret (base58Check hashes) Base58Prefixes.main key = some str ∧
      (base58Check hashes).decode str 34 = none ∧
      decodeSecret (base58Check hashes) Base58Prefixes.main str = CQKey.empty := by
  have secretSize := CQKey.getPrivKeyData_length_of_isValid valid
  have payloadSize : (Base58Prefixes.main.secretKey ++ key.getPrivKeyData ++
      (if key.isCompressed then [1] else [])).length = 4033 ∨
      (Base58Prefixes.main.secretKey ++ key.getPrivKeyData ++ (if key.isCompressed then [1] else [])).length = 4034 := by
    unfold DILITHIUM_SECRETKEY_SIZE at secretSize
    split <;> simp [Base58Prefixes.main, secretSize]
  have read := base58Check_decode_encode hashes
    (le_refl (Base58Prefixes.main.secretKey ++ key.getPrivKeyData ++ (if key.isCompressed then [1] else [])).length)
    (by unfold Base58.INT_MAX; omega)
  have refused : (base58Check hashes).decode ((base58Check hashes).encode (Base58Prefixes.main.secretKey ++
      key.getPrivKeyData ++ (if key.isCompressed then [1] else []))) 34 = none :=
    Base58.decodeBase58Check_eq_none_of_lt read (by omega)
  refine ⟨_, if_neg (by simp [valid]), refused, ?_⟩
  unfold decodeSecret
  rw [refused]

end Qbitcoin
