import Qbitcoin.Key.ExtKey

/-!
# Key import and export

`key_io.cpp`: a WIF secret and the BIP32 extended keys as Base58Check strings,
each behind the chain's version prefix.  The Base58Check layer is a parameter
here; what is proved about the decoders holds whatever it computes, and
`Key/Base58Address.lean` instantiates it with the functions of `base58.cpp`.

None of the three decoders returns a key.  `DecodeSecret` accepts a payload of
32 or 33 bytes after the prefix and hands `CQKey::Set` a 32-byte secret, which
it refuses, since a Dilithium3 secret is 4032 bytes (`EncodeSecret` writes all
of them).  `CQExtKey::Decode` reads the depth, fingerprint, child number and
chain code and leaves the key as the default key, and `CQExtPubKey::Decode` is
a no-op, so `DecodeExtPubKey` returns the default key whatever it reads.
-/

namespace Qbitcoin

/-- `EncodeBase58Check` and `DecodeBase58Check(str, vchRet, max_ret_len)` of
`base58.cpp`. -/
structure Base58Check where
  /-- `EncodeBase58Check`: the payload, its checksum, in base 58. -/
  encode : valtype → String
  /-- `DecodeBase58Check`: the payload, or `none` on a bad string or checksum and
  on a payload longer than the limit. -/
  decode : String → Nat → Option valtype

/-- The prefixes `CChainParams::Base58Prefix` gives the key codecs. -/
structure Base58Prefixes where
  secretKey : valtype
  extPublicKey : valtype
  extSecretKey : valtype

/-- The main network's prefixes (`kernel/chainparams.cpp`). -/
def Base58Prefixes.main : Base58Prefixes := ⟨[128], [0x04, 0x88, 0xB2, 0x1E], [0x04, 0x88, 0xAD, 0xE4]⟩

section

variable (base58 : Base58Check) (prefixes : Base58Prefixes)

/-- `DecodeSecret`: a payload of the prefix and 32 bytes, or 33 ending in the
compression flag, sets the key from its 32 bytes after the prefix. -/
def decodeSecret (str : String) : CQKey :=
  match base58.decode str 34 with
  | none => CQKey.empty
  | some data =>
      let versionBytes := prefixes.secretKey
      if (data.length == 32 + versionBytes.length ||
            (data.length == 33 + versionBytes.length && data.getLast? == some 1)) &&
          data.take versionBytes.length == versionBytes then
        let compressed := data.length == 33 + versionBytes.length
        CQKey.empty.set ((data.drop versionBytes.length).take 32) compressed
      else CQKey.empty

/-- `EncodeSecret`: the prefix, the whole secret and the compression flag;
`none` where its `assert(key.IsValid())` fails. -/
def encodeSecret (key : CQKey) : Option String :=
  if !key.isValid then none
  else some (base58.encode (prefixes.secretKey ++ key.getPrivKeyData ++ if key.isCompressed then [1] else []))

/-- `DecodeExtPubKey`. -/
def decodeExtPubKey (str : String) : CQExtPubKey :=
  match base58.decode str 78 with
  | none => CQExtPubKey.empty
  | some data =>
      let versionBytes := prefixes.extPublicKey
      if data.length == BIP32_EXTKEY_SIZE + versionBytes.length && data.take versionBytes.length == versionBytes then
        CQExtPubKey.empty.decode (data.drop versionBytes.length)
      else CQExtPubKey.empty

/-- `EncodeExtPubKey`. -/
def encodeExtPubKey (xpub : CQExtPubKey) : String :=
  base58.encode (prefixes.extPublicKey ++ xpub.encode)

/-- `DecodeExtKey`. -/
def decodeExtKey (str : String) : CQExtKey :=
  match base58.decode str 78 with
  | none => CQExtKey.empty
  | some data =>
      let versionBytes := prefixes.extSecretKey
      if data.length == BIP32_EXTKEY_SIZE + versionBytes.length && data.take versionBytes.length == versionBytes then
        CQExtKey.empty.decode (data.drop versionBytes.length)
      else CQExtKey.empty

/-- `EncodeExtKey`. -/
def encodeExtKey (hashes : Hashes) (x : CQExtKey) : String :=
  base58.encode (prefixes.extSecretKey ++ x.encode hashes)

/-! ## What the decoders return -/

/-- `DecodeSecret` hands `Set` at most 32 bytes, which never make a key. -/
theorem isValid_decodeSecret (str : String) : (decodeSecret base58 prefixes str).isValid = false := by
  unfold decodeSecret
  split
  · rfl
  · rename_i data _
    dsimp only
    split
    · have short : ((data.drop prefixes.secretKey.length).take 32).length ≠ DILITHIUM_SECRETKEY_SIZE := by
        have atMost := List.length_take_le 32 (data.drop prefixes.secretKey.length)
        unfold DILITHIUM_SECRETKEY_SIZE
        omega
      exact CQKey.isValid_set_of_length short
    · rfl

/-- `CQExtKey::Decode` never sets the key, so every decoded extended key holds
the default one. -/
theorem decodeExtKey_key (str : String) : (decodeExtKey base58 prefixes str).key = CQKey.empty := by
  unfold decodeExtKey
  split
  · rfl
  · dsimp only
    split <;> rfl

/-- `CQExtPubKey::Decode` is a no-op, so every string decodes to the default key. -/
theorem decodeExtPubKey_eq_empty (str : String) : decodeExtPubKey base58 prefixes str = CQExtPubKey.empty := by
  unfold decodeExtPubKey
  split
  · rfl
  · dsimp only
    split <;> rfl

/-- The key codecs lose the key: no string decodes to a valid secret key, an
extended key read back from its encoding holds the default key, and an extended
public key read back from its encoding is the default key, whatever the
Base58Check layer and the prefixes. -/
theorem keyIO_decoders_drop_keys (hashes : Hashes) :
    (∀ str, (decodeSecret base58 prefixes str).isValid = false) ∧
      (∀ x : CQExtKey, (decodeExtKey base58 prefixes (encodeExtKey base58 prefixes hashes x)).key = CQKey.empty) ∧
      ∀ xpub : CQExtPubKey, decodeExtPubKey base58 prefixes (encodeExtPubKey base58 prefixes xpub) = CQExtPubKey.empty :=
  ⟨isValid_decodeSecret base58 prefixes, fun _ => decodeExtKey_key base58 prefixes _,
    fun _ => decodeExtPubKey_eq_empty base58 prefixes _⟩

/-! ## The round trips fail -/

/-- Every valid key has an encoding, and it decodes to an invalid key. -/
theorem decodeSecret_encodeSecret {key : CQKey} (valid : key.isValid = true) :
    ∃ str, encodeSecret base58 prefixes key = some str ∧ (decodeSecret base58 prefixes str).isValid = false :=
  have asserted : ¬ (!key.isValid) = true := by simp [valid]
  ⟨_, if_neg asserted, isValid_decodeSecret base58 prefixes _⟩

/-- An extended key with a valid key is not equal, under `operator==`, to what
its encoding decodes to. -/
theorem beq_decodeExtKey_encodeExtKey (hashes : Hashes) {x : CQExtKey} (valid : x.key.isValid = true) :
    (decodeExtKey base58 prefixes (encodeExtKey base58 prefixes hashes x)).beq x = false := by
  have keyDiffers : CQKey.empty.beq x.key = false := CQKey.beq_empty_of_isValid valid
  simp [CQExtKey.beq, decodeExtKey_key, keyDiffers]

/-- An extended public key with a valid key is not equal, under `operator==`,
to what its encoding decodes to. -/
theorem beq_decodeExtPubKey_encodeExtPubKey {xpub : CQExtPubKey} (valid : xpub.pubkey.isValid = true) :
    (decodeExtPubKey base58 prefixes (encodeExtPubKey base58 prefixes xpub)).beq xpub = false := by
  have keyDiffers : (CQPubKey.invalid.toBytes == xpub.pubkey.toBytes) = false := by
    refine beq_eq_false_iff_ne.mpr fun same => ?_
    have sameKey : CQPubKey.invalid = xpub.pubkey := by
      rw [← CQPubKey.ofBytes_toBytes CQPubKey.invalid, same, CQPubKey.ofBytes_toBytes]
    rw [← sameKey, CQPubKey.invalid_not_isValid] at valid
    cases valid
  simp [CQExtPubKey.beq, decodeExtPubKey_eq_empty, CQExtPubKey.empty, keyDiffers]

end

end Qbitcoin
