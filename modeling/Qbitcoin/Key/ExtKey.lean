import Qbitcoin.Key.QKey

/-!
# Extended keys

`CQExtKey` and `CQExtPubKey` of `key.h`, with the BIP32-style derivation of
`key.cpp`.  The fork derives a child secret by mixing hash output into the
parent secret, and feeds the public key that `GetPubKey` returns into
non-hardened derivations; derivation from an extended public key is not
implemented and always fails.

Each call that reaches `qbtc_dilithium3_keypair` (through `GetPubKey` on a key
whose cache is empty) takes the randomness it draws as an argument.
-/

namespace Qbitcoin

/-- `ChainCode`. -/
abbrev ChainCode := Vector UInt8 32

/-- `BIP32_EXTKEY_SIZE`. -/
def BIP32_EXTKEY_SIZE : Nat := 74

/-- The bytes of a string literal passed as `(unsigned char*)"..."`. -/
def asciiBytes (s : String) : valtype := s.toList.map fun c => c.toNat.toUInt8

/-- `(n >> 24) & 0xFF, (n >> 16) & 0xFF, (n >> 8) & 0xFF, n & 0xFF`. -/
def beBytes32 (n : UInt32) : valtype := [(n >>> 24).toUInt8, (n >>> 16).toUInt8, (n >>> 8).toUInt8, n.toUInt8]

/-- The inverse of `beBytes32`, as `Decode` reads a child number. -/
def readBE32 (code : valtype) : UInt32 :=
  ((code.getD 0 0).toUInt32 <<< 24) ||| ((code.getD 1 0).toUInt32 <<< 16) |||
    ((code.getD 2 0).toUInt32 <<< 8) ||| (code.getD 3 0).toUInt32

/-- `CQExtKey`.  The default-constructed fields the C++ leaves uninitialised
are zero here. -/
structure CQExtKey where
  nDepth : UInt8
  vchFingerprint : Vector UInt8 4
  nChild : UInt32
  chaincode : ChainCode
  key : CQKey
  deriving DecidableEq, Repr

/-- `CQExtPubKey`. -/
structure CQExtPubKey where
  version : Vector UInt8 4
  nDepth : UInt8
  vchFingerprint : Vector UInt8 4
  nChild : UInt32
  chaincode : ChainCode
  pubkey : CQPubKey
  deriving DecidableEq, Repr

namespace CQKey

variable (lib : Dilithium) (hashes : Hashes)

/-- The child secret of `CQKey::Derive`: each byte of the parent secret XOR a
byte of `SHA512(seed ‖ parent secret ‖ "QBTC_BIP32_DERIVE")`. -/
def childKeyData (keydata : Vector UInt8 DILITHIUM_SECRETKEY_SIZE) (seed : valtype) :
    Vector UInt8 DILITHIUM_SECRETKEY_SIZE :=
  let childSeed := hashes.sha512 (seed ++ keydata.toList ++ asciiBytes "QBTC_BIP32_DERIVE")
  Vector.ofFn fun i => keydata[i] ^^^ childSeed.getD (i.val % 64) 0

/-- `CQKey::Derive(keyChild, ccChild, nChild, cc)`: whether it succeeded, the
child key and chain code as written, and the parent, whose cache a
non-hardened derivation fills: its HMAC covers the public key `GetPubKey`
returns.  `coinsParent` and `coinsChild` are drawn by the `GetPubKey` calls on
the parent and on the child. -/
def derive (key keyChild : CQKey) (ccChild : ChainCode) (nChild : UInt32) (cc : ChainCode)
    (coinsParent coinsChild : valtype) : Bool × CQKey × ChainCode × CQKey :=
  match key.keydata with
  | none => (false, keyChild, ccChild, key)
  | some keydata =>
      let (vout, key) :=
        if nChild >>> 31 = 0 then
          let (pubkey, key) := key.getPubKey lib coinsParent
          (hashes.hmacSha512 cc.toList (pubkey.toBytes ++ beBytes32 nChild), key)
        else (hashes.hmacSha512 cc.toList (0x00 :: keydata.toList ++ beBytes32 nChild), key)
      let ccChild : ChainCode := fixedBytes 32 (vout.drop 32)
      let keyChild := { keyChild with
        keydata := some (childKeyData hashes keydata (vout.take 32)), cachedPubkey := none }
      let (childPubkey, keyChild) := keyChild.getPubKey lib coinsChild
      if !childPubkey.isValid then (false, keyChild.clearKeyData, ccChild, key)
      else (true, keyChild, ccChild, key)

end CQKey

namespace CQExtKey

variable (lib : Dilithium) (hashes : Hashes)

/-- `operator==`: the keys compare by their secret bytes only. -/
def beq (a b : CQExtKey) : Bool :=
  a.nDepth == b.nDepth && a.vchFingerprint == b.vchFingerprint && a.nChild == b.nChild &&
    a.chaincode == b.chaincode && a.key.beq b.key

/-- The master secret `SetSeed` builds from a seed: byte `i` is byte `i % 64`
of `SHA512(HMAC-SHA512("QBTC seed", seed)[0..32] ‖ "QBTC_MASTER")` XOR the low
byte of `i`. -/
def masterKeyData (seed : valtype) : valtype :=
  let vout := hashes.hmacSha512 (asciiBytes "QBTC seed") seed
  let masterEntropy := hashes.sha512 (vout.take 32 ++ asciiBytes "QBTC_MASTER")
  List.ofFn fun i : Fin DILITHIUM_SECRETKEY_SIZE =>
    masterEntropy.getD (i.val % 64) 0 ^^^ UInt8.ofNat (i.val &&& 0xFF)

/-- `CQExtKey::SetSeed`: `none` where it throws, when `SetPrivKeyData`
rejects the master secret. -/
def setSeed (x : CQExtKey) (seed coins : valtype) : Option CQExtKey :=
  let vout := hashes.hmacSha512 (asciiBytes "QBTC seed") seed
  let chaincode : ChainCode := fixedBytes 32 (vout.drop 32)
  let (ok, key) := x.key.setPrivKeyData lib (masterKeyData hashes seed) coins
  if !ok then none
  else if !key.isValid then none
  else some { nDepth := 0, vchFingerprint := Vector.replicate 4 0, nChild := 0, chaincode, key }

/-- `CQExtKey::Derive(out, nChild)`: whether it succeeded, `out` as written,
and the parent with its cache.  The fingerprint is taken from the parent's
`GetPubKey`, which draws `coinsParent` if nothing is cached. -/
def derive (x out : CQExtKey) (nChild : UInt32) (coinsParent coinsChild : valtype) :
    Bool × CQExtKey × CQExtKey :=
  let (parentPubkey, key) := x.key.getPubKey lib coinsParent
  let (ok, childKey, chaincode, key) :=
    key.derive lib hashes out.key out.chaincode nChild x.chaincode coinsParent coinsChild
  (ok, { nDepth := x.nDepth + 1, vchFingerprint := fixedBytes 4 (parentPubkey.getID hashes), nChild,
         chaincode, key := childKey }, { x with key })

/-- `CQExtKey::Neuter`, with the parent and its cache. -/
def neuter (x : CQExtKey) (coins : valtype) : CQExtPubKey × CQExtKey :=
  let (pubkey, key) := x.key.getPubKey lib coins
  (⟨Vector.replicate 4 0, x.nDepth, x.vchFingerprint, x.nChild, x.chaincode, pubkey⟩, { x with key })

/-- `CQExtKey()`: the default key, with the fields the C++ leaves uninitialised zero. -/
def empty : CQExtKey := ⟨0, Vector.replicate 4 0, 0, Vector.replicate 32 0, CQKey.empty⟩

/-- `CQExtKey::Encode`: the version, depth, fingerprint, child number and
chain code, then a zero byte and 28 bytes of the double SHA-256 of the secret
in place of the key. -/
def encode (x : CQExtKey) : valtype :=
  [0x04, 0x88, 0xAD, 0xE4, x.nDepth] ++ x.vchFingerprint.toList ++ beBytes32 x.nChild ++
    x.chaincode.toList ++ [0x00] ++ (hashes.hash256 x.key.getPrivKeyData).take 28

/-- `CQExtKey::Decode`: the key is left as it was. -/
def decode (x : CQExtKey) (code : valtype) : CQExtKey :=
  { x with nDepth := code.getD 4 0, vchFingerprint := fixedBytes 4 (code.drop 5),
           nChild := readBE32 (code.drop 9), chaincode := fixedBytes 32 (code.drop 13) }

end CQExtKey

namespace CQExtPubKey

/-- `CQExtPubKey()`: the invalid public key, the other fields zero. -/
def empty : CQExtPubKey :=
  ⟨Vector.replicate 4 0, 0, Vector.replicate 4 0, 0, Vector.replicate 32 0, CQPubKey.invalid⟩

/-- `operator==`: the version is not compared, the public keys by their bytes. -/
def beq (a b : CQExtPubKey) : Bool :=
  a.nDepth == b.nDepth && a.vchFingerprint == b.vchFingerprint && a.nChild == b.nChild &&
    a.chaincode == b.chaincode && a.pubkey.toBytes == b.pubkey.toBytes

/-- `CQExtPubKey::Derive`: not implemented, it fails for every index. -/
def derive (_xpub : CQExtPubKey) (_nChild : UInt32) : Option CQExtPubKey := none

/-- `CQExtPubKey::Encode`: all zero bytes. -/
def encode (_xpub : CQExtPubKey) : valtype := List.replicate BIP32_EXTKEY_SIZE 0

/-- `CQExtPubKey::Decode`: a no-op. -/
def decode (xpub : CQExtPubKey) (_code : valtype) : CQExtPubKey := xpub

end CQExtPubKey

theorem length_beBytes32 (n : UInt32) : (beBytes32 n).length = 4 := rfl

/-- `Decode` reads back the child number `Encode` writes, bit by bit: each
byte of `beBytes32` lands at the place it was taken from. -/
theorem readBE32_beBytes32 (n : UInt32) (rest : valtype) : readBE32 (beBytes32 n ++ rest) = n := by
  simp only [readBE32, beBytes32, List.cons_append, List.getD_cons_zero, List.getD_cons_succ]
  apply UInt32.toBitVec_inj.mp
  simp only [UInt32.toBitVec_or, UInt32.toBitVec_shiftLeft, UInt32.toBitVec_shiftRight, UInt8.toBitVec_toUInt32,
    UInt32.toBitVec_toUInt8]
  have s24 : UInt32.toBitVec 24 % 32 = 24#32 := by decide
  have s16 : UInt32.toBitVec 16 % 32 = 16#32 := by decide
  have s8 : UInt32.toBitVec 8 % 32 = 8#32 := by decide
  rw [s24, s16, s8]
  simp only [BitVec.shiftLeft_eq', BitVec.ushiftRight_eq', BitVec.toNat_ofNat]
  ext i hi
  simp only [BitVec.getElem_or, BitVec.getElem_shiftLeft, BitVec.getElem_setWidth, BitVec.getLsbD_setWidth,
    BitVec.getLsbD_ushiftRight]
  rw [← BitVec.getLsbD_eq_getElem]
  rcases (show i < 8 ∨ (8 ≤ i ∧ i < 16) ∨ (16 ≤ i ∧ i < 24) ∨ (24 ≤ i ∧ i < 32) by omega) with
    byte | byte | byte | byte
  · simp [byte, show i < 16 by omega, show i < 24 by omega]
  · simp [show i < 24 by omega, show ¬ i < 8 by omega, show i - 8 < 8 by omega, show 8 + (i - 8) = i by omega,
      show ¬ 16 ≤ i by omega]
  · simp [show ¬ i < 16 by omega, show ¬ i < 8 by omega, show ¬ i - 8 < 8 by omega, show i - 16 < 8 by omega,
      show 16 + (i - 16) = i by omega, show i < 24 by omega]
  · simp [show ¬ i < 24 by omega, show ¬ i < 16 by omega, show ¬ i < 8 by omega, show ¬ i - 8 < 8 by omega,
      show ¬ i - 16 < 8 by omega, show i - 24 < 8 by omega, show 24 + (i - 24) = i by omega]

namespace CQExtKey

variable {lib : Dilithium} {hashes : Hashes}

/-- `Encode` writes 74 bytes, `BIP32_EXTKEY_SIZE`. -/
theorem length_encode (x : CQExtKey) : (x.encode hashes).length = BIP32_EXTKEY_SIZE := by
  simp [encode, length_beBytes32, BIP32_EXTKEY_SIZE]

/-- `Decode` of what `Encode` writes restores the depth, the fingerprint, the
child number and the chain code, and leaves the key it was called on. -/
theorem empty_decode_encode (x : CQExtKey) : empty.decode (x.encode hashes) = { x with key := CQKey.empty } := by
  have grouped : x.encode hashes = [0x04, 0x88, 0xAD, 0xE4, x.nDepth] ++ (x.vchFingerprint.toList ++
      (beBytes32 x.nChild ++ (x.chaincode.toList ++ ([0x00] ++ (hashes.hash256 x.key.getPrivKeyData).take 28)))) := by
    simp only [encode, List.append_assoc]
  rw [grouped]
  simp [decode, empty, List.drop_append, List.drop_eq_nil_of_le, fixedBytes_toList_append, readBE32_beBytes32,
    length_beBytes32, show (beBytes32 x.nChild).drop 4 = [] from rfl]

/-- A master key `SetSeed` returned is at depth 0 with child number 0 and a
zero fingerprint, and its chain code and secret are functions of the seed. -/
theorem setSeed_eq_some {x m : CQExtKey} {seed coins : valtype}
    (seeded : x.setSeed lib hashes seed coins = some m) :
    m.nDepth = 0 ∧ m.vchFingerprint = Vector.replicate 4 0 ∧ m.nChild = 0 ∧
      m.chaincode = fixedBytes 32 ((hashes.hmacSha512 (asciiBytes "QBTC seed") seed).drop 32) ∧
      m.key.getPrivKeyData = masterKeyData hashes seed := by
  unfold setSeed at seeded
  cases stored : x.key.setPrivKeyData lib (masterKeyData hashes seed) coins with
  | mk ok key =>
      rw [stored] at seeded
      dsimp only at seeded
      split_ifs at seeded with rejected
      cases seeded
      have accepted : (x.key.setPrivKeyData lib (masterKeyData hashes seed) coins).1 = true := by
        rw [stored]
        simpa using rejected
      have kept := CQKey.getPrivKeyData_setPrivKeyData accepted
      rw [stored] at kept
      exact ⟨rfl, rfl, rfl, rfl, kept⟩

/-- Equal seeds give master keys equal under `operator==`, whatever the key
generation draws. -/
theorem beq_of_setSeed {x₁ x₂ m₁ m₂ : CQExtKey} {seed coins₁ coins₂ : valtype}
    (seeded₁ : x₁.setSeed lib hashes seed coins₁ = some m₁)
    (seeded₂ : x₂.setSeed lib hashes seed coins₂ = some m₂) : m₁.beq m₂ = true := by
  obtain ⟨depth₁, fingerprint₁, child₁, chaincode₁, secret₁⟩ := setSeed_eq_some seeded₁
  obtain ⟨depth₂, fingerprint₂, child₂, chaincode₂, secret₂⟩ := setSeed_eq_some seeded₂
  have sameKey : m₁.key.beq m₂.key = true := CQKey.beq_of_getPrivKeyData_eq (secret₁.trans secret₂.symm)
  simp [beq, depth₁, depth₂, fingerprint₁, fingerprint₂, child₁, child₂, chaincode₁, chaincode₂,
    sameKey]

end CQExtKey

/-- What holds of a key's secret through `Set`, `SetPrivKeyData` and
`SetSeed`, and of derivation from an extended public key: a secret that `Set`
or `SetPrivKeyData` accepts is stored as given, so two keys holding it are
equal, and `Set` leaves no cached public key from what the key held before;
equal seeds give equal master keys; and `Neuter().Derive(i)` fails for every
extended key and index. -/
theorem extKey_secrets_fixed (lib : Dilithium) (hashes : Hashes) :
    (∀ (k₁ k₂ : CQKey) (s : valtype) (c : Bool), s.length = DILITHIUM_SECRETKEY_SIZE →
        CQKey.check s = true →
        (k₁.set s c).beq (k₂.set s c) = true ∧ (k₁.set s c).getPrivKeyData = s ∧
          (k₁.set s c).cachedPubkey = none) ∧
      (∀ (k₁ k₂ : CQKey) (s coins₁ coins₂ : valtype), (k₁.setPrivKeyData lib s coins₁).1 = true →
        (k₂.setPrivKeyData lib s coins₂).1 = true →
        (k₁.setPrivKeyData lib s coins₁).2.beq (k₂.setPrivKeyData lib s coins₂).2 = true) ∧
      (∀ (x₁ x₂ m₁ m₂ : CQExtKey) (seed coins₁ coins₂ : valtype),
        x₁.setSeed lib hashes seed coins₁ = some m₁ → x₂.setSeed lib hashes seed coins₂ = some m₂ →
        m₁.beq m₂ = true) ∧
      ∀ (x : CQExtKey) (coins : valtype) (nChild : UInt32), (x.neuter lib coins).1.derive nChild = none := by
  refine ⟨fun k₁ k₂ s c sized checked => ?_, fun k₁ k₂ s coins₁ coins₂ accepted₁ accepted₂ => ?_,
    fun x₁ x₂ m₁ m₂ seed coins₁ coins₂ seeded₁ seeded₂ => CQExtKey.beq_of_setSeed seeded₁ seeded₂,
    fun _ _ _ => rfl⟩
  · have first : (k₁.set s c).getPrivKeyData = s ∧ (k₁.set s c).cachedPubkey = none :=
      CQKey.set_of_check sized checked
    have second : (k₂.set s c).getPrivKeyData = s ∧ (k₂.set s c).cachedPubkey = none :=
      CQKey.set_of_check sized checked
    exact ⟨CQKey.beq_of_getPrivKeyData_eq (first.1.trans second.1.symm), first⟩
  · exact CQKey.beq_of_getPrivKeyData_eq ((CQKey.getPrivKeyData_setPrivKeyData accepted₁).trans
      (CQKey.getPrivKeyData_setPrivKeyData accepted₂).symm)

set_option maxRecDepth 200000 in
/-- `extKey_secrets_fixed` with the constant library and hash functions: a
secret of 4032 one-bytes set into two keys, and the master keys of the seed
`[1]` drawn with different randomness. -/
theorem extKey_secrets_fixed_zeros :
    let s := List.replicate DILITHIUM_SECRETKEY_SIZE 1
    let x : CQExtKey := ⟨0, Vector.replicate 4 0, 0, Vector.replicate 32 0, CQKey.empty⟩
    (CQKey.empty.set s true).beq ((CQKey.empty.writeKeyData [2]).set s true) = true ∧
      (CQKey.empty.setPrivKeyData Dilithium.zeros s []).2.beq
        (CQKey.empty.setPrivKeyData Dilithium.zeros s [1]).2 = true ∧
      ((x.setSeed Dilithium.zeros Hashes.zeros [1] []).getD x).beq
        ((x.setSeed Dilithium.zeros Hashes.zeros [1] [2]).getD x) = true ∧
      (x.neuter Dilithium.zeros []).1.derive 0 = none := by
  intro s x
  have fixed := extKey_secrets_fixed Dilithium.zeros Hashes.zeros
  have sized : s.length = DILITHIUM_SECRETKEY_SIZE := List.length_replicate
  have checked : CQKey.check s = true := by decide
  have accepted₁ : (CQKey.empty.setPrivKeyData Dilithium.zeros s []).1 = true := by
    decide
  have accepted₂ : (CQKey.empty.setPrivKeyData Dilithium.zeros s [1]).1 = true := by
    decide
  have seeded : ∀ coins, (x.setSeed Dilithium.zeros Hashes.zeros [1] coins).isSome = true →
      x.setSeed Dilithium.zeros Hashes.zeros [1] coins =
        some ((x.setSeed Dilithium.zeros Hashes.zeros [1] coins).getD x) := by
    intro coins succeeded
    cases master : x.setSeed Dilithium.zeros Hashes.zeros [1] coins with
    | none => rw [master] at succeeded; cases succeeded
    | some m => rfl
  have seeded₁ := seeded [] (by decide)
  have seeded₂ := seeded [2] (by decide)
  exact ⟨(fixed.1 _ _ s true sized checked).1, fixed.2.1 _ _ s [] [1] accepted₁ accepted₂,
    fixed.2.2.1 x x _ _ [1] [] [2] seeded₁ seeded₂, fixed.2.2.2 x [] 0⟩

/-- Derivation through `Neuter` fails for a master key at index 0, a
non-hardened index. -/
theorem neuter_derive_fails_zeros :
    ((⟨0, Vector.replicate 4 0, 0, Vector.replicate 32 0, CQKey.empty⟩ : CQExtKey).neuter
      Dilithium.zeros []).1.derive 0 = none ∧ (0 : UInt32) >>> 31 = 0 := ⟨rfl, rfl⟩

end Qbitcoin
