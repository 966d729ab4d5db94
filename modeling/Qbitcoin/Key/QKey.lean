import Qbitcoin.Crypto.Dilithium
import Qbitcoin.Crypto.Hashes
import Qbitcoin.Lib.LittleEndian

/-!
# `CQKey` and `CQPubKey`

The key classes of `key.h` and `key.cpp`.  A `CQKey` owns its secret key
bytes (or none, for an invalid key) and a cache of its public key, which the
C++ keeps in two `mutable` members that are always set and cleared together;
the model has one optional field for both.  `GetPubKey` and `Derive` are
`const` in C++ but fill this cache, so the model returns the updated key
beside their result.

Every operation that ends in `qbtc_dilithium3_keypair` takes the randomness
that call draws as an argument `coins`.
-/

namespace Qbitcoin

open ByteCodec

/-- The first `n` bytes of a buffer of `n` bytes into which `bytes` were
written, zero where nothing was written. -/
def fixedBytes (n : Nat) (bytes : valtype) : Vector UInt8 n :=
  Vector.ofFn fun i => bytes.getD i 0

@[simp]
theorem fixedBytes_toList {n : Nat} {bytes : valtype} (sized : bytes.length = n) :
    (fixedBytes n bytes).toList = bytes := by
  subst sized
  apply List.ext_getElem
  · simp
  · intro i inVector inBytes
    simp [fixedBytes, List.getD_eq_getElem?_getD]

/-- A buffer read from the bytes of a vector of its size, and whatever follows
them, is that vector. -/
theorem fixedBytes_toList_append {n : Nat} (v : Vector UInt8 n) (rest : valtype) :
    fixedBytes n (v.toList ++ rest) = v := by
  ext i inside
  simp [fixedBytes, List.getD_eq_getElem?_getD,
    List.getElem?_append_left (show i < v.toList.length by simpa using inside), inside]

/-- `CQPubKey`: the bytes of a Dilithium3 public key.  An invalid key is all `0xFF`. -/
structure CQPubKey where
  vch : Vector UInt8 DILITHIUM_PUBLICKEY_SIZE
  deriving DecidableEq, Repr

namespace CQPubKey

/-- `CQPubKey()`, the invalid key that `Invalidate` writes. -/
def invalid : CQPubKey := ⟨Vector.replicate _ 0xFF⟩

/-- `CQPubKey(vch)`: the key when the length is right, the invalid key otherwise. -/
def ofBytes (bytes : valtype) : CQPubKey :=
  if bytes.length = DILITHIUM_PUBLICKEY_SIZE then ⟨fixedBytes _ bytes⟩ else invalid

/-- The serialized key, `std::vector<unsigned char>(begin(), end())`. -/
def toBytes (pubkey : CQPubKey) : valtype := pubkey.vch.toList

/-- `CQPubKey::IsValid`: some byte differs from `0xFF`. -/
def isValid (pubkey : CQPubKey) : Bool := pubkey.toBytes.any (· != 0xFF)

/-- `CQPubKey::ValidSize`. -/
def validSize (vch : valtype) : Bool := vch.length == DILITHIUM_PUBLICKEY_SIZE

/-- `CQPubKey::IsFullyValid`, which only checks `IsValid` (`key.cpp` 341). -/
def isFullyValid (pubkey : CQPubKey) : Bool := pubkey.isValid

/-- `CQPubKey::Decompress`: a Dilithium key has one form, so it only reports
`IsValid`. -/
def decompress (pubkey : CQPubKey) : Bool := pubkey.isValid

/-- `CQPubKey::GetID`: the Hash160 of the key. -/
def getID (hashes : Hashes) (pubkey : CQPubKey) : valtype := hashes.hash160 pubkey.toBytes

/-- `CQPubKey::Verify`: only a valid key, and a signature of at most twice the
signature size, reach the library. -/
def verify (lib : Dilithium) (pubkey : CQPubKey) (hash vchSig : valtype) : Bool :=
  if !pubkey.isValid then false
  else if vchSig.length > DILITHIUM_SIGNATURE_SIZE * 2 then false
  else lib.verify vchSig hash pubkey.toBytes

@[simp]
theorem toBytes_length (pubkey : CQPubKey) : pubkey.toBytes.length = DILITHIUM_PUBLICKEY_SIZE := by
  simp [toBytes]

theorem toBytes_ofBytes {bytes : valtype} (sized : bytes.length = DILITHIUM_PUBLICKEY_SIZE) :
    (ofBytes bytes).toBytes = bytes := by
  simp [ofBytes, toBytes, sized]

theorem ofBytes_toBytes (pubkey : CQPubKey) : ofBytes pubkey.toBytes = pubkey := by
  have sized := toBytes_length pubkey
  obtain ⟨vch⟩ := pubkey
  simp only [ofBytes, sized, if_true, mk.injEq]
  exact Vector.toList_inj.mp (fixedBytes_toList sized)

theorem invalid_not_isValid : invalid.isValid = false := by
  simp [isValid, invalid, toBytes]

/-- `Set` invalidates the key from a byte string of any other length. -/
theorem ofBytes_of_length_ne {bytes : valtype} (wrongSize : bytes.length ≠ DILITHIUM_PUBLICKEY_SIZE) :
    ofBytes bytes = invalid := by
  rw [ofBytes, if_neg wrongSize]

/-- A byte string of any other length makes an invalid key. -/
theorem isValid_ofBytes_of_length {bytes : valtype} (wrongSize : bytes.length ≠ DILITHIUM_PUBLICKEY_SIZE) :
    (ofBytes bytes).isValid = false := by
  simp [ofBytes, wrongSize, invalid_not_isValid]

/-- What `Verify` accepts, the library accepted for this key. -/
theorem lib_verify_of_verify {lib : Dilithium} {pubkey : CQPubKey} {hash vchSig : valtype}
    (verified : pubkey.verify lib hash vchSig = true) :
    pubkey.isValid = true ∧ lib.verify vchSig hash pubkey.toBytes = true := by
  unfold verify at verified
  split_ifs at verified with invalidKey long
  · simp at invalidKey
    exact ⟨invalidKey, verified⟩

end CQPubKey

/-- `CQKey`: the secret key bytes, if any, the compression flag and the cached
public key. -/
structure CQKey where
  fCompressed : Bool
  keydata : Option (Vector UInt8 DILITHIUM_SECRETKEY_SIZE)
  cachedPubkey : Option CQPubKey
  deriving DecidableEq, Repr

namespace CQKey

/-- `CQKey()`: no key data, compressed, nothing cached. -/
def empty : CQKey := ⟨true, none, none⟩

/-- `CQKey::Check`: the bytes are neither all zero nor all `0xFF`. -/
def check (vch : valtype) : Bool := !(vch.all (· == 0)) && !(vch.all (· == 0xFF))

/-- `CQKey::IsValid`. -/
def isValid (key : CQKey) : Bool := key.keydata.isSome

/-- `CQKey::IsCompressed`. -/
def isCompressed (key : CQKey) : Bool := key.fCompressed

/-- `CQKey::GetPrivKeyData`: the secret key bytes, empty for an invalid key. -/
def getPrivKeyData (key : CQKey) : valtype := (key.keydata.map Vector.toList).getD []

/-- `operator==`: equal sizes, and equal bytes when there are any.  The cache
and the compression flag are not compared. -/
def beq (a b : CQKey) : Bool :=
  a.getPrivKeyData.length == b.getPrivKeyData.length &&
    (a.getPrivKeyData.length == 0 || a.getPrivKeyData == b.getPrivKeyData)

/-- `MakeKeyData` followed by a copy of `bytes` into the buffer: the cache is cleared. -/
def writeKeyData (key : CQKey) (bytes : valtype) : CQKey :=
  { key with keydata := some (fixedBytes _ bytes), cachedPubkey := none }

/-- `ClearKeyData`. -/
def clearKeyData (key : CQKey) : CQKey := { key with keydata := none, cachedPubkey := none }

/-- `CQKey::Set`: a secret of the right size that passes `Check` replaces the
key data and the compression flag; anything else clears the key. -/
def set (key : CQKey) (bytes : valtype) (fCompressedIn : Bool) : CQKey :=
  if bytes.length ≠ DILITHIUM_SECRETKEY_SIZE then key.clearKeyData
  else if check bytes then { key.writeKeyData bytes with fCompressed := fCompressedIn }
  else key.clearKeyData

/-- `CQKey::MakeNewKey`: the library writes a fresh pair, the secret into the
key buffer and the public key into the cache.  A failing library call clears
the key and throws, which is `none`.  The `fCompressed` argument shadows the
member, so the member keeps its value. -/
def makeNewKey (lib : Dilithium) (key : CQKey) (coins : valtype) : Option CQKey :=
  match lib.keypair coins with
  | none => none
  | some (pk, sk) =>
      some { key with keydata := some (fixedBytes _ sk),
                      cachedPubkey := some ⟨fixedBytes _ pk⟩ }

/-- `GenerateRandomQKey`: `MakeNewKey` on a fresh key, whose failure leaves the
cleared, invalid key. -/
def generateRandomQKey (lib : Dilithium) (coins : valtype) : CQKey :=
  (makeNewKey lib empty coins).getD empty

/-- `CQKey::GetPubKey`: the cached key if there is one; otherwise the public
half of a key pair the library generates, which is then cached. -/
def getPubKey (lib : Dilithium) (key : CQKey) (coins : valtype) : CQPubKey × CQKey :=
  if key.keydata.isNone then (CQPubKey.invalid, key)
  else
    match key.cachedPubkey with
    | some pubkey => (pubkey, key)
    | none =>
        match lib.keypair coins with
        | none => (CQPubKey.invalid, key)
        | some (pk, _) =>
            let result : CQPubKey := ⟨fixedBytes _ pk⟩
            (result, { key with cachedPubkey := some result })

/-- `CQKey::Sign`: the library's signature of the 32-byte hash with the secret key. -/
def sign (lib : Dilithium) (key : CQKey) (hash : valtype) : Option valtype :=
  match key.keydata with
  | none => none
  | some sk => lib.signature hash sk.toList

/-- `CQKey::SetPrivKeyData`: a secret of the right size replaces the key data,
and the key stays only if `GetPubKey` then returns a valid key. -/
def setPrivKeyData (lib : Dilithium) (key : CQKey) (data coins : valtype) : Bool × CQKey :=
  if data.length ≠ DILITHIUM_SECRETKEY_SIZE then (false, key)
  else
    let (pubKey, key) := (key.writeKeyData data).getPubKey lib coins
    if !pubKey.isValid then (false, key.clearKeyData) else (true, key)

@[simp]
theorem getPrivKeyData_writeKeyData {key : CQKey} {bytes : valtype}
    (sized : bytes.length = DILITHIUM_SECRETKEY_SIZE) :
    (key.writeKeyData bytes).getPrivKeyData = bytes := by
  simp [writeKeyData, getPrivKeyData, sized]

/-- A signature `Sign` returns is `CRYPTO_BYTES` long. -/
theorem sign_length {lib : Dilithium} (sigSize : lib.SignatureSize) {key : CQKey} {hash sig : valtype}
    (signed : key.sign lib hash = some sig) : sig.length = DILITHIUM_SIGNATURE_SIZE := by
  unfold sign at signed
  split at signed
  · cases signed
  · exact sigSize _ _ _ signed

/-- `GetPubKey` never changes the key data. -/
@[simp]
theorem keydata_getPubKey (lib : Dilithium) (key : CQKey) (coins : valtype) :
    (key.getPubKey lib coins).2.keydata = key.keydata := by
  unfold getPubKey
  split_ifs
  · rfl
  · split
    · rfl
    · split <;> rfl

/-- Keys with the same secret bytes are equal under `operator==`. -/
theorem beq_of_getPrivKeyData_eq {a b : CQKey} (same : a.getPrivKeyData = b.getPrivKeyData) :
    a.beq b = true := by
  simp [beq, same]

/-- A secret of the right size that passes `Check` is stored as given, with the
cache cleared. -/
theorem set_of_check {key : CQKey} {bytes : valtype} {fCompressedIn : Bool}
    (sized : bytes.length = DILITHIUM_SECRETKEY_SIZE) (checked : check bytes = true) :
    (key.set bytes fCompressedIn).getPrivKeyData = bytes ∧
      (key.set bytes fCompressedIn).cachedPubkey = none := by
  constructor
  · simp [set, sized, checked, writeKeyData, getPrivKeyData, fixedBytes_toList sized]
  · simp [set, sized, checked, writeKeyData]

/-- A secret of any other size clears the key. -/
theorem isValid_set_of_length {key : CQKey} {bytes : valtype} {fCompressedIn : Bool}
    (wrongSize : bytes.length ≠ DILITHIUM_SECRETKEY_SIZE) : (key.set bytes fCompressedIn).isValid = false := by
  simp [set, wrongSize, clearKeyData, isValid]

/-- A valid key holds a secret of the full size. -/
theorem getPrivKeyData_length_of_isValid {key : CQKey} (valid : key.isValid = true) :
    key.getPrivKeyData.length = DILITHIUM_SECRETKEY_SIZE := by
  obtain ⟨fCompressed, keydata, cachedPubkey⟩ := key
  cases keydata with
  | none => cases valid
  | some data => simp [getPrivKeyData]

/-- No valid key equals the empty one under `operator==`. -/
theorem beq_empty_of_isValid {key : CQKey} (valid : key.isValid = true) : empty.beq key = false := by
  have sized := getPrivKeyData_length_of_isValid valid
  have emptyData : empty.getPrivKeyData = [] := rfl
  have differ : (0 == DILITHIUM_SECRETKEY_SIZE) = false := by decide
  simp only [beq, emptyData, sized, List.length_nil, differ, Bool.false_and]

/-- A key with a secret and no cached public key gets from `GetPubKey` the
public half of the pair the library draws. -/
theorem getPubKey_of_uncached {lib : Dilithium} (sizes : lib.KeypairSizes) {key : CQKey} {coins pk sk : valtype}
    (valid : key.isValid = true) (uncached : key.cachedPubkey = none) (drawn : lib.keypair coins = some (pk, sk)) :
    (key.getPubKey lib coins).1.toBytes = pk := by
  have notNone : key.keydata.isNone = false := by simpa [isValid, Option.isNone_iff_eq_none] using valid
  simp only [getPubKey, notNone, Bool.false_eq_true, if_false, uncached, drawn]
  exact fixedBytes_toList (sizes coins pk sk drawn).1

/-- `GetPubKey` ignores the secret: two keys given one secret by `Set` get the
public halves of the two pairs the library draws for them, which differ when
the draws do. -/
theorem getPubKey_set_ignores_secret {lib : Dilithium} (sizes : lib.KeypairSizes)
    {coins₁ coins₂ pk₁ sk₁ pk₂ sk₂ : valtype} (drawn₁ : lib.keypair coins₁ = some (pk₁, sk₁))
    (drawn₂ : lib.keypair coins₂ = some (pk₂, sk₂)) (differ : pk₁ ≠ pk₂) (key₁ key₂ : CQKey) {secret : valtype}
    (sized : secret.length = DILITHIUM_SECRETKEY_SIZE) (accepted : check secret = true) (fCompressed₁ fCompressed₂ : Bool) :
    ((key₁.set secret fCompressed₁).getPubKey lib coins₁).1.toBytes = pk₁ ∧
      ((key₂.set secret fCompressed₂).getPubKey lib coins₂).1.toBytes = pk₂ ∧
      ((key₁.set secret fCompressed₁).getPubKey lib coins₁).1 ≠ ((key₂.set secret fCompressed₂).getPubKey lib coins₂).1 := by
  have stored : ∀ (key : CQKey) fCompressed, (key.set secret fCompressed).isValid = true ∧
      (key.set secret fCompressed).cachedPubkey = none := by
    intro key fCompressed
    exact ⟨by simp [set, sized, accepted, writeKeyData, isValid], (set_of_check sized accepted).2⟩
  have first := getPubKey_of_uncached sizes (stored key₁ fCompressed₁).1 (stored key₁ fCompressed₁).2 drawn₁
  have second := getPubKey_of_uncached sizes (stored key₂ fCompressed₂).1 (stored key₂ fCompressed₂).2 drawn₂
  refine ⟨first, second, fun same => differ ?_⟩
  rw [← first, ← second, same]

theorem getPubKey_set_ignores_secret_firstByte :
    Dilithium.firstByte.KeypairSizes ∧
      Dilithium.firstByte.keypair [0] =
        some (List.replicate DILITHIUM_PUBLICKEY_SIZE 0, List.replicate DILITHIUM_SECRETKEY_SIZE 0) ∧
      Dilithium.firstByte.keypair [1] =
        some (List.replicate DILITHIUM_PUBLICKEY_SIZE 1, List.replicate DILITHIUM_SECRETKEY_SIZE 1) ∧
      List.replicate DILITHIUM_PUBLICKEY_SIZE (0 : UInt8) ≠ List.replicate DILITHIUM_PUBLICKEY_SIZE 1 ∧
      (List.replicate DILITHIUM_SECRETKEY_SIZE (7 : UInt8)).length = DILITHIUM_SECRETKEY_SIZE ∧
      check (List.replicate DILITHIUM_SECRETKEY_SIZE 7) = true ∧
      ((empty.set (List.replicate DILITHIUM_SECRETKEY_SIZE 7) true).getPubKey Dilithium.firstByte [0]).1.toBytes =
          List.replicate DILITHIUM_PUBLICKEY_SIZE 0 ∧
        ((empty.set (List.replicate DILITHIUM_SECRETKEY_SIZE 7) true).getPubKey Dilithium.firstByte [1]).1.toBytes =
          List.replicate DILITHIUM_PUBLICKEY_SIZE 1 ∧
        ((empty.set (List.replicate DILITHIUM_SECRETKEY_SIZE 7) true).getPubKey Dilithium.firstByte [0]).1 ≠
          ((empty.set (List.replicate DILITHIUM_SECRETKEY_SIZE 7) true).getPubKey Dilithium.firstByte [1]).1 := by
  have drawn₀ : Dilithium.firstByte.keypair [0] =
      some (List.replicate DILITHIUM_PUBLICKEY_SIZE 0, List.replicate DILITHIUM_SECRETKEY_SIZE 0) := rfl
  have drawn₁ : Dilithium.firstByte.keypair [1] =
      some (List.replicate DILITHIUM_PUBLICKEY_SIZE 1, List.replicate DILITHIUM_SECRETKEY_SIZE 1) := rfl
  have differ : List.replicate DILITHIUM_PUBLICKEY_SIZE (0 : UInt8) ≠ List.replicate DILITHIUM_PUBLICKEY_SIZE 1 := by
    rw [Ne, List.replicate_inj]
    rintro ⟨-, empty | same⟩
    · exact absurd empty (by decide)
    · exact absurd same (by decide)
  have accepted : check (List.replicate DILITHIUM_SECRETKEY_SIZE 7) = true := by
    rw [check, List.all_replicate, List.all_replicate]
    decide
  exact ⟨Dilithium.firstByte_keypairSizes, drawn₀, drawn₁, differ, List.length_replicate, accepted,
    getPubKey_set_ignores_secret Dilithium.firstByte_keypairSizes drawn₀ drawn₁ differ empty empty
      List.length_replicate accepted true true⟩

/-- A `SetPrivKeyData` that succeeded stored the secret as given. -/
theorem getPrivKeyData_setPrivKeyData {lib : Dilithium} {key : CQKey} {data coins : valtype}
    (accepted : (key.setPrivKeyData lib data coins).1 = true) :
    (key.setPrivKeyData lib data coins).2.getPrivKeyData = data := by
  unfold setPrivKeyData at accepted ⊢
  by_cases wrongSize : data.length ≠ DILITHIUM_SECRETKEY_SIZE
  · rw [if_pos wrongSize] at accepted
    cases accepted
  · have sized : data.length = DILITHIUM_SECRETKEY_SIZE := not_not.mp wrongSize
    rw [if_neg wrongSize] at accepted ⊢
    have kept := keydata_getPubKey lib (key.writeKeyData data) coins
    cases fetched : (key.writeKeyData data).getPubKey lib coins with
    | mk pubKey key' =>
        rw [fetched] at accepted kept
        dsimp only at accepted kept ⊢
        by_cases invalid : pubKey.isValid = false
        · simp [invalid] at accepted
        · simp only [invalid, Bool.not_eq_true'] at accepted ⊢
          simp [getPrivKeyData, kept, writeKeyData, fixedBytes_toList sized]

end CQKey

end Qbitcoin
