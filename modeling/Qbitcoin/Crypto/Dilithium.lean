import Qbitcoin.Script.SignatureEncoding

/-!
# The Dilithium3 library

`key.cpp` calls three functions of the Dilithium library, which is not part of
the repository: `qbtc_dilithium3_keypair`, `qbtc_dilithium3_signature` and
`qbtc_dilithium3_verify`.  They are the fields of `Dilithium`.  Key generation
samples fresh randomness; the model makes the bytes it draws an explicit
argument `coins`, so that a call site that generates a key takes them from its
caller.  A non-zero return code is `none`.

What the repository relies on the library for is stated separately, as the
predicates of this module, and each theorem takes those it needs as hypotheses:
the sizes of `api.h` (`CRYPTO_PUBLICKEYBYTES`, `CRYPTO_SECRETKEYBYTES`,
`CRYPTO_BYTES`) and the correctness of signing, which `QBTC_InitSanityCheck`
tests.
-/

namespace Qbitcoin

/-- The functions of the Dilithium3 library that `key.cpp` calls. -/
structure Dilithium where
  /-- `qbtc_dilithium3_keypair(pk, sk)`: a key pair sampled with the randomness
  `coins`.  Whatever the buffers held before is overwritten. -/
  keypair : valtype → Option (valtype × valtype)
  /-- `qbtc_dilithium3_signature(sig, &siglen, m, mlen, nullptr, 0, sk)`. -/
  signature : valtype → valtype → Option valtype
  /-- `qbtc_dilithium3_verify(sig, siglen, m, mlen, nullptr, 0, pk) == 0`. -/
  verify : valtype → valtype → valtype → Bool

namespace Dilithium

variable (lib : Dilithium)

/-- A generated key pair has the sizes of `api.h`. -/
def KeypairSizes : Prop :=
  ∀ coins pk sk, lib.keypair coins = some (pk, sk) →
    pk.length = DILITHIUM_PUBLICKEY_SIZE ∧ sk.length = DILITHIUM_SECRETKEY_SIZE

/-- A signature is `CRYPTO_BYTES` long. -/
def SignatureSize : Prop :=
  ∀ m sk sig, lib.signature m sk = some sig → sig.length = DILITHIUM_SIGNATURE_SIZE

/-- A signature made with the secret key of a generated pair verifies under its
public key. -/
def Correct : Prop :=
  ∀ coins pk sk m sig, lib.keypair coins = some (pk, sk) → lib.signature m sk = some sig →
    lib.verify sig m pk = true

/-- Verification rejects every signature whose length is not `CRYPTO_BYTES`. -/
def VerifyRejectsLength : Prop :=
  ∀ sig m pk, lib.verify sig m pk = true → sig.length = DILITHIUM_SIGNATURE_SIZE

/-- Key generation is randomized: two draws can give different public keys, as
test 3 of `QBTC_InitSanityCheck` requires of five consecutive calls. -/
def Randomized : Prop :=
  ∃ coins₁ coins₂ pk₁ sk₁ pk₂ sk₂, lib.keypair coins₁ = some (pk₁, sk₁) ∧
    lib.keypair coins₂ = some (pk₂, sk₂) ∧ pk₁ ≠ pk₂

/-- A library of constant keys and signatures of the sizes of `api.h`, whose
verification accepts exactly the signatures of `CRYPTO_BYTES`: it has every
property above but randomness, so those hypotheses can hold together. -/
def zeros : Dilithium where
  keypair _ := some (List.replicate DILITHIUM_PUBLICKEY_SIZE 0, List.replicate DILITHIUM_SECRETKEY_SIZE 0)
  signature _ _ := some (List.replicate DILITHIUM_SIGNATURE_SIZE 0)
  verify sig _ _ := sig.length == DILITHIUM_SIGNATURE_SIZE

theorem zeros_keypairSizes : zeros.KeypairSizes := by
  rintro coins pk sk generated
  simp only [zeros, Option.some.injEq, Prod.mk.injEq] at generated
  obtain ⟨rfl, rfl⟩ := generated
  simp

theorem zeros_signatureSize : zeros.SignatureSize := by
  rintro m sk sig signed
  simp only [zeros, Option.some.injEq] at signed
  subst signed
  simp

theorem zeros_correct : zeros.Correct := by
  rintro coins pk sk m sig - signed
  simp only [zeros, Option.some.injEq] at signed
  subst signed
  simp [zeros]

theorem zeros_verifyRejectsLength : zeros.VerifyRejectsLength := by
  rintro sig m pk verified
  simpa [zeros] using verified

/-- A library whose key pair repeats the first byte of its randomness: unlike
`zeros`, it draws different keys for different randomness. -/
def firstByte : Dilithium where
  keypair coins := some (List.replicate DILITHIUM_PUBLICKEY_SIZE (coins.headD 0),
    List.replicate DILITHIUM_SECRETKEY_SIZE (coins.headD 0))
  signature _ _ := some (List.replicate DILITHIUM_SIGNATURE_SIZE 0)
  verify sig _ _ := sig.length == DILITHIUM_SIGNATURE_SIZE

theorem firstByte_keypairSizes : firstByte.KeypairSizes := by
  rintro coins pk sk generated
  simp only [firstByte, Option.some.injEq, Prod.mk.injEq] at generated
  obtain ⟨rfl, rfl⟩ := generated
  simp

end Dilithium

end Qbitcoin
