import Qbitcoin.Script.ScriptNum

/-!
# Hash functions

The hash functions of `crypto/` are not embedded: they are parameters whose
only stated property is the width of their output, which the C++ fixes by the
size of the buffer each `Finalize` writes.  Composite hashes are defined from
them exactly as `hash.h` composes them.
-/

namespace Qbitcoin

/-- The primitive hash functions of `crypto/`, with their output widths. -/
structure Hashes where
  sha256 : valtype → valtype
  ripemd160 : valtype → valtype
  sha1 : valtype → valtype
  sha512 : valtype → valtype
  /-- `CHMAC_SHA512(key).Write(data).Finalize`. -/
  hmacSha512 : valtype → valtype → valtype
  sha256_length : ∀ data, (sha256 data).length = 32
  ripemd160_length : ∀ data, (ripemd160 data).length = 20
  sha1_length : ∀ data, (sha1 data).length = 20
  sha512_length : ∀ data, (sha512 data).length = 64
  hmacSha512_length : ∀ key data, (hmacSha512 key data).length = 64

namespace Hashes

/-- `CHash160`: RIPEMD-160 of SHA-256. -/
def hash160 (hashes : Hashes) (data : valtype) : valtype := hashes.ripemd160 (hashes.sha256 data)

/-- `CHash256`: double SHA-256. -/
def hash256 (hashes : Hashes) (data : valtype) : valtype := hashes.sha256 (hashes.sha256 data)

@[simp]
theorem hash160_length (hashes : Hashes) (data : valtype) : (hashes.hash160 data).length = 20 :=
  hashes.ripemd160_length _

@[simp]
theorem hash256_length (hashes : Hashes) (data : valtype) : (hashes.hash256 data).length = 32 :=
  hashes.sha256_length _

/-- Hash functions with all-zero digests: an instance of the parameters for
results that hold of every hash function. -/
def zeros : Hashes where
  sha256 _ := List.replicate 32 0
  ripemd160 _ := List.replicate 20 0
  sha1 _ := List.replicate 20 0
  sha512 _ := List.replicate 64 0
  hmacSha512 _ _ := List.replicate 64 0
  sha256_length _ := List.length_replicate
  ripemd160_length _ := List.length_replicate
  sha1_length _ := List.length_replicate
  sha512_length _ := List.length_replicate
  hmacSha512_length _ _ := List.length_replicate

end Hashes

end Qbitcoin
