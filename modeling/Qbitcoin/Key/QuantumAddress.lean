import Qbitcoin.Key.Destination

/-!
# The Bech32 addresses of quantum key pairs

`QuantumAddressUtils::CreateBech32Address` and `ParseBech32Address` of
`compressed_quantum_keys.cpp`, and `CQuantumKeyPair::GetAddress`, which writes
a key pair's address with the first.  Unlike `DestinationEncoder`, the writer
hands `bech32::Encode` the hash's bytes themselves, not the hash regrouped
into 5-bit digits, while `Encode` indexes its 32-character alphabet with each
value and `Decode` returns only values below 32.  The address of a hash
therefore reads back exactly when every byte of the hash is below 32
(`parseBech32Address_createBech32Address_iff`); no string at all reads back
as a hash with a larger byte (`parseBech32Address_fiveBit`).

For a byte of 32 or more, `Encode` reads past the end of `CHARSET`; the model
reads a zero there (`charsetAt`), which no statement below depends on.
-/

namespace Qbitcoin

/-- `QuantumAddressUtils::CreateBech32Address(address_hash, hrp)`. -/
def createBech32Address (addressHash : uint160) (hrp : List UInt8) : List UInt8 :=
  Bech32.encode .bech32 hrp addressHash.toList

/-- `QuantumAddressUtils::ParseBech32Address(address, address_hash, hrp)`: the
hash and the HRP it writes, or `none` where it returns `false`. -/
def parseBech32Address (address : List UInt8) : Option (uint160 × List UInt8) :=
  let decoded := Bech32.decode address Bech32.CharLimit.BECH32
  if sized : decoded.encoding = .invalid ∨ decoded.data.length ≠ 20 then none
  else some (⟨decoded.data.toArray, by simpa using not_or.mp sized |>.2⟩, decoded.hrp)

/-- The fields of `CQuantumKeyPair` that `GetAddress` reads. -/
structure CQuantumKeyPair where
  isValid : Bool
  addressHash : uint160

/-- `CQuantumKeyPair::GetAddress`: the address under the default HRP `bc`. -/
def CQuantumKeyPair.getAddress (keypair : CQuantumKeyPair) : List UInt8 :=
  if !keypair.isValid then [] else createBech32Address keypair.addressHash [0x62, 0x63]

/-- Whatever string `ParseBech32Address` accepts, every byte of the hash it
returns is below 32: it is a value `Decode` read from one character. -/
theorem parseBech32Address_fiveBit {address : List UInt8} {addressHash : uint160} {hrp : List UInt8}
    (parsed : parseBech32Address address = some (addressHash, hrp)) : ∀ b ∈ addressHash.toList, b.toNat < 32 := by
  unfold parseBech32Address at parsed
  dsimp only at parsed
  split at parsed
  · cases parsed
  rename_i sized
  cases parsed
  obtain ⟨values, -, fiveBit, -, -, dataEq⟩ :=
    Bech32.map_lowerCase_of_decode rfl (not_or.mp sized).1
  intro b member
  have inData : b ∈ (Bech32.decode address Bech32.CharLimit.BECH32).data := by simpa using member
  rw [dataEq] at inData
  exact fiveBit b (List.mem_of_mem_take inData)

/-- The address `CreateBech32Address` writes for a hash reads back as the hash
and the HRP exactly when every byte of the hash is below 32, for every HRP
`Encode` and `Decode` accept with room for the twenty values. -/
theorem parseBech32Address_createBech32Address_iff {hrp : List UInt8} (hrpNonempty : hrp ≠ [])
    (hrpPrintable : ∀ c ∈ hrp, 33 ≤ c ∧ c ≤ 126 ∧ ¬(0x41 ≤ c ∧ c ≤ 0x5a)) (short : hrp.length ≤ 63)
    (addressHash : uint160) :
    parseBech32Address (createBech32Address addressHash hrp) = some (addressHash, hrp) ↔
      ∀ b ∈ addressHash.toList, b.toNat < 32 := by
  constructor
  · exact parseBech32Address_fiveBit
  · intro fiveBit
    have values : ∀ v ∈ addressHash.toList, v < 32 := fun v member => UInt8.lt_iff_toNat_lt.mpr (fiveBit v member)
    have decoded : Bech32.decode (createBech32Address addressHash hrp) Bech32.CharLimit.BECH32 =
        ⟨.bech32, hrp, addressHash.toList⟩ := by
      rw [createBech32Address, Bech32.encode_eq,
        Bech32.decode_of_verified (by decide) hrpNonempty hrpPrintable
          (Bech32.fiveBit_append_createChecksum _ _ values) (by rw [Bech32.length_append_createChecksum]; omega)
          (by rw [Bech32.length_append_createChecksum]; simp [Bech32.CHECKSUM_SIZE, Bech32.CharLimit.BECH32]; omega)
          (Bech32.verifyChecksum_createChecksum (by decide) _ _),
        Bech32.take_append_createChecksum]
    unfold parseBech32Address
    simp only [decoded]
    rw [dif_neg (by simp), toList_toArray_vector addressHash]

theorem parseBech32Address_createBech32Address_iff_bc :
    [0x62, 0x63] ≠ ([] : List UInt8) ∧
      (∀ c ∈ ([0x62, 0x63] : List UInt8), 33 ≤ c ∧ c ≤ 126 ∧ ¬(0x41 ≤ c ∧ c ≤ 0x5a)) ∧
      [0x62, 0x63].length ≤ 63 ∧
      (parseBech32Address (createBech32Address (Vector.replicate 20 0x1f) [0x62, 0x63]) =
          some (Vector.replicate 20 0x1f, [0x62, 0x63]) ↔
        ∀ b ∈ (Vector.replicate 20 (0x1f : UInt8)).toList, b.toNat < 32) := by
  have nonempty : [0x62, 0x63] ≠ ([] : List UInt8) := List.cons_ne_nil _ _
  have printable : ∀ c ∈ ([0x62, 0x63] : List UInt8), 33 ≤ c ∧ c ≤ 126 ∧ ¬(0x41 ≤ c ∧ c ≤ 0x5a) := by
    simp [UInt8.le_iff_toNat_le]
  have short : [0x62, 0x63].length ≤ 63 := by decide
  exact ⟨nonempty, printable, short, parseBech32Address_createBech32Address_iff nonempty printable short _⟩

end Qbitcoin
