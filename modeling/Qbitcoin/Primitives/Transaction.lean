import Mathlib.Data.Nat.Bitwise
import Qbitcoin.Script.Script

/-!
# Transactions and their serialization

The data of `primitives/transaction.h` and the byte strings `serialize.h`
writes for it.  A serialization is an explicit byte list, so a serialized size
is the length of such a list; `GetTransactionWeight` is defined from them and
the length lemmas give their closed forms.

`CTransaction` and `CMutableTransaction` hold the same fields; the model has one
structure for both, with `HasWitness` computed rather than cached.
-/

namespace Qbitcoin

open ByteCodec

/-- `CAmount`, a signed 64-bit count of base units. -/
abbrev CAmount := Int

/-- `COIN`. -/
def COIN : CAmount := 100000000

/-- `MAX_MONEY`. -/
def MAX_MONEY : CAmount := 21000000 * COIN

/-- `MoneyRange`. -/
def moneyRange (nValue : CAmount) : Bool := 0 ≤ nValue && nValue ≤ MAX_MONEY

/-- `COutPoint`: a transaction id and an output index. -/
structure COutPoint where
  hash : Vector UInt8 32
  n : UInt32
  deriving DecidableEq, Repr

/-- `CTxIn`.  The witness is serialized with the transaction, not the input. -/
structure CTxIn where
  prevout : COutPoint
  scriptSig : CScript
  nSequence : UInt32
  scriptWitness : CScriptWitness
  deriving DecidableEq, Repr

/-- `CTxIn::SEQUENCE_FINAL`. -/
def SEQUENCE_FINAL : UInt32 := 0xffffffff
/-- `CTxIn::SEQUENCE_LOCKTIME_DISABLE_FLAG`. -/
def SEQUENCE_LOCKTIME_DISABLE_FLAG : Nat := 1 <<< 31
/-- `CTxIn::SEQUENCE_LOCKTIME_TYPE_FLAG`. -/
def SEQUENCE_LOCKTIME_TYPE_FLAG : Nat := 1 <<< 22
/-- `CTxIn::SEQUENCE_LOCKTIME_MASK`. -/
def SEQUENCE_LOCKTIME_MASK : Nat := 0x0000ffff
/-- `CTxIn::SEQUENCE_LOCKTIME_GRANULARITY`: a time lock counts units of 512 seconds. -/
def SEQUENCE_LOCKTIME_GRANULARITY : Nat := 9

/-- The lock value of a sequence number, its low 16 bits. -/
theorem and_lockTimeMask_lt (x : Nat) : x &&& SEQUENCE_LOCKTIME_MASK < 2 ^ 16 :=
  Nat.and_lt_two_pow x (by decide)

/-- The type flag of a sequence number is its bit 22: zero or the flag. -/
theorem and_typeFlag_eq (x : Nat) :
    x &&& SEQUENCE_LOCKTIME_TYPE_FLAG = 0 ∨ x &&& SEQUENCE_LOCKTIME_TYPE_FLAG = SEQUENCE_LOCKTIME_TYPE_FLAG := by
  rw [show SEQUENCE_LOCKTIME_TYPE_FLAG = 2 ^ 22 from rfl, Nat.and_two_pow]
  cases x.testBit 22 <;> simp

/-- The mask `CheckSequence` compares under keeps two disjoint fields, the type
flag and the lock value. -/
theorem and_typeFlag_or_lockTimeMask (x : Nat) :
    x &&& (SEQUENCE_LOCKTIME_TYPE_FLAG ||| SEQUENCE_LOCKTIME_MASK) =
      (x &&& SEQUENCE_LOCKTIME_TYPE_FLAG) + (x &&& SEQUENCE_LOCKTIME_MASK) := by
  have flagBit : x &&& SEQUENCE_LOCKTIME_TYPE_FLAG = 2 ^ 22 * (x.testBit 22).toNat := by
    rw [Nat.mul_comm]
    exact Nat.and_two_pow x 22
  rw [Nat.and_or_distrib_left, flagBit]
  exact (Nat.two_pow_add_eq_or_of_lt (Nat.lt_of_lt_of_le (and_lockTimeMask_lt x) (by decide : 2 ^ 16 ≤ 2 ^ 22)) _).symm

/-- Two sequence numbers of one kind under the mask of `CheckSequence` compare
as their lock values do. -/
theorem lockValue_le_of_masked_le {x y : Nat}
    (sameKind : (x &&& (SEQUENCE_LOCKTIME_TYPE_FLAG ||| SEQUENCE_LOCKTIME_MASK) < SEQUENCE_LOCKTIME_TYPE_FLAG ∧
        y &&& (SEQUENCE_LOCKTIME_TYPE_FLAG ||| SEQUENCE_LOCKTIME_MASK) < SEQUENCE_LOCKTIME_TYPE_FLAG) ∨
      (SEQUENCE_LOCKTIME_TYPE_FLAG ≤ x &&& (SEQUENCE_LOCKTIME_TYPE_FLAG ||| SEQUENCE_LOCKTIME_MASK) ∧
        SEQUENCE_LOCKTIME_TYPE_FLAG ≤ y &&& (SEQUENCE_LOCKTIME_TYPE_FLAG ||| SEQUENCE_LOCKTIME_MASK)))
    (le : x &&& (SEQUENCE_LOCKTIME_TYPE_FLAG ||| SEQUENCE_LOCKTIME_MASK) ≤
      y &&& (SEQUENCE_LOCKTIME_TYPE_FLAG ||| SEQUENCE_LOCKTIME_MASK)) :
    (x &&& SEQUENCE_LOCKTIME_TYPE_FLAG = 0 ↔ y &&& SEQUENCE_LOCKTIME_TYPE_FLAG = 0) ∧
      x &&& SEQUENCE_LOCKTIME_MASK ≤ y &&& SEQUENCE_LOCKTIME_MASK := by
  rw [and_typeFlag_or_lockTimeMask, and_typeFlag_or_lockTimeMask] at sameKind le
  have xFlag := and_typeFlag_eq x
  have yFlag := and_typeFlag_eq y
  have xValue := and_lockTimeMask_lt x
  have yValue := and_lockTimeMask_lt y
  have flag : SEQUENCE_LOCKTIME_TYPE_FLAG = 2 ^ 22 := rfl
  omega

/-- `CTxOut`. -/
structure CTxOut where
  nValue : CAmount
  scriptPubKey : CScript
  deriving DecidableEq, Repr

/-- `CTxOut::IsNull`. -/
def CTxOut.isNull (output : CTxOut) : Bool := output.nValue == -1

/-- `CTxOut()`, which `SetNull` leaves with the amount `-1`. -/
def CTxOut.null : CTxOut := ⟨-1, []⟩

/-- `CMutableTransaction`, and `CTransaction` built from it. -/
structure CTransaction where
  vin : List CTxIn
  vout : List CTxOut
  version : UInt32
  nLockTime : UInt32
  deriving DecidableEq, Repr

/-- `CTransaction::HasWitness`: some input carries a non-empty witness. -/
def CTransaction.hasWitness (tx : CTransaction) : Bool :=
  tx.vin.any fun input => !input.scriptWitness.isNull

/-! ## `serialize.h` -/

/-- `MAX_SIZE`: the largest vector size deserialization accepts. -/
def MAX_SIZE : Nat := 0x02000000

/-- `WriteCompactSize`. -/
def writeCompactSize (nSize : Nat) : List UInt8 :=
  if nSize < 253 then [UInt8.ofNat nSize]
  else if nSize ≤ 0xffff then 253 :: leBytes 2 nSize
  else if nSize ≤ 0xffffffff then 254 :: leBytes 4 nSize
  else 255 :: leBytes 8 nSize

/-- `GetSizeOfCompactSize`. -/
def getSizeOfCompactSize (nSize : Nat) : Nat :=
  if nSize < 253 then 1
  else if nSize ≤ 0xffff then 3
  else if nSize ≤ 0xffffffff then 5
  else 9

@[simp]
theorem writeCompactSize_length (nSize : Nat) :
    (writeCompactSize nSize).length = getSizeOfCompactSize nSize := by
  unfold writeCompactSize getSizeOfCompactSize
  split_ifs <;> simp

/-- A byte vector: its size, then its bytes. -/
def serializeBytes (bytes : List UInt8) : List UInt8 :=
  writeCompactSize bytes.length ++ bytes

/-- A vector of serialized elements: the count, then each element. -/
def serializeVector {α : Type} (serializeElement : α → List UInt8) (elements : List α) :
    List UInt8 :=
  writeCompactSize elements.length ++ (elements.map serializeElement).flatten

/-- `COutPoint` serialization: the 32-byte id and the 32-bit index. -/
def COutPoint.serialize (outpoint : COutPoint) : List UInt8 :=
  outpoint.hash.toList ++ leBytes 4 outpoint.n.toNat

/-- `CTxIn` serialization: outpoint, scriptSig and sequence, without the witness. -/
def CTxIn.serialize (input : CTxIn) : List UInt8 :=
  input.prevout.serialize ++ serializeBytes input.scriptSig ++ leBytes 4 input.nSequence.toNat

/-- `CTxOut` serialization: the amount as a little-endian `int64`, then the script. -/
def CTxOut.serialize (output : CTxOut) : List UInt8 :=
  leBytes 8 (output.nValue % 2 ^ 64).toNat ++ serializeBytes output.scriptPubKey

/-- A witness stack: the number of elements, then each element as a byte vector. -/
def CScriptWitness.serialize (witness : CScriptWitness) : List UInt8 :=
  serializeVector serializeBytes witness.stack

/-- `SerializeTransaction`.  With `fAllowWitness` and some witness present, the
extended format inserts an empty input vector and the flag byte `1` after the
version and appends every input's witness stack. -/
def CTransaction.serialize (tx : CTransaction) (fAllowWitness : Bool) : List UInt8 :=
  let flags : Bool := fAllowWitness && tx.hasWitness
  leBytes 4 tx.version.toNat ++
    (if flags then writeCompactSize 0 ++ [1] else []) ++
    serializeVector CTxIn.serialize tx.vin ++
    serializeVector CTxOut.serialize tx.vout ++
    (if flags then (tx.vin.map fun input => input.scriptWitness.serialize).flatten else []) ++
    leBytes 4 tx.nLockTime.toNat

/-- `WITNESS_SCALE_FACTOR`. -/
def WITNESS_SCALE_FACTOR : Nat := 4

/-- `GetTransactionWeight`: the stripped size counts `WITNESS_SCALE_FACTOR`
times, the witness data once. -/
def getTransactionWeight (tx : CTransaction) : Nat :=
  (tx.serialize false).length * (WITNESS_SCALE_FACTOR - 1) + (tx.serialize true).length

@[simp]
theorem serializeBytes_length (bytes : List UInt8) :
    (serializeBytes bytes).length = getSizeOfCompactSize bytes.length + bytes.length := by
  simp [serializeBytes]

@[simp]
theorem COutPoint.serialize_length (outpoint : COutPoint) : outpoint.serialize.length = 36 := by
  simp [COutPoint.serialize]

@[simp]
theorem CTxIn.serialize_length (input : CTxIn) :
    input.serialize.length = 40 + getSizeOfCompactSize input.scriptSig.length +
      input.scriptSig.length := by
  simp [CTxIn.serialize]
  omega

@[simp]
theorem CTxOut.serialize_length (output : CTxOut) :
    output.serialize.length = 8 + getSizeOfCompactSize output.scriptPubKey.length +
      output.scriptPubKey.length := by
  simp [CTxOut.serialize]
  omega

/-- The stripped serialization never exceeds the one with witnesses. -/
theorem serialize_length_le (tx : CTransaction) :
    (tx.serialize false).length ≤ (tx.serialize true).length := by
  unfold CTransaction.serialize
  cases tx.hasWitness with
  | false => simp
  | true =>
      simp
      omega

/-- The weight is at least the full size: what `GetBlockWeight`'s bound on the
size of a block rests on for each transaction. -/
theorem serialize_length_le_weight (tx : CTransaction) :
    (tx.serialize true).length ≤ getTransactionWeight tx := by
  unfold getTransactionWeight
  omega

end Qbitcoin
