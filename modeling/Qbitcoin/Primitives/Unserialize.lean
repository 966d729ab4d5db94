import Qbitcoin.Primitives.Transaction
import Qbitcoin.Lib.Decoder

/-!
# Reading transactions back from bytes

The `Unserialize` side of `serialize.h` and `UnserializeTransaction`, as
decoders over the byte stream of a `DataStream`.  Each reader is paired with the
writer of `Primitives/Transaction.lean`: it reads back what the writer wrote
(`Encodes`), and what it accepts is what the writer writes (`ReadsEncoding`).

`ReadCompactSize` rejects sizes above `MAX_SIZE`, while `WriteCompactSize`
writes any size, so a value whose vectors are longer than that is written but
never read back; `FitsSerialization` states the bounds under which the round
trip holds.  An `int64_t` amount is read as the two's complement of its eight
bytes, which is the `Int` the writer started from when it lies in the `int64_t`
range.
-/

namespace Qbitcoin

open ByteCodec Decoding

/-- A decoder of the bytes of a `DataStream`, failing with the text of the
`std::ios_base::failure` it throws. -/
abbrev ByteDecoder (α : Type) := Decoder UInt8 String α

/-- `DataStream::read`: `n` bytes, or the end-of-data failure. -/
def readBytes (n : Nat) : ByteDecoder valtype := do
  let bytes ← take "DataStream::read(): end of data" n
  pure bytes.toList

/-- `ser_readdata8`. -/
def readData8 : ByteDecoder UInt8 := do
  let bytes ← take "DataStream::read(): end of data" 1
  pure bytes[0]

/-- `ser_readdata16`, `ser_readdata32` and `ser_readdata64`: an unsigned
little-endian integer of `width` bytes. -/
def readLEData (width : Nat) : ByteDecoder Nat := do
  let bytes ← readBytes width
  pure (readLE bytes)

/-- The signed integer of `width` bits whose two's complement is `bits`: how an
`int64_t` or an `int` is read from the bits `ser_readdata64` or `ser_readdata32`
returns. -/
def ofTwosComplement (width bits : Nat) : Int := if bits < 2 ^ (width - 1) then bits else bits - 2 ^ width

/-- `ReadCompactSize`: the one-byte form below 253, else a marker byte and a
2-, 4- or 8-byte value that must not fit a shorter form; with `rangeCheck`,
sizes above `MAX_SIZE` are refused. -/
def readCompactSize (rangeCheck : Bool) : ByteDecoder Nat := do
  let chSize ← readData8
  let nSizeRet ← (
    if chSize < 253 then pure chSize.toNat
    else if chSize = 253 then do
      let nSize ← readLEData 2
      if nSize < 253 then throw "non-canonical ReadCompactSize()" else pure nSize
    else if chSize = 254 then do
      let nSize ← readLEData 4
      if nSize < 0x10000 then throw "non-canonical ReadCompactSize()" else pure nSize
    else do
      let nSize ← readLEData 8
      if nSize < 0x100000000 then throw "non-canonical ReadCompactSize()" else pure nSize :
    ByteDecoder Nat)
  if rangeCheck && MAX_SIZE < nSizeRet then throw "ReadCompactSize(): size too large" else pure nSizeRet

/-- `Unserialize` of a byte vector (`std::vector<unsigned char>`, or the
`prevector` of a `CScript`): its size, then its bytes. -/
def readByteVector : ByteDecoder valtype := do
  let nSize ← readCompactSize true
  readBytes nSize

/-- `VectorFormatter::Unser`: the number of elements, then each element. -/
def readVector {α : Type} (readElement : ByteDecoder α) : ByteDecoder (List α) := do
  let size ← readCompactSize true
  readList readElement size

/-- `COutPoint` unserialization: the 32-byte id and the 32-bit index. -/
def COutPoint.unserialize : ByteDecoder COutPoint := do
  let hash ← take "DataStream::read(): end of data" 32
  let n ← readLEData 4
  pure ⟨hash, UInt32.ofNat n⟩

/-- `CTxIn` unserialization: outpoint, scriptSig and sequence; the witness is
left empty for the transaction to fill. -/
def CTxIn.unserialize : ByteDecoder CTxIn := do
  let prevout ← COutPoint.unserialize
  let scriptSig ← readByteVector
  let nSequence ← readLEData 4
  pure ⟨prevout, scriptSig, UInt32.ofNat nSequence, ⟨[]⟩⟩

/-- `CTxOut` unserialization: the amount as an `int64_t`, then the script. -/
def CTxOut.unserialize : ByteDecoder CTxOut := do
  let nValue ← readLEData 8
  let scriptPubKey ← readByteVector
  pure ⟨ofTwosComplement 64 nValue, scriptPubKey⟩

/-- A witness stack, `s >> scriptWitness.stack`: a vector of byte vectors. -/
def readWitnessStack : ByteDecoder CScriptWitness := do
  let stack ← readVector readByteVector
  pure ⟨stack⟩

/-- The witness record: one stack for each input, in order. -/
def readWitnesses : List CTxIn → ByteDecoder (List CTxIn)
  | [] => pure []
  | input :: inputs => do
      let scriptWitness ← readWitnessStack
      let rest ← readWitnesses inputs
      pure ({ input with scriptWitness } :: rest)

/-- The part of `UnserializeTransaction` after the first input vector.  An
empty vector may be the dummy of the extended format, so with witnesses allowed
a flags byte follows it, and input and output vectors follow a non-zero flags
byte; otherwise the output vector follows at once. -/
def readVinVout (fAllowWitness : Bool) (vin : List CTxIn) :
    ByteDecoder (UInt8 × List CTxIn × List CTxOut) :=
  if vin.isEmpty && fAllowWitness then do
    let flags ← readData8
    if flags != 0 then do
      let vin ← readVector CTxIn.unserialize
      let vout ← readVector CTxOut.unserialize
      pure (flags, vin, vout)
    else pure (flags, vin, [])
  else do
    let vout ← readVector CTxOut.unserialize
    pure (0, vin, vout)

/-- The witness record of `UnserializeTransaction`, read when the flags byte
has its low bit set; encoding only empty stacks is refused. -/
def readWitnessRecord (fAllowWitness : Bool) (flags : UInt8) (tx : CTransaction) :
    ByteDecoder (UInt8 × CTransaction) :=
  if flags &&& 1 != 0 && fAllowWitness then do
    let vin ← readWitnesses tx.vin
    let tx := { tx with vin }
    if !tx.hasWitness then throw "Superfluous witness record" else pure (flags ^^^ 1, tx)
  else pure (flags, tx)

/-- `UnserializeTransaction`. -/
def unserializeTransaction (fAllowWitness : Bool) : ByteDecoder CTransaction := do
  let version ← readLEData 4
  let vin ← readVector CTxIn.unserialize
  let (flags, vin, vout) ← readVinVout fAllowWitness vin
  let (flags, tx) ← readWitnessRecord fAllowWitness flags ⟨vin, vout, UInt32.ofNat version, 0⟩
  if flags != 0 then throw "Unknown transaction optional data"
  else do
    let nLockTime ← readLEData 4
    pure { tx with nLockTime := UInt32.ofNat nLockTime }

/-! ## What the round trip needs -/

/-- An input without its witness: what `CTxIn`'s own unserialization yields. -/
def CTxIn.withoutWitness (input : CTxIn) : CTxIn := { input with scriptWitness := ⟨[]⟩ }

/-- A transaction with every witness dropped: what `TX_NO_WITNESS` reads back. -/
def CTransaction.withoutWitness (tx : CTransaction) : CTransaction :=
  { tx with vin := tx.vin.map CTxIn.withoutWitness }

/-- The sizes of an input that `ReadCompactSize` accepts. -/
structure CTxIn.FitsSerialization (input : CTxIn) : Prop where
  scriptSig : input.scriptSig.length ≤ MAX_SIZE
  stack : input.scriptWitness.stack.length ≤ MAX_SIZE
  items : ∀ item ∈ input.scriptWitness.stack, item.length ≤ MAX_SIZE

/-- An output's amount is an `int64_t` and its script size is accepted. -/
structure CTxOut.FitsSerialization (output : CTxOut) : Prop where
  nValue : -2 ^ 63 ≤ output.nValue ∧ output.nValue < 2 ^ 63
  scriptPubKey : output.scriptPubKey.length ≤ MAX_SIZE

/-- Every vector of a transaction has a size `ReadCompactSize` accepts, and every
amount is an `int64_t`. -/
structure CTransaction.FitsSerialization (tx : CTransaction) : Prop where
  vin : tx.vin.length ≤ MAX_SIZE
  vout : tx.vout.length ≤ MAX_SIZE
  inputs : ∀ input ∈ tx.vin, input.FitsSerialization
  outputs : ∀ output ∈ tx.vout, output.FitsSerialization

instance (input : CTxIn) : Decidable input.FitsSerialization :=
  decidable_of_iff (input.scriptSig.length ≤ MAX_SIZE ∧ input.scriptWitness.stack.length ≤ MAX_SIZE ∧
      ∀ item ∈ input.scriptWitness.stack, item.length ≤ MAX_SIZE)
    ⟨fun ⟨scriptSig, stack, items⟩ => ⟨scriptSig, stack, items⟩,
      fun ⟨scriptSig, stack, items⟩ => ⟨scriptSig, stack, items⟩⟩

instance (output : CTxOut) : Decidable output.FitsSerialization :=
  decidable_of_iff ((-2 ^ 63 ≤ output.nValue ∧ output.nValue < 2 ^ 63) ∧
      output.scriptPubKey.length ≤ MAX_SIZE)
    ⟨fun ⟨nValue, scriptPubKey⟩ => ⟨nValue, scriptPubKey⟩,
      fun ⟨nValue, scriptPubKey⟩ => ⟨nValue, scriptPubKey⟩⟩

instance (tx : CTransaction) : Decidable tx.FitsSerialization :=
  decidable_of_iff (tx.vin.length ≤ MAX_SIZE ∧ tx.vout.length ≤ MAX_SIZE ∧
      (∀ input ∈ tx.vin, input.FitsSerialization) ∧ ∀ output ∈ tx.vout, output.FitsSerialization)
    ⟨fun ⟨vin, vout, inputs, outputs⟩ => ⟨vin, vout, inputs, outputs⟩,
      fun ⟨vin, vout, inputs, outputs⟩ => ⟨vin, vout, inputs, outputs⟩⟩

/-! ## Bytes and little-endian integers -/

/-- The bytes of a list are the vector `take` reads. -/
theorem run_take_bytes (err : String) (bytes rest : valtype) :
    (take err bytes.length).run (bytes ++ rest) = .ok (⟨bytes.toArray, by simp⟩, rest) :=
  run_take_append ⟨bytes.toArray, by simp⟩ rest

@[simp]
theorem run_readBytes_append (bytes rest : valtype) :
    (readBytes bytes.length).run (bytes ++ rest) = .ok (bytes, rest) := by
  unfold readBytes
  rw [run_bind_of_ok (run_take_bytes _ bytes rest)]
  rfl

theorem readBytes_eq_ok {n : Nat} {s bytes s' : valtype} (read : (readBytes n).run s = .ok (bytes, s')) :
    s = bytes ++ s' ∧ bytes.length = n := by
  obtain ⟨v, s₁, readVec, returned⟩ := run_bind_eq_ok.mp read
  obtain ⟨rfl, rfl⟩ := run_pure_eq_ok.mp returned
  exact ⟨readsEncoding_take readVec, v.length_toList⟩

@[simp]
theorem run_readData8_cons (byte : UInt8) (rest : valtype) :
    readData8.run (byte :: rest) = .ok (byte, rest) :=
  (run_bind_of_ok (run_take_bytes "DataStream::read(): end of data" [byte] rest) _).trans rfl

theorem readData8_eq_ok {s s' : valtype} {byte : UInt8} (read : readData8.run s = .ok (byte, s')) :
    s = byte :: s' := by
  obtain ⟨v, s₁, readVec, returned⟩ := run_bind_eq_ok.mp read
  obtain ⟨rfl, rfl⟩ := run_pure_eq_ok.mp returned
  rw [readsEncoding_take readVec]
  obtain ⟨⟨bytes⟩, sized⟩ := v
  match bytes, sized with
  | [_], _ => rfl

@[simp]
theorem run_readLEData_leBytes {width value : Nat} (fits : value < 256 ^ width) (rest : valtype) :
    (readLEData width).run (leBytes width value ++ rest) = .ok (value, rest) := by
  have read := run_readBytes_append (leBytes width value) rest
  rw [leBytes_length] at read
  unfold readLEData
  rw [run_bind_of_ok read, readLE_leBytes width value fits]
  rfl

theorem readLEData_eq_ok {width value : Nat} {s s' : valtype}
    (read : (readLEData width).run s = .ok (value, s')) :
    s = leBytes width value ++ s' ∧ value < 256 ^ width := by
  obtain ⟨bytes, s₁, readRaw, returned⟩ := run_bind_eq_ok.mp read
  obtain ⟨rfl, rfl⟩ := run_pure_eq_ok.mp returned
  obtain ⟨rfl, rfl⟩ := readBytes_eq_ok readRaw
  exact ⟨by rw [leBytes_readLE], readLE_lt bytes⟩

/-! ## `CompactSize` -/

/-- Reading back a written size gives it, unless the range check refuses it. -/
theorem run_readCompactSize_writeCompactSize {rangeCheck : Bool} {nSize : Nat} (fits : nSize < 2 ^ 64)
    (rest : valtype) :
    (readCompactSize rangeCheck).run (writeCompactSize nSize ++ rest) =
      if rangeCheck = true ∧ MAX_SIZE < nSize then .error "ReadCompactSize(): size too large"
      else .ok (nSize, rest) := by
  by_cases oneByte : nSize < 253
  · have byte : (UInt8.ofNat nSize).toNat = nSize :=
      UInt8.toNat_ofNat_of_lt' (by simp [UInt8.size]; omega)
    have marker : UInt8.ofNat nSize < 253 := by simp [UInt8.lt_iff_toNat_lt, byte, oneByte]
    simp [writeCompactSize, oneByte, readCompactSize, marker, byte]
  by_cases twoBytes : nSize ≤ 0xffff
  · have fitsTwo : nSize < 256 ^ 2 := by omega
    simp [writeCompactSize, oneByte, twoBytes, readCompactSize, run_readLEData_leBytes fitsTwo]
  by_cases fourBytes : nSize ≤ 0xffffffff
  · have fitsFour : nSize < 256 ^ 4 := by omega
    have canonical : ¬ nSize < 0x10000 := by omega
    simp [writeCompactSize, oneByte, twoBytes, fourBytes, readCompactSize,
      run_readLEData_leBytes fitsFour, canonical]
  · have fitsEight : nSize < 256 ^ 8 := by omega
    have canonical : ¬ nSize < 0x100000000 := by omega
    simp [writeCompactSize, oneByte, twoBytes, fourBytes, readCompactSize,
      run_readLEData_leBytes fitsEight, canonical]

theorem readCompactSize_writeCompactSize {rangeCheck : Bool} {nSize : Nat} (fits : nSize < 2 ^ 64)
    (inRange : rangeCheck = true → nSize ≤ MAX_SIZE) :
    Encodes (readCompactSize rangeCheck) writeCompactSize nSize := by
  intro rest
  have accepted : ¬ (rangeCheck = true ∧ MAX_SIZE < nSize) := fun ⟨checked, large⟩ =>
    absurd (inRange checked) (by omega)
  rw [run_readCompactSize_writeCompactSize fits, if_neg accepted]

/-- A size above `MAX_SIZE` is written, and refused when read back. -/
theorem readCompactSize_of_large {nSize : Nat} (large : MAX_SIZE < nSize) (fits : nSize < 2 ^ 64)
    (rest : valtype) :
    (readCompactSize true).run (writeCompactSize nSize ++ rest) =
      .error "ReadCompactSize(): size too large" := by
  rw [run_readCompactSize_writeCompactSize fits, if_pos ⟨rfl, large⟩]

/-- A marker's value is `width` bytes that do not fit a shorter form. -/
theorem readCanonicalValue_eq_ok {width least value : Nat} {s s' : valtype}
    (read : (do
        let nSize ← readLEData width
        if nSize < least then throw "non-canonical ReadCompactSize()" else pure nSize :
        ByteDecoder Nat).run s = .ok (value, s')) :
    s = leBytes width value ++ s' ∧ least ≤ value ∧ value < 256 ^ width := by
  obtain ⟨nSize, s₁, readValue, checked⟩ := run_bind_eq_ok.mp read
  obtain ⟨notShort, returned⟩ := run_ite_throw_eq_ok.mp checked
  obtain ⟨rfl, rfl⟩ := run_pure_eq_ok.mp returned
  obtain ⟨rfl, fits⟩ := readLEData_eq_ok readValue
  exact ⟨rfl, Nat.le_of_not_lt notShort, fits⟩

theorem readsEncoding_readCompactSize (rangeCheck : Bool) :
    ReadsEncoding (readCompactSize rangeCheck) writeCompactSize := by
  intro s nSize s' read
  obtain ⟨chSize, s₁, readMarker, readRest⟩ := run_bind_eq_ok.mp read
  obtain ⟨value, s₂, readValue, checked⟩ := run_bind_eq_ok.mp readRest
  obtain ⟨-, returned⟩ := run_ite_throw_eq_ok.mp checked
  obtain ⟨rfl, rfl⟩ := run_pure_eq_ok.mp returned
  rw [readData8_eq_ok readMarker]
  split_ifs at readValue with oneByte twoBytes fourBytes
  · obtain ⟨rfl, rfl⟩ := run_pure_eq_ok.mp readValue
    have small : chSize.toNat < 253 := oneByte
    simp [writeCompactSize, small]
  · obtain ⟨rfl, least, fits⟩ := readCanonicalValue_eq_ok readValue
    have notOne : ¬ value < 253 := by omega
    have inTwo : value ≤ 0xffff := by simp at fits; omega
    simp [writeCompactSize, twoBytes, notOne, inTwo]
  · obtain ⟨rfl, least, fits⟩ := readCanonicalValue_eq_ok readValue
    have notOne : ¬ value < 253 := by omega
    have notTwo : ¬ value ≤ 0xffff := by omega
    have inFour : value ≤ 0xffffffff := by simp at fits; omega
    simp [writeCompactSize, fourBytes, notOne, notTwo, inFour]
  · obtain ⟨rfl, least, fits⟩ := readCanonicalValue_eq_ok readValue
    have notOne : ¬ value < 253 := by omega
    have notTwo : ¬ value ≤ 0xffff := by omega
    have notFour : ¬ value ≤ 0xffffffff := by omega
    have marker : chSize = 255 := by grind
    simp [writeCompactSize, marker, notOne, notTwo, notFour]

/-! ## Vectors -/

theorem lt_of_le_MAX_SIZE {size : Nat} (short : size ≤ MAX_SIZE) : size < 2 ^ 64 := by
  unfold MAX_SIZE at short
  omega

theorem readByteVector_serializeBytes {bytes : valtype} (short : bytes.length ≤ MAX_SIZE) :
    Encodes readByteVector serializeBytes bytes := by
  intro rest
  unfold readByteVector serializeBytes
  rw [List.append_assoc,
    run_bind_encodes (readCompactSize_writeCompactSize (lt_of_le_MAX_SIZE short) fun _ => short)]
  exact run_readBytes_append bytes rest

theorem readsEncoding_readByteVector : ReadsEncoding readByteVector serializeBytes := by
  intro s bytes s' read
  obtain ⟨nSize, s₁, readSize, readRaw⟩ := run_bind_eq_ok.mp read
  obtain ⟨rfl, rfl⟩ := readBytes_eq_ok readRaw
  rw [readsEncoding_readCompactSize true readSize, serializeBytes, List.append_assoc]

theorem readVector_serializeVector {α : Type} {readElement : ByteDecoder α}
    {serializeElement : α → List UInt8} {elements : List α} (short : elements.length ≤ MAX_SIZE)
    (each : ∀ element ∈ elements, Encodes readElement serializeElement element) :
    Encodes (readVector readElement) (serializeVector serializeElement) elements := by
  intro rest
  unfold readVector serializeVector
  rw [List.append_assoc,
    run_bind_encodes (readCompactSize_writeCompactSize (lt_of_le_MAX_SIZE short) fun _ => short)]
  exact encodes_readList each rest

theorem readsEncoding_readVector {α : Type} {readElement : ByteDecoder α}
    {serializeElement : α → List UInt8} (canonical : ReadsEncoding readElement serializeElement) :
    ReadsEncoding (readVector readElement) (serializeVector serializeElement) := by
  intro s elements s' read
  obtain ⟨size, s₁, readSize, readElements⟩ := run_bind_eq_ok.mp read
  have counted := readList_length readElements
  rw [readsEncoding_readCompactSize true readSize, readsEncoding_readList canonical size readElements,
    serializeVector, counted, List.append_assoc]

/-- What every read of an element returns holds of every element of a vector. -/
theorem readVector_forall {α : Type} {readElement : ByteDecoder α} {P : α → Prop}
    (each : ∀ {s : valtype} {x : α} {s' : valtype}, readElement.run s = .ok (x, s') → P x)
    {s s' : valtype} {elements : List α} (read : (readVector readElement).run s = .ok (elements, s')) :
    ∀ element ∈ elements, P element := by
  obtain ⟨size, s₁, -, readElements⟩ := run_bind_eq_ok.mp read
  exact readList_forall each size readElements

/-! ## The parts of a transaction -/

theorem COutPoint.unserialize_serialize (outpoint : COutPoint) :
    Encodes COutPoint.unserialize COutPoint.serialize outpoint := by
  intro rest
  have index : outpoint.n.toNat < 256 ^ 4 := outpoint.n.toNat_lt
  unfold COutPoint.unserialize COutPoint.serialize
  rw [List.append_assoc, run_bind_of_ok (run_take_append outpoint.hash _),
    run_bind_of_ok (run_readLEData_leBytes index rest)]
  simp

theorem COutPoint.readsEncoding_unserialize :
    ReadsEncoding COutPoint.unserialize COutPoint.serialize := by
  intro s outpoint s' read
  obtain ⟨hash, s₁, readHash, readRest⟩ := run_bind_eq_ok.mp read
  obtain ⟨n, s₂, readIndex, returned⟩ := run_bind_eq_ok.mp readRest
  obtain ⟨rfl, rfl⟩ := run_pure_eq_ok.mp returned
  obtain ⟨rfl, fits⟩ := readLEData_eq_ok readIndex
  have index : (UInt32.ofNat n).toNat = n := UInt32.toNat_ofNat_of_lt' (by simpa using fits)
  rw [readsEncoding_take readHash]
  simp [COutPoint.serialize, index]

/-- The writer serializes an input without its witness. -/
@[simp]
theorem CTxIn.serialize_withoutWitness (input : CTxIn) :
    input.withoutWitness.serialize = input.serialize := rfl

theorem CTxIn.unserialize_serialize {input : CTxIn} (short : input.scriptSig.length ≤ MAX_SIZE) :
    Encodes CTxIn.unserialize CTxIn.serialize input.withoutWitness := by
  intro rest
  have sequence : input.nSequence.toNat < 256 ^ 4 := input.nSequence.toNat_lt
  rw [CTxIn.serialize_withoutWitness]
  unfold CTxIn.unserialize CTxIn.serialize
  simp only [List.append_assoc]
  rw [run_bind_encodes (COutPoint.unserialize_serialize _),
    run_bind_encodes (readByteVector_serializeBytes short),
    run_bind_of_ok (run_readLEData_leBytes sequence rest)]
  simp [CTxIn.withoutWitness]

/-- An input read back has the bytes it was read from and an empty witness. -/
theorem CTxIn.unserialize_eq_ok {s s' : valtype} {input : CTxIn}
    (read : CTxIn.unserialize.run s = .ok (input, s')) :
    s = input.serialize ++ s' ∧ input.withoutWitness = input := by
  obtain ⟨prevout, s₁, readPrevout, readRest⟩ := run_bind_eq_ok.mp read
  obtain ⟨scriptSig, s₂, readScript, readSequence⟩ := run_bind_eq_ok.mp readRest
  obtain ⟨nSequence, s₃, readValue, returned⟩ := run_bind_eq_ok.mp readSequence
  obtain ⟨rfl, rfl⟩ := run_pure_eq_ok.mp returned
  obtain ⟨rfl, fits⟩ := readLEData_eq_ok readValue
  have sequence : (UInt32.ofNat nSequence).toNat = nSequence :=
    UInt32.toNat_ofNat_of_lt' (by simpa using fits)
  rw [COutPoint.readsEncoding_unserialize readPrevout, readsEncoding_readByteVector readScript]
  simp [CTxIn.serialize, CTxIn.withoutWitness, sequence]

theorem CTxIn.readsEncoding_unserialize : ReadsEncoding CTxIn.unserialize CTxIn.serialize :=
  fun _ _ _ read => (CTxIn.unserialize_eq_ok read).1

/-- An amount in the `int64_t` range is read back from its two's complement. -/
theorem ofTwosComplement_toNat_emod {value : Int} (inRange : -2 ^ 63 ≤ value ∧ value < 2 ^ 63) :
    ofTwosComplement 64 (value % 2 ^ 64).toNat = value := by
  unfold ofTwosComplement
  split_ifs <;> omega

/-- The two's complement of an amount read back is the bits it was read from. -/
theorem toNat_emod_ofTwosComplement {bits : Nat} (fits : bits < 2 ^ 64) :
    (ofTwosComplement 64 bits % 2 ^ 64).toNat = bits := by
  unfold ofTwosComplement
  split_ifs <;> omega

theorem CTxOut.unserialize_serialize {output : CTxOut} (fits : output.FitsSerialization) :
    Encodes CTxOut.unserialize CTxOut.serialize output := by
  intro rest
  have bits : (output.nValue % 2 ^ 64).toNat < 256 ^ 8 := by omega
  unfold CTxOut.unserialize CTxOut.serialize
  rw [List.append_assoc, run_bind_of_ok (run_readLEData_leBytes bits _),
    run_bind_encodes (readByteVector_serializeBytes fits.scriptPubKey), ofTwosComplement_toNat_emod fits.nValue]
  rfl

theorem CTxOut.readsEncoding_unserialize : ReadsEncoding CTxOut.unserialize CTxOut.serialize := by
  intro s output s' read
  obtain ⟨nValue, s₁, readValue, readRest⟩ := run_bind_eq_ok.mp read
  obtain ⟨scriptPubKey, s₂, readScript, returned⟩ := run_bind_eq_ok.mp readRest
  obtain ⟨rfl, rfl⟩ := run_pure_eq_ok.mp returned
  obtain ⟨rfl, fits⟩ := readLEData_eq_ok readValue
  have bits : nValue < 2 ^ 64 := by simpa using fits
  rw [readsEncoding_readByteVector readScript, CTxOut.serialize, toNat_emod_ofTwosComplement bits,
    List.append_assoc]

theorem readWitnessStack_serialize {witness : CScriptWitness}
    (stack : witness.stack.length ≤ MAX_SIZE) (items : ∀ item ∈ witness.stack, item.length ≤ MAX_SIZE) :
    Encodes readWitnessStack CScriptWitness.serialize witness := by
  intro rest
  unfold readWitnessStack CScriptWitness.serialize
  rw [run_bind_encodes (readVector_serializeVector stack fun item mem =>
    readByteVector_serializeBytes (items item mem))]
  rfl

theorem readsEncoding_readWitnessStack : ReadsEncoding readWitnessStack CScriptWitness.serialize := by
  intro s witness s' read
  obtain ⟨stack, s₁, readStack, returned⟩ := run_bind_eq_ok.mp read
  obtain ⟨rfl, rfl⟩ := run_pure_eq_ok.mp returned
  exact readsEncoding_readVector readsEncoding_readByteVector readStack

/-- The witness record of a transaction's inputs gives them back their witnesses. -/
theorem readWitnesses_serialize {vin : List CTxIn} (fits : ∀ input ∈ vin, input.FitsSerialization)
    (rest : valtype) :
    (readWitnesses (vin.map CTxIn.withoutWitness)).run
        ((vin.map fun input => input.scriptWitness.serialize).flatten ++ rest) = .ok (vin, rest) := by
  induction vin with
  | nil => rfl
  | cons input inputs inTail =>
      have inputFits := fits input List.mem_cons_self
      have tail := inTail fun other mem => fits other (List.mem_cons_of_mem input mem)
      simp only [List.map_cons, List.flatten_cons, List.append_assoc, readWitnesses]
      rw [run_bind_encodes (readWitnessStack_serialize inputFits.stack inputFits.items),
        run_bind_of_ok tail]
      rfl

theorem readWitnesses_eq_ok {vin vin' : List CTxIn} {s s' : valtype}
    (read : (readWitnesses vin).run s = .ok (vin', s')) :
    s = (vin'.map fun input => input.scriptWitness.serialize).flatten ++ s' ∧
      vin'.map CTxIn.withoutWitness = vin.map CTxIn.withoutWitness := by
  induction vin generalizing s vin' with
  | nil =>
      obtain ⟨rfl, rfl⟩ := run_pure_eq_ok.mp read
      simp
  | cons input inputs inTail =>
      obtain ⟨witness, s₁, readStack, readRest⟩ := run_bind_eq_ok.mp read
      obtain ⟨rest, s₂, readTail, returned⟩ := run_bind_eq_ok.mp readRest
      obtain ⟨rfl, rfl⟩ := run_pure_eq_ok.mp returned
      obtain ⟨restBytes, restInputs⟩ := inTail readTail
      rw [readsEncoding_readWitnessStack readStack, restBytes]
      simp [restInputs, CTxIn.withoutWitness]

/-! ## Transactions -/

/-- The empty vector, which is also the extended format's dummy. -/
theorem run_readVector_zero {α : Type} (readElement : ByteDecoder α) (rest : valtype) :
    (readVector readElement).run (0 :: rest) = .ok ([], rest) :=
  @readVector_serializeVector _ readElement (fun _ => []) [] (by simp) (by simp) rest

/-- Without the extended format's marker the output vector follows the inputs. -/
theorem readVinVout_of_outputs {fAllowWitness : Bool} {vin : List CTxIn} {vout : List CTxOut}
    (direct : (vin.isEmpty && fAllowWitness) = false)
    (outputs : Encodes (readVector CTxOut.unserialize) (serializeVector CTxOut.serialize) vout)
    (rest : valtype) :
    (readVinVout fAllowWitness vin).run (serializeVector CTxOut.serialize vout ++ rest) =
      .ok ((0, vin, vout), rest) := by
  unfold readVinVout
  rw [if_neg (by simp [direct]), run_bind_encodes outputs]
  rfl

/-- An empty input vector and a zero flags byte: a transaction without outputs. -/
theorem readVinVout_of_zero_flags (rest : valtype) :
    (readVinVout true []).run (0 :: rest) = .ok ((0, [], []), rest) := by
  simp [readVinVout]

/-- The extended format: a non-zero flags byte, then the input and output vectors. -/
theorem readVinVout_of_flags {flags : UInt8} (nonzero : flags ≠ 0) {vin : List CTxIn}
    {vout : List CTxOut} (inputs : Encodes (readVector CTxIn.unserialize) (serializeVector CTxIn.serialize) vin)
    (outputs : Encodes (readVector CTxOut.unserialize) (serializeVector CTxOut.serialize) vout)
    (rest : valtype) :
    (readVinVout true []).run
        (flags :: (serializeVector CTxIn.serialize vin ++ (serializeVector CTxOut.serialize vout ++ rest))) =
      .ok ((flags, vin, vout), rest) := by
  unfold readVinVout
  simp only [List.isEmpty_nil, Bool.and_self, if_true]
  rw [run_bind_of_ok (run_readData8_cons _ _), if_pos (by simpa using nonzero), run_bind_encodes inputs,
    run_bind_encodes outputs]
  rfl


/-- With the low bit of the flags clear no witness record is read. -/
theorem readWitnessRecord_of_clear {fAllowWitness : Bool} {flags : UInt8} (clear : flags &&& 1 = 0)
    (tx : CTransaction) (s : valtype) :
    (readWitnessRecord fAllowWitness flags tx).run s = .ok ((flags, tx), s) := by
  simp [readWitnessRecord, clear]

/-- The witness record of a transaction that has a witness gives each input
its stack back and clears the flag bit. -/
theorem readWitnessRecord_of_witnesses {vin : List CTxIn} {vout : List CTxOut} {version nLockTime : UInt32}
    (witnessed : CTransaction.hasWitness ⟨vin, vout, version, nLockTime⟩ = true)
    (fits : ∀ input ∈ vin, input.FitsSerialization) (rest : valtype) :
    (readWitnessRecord true 1 ⟨vin.map CTxIn.withoutWitness, vout, version, nLockTime⟩).run
        ((vin.map fun input => input.scriptWitness.serialize).flatten ++ rest) =
      .ok ((0, ⟨vin, vout, version, nLockTime⟩), rest) := by
  unfold readWitnessRecord
  rw [if_pos (by decide)]
  refine (run_bind_of_ok (readWitnesses_serialize fits rest) _).trans ?_
  simp [witnessed]

/-- Without a witness every input is its own witness-free form. -/
theorem map_withoutWitness_of_hasWitness {tx : CTransaction} (noWitness : tx.hasWitness = false) :
    tx.vin.map CTxIn.withoutWitness = tx.vin := by
  have unchanged : ∀ input ∈ tx.vin, input.withoutWitness = input := by
    intro input mem
    have empty : input.scriptWitness.stack = [] := by
      simpa [CTransaction.hasWitness, CScriptWitness.isNull] using
        List.any_eq_false.mp noWitness input mem
    obtain ⟨prevout, scriptSig, nSequence, ⟨stack⟩⟩ := input
    simp only at empty
    simp [CTxIn.withoutWitness, empty]
  calc tx.vin.map CTxIn.withoutWitness = tx.vin.map id := List.map_congr_left unchanged
    _ = tx.vin := List.map_id _

/-- The extended format, written when witnesses are allowed and present. -/
theorem CTransaction.serialize_of_hasWitness {tx : CTransaction} (witnessed : tx.hasWitness = true) :
    tx.serialize true = leBytes 4 tx.version.toNat ++ 0 :: 1 :: (serializeVector CTxIn.serialize tx.vin ++
      (serializeVector CTxOut.serialize tx.vout ++
        ((tx.vin.map fun input => input.scriptWitness.serialize).flatten ++ leBytes 4 tx.nLockTime.toNat))) := by
  simp [CTransaction.serialize, witnessed, writeCompactSize]

/-- The basic format. -/
theorem CTransaction.serialize_of_basic {tx : CTransaction} {fAllowWitness : Bool}
    (basic : (fAllowWitness && tx.hasWitness) = false) :
    tx.serialize fAllowWitness = leBytes 4 tx.version.toNat ++ (serializeVector CTxIn.serialize tx.vin ++
      (serializeVector CTxOut.serialize tx.vout ++ leBytes 4 tx.nLockTime.toNat)) := by
  simp only [CTransaction.serialize, basic]
  simp

theorem serializeVector_withoutWitness (vin : List CTxIn) :
    serializeVector CTxIn.serialize (vin.map CTxIn.withoutWitness) = serializeVector CTxIn.serialize vin := by
  simp [serializeVector, Function.comp_def]

theorem readVector_inputs {vin : List CTxIn} (short : vin.length ≤ MAX_SIZE)
    (fits : ∀ input ∈ vin, input.FitsSerialization) :
    Encodes (readVector CTxIn.unserialize) (serializeVector CTxIn.serialize) (vin.map CTxIn.withoutWitness) := by
  refine readVector_serializeVector (by simpa using short) fun input mem => ?_
  obtain ⟨original, inVin, rfl⟩ := List.mem_map.mp mem
  exact CTxIn.unserialize_serialize (fits original inVin).scriptSig

theorem readVector_outputs {vout : List CTxOut} (short : vout.length ≤ MAX_SIZE)
    (fits : ∀ output ∈ vout, output.FitsSerialization) :
    Encodes (readVector CTxOut.unserialize) (serializeVector CTxOut.serialize) vout :=
  readVector_serializeVector short fun output mem => CTxOut.unserialize_serialize (fits output mem)

/-- The extended format is read back whole. -/
theorem unserializeTransaction_of_hasWitness {tx : CTransaction} (witnessed : tx.hasWitness = true)
    (fits : tx.FitsSerialization) (rest : valtype) :
    (unserializeTransaction true).run (tx.serialize true ++ rest) = .ok (tx, rest) := by
  obtain ⟨vin, vout, version, nLockTime⟩ := tx
  have versionFits : version.toNat < 256 ^ 4 := version.toNat_lt
  have lockTimeFits : nLockTime.toNat < 256 ^ 4 := nLockTime.toNat_lt
  rw [CTransaction.serialize_of_hasWitness witnessed, ← serializeVector_withoutWitness vin]
  simp only [List.append_assoc, List.cons_append]
  unfold unserializeTransaction
  rw [run_bind_of_ok (run_readLEData_leBytes versionFits _), run_bind_of_ok (run_readVector_zero _ _),
    run_bind_of_ok (readVinVout_of_flags (by decide) (readVector_inputs fits.vin fits.inputs)
      (readVector_outputs fits.vout fits.outputs) _)]
  dsimp only
  have witnessedBefore : CTransaction.hasWitness ⟨vin, vout, version, 0⟩ = true := witnessed
  rw [UInt32.ofNat_toNat, run_bind_of_ok (readWitnessRecord_of_witnesses witnessedBefore fits.inputs _)]
  dsimp only
  rw [if_neg (by decide), run_bind_of_ok (run_readLEData_leBytes lockTimeFits rest)]
  simp

/-- The basic format is read back without witnesses, provided an empty input
vector is not taken for the extended format's dummy. -/
theorem unserializeTransaction_of_basic {tx : CTransaction} {fAllowWitness : Bool}
    (basic : (fAllowWitness && tx.hasWitness) = false) (shape : tx.vin ≠ [] ∨ tx.vout = [])
    (fits : tx.FitsSerialization) (rest : valtype) :
    (unserializeTransaction fAllowWitness).run (tx.serialize fAllowWitness ++ rest) =
      .ok (tx.withoutWitness, rest) := by
  obtain ⟨vin, vout, version, nLockTime⟩ := tx
  have versionFits : version.toNat < 256 ^ 4 := version.toNat_lt
  have lockTimeFits : nLockTime.toNat < 256 ^ 4 := nLockTime.toNat_lt
  have vinVout : (readVinVout fAllowWitness (vin.map CTxIn.withoutWitness)).run
      (serializeVector CTxOut.serialize vout ++ (leBytes 4 nLockTime.toNat ++ rest)) =
        .ok ((0, vin.map CTxIn.withoutWitness, vout), leBytes 4 nLockTime.toNat ++ rest) := by
    by_cases direct : ((vin.map CTxIn.withoutWitness).isEmpty && fAllowWitness) = false
    · exact readVinVout_of_outputs direct (readVector_outputs fits.vout fits.outputs) _
    · obtain ⟨noInputs, rfl⟩ : vin = [] ∧ fAllowWitness = true := by simpa using direct
      obtain rfl : vout = [] := by simpa [noInputs] using shape
      subst noInputs
      exact readVinVout_of_zero_flags _
  rw [CTransaction.serialize_of_basic basic, ← serializeVector_withoutWitness vin]
  simp only [List.append_assoc]
  unfold unserializeTransaction
  rw [run_bind_of_ok (run_readLEData_leBytes versionFits _),
    run_bind_of_ok (readVector_inputs fits.vin fits.inputs _), run_bind_of_ok vinVout]
  dsimp only
  rw [run_bind_of_ok (readWitnessRecord_of_clear (by decide) _ _)]
  dsimp only
  rw [if_neg (by decide), run_bind_of_ok (run_readLEData_leBytes lockTimeFits rest)]
  simp [CTransaction.withoutWitness]

/-- Transactions are read back from their serialization under the same
parameters: whole when witnesses are allowed, without witnesses otherwise.  An
empty input vector reads as the extended format's dummy, so a transaction with
no inputs must have no outputs either; and the sizes must be ones
`ReadCompactSize` accepts. -/
theorem unserializeTransaction_serialize {tx : CTransaction} (fAllowWitness : Bool)
    (shape : tx.vin ≠ [] ∨ tx.vout = []) (fits : tx.FitsSerialization) (rest : valtype) :
    (unserializeTransaction fAllowWitness).run (tx.serialize fAllowWitness ++ rest) =
      .ok (if fAllowWitness then tx else tx.withoutWitness, rest) := by
  cases extended : (fAllowWitness && tx.hasWitness) with
  | true =>
      obtain ⟨rfl, witnessed⟩ : fAllowWitness = true ∧ tx.hasWitness = true := by simpa using extended
      exact unserializeTransaction_of_hasWitness witnessed fits rest
  | false =>
      rw [unserializeTransaction_of_basic extended shape fits rest]
      cases fAllowWitness with
      | false => rfl
      | true =>
          have noWitness : tx.hasWitness = false := by simpa using extended
          simp [CTransaction.withoutWitness, map_withoutWitness_of_hasWitness noWitness]

/-! ## What `UnserializeTransaction` accepts -/

/-- The three shapes `readVinVout` accepts with witnesses allowed: outputs
after a non-empty input vector; an empty input vector and a zero flags byte;
and the extended format's flags byte, inputs and outputs. -/
theorem readVinVout_eq_ok {vin vin' : List CTxIn} {vout : List CTxOut} {flags : UInt8} {s s' : valtype}
    (read : (readVinVout true vin).run s = .ok ((flags, vin', vout), s')) :
    (vin ≠ [] ∧ flags = 0 ∧ vin' = vin ∧ s = serializeVector CTxOut.serialize vout ++ s') ∨
    (vin = [] ∧ flags = 0 ∧ vin' = [] ∧ vout = [] ∧ s = 0 :: s') ∨
    (vin = [] ∧ flags ≠ 0 ∧ (∀ input ∈ vin', input.withoutWitness = input) ∧
      s = flags :: (serializeVector CTxIn.serialize vin' ++ (serializeVector CTxOut.serialize vout ++ s'))) := by
  unfold readVinVout at read
  split at read
  · rename_i dummy
    have noInputs : vin = [] := by simpa using dummy
    obtain ⟨byte, s₁, readFlags, readRest⟩ := run_bind_eq_ok.mp read
    rw [readData8_eq_ok readFlags]
    split at readRest
    · rename_i nonzero
      obtain ⟨inputs, s₂, readInputs, readAfterInputs⟩ := run_bind_eq_ok.mp readRest
      obtain ⟨outputs, s₃, readOutputs, returned⟩ := run_bind_eq_ok.mp readAfterInputs
      obtain ⟨same, rfl⟩ := run_pure_eq_ok.mp returned
      simp only [Prod.mk.injEq] at same
      obtain ⟨rfl, rfl, rfl⟩ := same
      refine .inr (.inr ⟨noInputs, by simpa using nonzero, ?_, ?_⟩)
      · exact readVector_forall (fun readInput => (CTxIn.unserialize_eq_ok readInput).2) readInputs
      · rw [readsEncoding_readVector CTxIn.readsEncoding_unserialize readInputs,
          readsEncoding_readVector CTxOut.readsEncoding_unserialize readOutputs]
    · rename_i zero
      obtain ⟨same, rfl⟩ := run_pure_eq_ok.mp readRest
      simp only [Prod.mk.injEq] at same
      obtain ⟨rfl, rfl, rfl⟩ := same
      have isZero : byte = 0 := by simpa using zero
      exact .inr (.inl ⟨noInputs, isZero, noInputs, rfl, by rw [isZero]⟩)
  · rename_i direct
    have someInputs : vin ≠ [] := by simpa using direct
    obtain ⟨outputs, s₁, readOutputs, returned⟩ := run_bind_eq_ok.mp read
    obtain ⟨same, rfl⟩ := run_pure_eq_ok.mp returned
    simp only [Prod.mk.injEq] at same
    obtain ⟨rfl, rfl, rfl⟩ := same
    exact .inl ⟨someInputs, rfl, rfl, readsEncoding_readVector CTxOut.readsEncoding_unserialize readOutputs⟩

/-- The witness record is skipped when the flag bit is clear, and otherwise
gives the inputs non-empty witnesses and clears the bit. -/
theorem readWitnessRecord_eq_ok {flags flags' : UInt8} {tx tx' : CTransaction} {s s' : valtype}
    (read : (readWitnessRecord true flags tx).run s = .ok ((flags', tx'), s')) :
    (flags &&& 1 = 0 ∧ flags' = flags ∧ tx' = tx ∧ s = s') ∨
    (flags' = flags ^^^ 1 ∧ tx'.hasWitness = true ∧ tx' = { tx with vin := tx'.vin } ∧
      tx'.vin.map CTxIn.withoutWitness = tx.vin.map CTxIn.withoutWitness ∧
      s = (tx'.vin.map fun input => input.scriptWitness.serialize).flatten ++ s') := by
  unfold readWitnessRecord at read
  split at read
  · obtain ⟨vin, s₁, readStacks, checked⟩ := run_bind_eq_ok.mp read
    obtain ⟨witnessed, returned⟩ := run_ite_throw_eq_ok.mp checked
    obtain ⟨same, rfl⟩ := run_pure_eq_ok.mp returned
    simp only [Prod.mk.injEq] at same
    obtain ⟨rfl, rfl⟩ := same
    obtain ⟨bytes, inputs⟩ := readWitnesses_eq_ok readStacks
    exact .inr ⟨rfl, by simpa using witnessed, rfl, inputs, bytes⟩
  · rename_i clear
    obtain ⟨same, rfl⟩ := run_pure_eq_ok.mp read
    simp only [Prod.mk.injEq] at same
    obtain ⟨rfl, rfl⟩ := same
    exact .inl ⟨by simpa using clear, rfl, rfl, rfl⟩

/-- Inputs without witnesses make a transaction without witness. -/
theorem hasWitness_of_withoutWitness {tx : CTransaction}
    (unwitnessed : ∀ input ∈ tx.vin, input.withoutWitness = input) : tx.hasWitness = false := by
  refine List.any_eq_false.mpr fun input mem => ?_
  rw [← unwitnessed input mem]
  simp [CTxIn.withoutWitness, CScriptWitness.isNull]

/-- What `UnserializeTransaction` reads with witnesses allowed is the
serialization of the transaction it returns: the format is canonical, so
`txid` and `wtxid` are functions of the decoded transaction. -/
theorem serialize_of_unserializeTransaction {s s' : valtype} {tx : CTransaction}
    (read : (unserializeTransaction true).run s = .ok (tx, s')) : s = tx.serialize true ++ s' := by
  obtain ⟨version, s₁, readVersion, afterVersion⟩ := run_bind_eq_ok.mp read
  obtain ⟨vin, s₂, readInputs, afterInputs⟩ := run_bind_eq_ok.mp afterVersion
  obtain ⟨⟨flags, vin', vout⟩, s₃, readVectors, afterVectors⟩ := run_bind_eq_ok.mp afterInputs
  obtain ⟨⟨flags', tx'⟩, s₄, readRecord, afterRecord⟩ := run_bind_eq_ok.mp afterVectors
  obtain ⟨known, afterFlags⟩ := run_ite_throw_eq_ok.mp afterRecord
  obtain ⟨nLockTime, s₅, readLockTime, returned⟩ := run_bind_eq_ok.mp afterFlags
  obtain ⟨rfl, rfl⟩ := run_pure_eq_ok.mp returned
  have noFlags : flags' = 0 := by simpa using known
  obtain ⟨rfl, versionFits⟩ := readLEData_eq_ok readVersion
  obtain ⟨rfl, lockTimeFits⟩ := readLEData_eq_ok readLockTime
  have versionBytes : (UInt32.ofNat version).toNat = version :=
    UInt32.toNat_ofNat_of_lt' (by simpa using versionFits)
  have lockTimeBytes : (UInt32.ofNat nLockTime).toNat = nLockTime :=
    UInt32.toNat_ofNat_of_lt' (by simpa using lockTimeFits)
  have unwitnessed : ∀ input ∈ vin, input.withoutWitness = input :=
    readVector_forall (fun readInput => (CTxIn.unserialize_eq_ok readInput).2) readInputs
  rw [readsEncoding_readVector CTxIn.readsEncoding_unserialize readInputs]
  rcases readVinVout_eq_ok readVectors with
    ⟨-, rfl, rfl, rfl⟩ | ⟨rfl, rfl, rfl, rfl, rfl⟩ | ⟨rfl, nonzero, unwitnessed', rfl⟩
  · rcases readWitnessRecord_eq_ok readRecord with ⟨-, rfl, rfl, rfl⟩ | ⟨rfl, -⟩
    · have noWitness : CTransaction.hasWitness
          ⟨vin', vout, UInt32.ofNat version, UInt32.ofNat nLockTime⟩ = false :=
        hasWitness_of_withoutWitness unwitnessed
      dsimp only
      rw [CTransaction.serialize_of_basic (by simp [noWitness])]
      simp [versionBytes, lockTimeBytes]
    · exact absurd noFlags (by decide)
  · rcases readWitnessRecord_eq_ok readRecord with ⟨-, rfl, rfl, rfl⟩ | ⟨rfl, -⟩
    · dsimp only
      rw [CTransaction.serialize_of_basic (by simp [CTransaction.hasWitness])]
      simp [versionBytes, lockTimeBytes, serializeVector, writeCompactSize]
    · exact absurd noFlags (by decide)
  · rcases readWitnessRecord_eq_ok readRecord with ⟨-, rfl, -⟩ | ⟨rfl, witnessed, rebuilt, inputs, rfl⟩
    · exact absurd noFlags nonzero
    · have flagsOne : flags = 1 := by
        have cleared := congrArg (· ^^^ (1 : UInt8)) noFlags
        simpa [UInt8.xor_assoc] using cleared
      obtain ⟨witnessedVin, vout', version', lockTime'⟩ := tx'
      simp only [CTransaction.mk.injEq] at rebuilt
      obtain ⟨-, rfl, rfl, rfl⟩ := rebuilt
      have witnessedFinal : CTransaction.hasWitness
          ⟨witnessedVin, vout', UInt32.ofNat version, UInt32.ofNat nLockTime⟩ = true := witnessed
      have sameInputs : serializeVector CTxIn.serialize witnessedVin = serializeVector CTxIn.serialize vin' := by
        rw [← serializeVector_withoutWitness witnessedVin, inputs, serializeVector_withoutWitness]
      dsimp only
      rw [CTransaction.serialize_of_hasWitness witnessedFinal, versionBytes, lockTimeBytes, sameInputs, flagsOne]
      simp [serializeVector, writeCompactSize]

/-! ## Transactions written without witnesses -/

theorem CTransaction.withoutWitness_withoutWitness (tx : CTransaction) :
    tx.withoutWitness.withoutWitness = tx.withoutWitness := by
  simp [CTransaction.withoutWitness, CTxIn.withoutWitness, Function.comp_def]

theorem CTransaction.hasWitness_withoutWitness (tx : CTransaction) : tx.withoutWitness.hasWitness = false :=
  hasWitness_of_withoutWitness fun input mem => by
    obtain ⟨original, -, rfl⟩ := List.mem_map.mp mem
    rfl

theorem CTransaction.serialize_withoutWitness (tx : CTransaction) (fAllowWitness : Bool) :
    tx.withoutWitness.serialize fAllowWitness = tx.serialize false := by
  have basic : (fAllowWitness && tx.withoutWitness.hasWitness) = false := by
    rw [tx.hasWitness_withoutWitness, Bool.and_false]
  rw [CTransaction.serialize_of_basic basic, CTransaction.serialize_of_basic (Bool.false_and _)]
  simp only [CTransaction.withoutWitness, serializeVector_withoutWitness]

theorem CTransaction.FitsSerialization.withoutWitness {tx : CTransaction} (fits : tx.FitsSerialization) :
    tx.withoutWitness.FitsSerialization where
  vin := by simpa [CTransaction.withoutWitness] using fits.vin
  vout := fits.vout
  inputs input mem := by
    obtain ⟨original, inVin, rfl⟩ := List.mem_map.mp mem
    exact ⟨(fits.inputs original inVin).scriptSig, by simp [CTxIn.withoutWitness], by simp [CTxIn.withoutWitness]⟩
  outputs := fits.outputs

/-- A transaction written without its witnesses is read back without them,
whether or not the reader allows witnesses: what `TX_NO_WITNESS` writes,
`TX_WITH_WITNESS` reads. -/
theorem unserializeTransaction_serialize_false {tx : CTransaction} (fAllowWitness : Bool)
    (shape : tx.vin ≠ [] ∨ tx.vout = []) (fits : tx.FitsSerialization) (rest : valtype) :
    (unserializeTransaction fAllowWitness).run (tx.serialize false ++ rest) = .ok (tx.withoutWitness, rest) := by
  have basic : (fAllowWitness && tx.withoutWitness.hasWitness) = false := by
    rw [tx.hasWitness_withoutWitness, Bool.and_false]
  have sameShape : tx.withoutWitness.vin ≠ [] ∨ tx.withoutWitness.vout = [] := by
    simpa [CTransaction.withoutWitness] using shape
  have read := unserializeTransaction_of_basic basic sameShape fits.withoutWitness rest
  rwa [tx.serialize_withoutWitness, tx.withoutWitness_withoutWitness] at read

/-! ## Sizes that are written but not read -/

/-- An output whose script is longer than `MAX_SIZE` is refused when read back. -/
theorem CTxOut.unserialize_of_long {output : CTxOut} (long : MAX_SIZE < output.scriptPubKey.length) (fits : output.scriptPubKey.length < 2 ^ 64)
    (rest : valtype) :
    CTxOut.unserialize.run (output.serialize ++ rest) = .error "ReadCompactSize(): size too large" := by
  have bits : (output.nValue % 2 ^ 64).toNat < 256 ^ 8 := by omega
  unfold CTxOut.unserialize CTxOut.serialize readByteVector serializeBytes
  simp only [List.append_assoc]
  rw [run_bind_of_ok (run_readLEData_leBytes bits _), StateT.run_bind, StateT.run_bind,
    readCompactSize_of_large long fits]
  rfl

/-- A vector whose first element is refused is refused. -/
theorem readVector_of_head_error {α : Type} {readElement : ByteDecoder α}
    {serializeElement : α → List UInt8} {element : α} {elements : List α} {e : String}
    (short : (element :: elements).length ≤ MAX_SIZE)
    (refused : ∀ rest, readElement.run (serializeElement element ++ rest) = .error e) (rest : valtype) :
    (readVector readElement).run (serializeVector serializeElement (element :: elements) ++ rest) =
      .error e := by
  unfold readVector serializeVector
  simp only [List.map_cons, List.flatten_cons, List.append_assoc]
  rw [run_bind_encodes (readCompactSize_writeCompactSize (lt_of_le_MAX_SIZE short) fun _ => short),
    List.length_cons, readList, run_bind_of_error (refused _)]

/-- A transaction written in the basic format whose first output has a script
longer than `MAX_SIZE` is refused when read back. -/
theorem unserializeTransaction_of_long_script (tx : CTransaction) {fAllowWitness : Bool}
    (basic : (fAllowWitness && tx.hasWitness) = false) (someInputs : tx.vin ≠ [])
    (inputsShort : tx.vin.length ≤ MAX_SIZE) (inputsFit : ∀ input ∈ tx.vin, input.FitsSerialization)
    {output : CTxOut} {outputs : List CTxOut} (first : tx.vout = output :: outputs)
    (outputsShort : (output :: outputs).length ≤ MAX_SIZE) (long : MAX_SIZE < output.scriptPubKey.length) (fits : output.scriptPubKey.length < 2 ^ 64)
    (rest : valtype) :
    (unserializeTransaction fAllowWitness).run (tx.serialize fAllowWitness ++ rest) =
      .error "ReadCompactSize(): size too large" := by
  obtain ⟨vin, vout, version, nLockTime⟩ := tx
  simp only at first someInputs
  subst first
  have versionFits : version.toNat < 256 ^ 4 := version.toNat_lt
  rw [CTransaction.serialize_of_basic basic, ← serializeVector_withoutWitness vin]
  simp only [List.append_assoc]
  unfold unserializeTransaction readVinVout
  rw [run_bind_of_ok (run_readLEData_leBytes versionFits _),
    run_bind_of_ok (readVector_inputs inputsShort inputsFit _), StateT.run_bind, if_neg (by simp [someInputs]),
    StateT.run_bind, readVector_of_head_error outputsShort (CTxOut.unserialize_of_long long fits)]
  rfl

/-- A one-input transaction paying to a script of `MAX_SIZE + 1` bytes is
written, but `UnserializeTransaction` refuses its bytes. -/
theorem unserializeTransaction_oversized_script :
    (unserializeTransaction true).run
        (CTransaction.serialize ⟨[⟨⟨Vector.replicate 32 0, 0⟩, [], SEQUENCE_FINAL, ⟨[]⟩⟩],
          [⟨0, List.replicate (MAX_SIZE + 1) 0⟩], 2, 0⟩ true) =
      .error "ReadCompactSize(): size too large" := by
  have refused : (unserializeTransaction true).run
      (CTransaction.serialize ⟨[⟨⟨Vector.replicate 32 0, 0⟩, [], SEQUENCE_FINAL, ⟨[]⟩⟩],
        [⟨0, List.replicate (MAX_SIZE + 1) 0⟩], 2, 0⟩ true ++ []) =
      .error "ReadCompactSize(): size too large" :=
    unserializeTransaction_of_long_script
      ⟨[⟨⟨Vector.replicate 32 0, 0⟩, [], SEQUENCE_FINAL, ⟨[]⟩⟩], [⟨0, List.replicate (MAX_SIZE + 1) 0⟩], 2, 0⟩
      rfl (List.cons_ne_nil _ _) (by decide) (by decide) rfl (by decide)
      (by rw [List.length_replicate]; omega) (by rw [List.length_replicate]; decide) []
  rwa [List.append_nil] at refused

/-- The wire format of transactions: a transaction with inputs, or with neither
inputs nor outputs, whose vectors have sizes `ReadCompactSize` accepts and whose
amounts are `int64_t`s, is read back from its serialization under the same
parameters, without its witnesses under `TX_NO_WITNESS`; and whatever
`UnserializeTransaction` reads with witnesses allowed is the serialization of
the transaction it returns. -/
theorem transaction_wire_roundTrip :
    (∀ (tx : CTransaction) (fAllowWitness : Bool), (tx.vin ≠ [] ∨ (tx.vin = [] ∧ tx.vout = [])) →
      tx.FitsSerialization → ∀ rest : valtype,
        (unserializeTransaction fAllowWitness).run (tx.serialize fAllowWitness ++ rest) =
          .ok (if fAllowWitness then tx else tx.withoutWitness, rest)) ∧
    (∀ (s : valtype) (tx : CTransaction) (s' : valtype),
      (unserializeTransaction true).run s = .ok (tx, s') → s = tx.serialize true ++ s') := by
  constructor
  · intro tx fAllowWitness shape fits rest
    have shape' : tx.vin ≠ [] ∨ tx.vout = [] := shape.imp_right And.right
    exact unserializeTransaction_serialize fAllowWitness shape' fits rest
  · intro s tx s' read
    exact serialize_of_unserializeTransaction read

/-- A one-input transaction with a witness goes through the extended format and back. -/
theorem transaction_wire_roundTrip_witnessed :
    (unserializeTransaction true).run
        (CTransaction.serialize ⟨[⟨⟨Vector.replicate 32 0, 0⟩, [], SEQUENCE_FINAL, ⟨[[1]]⟩⟩],
          [⟨0, [0x51]⟩], 2, 0⟩ true ++ []) =
      .ok (⟨[⟨⟨Vector.replicate 32 0, 0⟩, [], SEQUENCE_FINAL, ⟨[[1]]⟩⟩], [⟨0, [0x51]⟩], 2, 0⟩, []) :=
  transaction_wire_roundTrip.1
    ⟨[⟨⟨Vector.replicate 32 0, 0⟩, [], SEQUENCE_FINAL, ⟨[[1]]⟩⟩], [⟨0, [0x51]⟩], 2, 0⟩ true
    (.inl (List.cons_ne_nil _ _)) (by decide) []

/-! ## Consumption -/

theorem shrinks_readData8 : Shrinks readData8 := fun _ _ _ read => by
  rw [readData8_eq_ok read, List.length_cons]
  exact Nat.le_succ _

theorem shrinks_readLEData (width : Nat) : Shrinks (readLEData width) := fun _ _ _ read => by
  rw [(readLEData_eq_ok read).1, List.length_append]
  exact Nat.le_add_left _ _

theorem shrinks_readCompactSize (rangeCheck : Bool) : Shrinks (readCompactSize rangeCheck) :=
  (readsEncoding_readCompactSize rangeCheck).shrinks

theorem shrinks_readByteVector : Shrinks readByteVector := readsEncoding_readByteVector.shrinks

theorem shrinks_readVector {α : Type} {readElement : ByteDecoder α} (each : Shrinks readElement) :
    Shrinks (readVector readElement) :=
  (shrinks_readCompactSize true).bind fun size => shrinks_readList each size

theorem shrinks_readWitnesses (vin : List CTxIn) : Shrinks (readWitnesses vin) := fun _ _ _ read => by
  rw [(readWitnesses_eq_ok read).1, List.length_append]
  exact Nat.le_add_left _ _

theorem shrinks_readVinVout (fAllowWitness : Bool) (vin : List CTxIn) :
    Shrinks (readVinVout fAllowWitness vin) := by
  have inputs := shrinks_readVector CTxIn.readsEncoding_unserialize.shrinks
  have outputs := shrinks_readVector CTxOut.readsEncoding_unserialize.shrinks
  unfold readVinVout
  refine Shrinks.ite (shrinks_readData8.bind fun flags => Shrinks.ite ?_ (shrinks_pure _)) ?_
  · exact inputs.bind fun vin => outputs.bind fun vout => shrinks_pure _
  · exact outputs.bind fun vout => shrinks_pure _

theorem shrinks_readWitnessRecord (fAllowWitness : Bool) (flags : UInt8) (tx : CTransaction) :
    Shrinks (readWitnessRecord fAllowWitness flags tx) := by
  unfold readWitnessRecord
  exact Shrinks.ite ((shrinks_readWitnesses tx.vin).bind fun vin =>
    Shrinks.ite (shrinks_throw _) (shrinks_pure _)) (shrinks_pure _)

theorem shrinks_unserializeTransaction (fAllowWitness : Bool) :
    Shrinks (unserializeTransaction fAllowWitness) := by
  unfold unserializeTransaction
  refine (shrinks_readLEData 4).bind fun version =>
    (shrinks_readVector CTxIn.readsEncoding_unserialize.shrinks).bind fun vin =>
      (shrinks_readVinVout fAllowWitness vin).bind fun read => ?_
  obtain ⟨flags, vin', vout⟩ := read
  refine (shrinks_readWitnessRecord fAllowWitness flags _).bind fun record => ?_
  obtain ⟨flags', tx⟩ := record
  exact Shrinks.ite (shrinks_throw _) ((shrinks_readLEData 4).bind fun nLockTime => shrinks_pure _)

end Qbitcoin
