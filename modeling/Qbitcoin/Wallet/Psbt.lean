import Qbitcoin.Primitives.Block
import Qbitcoin.Primitives.Unserialize
import Qbitcoin.Lib.RecordMap
import Qbitcoin.Lib.AssocList
import Qbitcoin.Script.Sign

/-!
# Partially signed transactions

`psbt.h`: the key-value maps of a PSBT, one global map, one map for each input
and one for each output, and how `PSBTInput::FromSignatureData` fills an input
from what the signer produced.  Each map is a sequence of records, a key whose
first bytes are the record's type and a value, ended by an empty key; reading
one is a `RecordMap.Reader` whose handler is the `switch` on the type.

The fields modelled are those the wallet's signing flow fills: the UTXOs, the
partial signatures, the sighash type, the redeem and witness scripts, the BIP32
derivation paths, the final scriptSig and witness, and the unknown records.
Records of the other types (hash preimages, Taproot, MuSig2, proprietary, and
the global xpubs) are read as unknown records.  A `std::map` is a list kept in
its key order, so that the writer's iteration order is the list's.

Deserialization checks every partial signature with
`CheckSignatureEncoding(sig, SCRIPT_VERIFY_DERSIG | SCRIPT_VERIFY_STRICTENC)`,
the strict DER test of ECDSA signatures, which no signature longer than 73
bytes passes.  The signatures the signer makes are a Dilithium signature and a
hash-type byte, 3310 bytes, so a PSBT that holds one is written but not read
back.
-/

namespace Qbitcoin

open ByteCodec Decoding

/-! ## Record types -/

/-- `PSBT_MAGIC_BYTES`: `psbt` and `0xff`. -/
def PSBT_MAGIC_BYTES : valtype := [0x70, 0x73, 0x62, 0x74, 0xff]
/-- `PSBT_GLOBAL_UNSIGNED_TX`. -/
def PSBT_GLOBAL_UNSIGNED_TX : Nat := 0x00
/-- `PSBT_GLOBAL_VERSION`. -/
def PSBT_GLOBAL_VERSION : Nat := 0xFB
/-- `PSBT_IN_NON_WITNESS_UTXO`. -/
def PSBT_IN_NON_WITNESS_UTXO : Nat := 0x00
/-- `PSBT_IN_WITNESS_UTXO`. -/
def PSBT_IN_WITNESS_UTXO : Nat := 0x01
/-- `PSBT_IN_PARTIAL_SIG`. -/
def PSBT_IN_PARTIAL_SIG : Nat := 0x02
/-- `PSBT_IN_SIGHASH`. -/
def PSBT_IN_SIGHASH : Nat := 0x03
/-- `PSBT_IN_REDEEMSCRIPT`. -/
def PSBT_IN_REDEEMSCRIPT : Nat := 0x04
/-- `PSBT_IN_WITNESSSCRIPT`. -/
def PSBT_IN_WITNESSSCRIPT : Nat := 0x05
/-- `PSBT_IN_BIP32_DERIVATION`. -/
def PSBT_IN_BIP32_DERIVATION : Nat := 0x06
/-- `PSBT_IN_SCRIPTSIG`. -/
def PSBT_IN_SCRIPTSIG : Nat := 0x07
/-- `PSBT_IN_SCRIPTWITNESS`. -/
def PSBT_IN_SCRIPTWITNESS : Nat := 0x08
/-- `PSBT_OUT_REDEEMSCRIPT`. -/
def PSBT_OUT_REDEEMSCRIPT : Nat := 0x00
/-- `PSBT_OUT_WITNESSSCRIPT`. -/
def PSBT_OUT_WITNESSSCRIPT : Nat := 0x01
/-- `PSBT_OUT_BIP32_DERIVATION`. -/
def PSBT_OUT_BIP32_DERIVATION : Nat := 0x02
/-- `PSBT_SEPARATOR`. -/
def PSBT_SEPARATOR : UInt8 := 0x00
/-- `PSBT_HIGHEST_VERSION`. -/
def PSBT_HIGHEST_VERSION : UInt32 := 0

/-- `CPubKey::SIZE` of the fork's key type. -/
def CQPubKey.SIZE : Nat := DILITHIUM_PUBLICKEY_SIZE
/-- `CPubKey::COMPRESSED_SIZE`: the same, Dilithium keys having one form. -/
def CQPubKey.COMPRESSED_SIZE : Nat := DILITHIUM_PUBLICKEY_SIZE

/-- The order of `std::map` keys that are byte strings: lexicographic, as
`memcmp` on keys of one size and `operator<` on vectors. -/
def bytesBefore (a b : valtype) : Bool := decide (a < b)

/-! ## The maps -/

/-- `PSBTInput`, with the fields the signing flow fills. -/
structure PSBTInput where
  nonWitnessUtxo : Option CTransaction
  witnessUtxo : CTxOut
  redeemScript : CScript
  witnessScript : CScript
  finalScriptSig : CScript
  finalScriptWitness : CScriptWitness
  hdKeypaths : List (CQPubKey × KeyOriginInfo)
  partialSigs : List (CKeyID × CQPubKey × valtype)
  unknown : List (valtype × valtype)
  sighashType : Option Int
  deriving DecidableEq, Repr

/-- `PSBTInput()`. -/
def PSBTInput.empty : PSBTInput := ⟨none, CTxOut.null, [], [], [], ⟨[]⟩, [], [], [], none⟩

/-- `PSBTOutput`, with the fields the signing flow fills. -/
structure PSBTOutput where
  redeemScript : CScript
  witnessScript : CScript
  hdKeypaths : List (CQPubKey × KeyOriginInfo)
  unknown : List (valtype × valtype)
  deriving DecidableEq, Repr

/-- `PSBTOutput()`. -/
def PSBTOutput.empty : PSBTOutput := ⟨[], [], [], []⟩

/-- `PartiallySignedTransaction`, without the global xpubs. -/
structure PartiallySignedTransaction where
  tx : Option CTransaction
  inputs : List PSBTInput
  outputs : List PSBTOutput
  unknown : List (valtype × valtype)
  version : Option UInt32
  deriving DecidableEq, Repr

/-- `PartiallySignedTransaction()`. -/
def PartiallySignedTransaction.empty : PartiallySignedTransaction := ⟨none, [], [], [], none⟩

/-- `PartiallySignedTransaction::GetVersion`. -/
def PartiallySignedTransaction.getVersion (psbt : PartiallySignedTransaction) : UInt32 :=
  psbt.version.getD 0

/-- `PSBTInput::FromSignatureData`: a complete signature replaces the signing
records by the final ones; otherwise the partial signatures, scripts and key
origins the signer found are added to those the input has. -/
def PSBTInput.fromSignatureData (input : PSBTInput) (sigdata : SignatureData) : PSBTInput :=
  if sigdata.complete then
    { input with
      partialSigs := [], hdKeypaths := [], redeemScript := [], witnessScript := []
      finalScriptSig := if !sigdata.scriptSig.isEmpty then sigdata.scriptSig else input.finalScriptSig
      finalScriptWitness :=
        if !sigdata.scriptWitness.isNull then sigdata.scriptWitness else input.finalScriptWitness }
  else
    { input with
      partialSigs := sigdata.signatures.foldl (fun sigs entry => sigs.emplaceBy bytesBefore entry.1 entry.2)
        input.partialSigs
      redeemScript := if input.redeemScript.isEmpty && !sigdata.redeemScript.isEmpty then sigdata.redeemScript
        else input.redeemScript
      witnessScript := if input.witnessScript.isEmpty && !sigdata.witnessScript.isEmpty then sigdata.witnessScript
        else input.witnessScript
      hdKeypaths := sigdata.miscPubkeys.foldl (fun paths entry =>
        paths.emplaceBy (fun a b => bytesBefore a.toBytes b.toBytes) entry.2.1 entry.2.2) input.hdKeypaths }

/-! ## Writing -/

/-- `SerializeToVector`: the size of the serialized values, then the values. -/
def serializeToVector (bytes : valtype) : valtype := writeCompactSize bytes.length ++ bytes

/-- The key of a record: its type as a `CompactSizeWriter` and the key data. -/
def recordKey (type : Nat) (keyData : valtype) : valtype :=
  serializeToVector (writeCompactSize type ++ keyData)

/-- `SerializeHDKeypath`: the length of the origin, the fingerprint and each
index of the path. -/
def serializeHDKeypath (origin : KeyOriginInfo) : valtype :=
  writeCompactSize ((origin.path.length + 1) * 4) ++ origin.fingerprint.toList ++
    origin.path.flatMap fun index => leBytes 4 index.toNat

/-- `SerializeHDKeypaths`, which refuses an invalid key. -/
def serializeHDKeypaths (type : Nat) : List (CQPubKey × KeyOriginInfo) → Except String valtype
  | [] => pure []
  | (pubkey, origin) :: rest =>
      if !pubkey.isValid then throw "Invalid CPubKey being serialized"
      else do
        let bytes ← serializeHDKeypaths type rest
        pure (recordKey type pubkey.toBytes ++ serializeHDKeypath origin ++ bytes)

/-- The unknown records, each as a key and a value vector. -/
def serializeUnknown (unknown : List (valtype × valtype)) : valtype :=
  (unknown.map fun entry => serializeBytes entry.1 ++ serializeBytes entry.2).flatten

/-- The records `PSBTInput::Serialize` writes only for an input that is not
finalized. -/
def PSBTInput.serializeSigning (input : PSBTInput) : Except String valtype := do
  let hdKeypaths ← serializeHDKeypaths PSBT_IN_BIP32_DERIVATION input.hdKeypaths
  pure ((input.partialSigs.map fun entry =>
      recordKey PSBT_IN_PARTIAL_SIG entry.2.1.toBytes ++ serializeBytes entry.2.2).flatten ++
    (match input.sighashType with
      | some sighash =>
          recordKey PSBT_IN_SIGHASH [] ++ serializeToVector (leBytes 4 (sighash % 2 ^ 32).toNat)
      | none => []) ++
    (if !input.redeemScript.isEmpty then
      recordKey PSBT_IN_REDEEMSCRIPT [] ++ serializeBytes input.redeemScript else []) ++
    (if !input.witnessScript.isEmpty then
      recordKey PSBT_IN_WITNESSSCRIPT [] ++ serializeBytes input.witnessScript else []) ++
    hdKeypaths)

/-- The UTXO records `PSBTInput::Serialize` writes first. -/
def PSBTInput.serializeUtxos (input : PSBTInput) : valtype :=
  (match input.nonWitnessUtxo with
    | some tx => recordKey PSBT_IN_NON_WITNESS_UTXO [] ++ serializeToVector (tx.serialize false)
    | none => []) ++
  (if !input.witnessUtxo.isNull then
    recordKey PSBT_IN_WITNESS_UTXO [] ++ serializeToVector input.witnessUtxo.serialize else [])

/-- The final scriptSig and witness records of `PSBTInput::Serialize`. -/
def PSBTInput.serializeFinals (input : PSBTInput) : valtype :=
  (if !input.finalScriptSig.isEmpty then
    recordKey PSBT_IN_SCRIPTSIG [] ++ serializeBytes input.finalScriptSig else []) ++
  (if !input.finalScriptWitness.isNull then
    recordKey PSBT_IN_SCRIPTWITNESS [] ++ serializeToVector input.finalScriptWitness.serialize else [])

/-- `PSBTInput::Serialize`. -/
def PSBTInput.serialize (input : PSBTInput) : Except String valtype := do
  let signing ← if input.finalScriptSig.isEmpty && input.finalScriptWitness.isNull then
      input.serializeSigning else pure []
  pure (input.serializeUtxos ++ signing ++ input.serializeFinals ++ serializeUnknown input.unknown ++
    [PSBT_SEPARATOR])

/-- `PSBTOutput::Serialize`. -/
def PSBTOutput.serialize (output : PSBTOutput) : Except String valtype := do
  let hdKeypaths ← serializeHDKeypaths PSBT_OUT_BIP32_DERIVATION output.hdKeypaths
  pure ((if !output.redeemScript.isEmpty then
      recordKey PSBT_OUT_REDEEMSCRIPT [] ++ serializeBytes output.redeemScript else []) ++
    (if !output.witnessScript.isEmpty then
      recordKey PSBT_OUT_WITNESSSCRIPT [] ++ serializeBytes output.witnessScript else []) ++
    hdKeypaths ++ serializeUnknown output.unknown ++ [PSBT_SEPARATOR])

/-- The maps of a list of inputs or outputs, one after another. -/
def serializeAll {α : Type} (serializeMap : α → Except String valtype) :
    List α → Except String valtype
  | [] => pure []
  | map :: rest => do
      let bytes ← serializeMap map
      let restBytes ← serializeAll serializeMap rest
      pure (bytes ++ restBytes)

/-- `PartiallySignedTransaction::Serialize`.  The source dereferences the
unsigned transaction, which every PSBT it writes has; without one the model
writes no such record. -/
def PartiallySignedTransaction.serialize (psbt : PartiallySignedTransaction) :
    Except String valtype := do
  let inputs ← serializeAll PSBTInput.serialize psbt.inputs
  let outputs ← serializeAll PSBTOutput.serialize psbt.outputs
  pure (PSBT_MAGIC_BYTES ++
    (match psbt.tx with
      | some tx => recordKey PSBT_GLOBAL_UNSIGNED_TX [] ++ serializeToVector (tx.serialize false)
      | none => []) ++
    (if psbt.getVersion > 0 then
      recordKey PSBT_GLOBAL_VERSION [] ++ serializeToVector (leBytes 4 psbt.getVersion.toNat) else []) ++
    serializeUnknown psbt.unknown ++ [PSBT_SEPARATOR] ++ inputs ++ outputs)

/-! ## Reading -/

/-- The type of a record: `ReadCompactSize` over a `SpanReader` on its key, which
reports running out of the key as `SpanReader`'s failure. -/
def readType (key : valtype) : Except String Nat :=
  match (readCompactSize true).run key with
  | .ok (type, _) => .ok type
  | .error "DataStream::read(): end of data" => .error "SpanReader::read(): end of data"
  | .error e => .error e

/-- `key_lookup.emplace(key)` and the one-byte test of a record that holds one
value for the whole map. -/
def newSingleKey (keyLookup : List valtype) (key : valtype) (duplicate tooLong : String) :
    Except String (List valtype) :=
  if keyLookup.contains key then .error duplicate
  else if key.length != 1 then .error tooLong
  else .ok (key :: keyLookup)

/-- `UnserializeFromVector`: a size, then a value that must take exactly that
many bytes. -/
def unserializeFromVector {α : Type} (readValue : ByteDecoder α) : ByteDecoder α := do
  let expectedSize ← readCompactSize true
  let remainingBefore ← get
  let value ← readValue
  let remainingAfter ← get
  if remainingAfter.length + expectedSize != remainingBefore.length then
    throw "Size of value was not the stated size"
  else pure value

/-- `DeserializeKeyOrigin`: a fingerprint and `length / 4 - 1` indices. -/
def deserializeKeyOrigin (length : Nat) : ByteDecoder KeyOriginInfo :=
  if length % 4 != 0 || length == 0 then throw "Invalid length for HD key path"
  else do
    let fingerprint ← take "DataStream::read(): end of data" 4
    let path ← readList (do
      let index ← readLEData 4
      pure (UInt32.ofNat index)) ((length - 4) / 4)
    pure ⟨fingerprint, path⟩

/-- `DeserializeHDKeypaths` for one record. -/
def deserializeHDKeypaths (key : valtype) (hdKeypaths : List (CQPubKey × KeyOriginInfo)) :
    ByteDecoder (List (CQPubKey × KeyOriginInfo)) :=
  if key.length != CQPubKey.SIZE + 1 && key.length != CQPubKey.COMPRESSED_SIZE + 1 then
    throw "Size of key was not the expected size for the type BIP32 keypath"
  else
    let pubkey := CQPubKey.ofBytes (key.drop 1)
    if !pubkey.isFullyValid then throw "Invalid pubkey"
    else if (hdKeypaths.lookup pubkey).isSome then
      throw "Duplicate Key, pubkey derivation path already provided"
    else do
      let length ← readCompactSize true
      let keypath ← deserializeKeyOrigin length
      pure (hdKeypaths.emplaceBy (fun a b => bytesBefore a.toBytes b.toBytes) pubkey keypath)

/-- The `default` case of every map: a record of a type not known is kept as it is. -/
def readUnknown (unknown : List (valtype × valtype)) (key : valtype) :
    ByteDecoder (List (valtype × valtype)) :=
  if (unknown.lookup key).isSome then throw "Duplicate Key, key for unknown value already provided"
  else do
    let value ← readByteVector
    pure (unknown.emplaceBy bytesBefore key value)

/-- A partial signature record, `PSBT_IN_PARTIAL_SIG`: the key holds the public
key, the value the signature, which must pass the DER and strict-encoding tests. -/
def PSBTInput.readPartialSig (hashes : Hashes) (input : PSBTInput) (key : valtype) :
    ByteDecoder PSBTInput :=
  if key.length != CQPubKey.SIZE + 1 && key.length != CQPubKey.COMPRESSED_SIZE + 1 then
    throw "Size of key was not the expected size for the type partial signature pubkey"
  else
    let pubkey := CQPubKey.ofBytes (key.drop 1)
    if !pubkey.isFullyValid then throw "Invalid pubkey"
    else if (input.partialSigs.lookup (CQPubKey.getID hashes pubkey)).isSome then
      throw "Duplicate Key, input partial signature for pubkey already provided"
    else do
      let sig ← readByteVector
      if sig.isEmpty ||
          !(checkSignatureEncoding sig (SCRIPT_VERIFY_DERSIG ||| SCRIPT_VERIFY_STRICTENC)).toBool then
        throw "Signature is not a valid encoding"
      else pure { input with partialSigs :=
        input.partialSigs.emplaceBy bytesBefore (CQPubKey.getID hashes pubkey) (pubkey, sig) }

/-- One record of an input map: the `switch` of `PSBTInput::Unserialize`. -/
def PSBTInput.readRecord (hashes : Hashes) (state : PSBTInput × List valtype) (key : valtype) :
    ByteDecoder (PSBTInput × List valtype) := do
  let (input, keyLookup) := state
  let type ← (readType key : Except String Nat)
  if type = PSBT_IN_NON_WITNESS_UTXO then do
    let keyLookup ← (newSingleKey keyLookup key "Duplicate Key, input non-witness utxo already provided"
      "Non-witness utxo key is more than one byte type" : Except String (List valtype))
    let tx ← unserializeFromVector (unserializeTransaction true)
    pure ({ input with nonWitnessUtxo := some tx }, keyLookup)
  else if type = PSBT_IN_WITNESS_UTXO then do
    let keyLookup ← (newSingleKey keyLookup key "Duplicate Key, input witness utxo already provided"
      "Witness utxo key is more than one byte type" : Except String (List valtype))
    let witnessUtxo ← unserializeFromVector CTxOut.unserialize
    pure ({ input with witnessUtxo }, keyLookup)
  else if type = PSBT_IN_PARTIAL_SIG then do
    let input ← input.readPartialSig hashes key
    pure (input, keyLookup)
  else if type = PSBT_IN_SIGHASH then do
    let keyLookup ← (newSingleKey keyLookup key "Duplicate Key, input sighash type already provided"
      "Sighash type key is more than one byte type" : Except String (List valtype))
    let sighash ← unserializeFromVector (readLEData 4)
    pure ({ input with sighashType := some (ofTwosComplement 32 sighash) }, keyLookup)
  else if type = PSBT_IN_REDEEMSCRIPT then do
    let keyLookup ← (newSingleKey keyLookup key "Duplicate Key, input redeemScript already provided"
      "Input redeemScript key is more than one byte type" : Except String (List valtype))
    let redeemScript ← readByteVector
    pure ({ input with redeemScript }, keyLookup)
  else if type = PSBT_IN_WITNESSSCRIPT then do
    let keyLookup ← (newSingleKey keyLookup key "Duplicate Key, input witnessScript already provided"
      "Input witnessScript key is more than one byte type" : Except String (List valtype))
    let witnessScript ← readByteVector
    pure ({ input with witnessScript }, keyLookup)
  else if type = PSBT_IN_BIP32_DERIVATION then do
    let hdKeypaths ← deserializeHDKeypaths key input.hdKeypaths
    pure ({ input with hdKeypaths }, keyLookup)
  else if type = PSBT_IN_SCRIPTSIG then do
    let keyLookup ← (newSingleKey keyLookup key "Duplicate Key, input final scriptSig already provided"
      "Final scriptSig key is more than one byte type" : Except String (List valtype))
    let finalScriptSig ← readByteVector
    pure ({ input with finalScriptSig }, keyLookup)
  else if type = PSBT_IN_SCRIPTWITNESS then do
    let keyLookup ← (newSingleKey keyLookup key "Duplicate Key, input final scriptWitness already provided"
      "Final scriptWitness key is more than one byte type" : Except String (List valtype))
    let stack ← unserializeFromVector (readVector readByteVector)
    pure ({ input with finalScriptWitness := ⟨stack⟩ }, keyLookup)
  else do
    let unknown ← readUnknown input.unknown key
    pure ({ input with unknown }, keyLookup)

/-- One record of an output map: the `switch` of `PSBTOutput::Unserialize`. -/
def PSBTOutput.readRecord (state : PSBTOutput × List valtype) (key : valtype) :
    ByteDecoder (PSBTOutput × List valtype) := do
  let (output, keyLookup) := state
  let type ← (readType key : Except String Nat)
  if type = PSBT_OUT_REDEEMSCRIPT then do
    let keyLookup ← (newSingleKey keyLookup key "Duplicate Key, output redeemScript already provided"
      "Output redeemScript key is more than one byte type" : Except String (List valtype))
    let redeemScript ← readByteVector
    pure ({ output with redeemScript }, keyLookup)
  else if type = PSBT_OUT_WITNESSSCRIPT then do
    let keyLookup ← (newSingleKey keyLookup key "Duplicate Key, output witnessScript already provided"
      "Output witnessScript key is more than one byte type" : Except String (List valtype))
    let witnessScript ← readByteVector
    pure ({ output with witnessScript }, keyLookup)
  else if type = PSBT_OUT_BIP32_DERIVATION then do
    let hdKeypaths ← deserializeHDKeypaths key output.hdKeypaths
    pure ({ output with hdKeypaths }, keyLookup)
  else do
    let unknown ← readUnknown output.unknown key
    pure ({ output with unknown }, keyLookup)

/-- One record of the global map: the `switch` of
`PartiallySignedTransaction::Unserialize`. -/
def PartiallySignedTransaction.readRecord (state : PartiallySignedTransaction × List valtype)
    (key : valtype) : ByteDecoder (PartiallySignedTransaction × List valtype) := do
  let (psbt, keyLookup) := state
  let type ← (readType key : Except String Nat)
  if type = PSBT_GLOBAL_UNSIGNED_TX then do
    let keyLookup ← (newSingleKey keyLookup key "Duplicate Key, unsigned tx already provided"
      "Global unsigned tx key is more than one byte type" : Except String (List valtype))
    let tx ← unserializeFromVector (unserializeTransaction false)
    if tx.vin.any fun txin => !txin.scriptSig.isEmpty || !txin.scriptWitness.isNull then
      throw "Unsigned tx does not have empty scriptSigs and scriptWitnesses."
    else pure ({ psbt with tx := some tx }, keyLookup)
  else if type = PSBT_GLOBAL_VERSION then
    if psbt.version.isSome then throw "Duplicate Key, version already provided"
    else if key.length != 1 then throw "Global version key is more than one byte type"
    else do
      let version ← unserializeFromVector (readLEData 4)
      if UInt32.ofNat version > PSBT_HIGHEST_VERSION then throw "Unsupported version number"
      else pure ({ psbt with version := some (UInt32.ofNat version) }, keyLookup)
  else do
    let unknown ← readUnknown psbt.unknown key
    pure ({ psbt with unknown }, keyLookup)

/-! ## Reading terminates -/

theorem getSizeOfCompactSize_pos (nSize : Nat) : 0 < getSizeOfCompactSize nSize := by
  unfold getSizeOfCompactSize
  split_ifs <;> omega

/-- Reading a key consumes at least its size. -/
theorem readByteVector_shorter {input key rest : valtype} (read : readByteVector.run input = .ok (key, rest)) :
    rest.length < input.length := by
  rw [readsEncoding_readByteVector read, serializeBytes, List.length_append, List.length_append,
    writeCompactSize_length]
  have marker := getSizeOfCompactSize_pos key.length
  omega

theorem shrinks_unserializeFromVector {α : Type} {readValue : ByteDecoder α} (each : Shrinks readValue) :
    Shrinks (unserializeFromVector readValue) := by
  unfold unserializeFromVector
  exact (shrinks_readCompactSize true).bind fun _ => shrinks_get.bind fun _ => each.bind fun _ =>
    shrinks_get.bind fun _ => Shrinks.ite (shrinks_throw _) (shrinks_pure _)

theorem shrinks_deserializeKeyOrigin (length : Nat) : Shrinks (deserializeKeyOrigin length) := by
  unfold deserializeKeyOrigin
  exact Shrinks.ite (shrinks_throw _) (readsEncoding_take.shrinks.bind fun _ =>
    (shrinks_readList ((shrinks_readLEData 4).bind fun _ => shrinks_pure _) _).bind fun _ => shrinks_pure _)

theorem shrinks_deserializeHDKeypaths (key : valtype) (hdKeypaths : List (CQPubKey × KeyOriginInfo)) :
    Shrinks (deserializeHDKeypaths key hdKeypaths) := by
  unfold deserializeHDKeypaths
  exact Shrinks.ite (shrinks_throw _) (Shrinks.ite (shrinks_throw _) (Shrinks.ite (shrinks_throw _)
    ((shrinks_readCompactSize true).bind fun length =>
      (shrinks_deserializeKeyOrigin length).bind fun _ => shrinks_pure _)))

theorem shrinks_readUnknown (unknown : List (valtype × valtype)) (key : valtype) :
    Shrinks (readUnknown unknown key) := by
  unfold readUnknown
  exact Shrinks.ite (shrinks_throw _) (shrinks_readByteVector.bind fun _ => shrinks_pure _)

theorem PSBTInput.shrinks_readPartialSig (hashes : Hashes) (input : PSBTInput) (key : valtype) :
    Shrinks (input.readPartialSig hashes key) := by
  unfold PSBTInput.readPartialSig
  exact Shrinks.ite (shrinks_throw _) (Shrinks.ite (shrinks_throw _) (Shrinks.ite (shrinks_throw _)
    (shrinks_readByteVector.bind fun _ => Shrinks.ite (shrinks_throw _) (shrinks_pure _))))

/-- A record that holds one value for the whole map: its key is checked, then
its value read. -/
theorem shrinks_singleKeyRecord {α β : Type} (single : Except String (List valtype))
    {readValue : ByteDecoder α} (each : Shrinks readValue) (build : List valtype → α → β) :
    Shrinks (do
      let keyLookup ← liftM single
      let value ← readValue
      pure (build keyLookup value)) :=
  (shrinks_lift single).bind fun _ => each.bind fun _ => shrinks_pure _

theorem PSBTInput.shrinks_readRecord (hashes : Hashes) (state : PSBTInput × List valtype) (key : valtype) :
    Shrinks (PSBTInput.readRecord hashes state key) := by
  unfold PSBTInput.readRecord
  refine (shrinks_lift _).bind fun type => ?_
  refine Shrinks.ite (shrinks_singleKeyRecord _ (shrinks_unserializeFromVector
    (shrinks_unserializeTransaction true)) _) ?_
  refine Shrinks.ite (shrinks_singleKeyRecord _ (shrinks_unserializeFromVector
    CTxOut.readsEncoding_unserialize.shrinks) _) ?_
  refine Shrinks.ite ((PSBTInput.shrinks_readPartialSig hashes _ key).bind fun _ => shrinks_pure _) ?_
  refine Shrinks.ite (shrinks_singleKeyRecord _ (shrinks_unserializeFromVector (shrinks_readLEData 4)) _) ?_
  refine Shrinks.ite (shrinks_singleKeyRecord _ shrinks_readByteVector _) ?_
  refine Shrinks.ite (shrinks_singleKeyRecord _ shrinks_readByteVector _) ?_
  refine Shrinks.ite ((shrinks_deserializeHDKeypaths key _).bind fun _ => shrinks_pure _) ?_
  refine Shrinks.ite (shrinks_singleKeyRecord _ shrinks_readByteVector _) ?_
  refine Shrinks.ite (shrinks_singleKeyRecord _ (shrinks_unserializeFromVector
    (shrinks_readVector shrinks_readByteVector)) _) ?_
  exact (shrinks_readUnknown _ key).bind fun _ => shrinks_pure _

theorem PSBTOutput.shrinks_readRecord (state : PSBTOutput × List valtype) (key : valtype) :
    Shrinks (PSBTOutput.readRecord state key) := by
  unfold PSBTOutput.readRecord
  refine (shrinks_lift _).bind fun type => ?_
  refine Shrinks.ite (shrinks_singleKeyRecord _ shrinks_readByteVector _) ?_
  refine Shrinks.ite (shrinks_singleKeyRecord _ shrinks_readByteVector _) ?_
  refine Shrinks.ite ((shrinks_deserializeHDKeypaths key _).bind fun _ => shrinks_pure _) ?_
  exact (shrinks_readUnknown _ key).bind fun _ => shrinks_pure _

theorem PartiallySignedTransaction.shrinks_readRecord (state : PartiallySignedTransaction × List valtype)
    (key : valtype) : Shrinks (PartiallySignedTransaction.readRecord state key) := by
  unfold PartiallySignedTransaction.readRecord
  refine (shrinks_lift _).bind fun type => ?_
  refine Shrinks.ite ((shrinks_lift _).bind fun _ => (shrinks_unserializeFromVector
    (shrinks_unserializeTransaction false)).bind fun _ => Shrinks.ite (shrinks_throw _) (shrinks_pure _)) ?_
  refine Shrinks.ite (Shrinks.ite (shrinks_throw _) (Shrinks.ite (shrinks_throw _)
    ((shrinks_unserializeFromVector (shrinks_readLEData 4)).bind fun _ =>
      Shrinks.ite (shrinks_throw _) (shrinks_pure _)))) ?_
  exact (shrinks_readUnknown _ key).bind fun _ => shrinks_pure _

/-! ## The maps and the PSBT -/

/-- The input map of `PSBTInput::Unserialize`. -/
def PSBTInput.reader (hashes : Hashes) : RecordMap.Reader UInt8 (PSBTInput × List valtype) String where
  readKey := readByteVector.run
  handle state key := (PSBTInput.readRecord hashes state key).run
  missingSeparator := "Separator is missing at the end of an input map"
  readKey_shorter := readByteVector_shorter
  handle_le := fun handled => PSBTInput.shrinks_readRecord hashes _ _ handled

/-- `PSBTInput::Unserialize`. -/
def PSBTInput.unserialize (hashes : Hashes) : ByteDecoder PSBTInput := do
  let (input, _) ← ((PSBTInput.reader hashes).readMap (PSBTInput.empty, []) :
    ByteDecoder (PSBTInput × List valtype))
  pure input

/-- The output map of `PSBTOutput::Unserialize`. -/
def PSBTOutput.reader : RecordMap.Reader UInt8 (PSBTOutput × List valtype) String where
  readKey := readByteVector.run
  handle state key := (PSBTOutput.readRecord state key).run
  missingSeparator := "Separator is missing at the end of an output map"
  readKey_shorter := readByteVector_shorter
  handle_le := fun handled => PSBTOutput.shrinks_readRecord _ _ handled

/-- `PSBTOutput::Unserialize`. -/
def PSBTOutput.unserialize : ByteDecoder PSBTOutput := do
  let (output, _) ← (PSBTOutput.reader.readMap (PSBTOutput.empty, []) :
    ByteDecoder (PSBTOutput × List valtype))
  pure output

/-- The global map of `PartiallySignedTransaction::Unserialize`. -/
def PartiallySignedTransaction.reader :
    RecordMap.Reader UInt8 (PartiallySignedTransaction × List valtype) String where
  readKey := readByteVector.run
  handle state key := (PartiallySignedTransaction.readRecord state key).run
  missingSeparator := "Separator is missing at the end of the global map"
  readKey_shorter := readByteVector_shorter
  handle_le := fun handled => PartiallySignedTransaction.shrinks_readRecord _ _ handled

/-- The check of an input's non-witness UTXO against the outpoint it spends. -/
def checkNonWitnessUtxo (hashes : Hashes) (txin : CTxIn) (input : PSBTInput) : Except String Unit :=
  match input.nonWitnessUtxo with
  | none => pure ()
  | some utxo =>
      if utxo.getHash hashes != txin.prevout.hash then
        throw "Non-witness UTXO does not match outpoint hash"
      else if txin.prevout.n.toNat ≥ utxo.vout.length then
        throw "Input specifies output index that does not exist"
      else pure ()

/-- The loop over the inputs, `while (!s.empty() && i < tx->vin.size())`. -/
def readInputs (hashes : Hashes) : List CTxIn → ByteDecoder (List PSBTInput)
  | [] => pure []
  | txin :: vin => do
      let remaining ← get
      if remaining.isEmpty then pure []
      else do
        let input ← PSBTInput.unserialize hashes
        liftM (checkNonWitnessUtxo hashes txin input)
        let inputs ← readInputs hashes vin
        pure (input :: inputs)

/-- The loop over the outputs, `while (!s.empty() && i < tx->vout.size())`. -/
def readOutputs : List CTxOut → ByteDecoder (List PSBTOutput)
  | [] => pure []
  | _ :: vout => do
      let remaining ← get
      if remaining.isEmpty then pure []
      else do
        let output ← PSBTOutput.unserialize
        let outputs ← readOutputs vout
        pure (output :: outputs)

/-- `PartiallySignedTransaction::Unserialize`. -/
def PartiallySignedTransaction.unserialize (hashes : Hashes) : ByteDecoder PartiallySignedTransaction := do
  let magic ← take "DataStream::read(): end of data" 5
  if magic.toList != PSBT_MAGIC_BYTES then throw "Invalid PSBT magic bytes"
  else do
    let (psbt, _) ← (PartiallySignedTransaction.reader.readMap (PartiallySignedTransaction.empty, []) :
      ByteDecoder (PartiallySignedTransaction × List valtype))
    match psbt.tx with
    | none => throw "No unsigned transaction was provided"
    | some tx => do
        let inputs ← readInputs hashes tx.vin
        if inputs.length != tx.vin.length then
          throw "Inputs provided does not match the number of inputs in transaction."
        else do
          let outputs ← readOutputs tx.vout
          if outputs.length != tx.vout.length then
            throw "Outputs provided does not match the number of outputs in transaction."
          else pure { psbt with inputs, outputs }

/-! ## Reading back what was written -/

theorem serializeToVector_eq_serializeBytes (bytes : valtype) : serializeToVector bytes = serializeBytes bytes :=
  rfl

/-- A value written with its size in front is read back by `UnserializeFromVector`. -/
theorem unserializeFromVector_serializeToVector {α : Type} {readValue : ByteDecoder α} {bytes : valtype}
    {x : α} (reads : ∀ rest, readValue.run (bytes ++ rest) = .ok (x, rest)) (short : bytes.length ≤ MAX_SIZE)
    (rest : valtype) :
    (unserializeFromVector readValue).run (serializeToVector bytes ++ rest) = .ok (x, rest) := by
  unfold unserializeFromVector serializeToVector
  rw [List.append_assoc, run_bind_of_ok (readCompactSize_writeCompactSize (lt_of_le_MAX_SIZE short)
    (fun _ => short) _), run_bind_of_ok rfl, run_bind_of_ok (reads rest), run_bind_of_ok rfl,
    List.length_append, Nat.add_comm, bne_self_eq_false]
  rfl

/-- The type of a record whose key was written by the writer. -/
theorem readType_recordKey {type : Nat} (small : type ≤ MAX_SIZE) (keyData : valtype) :
    readType (writeCompactSize type ++ keyData) = .ok type := by
  have accepted : ¬ MAX_SIZE < type := Nat.not_lt.mpr small
  simp only [readType, run_readCompactSize_writeCompactSize (lt_of_le_MAX_SIZE small), true_and,
    if_neg accepted]

theorem writeCompactSize_ne_nil (nSize : Nat) : writeCompactSize nSize ≠ [] := by
  intro empty
  have length := writeCompactSize_length nSize
  rw [empty] at length
  exact Nat.ne_of_lt (getSizeOfCompactSize_pos nSize) length

theorem newSingleKey_of_fresh {keyLookup : List valtype} {key : valtype} {duplicate tooLong : String}
    (fresh : keyLookup.contains key = false) (single : key.length = 1) :
    newSingleKey keyLookup key duplicate tooLong = .ok (key :: keyLookup) := by
  have absent : key ∉ keyLookup := by simpa using fresh
  simp [newSingleKey, absent, single]

/-- A record the writer wrote, a key and then a value, is read whole when the
handler reads the value. -/
theorem readsRecord_recordKey {σ : Type} {reader : RecordMap.Reader UInt8 σ String}
    (readKey : reader.readKey = readByteVector.run) {state state' : σ} {type : Nat} {keyData value : valtype}
    (short : (writeCompactSize type ++ keyData).length ≤ MAX_SIZE)
    (handled : ∀ tail, reader.handle state (writeCompactSize type ++ keyData) (value ++ tail) = .ok (state', tail)) :
    reader.ReadsRecord state (recordKey type keyData ++ value) state' := by
  intro tail
  refine ⟨writeCompactSize type ++ keyData, value ++ tail, ?_, ?_, handled tail⟩
  · exact List.append_ne_nil_of_left_ne_nil (writeCompactSize_ne_nil type) _
  · rw [readKey, List.append_assoc]
    exact readByteVector_serializeBytes short _

/-- A transaction that `UnserializeFromVector` reads back from its serialization
without witnesses: it has the shape and sizes the transaction reader takes back,
and the whole serialization has a size `ReadCompactSize` accepts. -/
structure CTransaction.FitsVector (tx : CTransaction) : Prop where
  shape : tx.vin ≠ [] ∨ tx.vout = []
  fits : tx.FitsSerialization
  size : (tx.serialize false).length ≤ MAX_SIZE

theorem unserializeFromVector_transaction {tx : CTransaction} (fits : tx.FitsVector) (fAllowWitness : Bool)
    (rest : valtype) :
    (unserializeFromVector (unserializeTransaction fAllowWitness)).run
      (serializeToVector (tx.serialize false) ++ rest) = .ok (tx.withoutWitness, rest) :=
  unserializeFromVector_serializeToVector
    (unserializeTransaction_serialize_false fAllowWitness fits.shape fits.fits) fits.size rest

theorem PSBTInput.readsRecord_nonWitnessUtxo (hashes : Hashes) {input : PSBTInput} {keyLookup : List valtype}
    {utxo : CTransaction} (fresh : keyLookup.contains [0] = false) (fits : utxo.FitsVector) :
    (PSBTInput.reader hashes).ReadsRecord (input, keyLookup)
      (recordKey PSBT_IN_NON_WITNESS_UTXO [] ++ serializeToVector (utxo.serialize false))
      ({ input with nonWitnessUtxo := some utxo.withoutWitness }, [0] :: keyLookup) := by
  have freshKey : keyLookup.contains (writeCompactSize PSBT_IN_NON_WITNESS_UTXO ++ []) = false := fresh
  refine readsRecord_recordKey rfl (by decide) fun tail => ?_
  show (PSBTInput.readRecord hashes (input, keyLookup) _).run _ = _
  unfold PSBTInput.readRecord
  rw [run_bind_of_ok (run_lift_of_ok (readType_recordKey (by decide) []) _), if_pos rfl,
    run_bind_of_ok (run_lift_of_ok (newSingleKey_of_fresh freshKey (by decide)) _),
    run_bind_of_ok (unserializeFromVector_transaction fits true tail)]
  rfl

theorem PSBTInput.readsRecord_witnessUtxo (hashes : Hashes) {input : PSBTInput} {keyLookup : List valtype}
    {output : CTxOut} (fresh : keyLookup.contains [1] = false) (fits : output.FitsSerialization)
    (short : output.serialize.length ≤ MAX_SIZE) :
    (PSBTInput.reader hashes).ReadsRecord (input, keyLookup)
      (recordKey PSBT_IN_WITNESS_UTXO [] ++ serializeToVector output.serialize)
      ({ input with witnessUtxo := output }, [1] :: keyLookup) := by
  have freshKey : keyLookup.contains (writeCompactSize PSBT_IN_WITNESS_UTXO ++ []) = false := fresh
  refine readsRecord_recordKey rfl (by decide) fun tail => ?_
  show (PSBTInput.readRecord hashes (input, keyLookup) _).run _ = _
  unfold PSBTInput.readRecord
  rw [run_bind_of_ok (run_lift_of_ok (readType_recordKey (by decide) []) _), if_neg (by decide), if_pos rfl,
    run_bind_of_ok (run_lift_of_ok (newSingleKey_of_fresh freshKey (by decide)) _),
    run_bind_of_ok (unserializeFromVector_serializeToVector (CTxOut.unserialize_serialize fits) short tail)]
  rfl

/-- The partial signature test rejects every signature longer than a DER one. -/
theorem PSBTInput.readPartialSig_of_long (hashes : Hashes) {input : PSBTInput} {pubkey : CQPubKey}
    {sig : valtype} (fresh : input.partialSigs.lookup (pubkey.getID hashes) = none)
    (valid : pubkey.isValid = true) (long : 73 < sig.length) (short : sig.length ≤ MAX_SIZE) (rest : valtype) :
    (input.readPartialSig hashes (writeCompactSize PSBT_IN_PARTIAL_SIG ++ pubkey.toBytes)).run
      (serializeBytes sig ++ rest) = .error "Signature is not a valid encoding" := by
  have keyLength : (writeCompactSize PSBT_IN_PARTIAL_SIG ++ pubkey.toBytes).length = CQPubKey.SIZE + 1 := by
    rw [List.length_append, CQPubKey.toBytes_length, writeCompactSize_length, Nat.add_comm]
    rfl
  have keyBytes : (writeCompactSize PSBT_IN_PARTIAL_SIG ++ pubkey.toBytes).drop 1 = pubkey.toBytes := rfl
  have notDer : (checkSignatureEncoding sig (SCRIPT_VERIFY_DERSIG ||| SCRIPT_VERIFY_STRICTENC)).toBool = false := by
    rw [checkSignatureEncoding_of_long (by decide) long]
    rfl
  have nonEmpty : sig.isEmpty = false := List.isEmpty_eq_false_iff.mpr (List.ne_nil_of_length_pos (by omega))
  unfold PSBTInput.readPartialSig
  simp only [keyLength, keyBytes, CQPubKey.ofBytes_toBytes, CQPubKey.isFullyValid, valid, fresh,
    bne_self_eq_false, Bool.false_and, Bool.false_eq_true, if_false, Bool.not_true, Option.isSome_none]
  rw [run_bind_of_ok (readByteVector_serializeBytes short rest)]
  simp only [nonEmpty, notDer, Bool.not_false, Bool.or_true, if_true]
  rfl

/-- An input map whose next record is a partial signature longer than a DER
one is not read. -/
theorem PSBTInput.readMap_of_long_partialSig (hashes : Hashes) {input : PSBTInput} {keyLookup : List valtype}
    {pubkey : CQPubKey} {sig : valtype} (fresh : input.partialSigs.lookup (pubkey.getID hashes) = none)
    (valid : pubkey.isValid = true) (long : 73 < sig.length) (short : sig.length ≤ MAX_SIZE) (rest : valtype) :
    (PSBTInput.reader hashes).readMap (input, keyLookup)
      (recordKey PSBT_IN_PARTIAL_SIG pubkey.toBytes ++ serializeBytes sig ++ rest) =
      .error "Signature is not a valid encoding" := by
  have keySize : (writeCompactSize PSBT_IN_PARTIAL_SIG ++ pubkey.toBytes).length ≤ MAX_SIZE := by
    rw [List.length_append, CQPubKey.toBytes_length, writeCompactSize_length]
    decide
  have readKey : (PSBTInput.reader hashes).readKey
      (recordKey PSBT_IN_PARTIAL_SIG pubkey.toBytes ++ serializeBytes sig ++ rest) =
      .ok (writeCompactSize PSBT_IN_PARTIAL_SIG ++ pubkey.toBytes, serializeBytes sig ++ rest) := by
    rw [List.append_assoc]
    exact readByteVector_serializeBytes keySize _
  refine (PSBTInput.reader hashes).readMap_of_handle_error readKey
    (List.append_ne_nil_of_left_ne_nil (writeCompactSize_ne_nil _) _) ?_
  show (PSBTInput.readRecord hashes (input, keyLookup) _).run _ = _
  unfold PSBTInput.readRecord
  rw [run_bind_of_ok (run_lift_of_ok (readType_recordKey (by decide) _) _), if_neg (by decide),
    if_neg (by decide), if_pos rfl,
    run_bind_of_error (PSBTInput.readPartialSig_of_long hashes fresh valid long short rest)]

/-- The records of an input's UTXOs are read whole and add no partial signature. -/
theorem PSBTInput.readMap_utxos (hashes : Hashes) {input : PSBTInput}
    (nonWitness : ∀ utxo, input.nonWitnessUtxo = some utxo → utxo.FitsVector)
    (witness : input.witnessUtxo.isNull = false →
      input.witnessUtxo.FitsSerialization ∧ input.witnessUtxo.serialize.length ≤ MAX_SIZE) (rest : valtype) :
    ∃ state : PSBTInput × List valtype, state.1.partialSigs = [] ∧
      (PSBTInput.reader hashes).readMap (PSBTInput.empty, []) (input.serializeUtxos ++ rest) =
      (PSBTInput.reader hashes).readMap state rest := by
  obtain ⟨afterNonWitness, keyLookup, noSigs, fresh, readNonWitness⟩ :
      ∃ (state : PSBTInput) (keyLookup : List valtype), state.partialSigs = [] ∧
        keyLookup.contains [1] = false ∧ ∀ rest,
        (PSBTInput.reader hashes).readMap (PSBTInput.empty, [])
          ((match input.nonWitnessUtxo with
            | some tx => recordKey PSBT_IN_NON_WITNESS_UTXO [] ++ serializeToVector (tx.serialize false)
            | none => []) ++ rest) =
        (PSBTInput.reader hashes).readMap (state, keyLookup) rest := by
    cases utxo : input.nonWitnessUtxo with
    | none => exact ⟨PSBTInput.empty, [], rfl, rfl, fun _ => rfl⟩
    | some tx =>
        exact ⟨_, _, rfl, rfl, (PSBTInput.reader hashes).readMap_of_readsRecord
          (PSBTInput.readsRecord_nonWitnessUtxo hashes rfl (nonWitness tx utxo))⟩
  rw [PSBTInput.serializeUtxos, List.append_assoc, readNonWitness]
  cases isNull : input.witnessUtxo.isNull with
  | false =>
      obtain ⟨fits, short⟩ := witness isNull
      exact ⟨_, noSigs, (PSBTInput.reader hashes).readMap_of_readsRecord
        (PSBTInput.readsRecord_witnessUtxo hashes fresh fits short) rest⟩
  | true => exact ⟨(afterNonWitness, keyLookup), noSigs, rfl⟩

/-- What the writer writes for an input that is not finalized: the UTXO
records, then the partial signatures. -/
theorem PSBTInput.serialize_of_signed {input : PSBTInput} {bytes : valtype} {id : CKeyID} {pubkey : CQPubKey}
    {sig : valtype} {sigs : List (CKeyID × CQPubKey × valtype)} (written : input.serialize = .ok bytes)
    (unfinalized : input.finalScriptSig = [] ∧ input.finalScriptWitness.isNull = true)
    (signed : input.partialSigs = (id, pubkey, sig) :: sigs) :
    ∃ after, bytes = input.serializeUtxos ++
      (recordKey PSBT_IN_PARTIAL_SIG pubkey.toBytes ++ serializeBytes sig ++ after) := by
  obtain ⟨noScriptSig, noWitness⟩ := unfinalized
  unfold PSBTInput.serialize at written
  simp only [noScriptSig, noWitness, List.isEmpty_nil, Bool.true_and, if_true, Except.bind_eq_ok,
    Except.pure_eq_ok] at written
  obtain ⟨signing, signingWritten, rfl⟩ := written
  unfold PSBTInput.serializeSigning at signingWritten
  obtain ⟨hdKeypaths, -, signingEq⟩ := Except.bind_eq_ok.mp signingWritten
  rw [Except.pure_eq_ok] at signingEq
  subst signingEq
  simp only [signed, List.map_cons, List.flatten_cons, List.append_assoc]
  exact ⟨_, rfl⟩

/-- An input map the writer wrote for an input that is not finalized and whose
first partial signature is longer than a DER one is not read back. -/
theorem PSBTInput.unserialize_of_long_partialSig (hashes : Hashes) {input : PSBTInput} {bytes : valtype}
    {id : CKeyID} {pubkey : CQPubKey} {sig : valtype} {sigs : List (CKeyID × CQPubKey × valtype)}
    (written : input.serialize = .ok bytes)
    (unfinalized : input.finalScriptSig = [] ∧ input.finalScriptWitness.isNull = true)
    (nonWitness : ∀ utxo, input.nonWitnessUtxo = some utxo → utxo.FitsVector)
    (witness : input.witnessUtxo.isNull = false →
      input.witnessUtxo.FitsSerialization ∧ input.witnessUtxo.serialize.length ≤ MAX_SIZE)
    (signed : input.partialSigs = (id, pubkey, sig) :: sigs) (valid : pubkey.isValid = true)
    (long : 73 < sig.length) (short : sig.length ≤ MAX_SIZE) (rest : valtype) :
    (PSBTInput.unserialize hashes).run (bytes ++ rest) = .error "Signature is not a valid encoding" := by
  obtain ⟨after, rfl⟩ := PSBTInput.serialize_of_signed written unfinalized signed
  obtain ⟨⟨read, keyLookup⟩, noSigs, readUtxos⟩ := PSBTInput.readMap_utxos hashes nonWitness witness
    (recordKey PSBT_IN_PARTIAL_SIG pubkey.toBytes ++ serializeBytes sig ++ (after ++ rest))
  have fresh : read.partialSigs.lookup (pubkey.getID hashes) = none := by
    rw [noSigs]
    rfl
  have failed : (PSBTInput.reader hashes).readMap (PSBTInput.empty, [])
      (input.serializeUtxos ++ (recordKey PSBT_IN_PARTIAL_SIG pubkey.toBytes ++ serializeBytes sig ++ after) ++
        rest) = .error "Signature is not a valid encoding" := by
    rw [List.append_assoc, List.append_assoc _ after rest, readUtxos,
      PSBTInput.readMap_of_long_partialSig hashes fresh valid long short]
  unfold PSBTInput.unserialize
  exact run_bind_of_error failed _

theorem PSBTInput.serialize_ne_nil {input : PSBTInput} {bytes : valtype} (written : input.serialize = .ok bytes) :
    bytes ≠ [] := by
  unfold PSBTInput.serialize at written
  dsimp only at written
  split at written
  · obtain ⟨signing, -, appended⟩ := Except.bind_eq_ok.mp written
    rw [← Except.pure_eq_ok.mp appended]
    simp
  · obtain ⟨signing, -, appended⟩ := Except.bind_eq_ok.mp written
    rw [← Except.pure_eq_ok.mp appended]
    simp

/-- The unsigned transaction's record of the global map. -/
theorem PartiallySignedTransaction.readsRecord_unsignedTx {psbt : PartiallySignedTransaction}
    {keyLookup : List valtype} {tx : CTransaction} (fresh : keyLookup.contains [0] = false) (fits : tx.FitsVector)
    (unsigned : ∀ txin ∈ tx.vin, txin.scriptSig = []) :
    PartiallySignedTransaction.reader.ReadsRecord (psbt, keyLookup)
      (recordKey PSBT_GLOBAL_UNSIGNED_TX [] ++ serializeToVector (tx.serialize false))
      ({ psbt with tx := some tx.withoutWitness }, [0] :: keyLookup) := by
  have freshKey : keyLookup.contains (writeCompactSize PSBT_GLOBAL_UNSIGNED_TX ++ []) = false := fresh
  have emptyInputs : (tx.withoutWitness.vin.any fun txin =>
      !txin.scriptSig.isEmpty || !txin.scriptWitness.isNull) = false := by
    refine List.any_eq_false.mpr fun txin mem => ?_
    obtain ⟨original, inVin, rfl⟩ := List.mem_map.mp mem
    simp [CTxIn.withoutWitness, CScriptWitness.isNull, unsigned original inVin]
  refine readsRecord_recordKey rfl (by decide) fun tail => ?_
  show (PartiallySignedTransaction.readRecord (psbt, keyLookup) _).run _ = _
  unfold PartiallySignedTransaction.readRecord
  rw [run_bind_of_ok (run_lift_of_ok (readType_recordKey (by decide) []) _), if_pos rfl,
    run_bind_of_ok (run_lift_of_ok (newSingleKey_of_fresh freshKey (by decide)) _),
    run_bind_of_ok (unserializeFromVector_transaction fits false tail), emptyInputs]
  rfl

theorem run_take_magic (rest : valtype) :
    (take "DataStream::read(): end of data" 5).run (PSBT_MAGIC_BYTES ++ rest) =
      .ok (⟨⟨PSBT_MAGIC_BYTES⟩, rfl⟩, rest) :=
  run_take_append ⟨⟨PSBT_MAGIC_BYTES⟩, rfl⟩ rest

/-- The loop over the inputs fails with the first input map that fails. -/
theorem readInputs_of_error {hashes : Hashes} {txin : CTxIn} {vin : List CTxIn} {s : valtype} {e : String}
    (nonempty : s ≠ []) (failed : (PSBTInput.unserialize hashes).run s = .error e) :
    (readInputs hashes (txin :: vin)).run s = .error e := by
  unfold readInputs
  rw [run_bind_of_ok rfl, if_neg (by simpa using nonempty)]
  exact run_bind_of_error failed _

/-- The partial signatures an input holds after `FromSignatureData` are the
ones it held and the ones the signer made: a size every one of them has, they
all have. -/
theorem PSBTInput.fromSignatureData_sized {input : PSBTInput} {sigdata : SignatureData} {size : Nat}
    (held : ∀ entry ∈ input.partialSigs, entry.2.2.length = size) (made : sigdata.SignaturesSized size) :
    ∀ entry ∈ (input.fromSignatureData sigdata).partialSigs, entry.2.2.length = size := by
  intro entry mem
  unfold PSBTInput.fromSignatureData at mem
  split at mem
  · cases mem
  · rcases List.mem_foldl_emplaceBy mem with kept | added
    · exact held entry kept
    · exact made entry added

theorem psbt_partialSig_unreadable (hashes : Hashes) {psbt : PartiallySignedTransaction} {bytes : valtype}
    {tx : CTransaction} {input : PSBTInput} {inputs : List PSBTInput}
    (written : psbt.serialize = .ok bytes)
    (unsignedTx : psbt.tx = some tx) (spends : tx.vin ≠ []) (fits : tx.FitsVector)
    (unsigned : ∀ txin ∈ tx.vin, txin.scriptSig = [])
    (unversioned : psbt.getVersion = 0) (noUnknown : psbt.unknown = [])
    (first : psbt.inputs = input :: inputs)
    (unfinalized : input.finalScriptSig = [] ∧ input.finalScriptWitness.isNull = true)
    (nonWitness : ∀ utxo, input.nonWitnessUtxo = some utxo → utxo.FitsVector)
    (witness : input.witnessUtxo.isNull = false →
      input.witnessUtxo.FitsSerialization ∧ input.witnessUtxo.serialize.length ≤ MAX_SIZE)
    (signed : input.partialSigs ≠ []) (validKeys : ∀ entry ∈ input.partialSigs, entry.2.1.isValid = true)
    (signerSized : ∀ entry ∈ input.partialSigs, entry.2.2.length = DILITHIUM_SIGNATURE_SIZE + 1) :
    (PartiallySignedTransaction.unserialize hashes).run bytes = .error "Signature is not a valid encoding" := by
  obtain ⟨⟨id, pubkey, sig⟩, sigs, firstSig⟩ := List.exists_cons_of_ne_nil signed
  have held : (id, pubkey, sig) ∈ input.partialSigs := firstSig ▸ List.mem_cons_self
  have sized : sig.length = DILITHIUM_SIGNATURE_SIZE + 1 := signerSized _ held
  have long : 73 < sig.length := by
    rw [sized]
    decide
  have short : sig.length ≤ MAX_SIZE := by
    rw [sized]
    decide
  unfold PartiallySignedTransaction.serialize at written
  simp only [Except.bind_eq_ok, Except.pure_eq_ok] at written
  obtain ⟨inputBytes, inputsWritten, outputBytes, -, rfl⟩ := written
  rw [first] at inputsWritten
  unfold serializeAll at inputsWritten
  simp only [Except.bind_eq_ok, Except.pure_eq_ok] at inputsWritten
  obtain ⟨inputMap, inputWritten, laterMaps, -, rfl⟩ := inputsWritten
  have inputFailed := PSBTInput.unserialize_of_long_partialSig hashes inputWritten unfinalized nonWitness
    witness firstSig (validKeys _ held) long short (laterMaps ++ outputBytes)
  have globalRead : ∀ rest, PartiallySignedTransaction.reader.readMap (PartiallySignedTransaction.empty, [])
      (recordKey PSBT_GLOBAL_UNSIGNED_TX [] ++ (serializeToVector (tx.serialize false) ++ ([PSBT_SEPARATOR] ++ rest))) =
      .ok (({ PartiallySignedTransaction.empty with tx := some tx.withoutWitness }, [[0]]), rest) := fun rest => by
    rw [← List.append_assoc, PartiallySignedTransaction.reader.readMap_of_readsRecord
      (PartiallySignedTransaction.readsRecord_unsignedTx rfl fits unsigned)]
    exact PartiallySignedTransaction.reader.readMap_of_separator (@readByteVector_serializeBytes [] (Nat.zero_le _) rest)
  obtain ⟨txin, vin, spent⟩ := List.exists_cons_of_ne_nil spends
  have readVin : tx.withoutWitness.vin = txin.withoutWitness :: vin.map CTxIn.withoutWitness := by
    simp [CTransaction.withoutWitness, spent]
  have noVersionRecord : ¬ (0 : UInt32) > 0 := by decide
  rw [unsignedTx, unversioned, noUnknown, if_neg noVersionRecord]
  simp only [serializeUnknown, List.map_nil, List.flatten_nil, List.nil_append, List.append_assoc]
  unfold PartiallySignedTransaction.unserialize
  rw [run_bind_of_ok (run_take_magic _), if_neg (by decide), run_bind_of_ok (globalRead _)]
  dsimp only
  rw [readVin, run_bind_of_error (readInputs_of_error (List.append_ne_nil_of_left_ne_nil
    (PSBTInput.serialize_ne_nil inputWritten) _) inputFailed)]

/-- A PSBT as the signer leaves it: the one input of a one-input transaction
carries the signer's partial signature, a Dilithium signature and the hash type. -/
def signerPsbt : PartiallySignedTransaction :=
  ⟨some ⟨[⟨⟨Vector.replicate 32 0, 0⟩, [], SEQUENCE_FINAL, ⟨[]⟩⟩], [⟨0, [0x51]⟩], 2, 0⟩,
    [{ PSBTInput.empty with partialSigs := [(CQPubKey.getID Hashes.zeros ⟨Vector.replicate _ 0⟩,
      ⟨Vector.replicate _ 0⟩, List.replicate DILITHIUM_SIGNATURE_SIZE 0 ++ [UInt8.ofNat SIGHASH_ALL])] }],
    [PSBTOutput.empty], [], none⟩

theorem psbt_partialSig_unreadable_zeros :
    ∃ bytes, signerPsbt.serialize = .ok bytes ∧
      (PartiallySignedTransaction.unserialize Hashes.zeros).run bytes =
        .error "Signature is not a valid encoding" :=
  have signatureLength : (List.replicate DILITHIUM_SIGNATURE_SIZE (0 : UInt8) ++ [UInt8.ofNat SIGHASH_ALL]).length =
      DILITHIUM_SIGNATURE_SIZE + 1 := by
    rw [List.length_append, List.length_replicate, List.length_singleton]
  ⟨_, rfl, @psbt_partialSig_unreadable Hashes.zeros signerPsbt _ _ _ _ rfl rfl (List.cons_ne_nil _ _)
    ⟨.inl (List.cons_ne_nil _ _), by decide, by decide⟩ (by decide) rfl rfl rfl ⟨rfl, rfl⟩
    (fun _ none => by cases none) (fun notNull => by cases notNull) (List.cons_ne_nil _ _) (by decide)
    (fun entry held => by
      rw [List.mem_singleton.mp held]
      exact signatureLength)⟩

end Qbitcoin
