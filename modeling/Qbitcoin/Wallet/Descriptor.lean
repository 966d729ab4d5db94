import Qbitcoin.Policy.Policy

/-!
# Descriptor size estimates

The size methods of the output descriptors of `script/descriptor.cpp`
(`ScriptSize`, `MaxSatSize`, `MaxSatisfactionWeight`, `MaxSatisfactionElems`)
for `pk`, `pkh`, `wpkh`, `multi`, `sh` and `wsh`, the scripts they expand to,
and `MaxInputWeight` of `wallet/spend.cpp`, which the wallet pays fees by.

The estimates kept the upstream constants: ECDSA signatures of 71 or 72 bytes,
a one-byte push prefix per key and a 33-byte key in `wpkh`.  A 1952-byte key is
pushed behind `OP_PUSHDATA2`, so `ScriptSize` of `pk` and `multi` is short by
two bytes per key (`scriptSize_pk`, `scriptSize_multi`), while the fixed-size
templates are exact (`scriptSize_eq_length`).  The signer's inputs are far
heavier than `MaxInputWeight` says (`descriptorEstimates_short`).
-/

namespace Qbitcoin

/-- The key expressions: a literal key, a key derived from an extended key,
and either behind a key origin. -/
inductive PubkeyProvider where
  | const (pubkey : CQPubKey)
  | bip32 (derived : CQPubKey)
  | origin (info : KeyOriginInfo) (provider : PubkeyProvider)

namespace PubkeyProvider

/-- `GetSize`: `CQPubKey::size()` for a literal key, and still 33 for a
derived one. -/
def getSize : PubkeyProvider → Nat
  | .const _ => DILITHIUM_PUBLICKEY_SIZE
  | .bip32 _ => 33
  | .origin _ provider => provider.getSize

/-- The key `GetPubKey` returns. -/
def getPubKey : PubkeyProvider → CQPubKey
  | .const pubkey => pubkey
  | .bip32 derived => derived
  | .origin _ provider => provider.getPubKey

end PubkeyProvider

inductive OutputType where
  | legacy
  | p2shSegwit
  | bech32
  deriving DecidableEq, Repr

/-- The descriptors the wallet's single-key and multisig outputs are built from. -/
inductive Descriptor where
  | pk (key : PubkeyProvider)
  | pkh (key : PubkeyProvider)
  | wpkh (key : PubkeyProvider)
  | multi (threshold : Nat) (keys : List PubkeyProvider)
  | sh (sub : Descriptor)
  | wsh (sub : Descriptor)

namespace Descriptor

def getOutputType : Descriptor → Option OutputType
  | .pk _ | .multi _ _ => none
  | .pkh _ => some .legacy
  | .wpkh _ | .wsh _ => some .bech32
  | .sh sub => if sub.getOutputType = some .bech32 then some .p2shSegwit else some .legacy

/-- `GetScriptForMultisig`. -/
def multisigScript (nRequired : Nat) (keys : List CQPubKey) : CScript :=
  pushInt64 nRequired ++ keys.flatMap (fun key => pushData key.toBytes) ++ pushInt64 keys.length ++
    [OP_CHECKMULTISIG]

/-- `MakeScripts`: the output script of the descriptor. -/
def expand (hashes : Hashes) : Descriptor → CScript
  | .pk key => payToPubKeyScript key.getPubKey.toBytes
  | .pkh key => payToPubKeyHashScript (key.getPubKey.getID hashes)
  | .wpkh key => payToWitnessScript (key.getPubKey.getID hashes)
  | .multi threshold keys => multisigScript threshold (keys.map PubkeyProvider.getPubKey)
  | .sh sub => [OP_HASH160] ++ pushData (hashes.hash160 (sub.expand hashes)) ++ [OP_EQUAL]
  | .wsh sub => payToWitnessScript (hashes.sha256 (sub.expand hashes))

def scriptSize : Descriptor → Option Int
  | .pk key => some (1 + key.getSize + 1)
  | .pkh _ => some (1 + 1 + 1 + 20 + 1 + 1)
  | .wpkh _ => some (1 + 1 + 20)
  | .multi threshold keys =>
      let pubkeysSize := keys.foldl (fun (acc : Int) pk => acc + 1 + (pk.getSize : Int)) 0
      some (1 + ((pushInt64 keys.length).length : Int) + ((pushInt64 threshold).length : Int) + pubkeysSize)
  | .sh _ => some (1 + 1 + 20 + 1)
  | .wsh _ => some (1 + 1 + 32)

/-- `MaxSatSize`; `sh` keeps the base class's, which has none. -/
def maxSatSize (useMaxSig : Bool) : Descriptor → Option Int
  | .pk _ => some (1 + if useMaxSig then 72 else 71)
  | .pkh key => some (1 + (if useMaxSig then 72 else 71) + 1 + key.getSize)
  | .wpkh _ => some (1 + (if useMaxSig then 72 else 71) + 1 + 33)
  | .multi threshold _ => some (1 + (1 + if useMaxSig then 72 else 71) * threshold)
  | .sh _ => none
  | .wsh sub => do
      let satSize ← sub.maxSatSize useMaxSig
      let subscriptSize ← sub.scriptSize
      pure (getSizeOfCompactSize subscriptSize.toNat + subscriptSize + satSize)

/-- `MaxSatisfactionWeight`: for `sh` the subscript is never witness data. -/
def maxSatisfactionWeight (useMaxSig : Bool) : Descriptor → Option Int
  | .pk key => (Descriptor.pk key).maxSatSize useMaxSig |>.map (· * WITNESS_SCALE_FACTOR)
  | .pkh key => (Descriptor.pkh key).maxSatSize useMaxSig |>.map (· * WITNESS_SCALE_FACTOR)
  | .wpkh key => (Descriptor.wpkh key).maxSatSize useMaxSig
  | .multi threshold keys =>
      (Descriptor.multi threshold keys).maxSatSize useMaxSig |>.map (· * WITNESS_SCALE_FACTOR)
  | .sh sub => do
      let satSize ← sub.maxSatSize useMaxSig
      let subscriptSize ← sub.scriptSize
      let subscriptWeight := (1 + subscriptSize) * WITNESS_SCALE_FACTOR
      if sub.getOutputType = some .bech32 then pure (subscriptWeight + satSize)
      else pure (subscriptWeight + satSize * WITNESS_SCALE_FACTOR)
  | .wsh sub => (Descriptor.wsh sub).maxSatSize useMaxSig

def maxSatisfactionElems : Descriptor → Option Int
  | .pk _ => some 1
  | .pkh _ | .wpkh _ => some 2
  | .multi threshold _ => some (1 + threshold)
  | .sh sub | .wsh sub => sub.maxSatisfactionElems.map (1 + ·)

end Descriptor

/-- `IsSegwit` of `spend.cpp`: an output type other than legacy. -/
def isSegwit (desc : Descriptor) : Bool :=
  match desc.getOutputType with
  | some outputType => outputType != .legacy
  | none => false

/-- `MaxInputWeight`: outpoint, sequence, the scriptSig length, the witness
stack size and the satisfaction, in weight units.  `useMaxSig` stands for
`!can_grind_r || UseMaxSig(txin, coin_control)`. -/
def maxInputWeight (desc : Descriptor) (useMaxSig txIsSegwit : Bool) : Option Int := do
  let satWeight ← desc.maxSatisfactionWeight useMaxSig
  let elemsCount ← desc.maxSatisfactionElems
  let scriptsigLen : Int :=
    if isSegwit desc then 1 else getSizeOfCompactSize (satWeight / WITNESS_SCALE_FACTOR).toNat
  let witstackLen : Int :=
    if isSegwit desc then getSizeOfCompactSize elemsCount.toNat else if txIsSegwit then 1 else 0
  pure ((32 + 4 + 4 + scriptsigLen) * WITNESS_SCALE_FACTOR + witstackLen + satWeight)

/-- `GetTransactionInputWeight`: the input counted `WITNESS_SCALE_FACTOR` times
and its witness stack once. -/
def getTransactionInputWeight (txin : CTxIn) : Nat :=
  txin.serialize.length * (WITNESS_SCALE_FACTOR - 1) + txin.serialize.length +
    txin.scriptWitness.serialize.length

/-! ## `ScriptSize` against the scripts -/

theorem getSize_const (pubkey : CQPubKey) :
    (PubkeyProvider.const pubkey).getSize = pubkey.toBytes.length := by
  rw [CQPubKey.toBytes_length]
  rfl

theorem pushData_key_length (pubkey : CQPubKey) : (pushData pubkey.toBytes).length = pubkey.toBytes.length + 3 := by
  have keySized := CQPubKey.toBytes_length pubkey
  unfold DILITHIUM_PUBLICKEY_SIZE at keySized
  exact pushData_length_of_pushdata2 (by omega) (by omega)

/-- `ScriptSize` of `pk` counts a one-byte push for a key that takes three. -/
theorem scriptSize_pk (hashes : Hashes) (pubkey : CQPubKey) :
    (Descriptor.pk (.const pubkey)).scriptSize = some 1954 ∧
      ((Descriptor.pk (.const pubkey)).expand hashes).length = 1956 := by
  have keySized := CQPubKey.toBytes_length pubkey
  unfold DILITHIUM_PUBLICKEY_SIZE at keySized
  refine ⟨rfl, ?_⟩
  simp [Descriptor.expand, PubkeyProvider.getPubKey, payToPubKeyScript, pushData_key_length, keySized]

theorem foldl_getSize {keys : List PubkeyProvider} (init : Int) :
    keys.foldl (fun (acc : Int) pk => acc + 1 + (pk.getSize : Int)) init =
      init + ((keys.map fun pk => 1 + pk.getSize).sum : Nat) := by
  induction keys generalizing init with
  | nil => simp
  | cons key keys sizes =>
      rw [List.foldl_cons, sizes, List.map_cons, List.sum_cons]
      push_cast
      ring

/-- For literal keys, `ScriptSize` of `multi` is short by two bytes a key. -/
theorem scriptSize_multi (hashes : Hashes) (threshold : Nat) (pubkeys : List CQPubKey) :
    (Descriptor.multi threshold (pubkeys.map .const)).scriptSize.map (· + 2 * (pubkeys.length : Int)) =
      some (((Descriptor.multi threshold (pubkeys.map .const)).expand hashes).length : Int) := by
  have keysLength : ∀ pubkeys : List CQPubKey,
      (pubkeys.flatMap fun key => pushData key.toBytes).length = pubkeys.length * 1955 := by
    intro pubkeys
    induction pubkeys with
    | nil => rfl
    | cons key rest restLength =>
        have keySized := CQPubKey.toBytes_length key
        unfold DILITHIUM_PUBLICKEY_SIZE at keySized
        rw [List.flatMap_cons, List.length_append, pushData_key_length, restLength, keySized,
          List.length_cons]
        ring
  have sizes : ∀ pubkeys : List CQPubKey,
      ((pubkeys.map PubkeyProvider.const).map fun pk => 1 + pk.getSize).sum = pubkeys.length * 1953 := by
    intro pubkeys
    induction pubkeys with
    | nil => rfl
    | cons key rest restSum =>
        simp only [List.map_cons, List.sum_cons, List.length_cons] at restSum ⊢
        rw [restSum]
        unfold PubkeyProvider.getSize DILITHIUM_PUBLICKEY_SIZE
        ring
  have providers : (pubkeys.map PubkeyProvider.const).map PubkeyProvider.getPubKey = pubkeys := by
    rw [List.map_map]
    exact List.map_id pubkeys
  have expanded : ((Descriptor.multi threshold (pubkeys.map .const)).expand hashes).length =
      (pushInt64 threshold).length + pubkeys.length * 1955 + (pushInt64 pubkeys.length).length + 1 := by
    simp only [Descriptor.expand, Descriptor.multisigScript, providers, List.length_append, keysLength,
      List.length_singleton]
  have estimated : (Descriptor.multi threshold (pubkeys.map .const)).scriptSize =
      some (1 + ((pushInt64 pubkeys.length).length : Int) + ((pushInt64 threshold).length : Int) +
        ((pubkeys.length * 1953 : Nat) : Int)) := by
    simp only [Descriptor.scriptSize, foldl_getSize, sizes, List.length_map, zero_add]
  rw [estimated, expanded, Option.map_some]
  push_cast
  ring_nf

/-- The fixed-size templates are counted exactly. -/
theorem scriptSize_eq_length (hashes : Hashes) (desc : Descriptor)
    (fixed : (∃ key, desc = .pkh key ∨ desc = .wpkh key) ∨ ∃ sub, desc = .sh sub ∨ desc = .wsh sub) :
    desc.scriptSize = some (desc.expand hashes).length := by
  have short : ∀ data : valtype, data.length = 20 ∨ data.length = 32 →
      (pushData data).length = data.length + 1 := by
    intro data sized
    rw [pushData_of_short (by have pushdata1 : OP_PUSHDATA1.toNat = 76 := rfl; omega), List.length_cons]
  rcases fixed with ⟨key, rfl | rfl⟩ | ⟨sub, rfl | rfl⟩
  · have keyHash : (key.getPubKey.getID hashes).length = 20 := Hashes.hash160_length hashes _
    simp [Descriptor.scriptSize, Descriptor.expand, payToPubKeyHashScript, short _ (Or.inl keyHash), keyHash]
  · have keyHash : (key.getPubKey.getID hashes).length = 20 := Hashes.hash160_length hashes _
    simp [Descriptor.scriptSize, Descriptor.expand, payToWitnessScript, short _ (Or.inl keyHash), keyHash]
  · have scriptHash := Hashes.hash160_length hashes (sub.expand hashes)
    simp [Descriptor.scriptSize, Descriptor.expand, short _ (Or.inl scriptHash), scriptHash]
  · have scriptHash := hashes.sha256_length (sub.expand hashes)
    simp [Descriptor.scriptSize, Descriptor.expand, payToWitnessScript, short _ (Or.inr scriptHash), scriptHash]

/-! ## `MaxInputWeight` against the signed inputs -/

theorem maxInputWeight_pkh (pubkey : CQPubKey) (txIsSegwit : Bool) :
    maxInputWeight (.pkh (.const pubkey)) true txIsSegwit = some (8276 + if txIsSegwit then 1 else 0) := by
  have compactSize : getSizeOfCompactSize 2026 = 3 := rfl
  cases txIsSegwit <;>
    simp [maxInputWeight, Descriptor.maxSatisfactionWeight, Descriptor.maxSatSize, Descriptor.maxSatisfactionElems,
      isSegwit, Descriptor.getOutputType, PubkeyProvider.getSize, DILITHIUM_PUBLICKEY_SIZE, WITNESS_SCALE_FACTOR,
      compactSize]

theorem maxInputWeight_wpkh (pubkey : CQPubKey) (txIsSegwit : Bool) :
    maxInputWeight (.wpkh (.const pubkey)) true txIsSegwit = some 272 := by
  have compactSize : getSizeOfCompactSize 2 = 1 := rfl
  simp [maxInputWeight, Descriptor.maxSatisfactionWeight, Descriptor.maxSatSize, Descriptor.maxSatisfactionElems,
    isSegwit, Descriptor.getOutputType, WITNESS_SCALE_FACTOR, compactSize]

/-- An input weighs at least four times its outpoint, sequence and scriptSig. -/
theorem four_mul_serialize_le_inputWeight (txin : CTxIn) :
    4 * (40 + getSizeOfCompactSize txin.scriptSig.length + txin.scriptSig.length) ≤
      getTransactionInputWeight txin := by
  unfold getTransactionInputWeight WITNESS_SCALE_FACTOR
  rw [CTxIn.serialize_length]
  omega

/-- The witness of a signature of the signer's size and a key, serialized. -/
theorem witness_keyHash_length {sig : valtype} (sigSized : sig.length = DILITHIUM_SIGNATURE_SIZE + 1)
    (pubkey : CQPubKey) : (CScriptWitness.serialize ⟨[sig, pubkey.toBytes]⟩).length = 5269 := by
  have keySized := CQPubKey.toBytes_length pubkey
  unfold DILITHIUM_SIGNATURE_SIZE at sigSized
  unfold DILITHIUM_PUBLICKEY_SIZE at keySized
  simp only [CScriptWitness.serialize, serializeVector, List.length_append, writeCompactSize_length,
    List.map_cons, List.map_nil, List.flatten_cons, List.flatten_nil, List.append_nil, serializeBytes_length,
    sigSized, keySized, List.length_cons, List.length_nil]
  rfl

/-- The wallet's estimates fall short of what it signs: `ScriptSize` of `pk(K)`
is 1954 bytes for a 1956-byte script, and an input spending `pkh(K)` or
`wpkh(K)` that the signer has signed weighs more than `MaxInputWeight` with
the larger signature size. -/
theorem descriptorEstimates_short {lib : Dilithium} (sigSize : lib.SignatureSize) (hashes : Hashes)
    (SignatureHash : SignatureHasher) (SignatureHashSchnorr : SchnorrSignatureHasher)
    (satisfiers : ExternalSatisfiers) (provider : SigningProvider)
    (creator : MutableTransactionSignatureCreator) (pubkey : CQPubKey)
    {sigdata : SignatureData} (incomplete : sigdata.complete = false) (fresh : sigdata.signatures = [])
    (txIsSegwit : Bool) :
    let signer := creator.toBase lib SignatureHash SignatureHashSchnorr
    let keyHashSigned := (produceSignature hashes satisfiers provider signer
      ((Descriptor.pkh (.const pubkey)).expand hashes) sigdata).2
    let witnessSigned := (produceSignature hashes satisfiers provider signer
      ((Descriptor.wpkh (.const pubkey)).expand hashes) sigdata).2
    (Descriptor.pk (.const pubkey)).scriptSize = some 1954 ∧
      ((Descriptor.pk (.const pubkey)).expand hashes).length = 1956 ∧
      (keyHashSigned.scriptSig = [] ∨ ∀ txin : CTxIn, txin.scriptSig = keyHashSigned.scriptSig →
        ∃ weight, maxInputWeight (.pkh (.const pubkey)) true txIsSegwit = some weight ∧
          weight < getTransactionInputWeight txin) ∧
      (witnessSigned.scriptWitness.stack = [] ∨
        ∀ txin : CTxIn, txin.scriptWitness = witnessSigned.scriptWitness →
          ∃ weight, maxInputWeight (.wpkh (.const pubkey)) true txIsSegwit = some weight ∧
            weight < getTransactionInputWeight txin) := by
  intro signer keyHashSigned witnessSigned
  have signs := creator.toBase_signsWithSize SignatureHash SignatureHashSchnorr sigSize
  have sized : sigdata.SignaturesSized (DILITHIUM_SIGNATURE_SIZE + 1) := by
    intro entry held
    rw [fresh] at held
    cases held
  have keyHash : (pubkey.getID hashes).length = 20 := Hashes.hash160_length hashes _
  obtain ⟨pkEstimate, pkLength⟩ := scriptSize_pk hashes pubkey
  refine ⟨pkEstimate, pkLength, ?_, ?_⟩
  · rcases produceSignature_payToPubKeyHashScript hashes satisfiers provider keyHash signs sized incomplete
      with emptySig | ⟨sig, signedKey, signedSig, sigSized⟩
    · exact Or.inl emptySig
    · have carriedSig : keyHashSigned.scriptSig = pushAll [sig, signedKey.toBytes] := signedSig
      refine Or.inr fun txin carried => ⟨_, maxInputWeight_pkh pubkey txIsSegwit, ?_⟩
      have heavy := four_mul_serialize_le_inputWeight txin
      rw [carried, carriedSig, pushAll_keyHash_length sigSized] at heavy
      have compactSize : getSizeOfCompactSize 5268 = 3 := rfl
      rw [compactSize] at heavy
      split <;> omega
  · obtain ⟨-, emptyWitness | ⟨sig, signedKey, signedStack, sigSized⟩⟩ :=
      produceSignature_payToWitnessScript hashes satisfiers provider keyHash signs sized incomplete
    · exact Or.inl emptyWitness
    · have carriedWitness : witnessSigned.scriptWitness = ⟨[sig, signedKey.toBytes]⟩ := by
        have stacked : witnessSigned.scriptWitness.stack = [sig, signedKey.toBytes] := signedStack
        rw [← stacked]
      refine Or.inr fun txin carried => ⟨_, maxInputWeight_wpkh pubkey txIsSegwit, ?_⟩
      have witnessLength : txin.scriptWitness.serialize.length = 5269 := by
        rw [carried, carriedWitness, witness_keyHash_length sigSized]
      have light := four_mul_serialize_le_inputWeight txin
      have counted : txin.scriptWitness.serialize.length ≤ getTransactionInputWeight txin := by
        unfold getTransactionInputWeight
        omega
      omega

set_option maxRecDepth 20000 in
/-- `descriptorEstimates_short` with the constant library and hash functions
and a provider that holds the key: the signer signs both outputs, so the
estimates fall short of inputs it did sign. -/
theorem descriptorEstimates_short_zeros :
    let key := CQKey.generateRandomQKey Dilithium.zeros []
    let pubkey := (key.getPubKey Dilithium.zeros []).1
    let creator : MutableTransactionSignatureCreator := ⟨⟨[], [], 2, 0⟩, 0, 0, SIGHASH_ALL, false⟩
    let SignatureHash : SignatureHasher := fun _ _ _ _ _ _ => List.replicate 32 0
    let SignatureHashSchnorr : SchnorrSignatureHasher := fun _ _ _ _ _ => none
    let satisfiers : ExternalSatisfiers :=
      ⟨fun _ _ _ sigdata => (false, [], sigdata), fun _ _ _ sigdata => (false, [], sigdata)⟩
    let provider : SigningProvider := ⟨fun _ => none,
      fun id => if id = pubkey.getID Hashes.zeros then some pubkey else none,
      fun id => if id = pubkey.getID Hashes.zeros then some key else none, fun _ => none⟩
    let signer := creator.toBase Dilithium.zeros SignatureHash SignatureHashSchnorr
    let keyHashSigned := (produceSignature Hashes.zeros satisfiers provider signer
      ((Descriptor.pkh (.const pubkey)).expand Hashes.zeros) SignatureData.empty).2
    let witnessSigned := (produceSignature Hashes.zeros satisfiers provider signer
      ((Descriptor.wpkh (.const pubkey)).expand Hashes.zeros) SignatureData.empty).2
    keyHashSigned.scriptSig ≠ [] ∧ witnessSigned.scriptWitness.stack ≠ [] ∧
      (Descriptor.pk (.const pubkey)).scriptSize = some 1954 ∧
      ((Descriptor.pk (.const pubkey)).expand Hashes.zeros).length = 1956 ∧
      (keyHashSigned.scriptSig = [] ∨ ∀ txin : CTxIn, txin.scriptSig = keyHashSigned.scriptSig →
        ∃ weight, maxInputWeight (.pkh (.const pubkey)) true true = some weight ∧
          weight < getTransactionInputWeight txin) ∧
      (witnessSigned.scriptWitness.stack = [] ∨
        ∀ txin : CTxIn, txin.scriptWitness = witnessSigned.scriptWitness →
          ∃ weight, maxInputWeight (.wpkh (.const pubkey)) true true = some weight ∧
            weight < getTransactionInputWeight txin) :=
  ⟨by decide, by decide,
    descriptorEstimates_short Dilithium.zeros_signatureSize Hashes.zeros _ _ _ _ _ _ rfl rfl true⟩

end Qbitcoin
