import Qbitcoin.Script.Sign
import Qbitcoin.Consensus.TxCheck

/-!
# Standardness

The relay policy of `policy/policy.cpp`: `IsStandardTx`, `AreInputsStandard`
and `IsWitnessStandard`, with the limits of `policy/policy.h`.  The coins view
the input checks read is a function from outpoints to the outputs they spend.

The limits kept their upstream values, sized for 72-byte ECDSA signatures and
33-byte keys.  The signer of `sign.cpp` makes `CRYPTO_BYTES + 1`-byte
signatures and pushes 1952-byte keys, so the scriptSig of a key-hash spend is
5268 bytes, over `MAX_STANDARD_SCRIPTSIG_SIZE`, a P2WSH witness holding such a
signature is over `MAX_STANDARD_P2WSH_STACK_ITEM_SIZE`, and a bare-key output
is not a standard template at all (`signedKeyOutputs_nonstandard`).
-/

namespace Qbitcoin

def MAX_STANDARD_TX_WEIGHT : Nat := 400000
def MAX_P2SH_SIGOPS : Nat := 15
def MAX_STANDARD_P2WSH_STACK_ITEMS : Nat := 100
def MAX_STANDARD_P2WSH_STACK_ITEM_SIZE : Nat := 80
def MAX_STANDARD_TAPSCRIPT_STACK_ITEM_SIZE : Nat := 80
def MAX_STANDARD_P2WSH_SCRIPT_SIZE : Nat := 3600
def MAX_STANDARD_SCRIPTSIG_SIZE : Nat := 1650
def MAX_DUST_OUTPUTS_PER_TX : Nat := 1
def TX_MAX_STANDARD_VERSION : UInt32 := 3

/-- `CFeeRate`, in units per 1000 bytes. -/
structure CFeeRate where
  nSatoshisPerK : CAmount
  deriving DecidableEq, Repr

/-- `CFeeRate::GetFee`: the fee rounded up, and one unit of the rate's sign
where that rounds to zero for a non-empty size. -/
def CFeeRate.getFee (rate : CFeeRate) (nSize : Nat) : CAmount :=
  let nFee := -(-(rate.nSatoshisPerK * nSize) / 1000)
  if nFee = 0 ∧ nSize ≠ 0 then
    if rate.nSatoshisPerK > 0 then 1 else if rate.nSatoshisPerK < 0 then -1 else nFee
  else nFee

/-- `GetDustThreshold`: the fee for the output and an input spending it, with
the input sizes of a P2WPKH or a P2PKH spend by an ECDSA key. -/
def getDustThreshold (txout : CTxOut) (dustRelayFeeIn : CFeeRate) : CAmount :=
  if txout.scriptPubKey.isUnspendable then 0
  else
    let nSize := txout.serialize.length
    let nSize := if (isWitnessProgram txout.scriptPubKey).isSome
      then nSize + (32 + 4 + 1 + 107 / WITNESS_SCALE_FACTOR + 4)
      else nSize + (32 + 4 + 1 + 107 + 4)
    dustRelayFeeIn.getFee nSize

def isDust (txout : CTxOut) (dustRelayFeeIn : CFeeRate) : Bool :=
  decide (txout.nValue < getDustThreshold txout dustRelayFeeIn)

/-- `GetDust`: the indices of the dust outputs. -/
def getDust (tx : CTransaction) (dustRelayRate : CFeeRate) : List Nat :=
  (tx.vout.zipIdx.filter fun (txout, _) => isDust txout dustRelayRate).map Prod.snd

/-- `IsStandard` of an output script: whether it is standard, and its template. -/
def isStandard (scriptPubKey : CScript) (maxDatacarrierBytes : Option Nat) : Bool × TxoutType :=
  let (whichType, vSolutions) := solver scriptPubKey
  match whichType with
  | .nonstandard => (false, whichType)
  | .multisig =>
      let m := ((vSolutions.headD []).headD 0).toNat
      let n := ((vSolutions.getLastD []).headD 0).toNat
      (decide (1 ≤ n ∧ n ≤ 3 ∧ 1 ≤ m ∧ m ≤ n), whichType)
  | .nullData =>
      match maxDatacarrierBytes with
      | none => (false, whichType)
      | some bytes => (decide (scriptPubKey.length ≤ bytes), whichType)
  | _ => (true, whichType)

/-- The input loop of `IsStandardTx`. -/
def checkStandardInputs : List CTxIn → Except String Unit
  | [] => .ok ()
  | txin :: rest => do
      Except.failIf (decide (txin.scriptSig.length > MAX_STANDARD_SCRIPTSIG_SIZE)) "scriptsig-size"
      Except.failIf (!isPushOnly txin.scriptSig) "scriptsig-not-pushonly"
      checkStandardInputs rest

/-- The output loop of `IsStandardTx`, counting the data outputs. -/
def checkStandardOutputs (maxDatacarrierBytes : Option Nat) (permitBareMultisig : Bool) :
    List CTxOut → Nat → Except String Nat
  | [], nDataOut => .ok nDataOut
  | txout :: rest, nDataOut => do
      let (standard, whichType) := isStandard txout.scriptPubKey maxDatacarrierBytes
      Except.failIf (!standard) "scriptpubkey"
      Except.failIf (whichType == .multisig && !permitBareMultisig) "bare-multisig"
      checkStandardOutputs maxDatacarrierBytes permitBareMultisig rest
        (if whichType == .nullData then nDataOut + 1 else nDataOut)

/-- `IsStandardTx`, with the rejection reason as the error. -/
def isStandardTx (tx : CTransaction) (maxDatacarrierBytes : Option Nat) (permitBareMultisig : Bool)
    (dustRelayFee : CFeeRate) : Except String Unit := do
  Except.failIf (tx.version > TX_MAX_STANDARD_VERSION || tx.version < 1) "version"
  Except.failIf (decide (getTransactionWeight tx > MAX_STANDARD_TX_WEIGHT)) "tx-size"
  checkStandardInputs tx.vin
  let nDataOut ← checkStandardOutputs maxDatacarrierBytes permitBareMultisig tx.vout 0
  Except.failIf (decide ((getDust tx dustRelayFee).length > MAX_DUST_OUTPUTS_PER_TX)) "dust"
  Except.failIf (decide (nDataOut > 1)) "multi-op-return"

section Inputs

variable (hashes : Hashes) (mapInputs : COutPoint → CTxOut)

/-- The stack a scriptSig leaves when run as in the policy checks, with no
flags and the base checker, top first. -/
def scriptSigStack (scriptSig : CScript) : Except ScriptError (List valtype) :=
  evalScript hashes BaseSignatureChecker.base SCRIPT_VERIFY_NONE .base [] scriptSig
    ScriptExecutionData.empty

/-- One input of `AreInputsStandard`. -/
def isInputStandard (txin : CTxIn) : Bool :=
  match (solver (mapInputs txin.prevout).scriptPubKey).1 with
  | .nonstandard | .witnessUnknown => false
  | .scripthash =>
      match scriptSigStack hashes txin.scriptSig with
      | .ok (top :: _) => decide (CScript.getSigOpCount top true ≤ MAX_P2SH_SIGOPS)
      | _ => false
  | _ => true

/-- `AreInputsStandard`. -/
def areInputsStandard (tx : CTransaction) : Bool :=
  tx.isCoinBase || tx.vin.all (isInputStandard hashes mapInputs)

/-- The P2WSH limits of `IsWitnessStandard`: the witness script, the number of
other items and the size of each. -/
def p2wshWitnessStandard (stack : List valtype) : Bool :=
  decide ((stack.getLastD []).length ≤ MAX_STANDARD_P2WSH_SCRIPT_SIZE) &&
    decide (stack.length - 1 ≤ MAX_STANDARD_P2WSH_STACK_ITEMS) &&
    (stack.take (stack.length - 1)).all fun item => decide (item.length ≤ MAX_STANDARD_P2WSH_STACK_ITEM_SIZE)

/-- The Taproot limits of `IsWitnessStandard`: no annex, and small stack items
under a Tapscript leaf. -/
def taprootWitnessStandard (stack : List valtype) : Bool :=
  if 2 ≤ stack.length ∧ (stack.getLastD []).head? = some ANNEX_TAG then false
  else if 2 ≤ stack.length then
    let controlBlock := stack.getLastD []
    match controlBlock.head? with
    | none => false
    | some leaf =>
        if leaf &&& TAPROOT_LEAF_MASK == TAPROOT_LEAF_TAPSCRIPT then
          (stack.take (stack.length - 2)).all fun item =>
            decide (item.length ≤ MAX_STANDARD_TAPSCRIPT_STACK_ITEM_SIZE)
        else true
  else stack.length == 1

/-- One input of `IsWitnessStandard`.  A P2SH output is checked through the
redeem script its scriptSig pushes last. -/
def isWitnessInputStandard (txin : CTxIn) : Bool :=
  if txin.scriptWitness.isNull then true
  else
    let prevScript := (mapInputs txin.prevout).scriptPubKey
    if prevScript.isPayToAnchor then false
    else
      let redeemed : Option (CScript × Bool) :=
        if isPayToScriptHash prevScript then
          match scriptSigStack hashes txin.scriptSig with
          | .ok (top :: _) => some (top, true)
          | _ => none
        else some (prevScript, false)
      match redeemed with
      | none => false
      | some (prevScript, p2sh) =>
          match isWitnessProgram prevScript with
          | none => false
          | some (witnessversion, witnessprogram) =>
              (!(witnessversion == 0 && witnessprogram.length == WITNESS_V0_SCRIPTHASH_SIZE) ||
                  p2wshWitnessStandard txin.scriptWitness.stack) &&
                (!(witnessversion == 1 && witnessprogram.length == WITNESS_V1_TAPROOT_SIZE && !p2sh) ||
                  taprootWitnessStandard txin.scriptWitness.stack)

/-- `IsWitnessStandard`. -/
def isWitnessStandard (tx : CTransaction) : Bool :=
  tx.isCoinBase || tx.vin.all (isWitnessInputStandard hashes mapInputs)

end Inputs

/-! ## What the checks accept -/

@[simp]
theorem checkStandardInputs_eq_ok {vin : List CTxIn} :
    checkStandardInputs vin = .ok () ↔
      ∀ txin ∈ vin, txin.scriptSig.length ≤ MAX_STANDARD_SCRIPTSIG_SIZE ∧ isPushOnly txin.scriptSig = true := by
  induction vin with
  | nil => simp [checkStandardInputs]
  | cons txin rest restOk => simp [checkStandardInputs, restOk, and_assoc]

theorem isStandardTx_eq_ok {tx : CTransaction} {maxDatacarrierBytes : Option Nat}
    {permitBareMultisig : Bool} {dustRelayFee : CFeeRate} :
    isStandardTx tx maxDatacarrierBytes permitBareMultisig dustRelayFee = .ok () ↔
      1 ≤ tx.version ∧ tx.version ≤ TX_MAX_STANDARD_VERSION ∧
      getTransactionWeight tx ≤ MAX_STANDARD_TX_WEIGHT ∧
      (∀ txin ∈ tx.vin, txin.scriptSig.length ≤ MAX_STANDARD_SCRIPTSIG_SIZE ∧
        isPushOnly txin.scriptSig = true) ∧
      ∃ nDataOut, checkStandardOutputs maxDatacarrierBytes permitBareMultisig tx.vout 0 = .ok nDataOut ∧
        (getDust tx dustRelayFee).length ≤ MAX_DUST_OUTPUTS_PER_TX ∧ nDataOut ≤ 1 := by
  simp only [isStandardTx, Except.bind_eq_ok, Except.failIf_eq_ok, Unique.exists_iff, PUnit.default_eq_unit,
    checkStandardInputs_eq_ok, Bool.or_eq_false_iff, decide_eq_false_iff_not, gt_iff_lt, not_lt, UInt32.not_lt]
  constructor
  · rintro ⟨⟨below, above⟩, rest⟩
    exact ⟨above, below, rest⟩
  · rintro ⟨above, below, rest⟩
    exact ⟨⟨below, above⟩, rest⟩

/-- A scriptSig over `MAX_STANDARD_SCRIPTSIG_SIZE` in any input makes a
transaction non-standard. -/
theorem isStandardTx_ne_ok_of_scriptSig {tx : CTransaction} {maxDatacarrierBytes : Option Nat}
    {permitBareMultisig : Bool} {dustRelayFee : CFeeRate} {txin : CTxIn} (carried : txin ∈ tx.vin)
    (oversized : MAX_STANDARD_SCRIPTSIG_SIZE < txin.scriptSig.length) :
    isStandardTx tx maxDatacarrierBytes permitBareMultisig dustRelayFee ≠ .ok () := by
  intro accepted
  obtain ⟨-, -, -, inputs, -⟩ := isStandardTx_eq_ok.mp accepted
  have within := (inputs txin carried).1
  omega

/-- A spend of an output whose script no template matches is never standard. -/
theorem areInputsStandard_of_nonstandard {hashes : Hashes} {mapInputs : COutPoint → CTxOut}
    {tx : CTransaction} (notCoinBase : tx.isCoinBase = false) {txin : CTxIn} (carried : txin ∈ tx.vin)
    (nonstandard : (solver (mapInputs txin.prevout).scriptPubKey).1 = .nonstandard) :
    areInputsStandard hashes mapInputs tx = false := by
  have rejected : isInputStandard hashes mapInputs txin = false := by
    simp [isInputStandard, nonstandard]
  simp only [areInputsStandard, notCoinBase, Bool.false_or, List.all_eq_false]
  exact ⟨txin, carried, by simp [rejected]⟩

/-- A P2WSH witness with an item other than the script over
`MAX_STANDARD_P2WSH_STACK_ITEM_SIZE` is not standard. -/
theorem p2wshWitnessStandard_of_large_item {stack : List valtype} {item : valtype}
    (below : item ∈ stack.dropLast) (large : MAX_STANDARD_P2WSH_STACK_ITEM_SIZE < item.length) :
    p2wshWitnessStandard stack = false := by
  have listed : item ∈ stack.take (stack.length - 1) := by
    rwa [← List.dropLast_eq_take]
  simp only [p2wshWitnessStandard, Bool.and_eq_false_iff, List.all_eq_false, decide_eq_false_iff_not,
    not_le]
  exact Or.inr ⟨item, listed, by simpa using large⟩

/-- A spend of a P2WSH output whose witness holds such an item is not standard. -/
theorem isWitnessStandard_of_large_p2wsh_item {hashes : Hashes} {mapInputs : COutPoint → CTxOut}
    {tx : CTransaction} (notCoinBase : tx.isCoinBase = false) {txin : CTxIn} (carried : txin ∈ tx.vin)
    {program : valtype} (scriptHash : program.length = WITNESS_V0_SCRIPTHASH_SIZE)
    (spent : (mapInputs txin.prevout).scriptPubKey = payToWitnessScript program)
    {item : valtype} (below : item ∈ txin.scriptWitness.stack.dropLast)
    (large : MAX_STANDARD_P2WSH_STACK_ITEM_SIZE < item.length) :
    isWitnessStandard hashes mapInputs tx = false := by
  have notNull : txin.scriptWitness.isNull = false := by
    have nonempty : txin.scriptWitness.stack ≠ [] := by
      rintro empty
      simp [empty] at below
    simpa [CScriptWitness.isNull] using nonempty
  have sized : 2 ≤ program.length ∧ program.length ≤ 40 := by
    unfold WITNESS_V0_SCRIPTHASH_SIZE at scriptHash
    omega
  have notP2sh : isPayToScriptHash (payToWitnessScript program) = false := by
    simp [isPayToScriptHash, payToWitnessScript, OP_HASH160, OP_0]
  have notAnchor : (payToWitnessScript program).isPayToAnchor = false := by
    simp [CScript.isPayToAnchor, payToWitnessScript, OP_1, OP_0]
  have rejected : isWitnessInputStandard hashes mapInputs txin = false := by
    simp [isWitnessInputStandard, notNull, spent, notAnchor, notP2sh, isWitnessProgram_payToWitnessScript sized,
      scriptHash, p2wshWitnessStandard_of_large_item below large]
  simp only [isWitnessStandard, notCoinBase, Bool.false_or, List.all_eq_false]
  exact ⟨txin, carried, by simp [rejected]⟩

/-! ## What the signer's transactions make of the limits -/

theorem pushData_length_of_pushdata2 {data : valtype} (large : 0xff < data.length)
    (small : data.length ≤ 0xffff) : (pushData data).length = data.length + 3 := by
  rw [pushData_of_pushdata2 large small]
  simp only [List.length_cons, List.length_append, ByteCodec.leBytes_length]
  omega

/-- The scriptSig the signer builds for a key-hash output: a signature of
`CRYPTO_BYTES + 1` bytes and a key, each behind `OP_PUSHDATA2`. -/
theorem pushAll_keyHash_length {sig : valtype} (sigSized : sig.length = DILITHIUM_SIGNATURE_SIZE + 1)
    (pubkey : CQPubKey) : (pushAll [sig, pubkey.toBytes]).length = 5268 := by
  have keySized := CQPubKey.toBytes_length pubkey
  unfold DILITHIUM_SIGNATURE_SIZE at sigSized
  unfold DILITHIUM_PUBLICKEY_SIZE at keySized
  have sigPush : (pushData sig).length = sig.length + 3 :=
    pushData_length_of_pushdata2 (by omega) (by omega)
  have keyPush : (pushData pubkey.toBytes).length = pubkey.toBytes.length + 3 :=
    pushData_length_of_pushdata2 (by omega) (by omega)
  rw [pushAll_of_ne_one (by simp [sigSized, keySized])]
  simp only [List.flatMap_cons, List.flatMap_nil, List.append_nil, List.length_append,
    sigPush, keyPush, sigSized, keySized]

/-- The transactions the signer makes for its own single-key outputs are not
standard.  A key-hash spend carries a 5268-byte scriptSig once a signature is
made; a bare-key output is no standard template; and a P2WSH spend of
`<K> OP_CHECKSIG` holding one of the signer's signatures has a witness item
over the P2WSH item limit.  (The signer never reports these inputs complete
either: the signature fails the DER check.) -/
theorem signedKeyOutputs_nonstandard {lib : Dilithium} (sigSize : lib.SignatureSize) (hashes : Hashes)
    (SignatureHash : SignatureHasher) (SignatureHashSchnorr : SchnorrSignatureHasher)
    (satisfiers : ExternalSatisfiers) (provider : SigningProvider)
    (creator : MutableTransactionSignatureCreator) (pubkey : CQPubKey)
    {sigdata : SignatureData} (incomplete : sigdata.complete = false) (fresh : sigdata.signatures = [])
    (maxDatacarrierBytes : Option Nat) (permitBareMultisig : Bool) (dustRelayFee : CFeeRate)
    (mapInputs : COutPoint → CTxOut) (tx : CTransaction) (notCoinBase : tx.isCoinBase = false) :
    let signer := creator.toBase lib SignatureHash SignatureHashSchnorr
    let keyHashScriptSig := (produceSignature hashes satisfiers provider signer
      (payToPubKeyHashScript (pubkey.getID hashes)) sigdata).2.scriptSig
    (keyHashScriptSig = [] ∨ ∀ txin ∈ tx.vin, txin.scriptSig = keyHashScriptSig →
        isStandardTx tx maxDatacarrierBytes permitBareMultisig dustRelayFee ≠ .ok ()) ∧
      (∀ txin ∈ tx.vin, (mapInputs txin.prevout).scriptPubKey = payToPubKeyScript pubkey.toBytes →
        areInputsStandard hashes mapInputs tx = false) ∧
      ∀ txin ∈ tx.vin, (mapInputs txin.prevout).scriptPubKey =
          payToWitnessScript (hashes.sha256 (payToPubKeyScript pubkey.toBytes)) →
        ∀ keyid scriptCode sig, signer.createSig provider keyid scriptCode .witnessV0 = some sig →
          sig ∈ txin.scriptWitness.stack.dropLast → isWitnessStandard hashes mapInputs tx = false := by
  intro signer keyHashScriptSig
  have signs := creator.toBase_signsWithSize SignatureHash SignatureHashSchnorr sigSize
  have sized : sigdata.SignaturesSized (DILITHIUM_SIGNATURE_SIZE + 1) := by
    intro entry held
    rw [fresh] at held
    cases held
  refine ⟨?_, fun txin carried spent => ?_, fun txin carried spent keyid scriptCode sig created below => ?_⟩
  · rcases produceSignature_payToPubKeyHashScript hashes satisfiers provider (Hashes.hash160_length hashes _)
      signs sized incomplete with emptySig | ⟨sig, signedKey, signedSig, sigSized⟩
    · exact Or.inl emptySig
    · have carriedSig : keyHashScriptSig = pushAll [sig, signedKey.toBytes] := signedSig
      refine Or.inr fun txin carried spending => isStandardTx_ne_ok_of_scriptSig carried ?_
      rw [spending, carriedSig, pushAll_keyHash_length sigSized]
      decide
  · have nonstandard := solver_payToPubKeyScript (CQPubKey.toBytes_length pubkey)
    exact areInputsStandard_of_nonstandard notCoinBase carried (by rw [spent, nonstandard])
  · have sigSized := signs _ _ _ _ _ created
    have scriptHash : (hashes.sha256 (payToPubKeyScript pubkey.toBytes)).length = WITNESS_V0_SCRIPTHASH_SIZE :=
      hashes.sha256_length _
    refine isWitnessStandard_of_large_p2wsh_item notCoinBase carried scriptHash spent below ?_
    rw [sigSized]
    decide

/-- `signedKeyOutputs_nonstandard` with the constant library and hash functions,
an empty provider and a transaction without inputs. -/
theorem signedKeyOutputs_nonstandard_zeros :
    let creator : MutableTransactionSignatureCreator := ⟨⟨[], [], 2, 0⟩, 0, 0, SIGHASH_ALL, false⟩
    let SignatureHash : SignatureHasher := fun _ _ _ _ _ _ => List.replicate 32 0
    let SignatureHashSchnorr : SchnorrSignatureHasher := fun _ _ _ _ _ => none
    let satisfiers : ExternalSatisfiers :=
      ⟨fun _ _ _ sigdata => (false, [], sigdata), fun _ _ _ sigdata => (false, [], sigdata)⟩
    let provider : SigningProvider := ⟨fun _ => none, fun _ => none, fun _ => none, fun _ => none⟩
    let mapInputs : COutPoint → CTxOut := fun _ => ⟨0, []⟩
    let tx : CTransaction := ⟨[], [], 2, 0⟩
    let signer := creator.toBase Dilithium.zeros SignatureHash SignatureHashSchnorr
    let keyHashScriptSig := (produceSignature Hashes.zeros satisfiers provider signer
      (payToPubKeyHashScript (CQPubKey.invalid.getID Hashes.zeros)) SignatureData.empty).2.scriptSig
    (keyHashScriptSig = [] ∨ ∀ txin ∈ tx.vin, txin.scriptSig = keyHashScriptSig →
        isStandardTx tx none true ⟨3000⟩ ≠ .ok ()) ∧
      (∀ txin ∈ tx.vin, (mapInputs txin.prevout).scriptPubKey = payToPubKeyScript CQPubKey.invalid.toBytes →
        areInputsStandard Hashes.zeros mapInputs tx = false) ∧
      ∀ txin ∈ tx.vin, (mapInputs txin.prevout).scriptPubKey =
          payToWitnessScript (Hashes.zeros.sha256 (payToPubKeyScript CQPubKey.invalid.toBytes)) →
        ∀ keyid scriptCode sig, signer.createSig provider keyid scriptCode .witnessV0 = some sig →
          sig ∈ txin.scriptWitness.stack.dropLast → isWitnessStandard Hashes.zeros mapInputs tx = false :=
  signedKeyOutputs_nonstandard Dilithium.zeros_signatureSize Hashes.zeros (fun _ _ _ _ _ _ => List.replicate 32 0)
    (fun _ _ _ _ _ => none) ⟨fun _ _ _ sigdata => (false, [], sigdata), fun _ _ _ sigdata => (false, [], sigdata)⟩
    ⟨fun _ => none, fun _ => none, fun _ => none, fun _ => none⟩ ⟨⟨[], [], 2, 0⟩, 0, 0, SIGHASH_ALL, false⟩
    CQPubKey.invalid rfl rfl none true ⟨3000⟩ (fun _ => ⟨0, []⟩) ⟨[], [], 2, 0⟩ rfl

end Qbitcoin
