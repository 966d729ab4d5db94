import Qbitcoin.Lib.AssocList
import Qbitcoin.Script.Solver

/-!
# `ProduceSignature`

The signer of `sign.cpp`: `SignStep` satisfies one standard template,
`ProduceSignature` chains the steps through P2SH and P2WPKH/P2WSH and tests the
result with `VerifyScript` under the standard flags, and
`MutableTransactionSignatureCreator::CreateSig` makes each signature.

Miniscript satisfaction of a witness script and Taproot signing are parameters
(`ExternalSatisfiers`): neither is reached from the single-key templates.

The signature `CreateSig` makes is the library's signature followed by the hash
type byte, `CRYPTO_BYTES + 1` bytes (`createSig_length`); that length is all the
results below need to know about a signature, and the invariant
`SignatureData.SignaturesSized` carries it through the partial signatures a
signing run collects.
-/

namespace Qbitcoin

/-- `CKeyID`: the Hash160 of a public key. -/
abbrev CKeyID := valtype

/-- `KeyOriginInfo`. -/
structure KeyOriginInfo where
  fingerprint : Vector UInt8 4
  path : List UInt32
  deriving DecidableEq, Repr

/-- The lookups of a `SigningProvider` that the signer makes. -/
structure SigningProvider where
  getCScript : valtype → Option CScript
  getPubKey : CKeyID → Option CQPubKey
  getKey : CKeyID → Option CQKey
  getKeyOrigin : CKeyID → Option KeyOriginInfo

/-- The fields of `SignatureData` that `ProduceSignature` reads or writes.  The
maps are association lists into which `emplace` inserts only a new key. -/
structure SignatureData where
  complete : Bool
  witness : Bool
  scriptSig : CScript
  redeemScript : CScript
  witnessScript : CScript
  scriptWitness : CScriptWitness
  signatures : List (CKeyID × CQPubKey × valtype)
  miscPubkeys : List (CKeyID × CQPubKey × KeyOriginInfo)
  /-- The keys of `tap_pubkeys`; `GetPubKey` turns each into the invalid key. -/
  tapPubkeys : List CKeyID
  missingPubkeys : List CKeyID
  missingSigs : List CKeyID
  missingRedeemScript : valtype
  missingWitnessScript : valtype

namespace SignatureData

/-- `SignatureData()`. -/
def empty : SignatureData where
  complete := false
  witness := false
  scriptSig := []
  redeemScript := []
  witnessScript := []
  scriptWitness := ⟨[]⟩
  signatures := []
  miscPubkeys := []
  tapPubkeys := []
  missingPubkeys := []
  missingSigs := []
  missingRedeemScript := List.replicate 20 0
  missingWitnessScript := List.replicate 32 0

/-- Every partial signature held is `size` bytes long. -/
def SignaturesSized (sigdata : SignatureData) (size : Nat) : Prop :=
  ∀ entry ∈ sigdata.signatures, entry.2.2.length = size

end SignatureData

/-- A `BaseSignatureCreator`: how a signature is made, and the checker its
result is tested with. -/
structure BaseSignatureCreator where
  checker : BaseSignatureChecker
  createSig : SigningProvider → CKeyID → CScript → SigVersion → Option valtype

/-- A `MutableTransactionSignatureCreator` for input `nIn` of `txTo`. -/
structure MutableTransactionSignatureCreator where
  txTo : CTransaction
  nIn : Nat
  amount : CAmount
  nHashType : Nat
  /-- Whether precomputed transaction data was supplied. -/
  txdataReady : Bool

namespace MutableTransactionSignatureCreator

variable (lib : Dilithium) (SignatureHash : SignatureHasher)
  (creator : MutableTransactionSignatureCreator)

/-- `MutableTransactionSignatureCreator::CreateSig`.  Signing with
uncompressed keys, or without a known amount, is disabled in witness scripts. -/
def createSig (provider : SigningProvider) (address : CKeyID) (scriptCode : CScript)
    (sigversion : SigVersion) : Option valtype :=
  match provider.getKey address with
  | none => none
  | some key =>
      if sigversion == .witnessV0 && !key.isCompressed then none
      else if sigversion == .witnessV0 && !moneyRange creator.amount then none
      else
        let hashtype := if creator.nHashType = SIGHASH_DEFAULT then SIGHASH_ALL else creator.nHashType
        let hash := SignatureHash scriptCode creator.txTo creator.nIn hashtype creator.amount sigversion
        (key.sign lib hash).map fun vchSig => vchSig ++ [UInt8.ofNat hashtype]

/-- The checker the creator tests with, `MissingDataBehavior::FAIL`. -/
def checker : TransactionSignatureChecker where
  txTo := creator.txTo
  nIn := creator.nIn
  amount := creator.amount
  txdataReady := creator.txdataReady
  mdb := .fail

/-- The creator as `ProduceSignature` sees it. -/
def toBase (SignatureHashSchnorr : SchnorrSignatureHasher) : BaseSignatureCreator where
  checker := creator.checker.toBase lib SignatureHash SignatureHashSchnorr
  createSig := creator.createSig lib SignatureHash

end MutableTransactionSignatureCreator

/-- A creator whose signatures are all `size` bytes long. -/
def BaseSignatureCreator.SignsWithSize (creator : BaseSignatureCreator) (size : Nat) : Prop :=
  ∀ provider keyid scriptCode sigversion sig,
    creator.createSig provider keyid scriptCode sigversion = some sig → sig.length = size

namespace MutableTransactionSignatureCreator

variable {lib : Dilithium} (SignatureHash : SignatureHasher)
  (SignatureHashSchnorr : SchnorrSignatureHasher) (creator : MutableTransactionSignatureCreator)

/-- A signature the creator makes is the library's signature and the hash type byte. -/
theorem createSig_length (sigSize : lib.SignatureSize) {provider : SigningProvider} {address : CKeyID}
    {scriptCode : CScript} {sigversion : SigVersion} {sig : valtype}
    (created : creator.createSig lib SignatureHash provider address scriptCode sigversion = some sig) :
    sig.length = DILITHIUM_SIGNATURE_SIZE + 1 := by
  unfold createSig at created
  split at created
  · cases created
  · split_ifs at created
    all_goals
      obtain ⟨vchSig, signed, rfl⟩ := Option.map_eq_some_iff.mp created
      simp [CQKey.sign_length sigSize signed]

theorem toBase_signsWithSize (sigSize : lib.SignatureSize) :
    (creator.toBase lib SignatureHash SignatureHashSchnorr).SignsWithSize
      (DILITHIUM_SIGNATURE_SIZE + 1) :=
  fun _ _ _ _ _ created => creator.createSig_length SignatureHash sigSize created

end MutableTransactionSignatureCreator

/-- The satisfiers `ProduceSignature` calls outside the standard templates:
Miniscript satisfaction of a witness script, and `SignTaproot`.  Each returns
whether it succeeded, the stack it built and the updated signature data. -/
structure ExternalSatisfiers where
  satisfyMiniscript : SigningProvider → BaseSignatureCreator → CScript → SignatureData →
    Bool × List valtype × SignatureData
  signTaproot : SigningProvider → BaseSignatureCreator → valtype → SignatureData →
    Bool × List valtype × SignatureData

/-- The state `ProduceSignature` threads through its stages: whether the input
is solved so far, the stack built, the template found, and the signature data. -/
structure SignProgress where
  solved : Bool
  result : List valtype
  whichType : TxoutType
  sigdata : SignatureData

/-- The push of one value in `PushAll`: the small numbers by their opcodes. -/
def pushValue (v : valtype) : CScript :=
  if v.length = 0 then [OP_0]
  else if v.length = 1 ∧ 1 ≤ v.head! ∧ v.head! ≤ 16 then [encodeOpN v.head!.toNat]
  else if v.length = 1 ∧ v.head! = 0x81 then [OP_1NEGATE]
  else pushData v

/-- `PushAll`: the scriptSig that pushes `values`, bottom first. -/
def pushAll (values : List valtype) : CScript := values.flatMap pushValue

/-- A value that is not a single byte is pushed as data. -/
theorem pushValue_of_ne_one {v : valtype} (notSingle : v.length ≠ 1) : pushValue v = pushData v := by
  unfold pushValue
  by_cases empty : v.length = 0
  · rw [if_pos empty, List.length_eq_zero_iff.mp empty]
    rfl
  · rw [if_neg empty, if_neg (fun small => notSingle small.1), if_neg (fun negOne => notSingle negOne.1)]

theorem pushAll_of_ne_one {values : List valtype} (notSingle : ∀ v ∈ values, v.length ≠ 1) :
    pushAll values = values.flatMap pushData := by
  unfold pushAll
  induction values with
  | nil => rfl
  | cons v vs pushesRest =>
      rw [List.flatMap_cons, List.flatMap_cons, pushValue_of_ne_one (notSingle v List.mem_cons_self),
        pushesRest (fun w mem => notSingle w (List.mem_cons_of_mem v mem))]

section

variable (hashes : Hashes) (satisfiers : ExternalSatisfiers) (provider : SigningProvider)
  (creator : BaseSignatureCreator)

/-- The static `GetCScript`: the provider's script, or the redeem or witness
script already in the signature data. -/
def getCScript (sigdata : SignatureData) (scriptid : valtype) : Option CScript :=
  match provider.getCScript scriptid with
  | some script => some script
  | none =>
      if hashes.hash160 sigdata.redeemScript = scriptid then some sigdata.redeemScript
      else if hashes.hash160 sigdata.witnessScript = scriptid then some sigdata.witnessScript
      else none

/-- The static `GetPubKey`: from the partial signatures, the miscellaneous keys,
the Taproot keys, and last the provider.  For a Taproot key,
`GetEvenCorrespondingCQPubKey` returns the invalid key. -/
def getPubKey (sigdata : SignatureData) (address : CKeyID) : Option CQPubKey :=
  match sigdata.signatures.lookup address with
  | some (pubkey, _) => some pubkey
  | none =>
      match sigdata.miscPubkeys.lookup address with
      | some (pubkey, _) => some pubkey
      | none =>
          if sigdata.tapPubkeys.contains address then some CQPubKey.invalid
          else provider.getPubKey address

/-- The key origin the provider knows for a key, recorded among the
miscellaneous keys. -/
def recordKeyOrigin (sigdata : SignatureData) (keyid : CKeyID) (pubkey : CQPubKey) : SignatureData :=
  match provider.getKeyOrigin keyid with
  | some info => { sigdata with miscPubkeys := sigdata.miscPubkeys.emplace keyid (pubkey, info) }
  | none => sigdata

/-- The static `CreateSig`: a partial signature already held for the key, or a
new one from the creator, recorded in the signature data. -/
def createSig (sigdata : SignatureData) (pubkey : CQPubKey) (scriptcode : CScript)
    (sigversion : SigVersion) : Option valtype × SignatureData :=
  let keyid := pubkey.getID hashes
  match sigdata.signatures.lookup keyid with
  | some (_, sig) => (some sig, sigdata)
  | none =>
      let sigdata := recordKeyOrigin provider sigdata keyid pubkey
      match creator.createSig provider keyid scriptcode sigversion with
      | some sig => (some sig, { sigdata with signatures := sigdata.signatures ++ [(keyid, pubkey, sig)] })
      | none => (none, { sigdata with missingSigs := sigdata.missingSigs ++ [keyid] })

/-- The loop of the `MULTISIG` case: every key is tried, so that the signature
data collects every signature that can be made, and at most `required` of them
are kept. -/
def signMultisigKeys (required : Nat) (sigversion : SigVersion) (scriptPubKey : CScript) :
    List valtype → List valtype → SignatureData → List valtype × SignatureData
  | [], ret, sigdata => (ret, sigdata)
  | pubkey :: pubkeys, ret, sigdata =>
      match createSig hashes provider creator sigdata (CQPubKey.ofBytes pubkey) scriptPubKey sigversion with
      | (some sig, sigdata) =>
          signMultisigKeys required sigversion scriptPubKey pubkeys
            (if ret.length < required + 1 then ret ++ [sig] else ret) sigdata
      | (none, sigdata) => signMultisigKeys required sigversion scriptPubKey pubkeys ret sigdata

/-- The padding loop of the `MULTISIG` case,
`for (i = 0; i + ret.size() < required + 1; ++i) ret.emplace_back()`: both
`i` and the size grow, so only about half of the missing elements are added. -/
def padMultisig (required i : Nat) (ret : List valtype) : List valtype :=
  if i + ret.length < required + 1 then padMultisig required (i + 1) (ret ++ [[]]) else ret
termination_by required + 1 - (i + ret.length)
decreasing_by
  simp only [List.length_append, List.length_singleton]
  omega

/-- `SignStep`: the stack that satisfies one standard template.  For
`SCRIPTHASH` and `WITNESS_V0_SCRIPTHASH` it is the script to satisfy next, and
for `WITNESS_V0_KEYHASH` the key hash.  A multisig stack starts with an empty
element, which works around the `CHECKMULTISIG` bug. -/
def signStep (scriptPubKey : CScript) (sigversion : SigVersion) (sigdata : SignatureData) :
    SignProgress :=
  let (whichType, vSolutions) := solver scriptPubKey
  match whichType with
  | .nonstandard | .nullData | .witnessUnknown => ⟨false, [], whichType, sigdata⟩
  | .pubkey =>
      match createSig hashes provider creator sigdata (CQPubKey.ofBytes (vSolutions.headD []))
          scriptPubKey sigversion with
      | (some sig, sigdata) => ⟨true, [sig], whichType, sigdata⟩
      | (none, sigdata) => ⟨false, [], whichType, sigdata⟩
  | .pubkeyhash =>
      let keyID := vSolutions.headD []
      match getPubKey provider sigdata keyID with
      | none => ⟨false, [], whichType, { sigdata with missingPubkeys := sigdata.missingPubkeys ++ [keyID] }⟩
      | some pubkey =>
          match createSig hashes provider creator sigdata pubkey scriptPubKey sigversion with
          | (some sig, sigdata) => ⟨true, [sig, pubkey.toBytes], whichType, sigdata⟩
          | (none, sigdata) => ⟨false, [], whichType, sigdata⟩
  | .scripthash =>
      let h160 := vSolutions.headD []
      match getCScript hashes provider sigdata h160 with
      | some scriptRet => ⟨true, [scriptRet], whichType, sigdata⟩
      | none => ⟨false, [], whichType, { sigdata with missingRedeemScript := h160 }⟩
  | .multisig =>
      let required := (vSolutions.headD []).headD 0 |>.toNat
      let (ret, sigdata) := signMultisigKeys hashes provider creator required sigversion scriptPubKey
        (vSolutions.drop 1).dropLast [[]] sigdata
      let ok := ret.length == required + 1
      ⟨ok, padMultisig required 0 ret, whichType, sigdata⟩
  | .witnessV0KeyHash => ⟨true, [vSolutions.headD []], whichType, sigdata⟩
  | .witnessV0ScriptHash =>
      match getCScript hashes provider sigdata (hashes.ripemd160 (vSolutions.headD [])) with
      | some scriptRet => ⟨true, [scriptRet], whichType, sigdata⟩
      | none => ⟨false, [], whichType, { sigdata with missingWitnessScript := vSolutions.headD [] }⟩
  | .witnessV1Taproot =>
      let (solved, ret, sigdata) := satisfiers.signTaproot provider creator (vSolutions.headD []) sigdata
      ⟨solved, ret, whichType, sigdata⟩
  | .anchor => ⟨true, [], whichType, sigdata⟩

/-- The P2SH stage of `ProduceSignature`: a solved `SCRIPTHASH` output continues
with its redeem script, which is returned beside the progress. -/
def signRedeemScript (progress : SignProgress) : Option CScript × SignProgress :=
  if progress.solved && progress.whichType == .scripthash then
    let subscript := progress.result.headD []
    let sigdata := { progress.sigdata with redeemScript := subscript }
    let step := signStep hashes satisfiers provider creator subscript .base sigdata
    (some subscript, { step with solved := step.solved && step.whichType != .scripthash })
  else (none, progress)

/-- The witness stage of `ProduceSignature`: a key-hash or script-hash witness
program is satisfied by its witness script, whose stack becomes the witness.
Miniscript is tried when the template satisfier produced nothing. -/
def signWitnessProgram (p2sh : Bool) (progress : SignProgress) : SignProgress :=
  let ⟨solved, result, whichType, sigdata⟩ := progress
  if solved && whichType == .witnessV0KeyHash then
    let witnessscript := payToPubKeyHashScript (result.headD [])
    let step := signStep hashes satisfiers provider creator witnessscript .witnessV0 sigdata
    ⟨step.solved, [], whichType,
      { step.sigdata with scriptWitness := ⟨step.result⟩, witness := true }⟩
  else if solved && whichType == .witnessV0ScriptHash then
    let witnessscript := result.headD []
    let sigdata := { sigdata with witnessScript := witnessscript }
    let step := signStep hashes satisfiers provider creator witnessscript .witnessV0 sigdata
    let solved := step.solved && step.whichType != .scripthash &&
      step.whichType != .witnessV0ScriptHash && step.whichType != .witnessV0KeyHash
    let (solved, result, sigdata) :=
      if !solved && step.result.isEmpty then
        satisfiers.satisfyMiniscript provider creator witnessscript step.sigdata
      else (solved, step.result, step.sigdata)
    ⟨solved, [], whichType,
      { sigdata with scriptWitness := ⟨result ++ [witnessscript]⟩, witness := true }⟩
  else if whichType == .witnessV1Taproot && !p2sh then
    ⟨solved, [], whichType,
      { sigdata with witness := true,
                     scriptWitness := if solved then ⟨result⟩ else sigdata.scriptWitness }⟩
  else if solved && whichType == .witnessUnknown then
    ⟨solved, result, whichType, { sigdata with witness := true }⟩
  else progress

/-- The end of `ProduceSignature`: the scriptSig is built, and the input is
complete only if it verifies under the standard flags. -/
def finishSignature (fromPubKey : CScript) (subscript : Option CScript) (progress : SignProgress) :
    Bool × SignatureData :=
  let sigdata := progress.sigdata
  let sigdata := if !sigdata.witness then { sigdata with scriptWitness := ⟨[]⟩ } else sigdata
  let result := match subscript with
    | some subscript => progress.result ++ [subscript]
    | none => progress.result
  let sigdata := { sigdata with scriptSig := pushAll result }
  let complete := progress.solved &&
    (verifyScript hashes creator.checker STANDARD_SCRIPT_VERIFY_FLAGS sigdata.scriptSig fromPubKey
      sigdata.scriptWitness).toBool
  (complete, { sigdata with complete })

/-- `ProduceSignature`: whether the input is complete, and the signature data
with its scriptSig and witness. -/
def produceSignature (fromPubKey : CScript) (sigdata : SignatureData) : Bool × SignatureData :=
  if sigdata.complete then (true, sigdata)
  else
    let progress := signStep hashes satisfiers provider creator fromPubKey .base sigdata
    let (subscript, progress) := signRedeemScript hashes satisfiers provider creator progress
    let progress := signWitnessProgram hashes satisfiers provider creator subscript.isSome progress
    finishSignature hashes creator fromPubKey subscript progress

end

section Runs

variable (hashes : Hashes) (satisfiers : ExternalSatisfiers) (provider : SigningProvider)
  {creator : BaseSignatureCreator} {size : Nat}

@[simp]
theorem signatures_recordKeyOrigin (sigdata : SignatureData) (keyid : CKeyID) (pubkey : CQPubKey) :
    (recordKeyOrigin provider sigdata keyid pubkey).signatures = sigdata.signatures := by
  unfold recordKeyOrigin
  split <;> rfl

/-- A signature `CreateSig` returns, held before or new, has the creator's size,
and so do the signatures held after it. -/
theorem createSig_sized (signs : creator.SignsWithSize size) {sigdata : SignatureData}
    (sized : sigdata.SignaturesSized size) (pubkey : CQPubKey) (scriptcode : CScript)
    (sigversion : SigVersion) :
    (∀ sig, (createSig hashes provider creator sigdata pubkey scriptcode sigversion).1 = some sig →
      sig.length = size) ∧
      (createSig hashes provider creator sigdata pubkey scriptcode sigversion).2.SignaturesSized size := by
  unfold createSig
  dsimp only
  split
  · rename_i held found
    refine ⟨fun sig returned => ?_, sized⟩
    cases returned
    exact sized _ (List.mem_of_lookup_eq_some found)
  · split
    · rename_i sig created
      refine ⟨fun sig' returned => ?_, fun entry mem => ?_⟩
      · cases returned
        exact signs _ _ _ _ _ created
      · simp only [signatures_recordKeyOrigin, List.mem_append, List.mem_singleton] at mem
        rcases mem with held | rfl
        · exact sized entry held
        · exact signs _ _ _ _ _ created
    · refine ⟨fun sig returned => (by cases returned), fun entry mem => ?_⟩
      simp only [signatures_recordKeyOrigin] at mem
      exact sized entry mem

/-- On a key-hash script, `SignStep` either fails with nothing or returns a
signature of the creator's size and the key. -/
theorem signStep_payToPubKeyHashScript {hash : valtype} (sized20 : hash.length = 20)
    (signs : creator.SignsWithSize size) {sigdata : SignatureData}
    (sized : sigdata.SignaturesSized size) (sigversion : SigVersion) :
    (∃ sigdata', signStep hashes satisfiers provider creator (payToPubKeyHashScript hash) sigversion
        sigdata = ⟨false, [], .pubkeyhash, sigdata'⟩) ∨
      ∃ sig pubkey sigdata', signStep hashes satisfiers provider creator (payToPubKeyHashScript hash)
        sigversion sigdata = ⟨true, [sig, CQPubKey.toBytes pubkey], .pubkeyhash, sigdata'⟩ ∧
        sig.length = size := by
  unfold signStep
  rw [solver_payToPubKeyHashScript sized20]
  dsimp only
  split
  · exact Or.inl ⟨_, rfl⟩
  · rename_i pubkey _
    obtain ⟨sigSized, -⟩ :=
      createSig_sized hashes provider signs sized pubkey (payToPubKeyHashScript hash) sigversion
    split
    · rename_i sig sigdata' created
      exact Or.inr ⟨sig, pubkey, sigdata', rfl, sigSized sig (by rw [created])⟩
    · exact Or.inl ⟨_, rfl⟩

theorem signStep_payToWitnessScript {program : valtype} (sized20 : program.length = 20)
    (sigversion : SigVersion) (sigdata : SignatureData) :
    signStep hashes satisfiers provider creator (payToWitnessScript program) sigversion sigdata =
      ⟨true, [program], .witnessV0KeyHash, sigdata⟩ := by
  unfold signStep
  rw [solver_payToWitnessScript sized20]
  rfl

theorem signStep_payToPubKeyScript {pubkey : valtype} (sized : pubkey.length = DILITHIUM_PUBLICKEY_SIZE)
    (sigversion : SigVersion) (sigdata : SignatureData) :
    signStep hashes satisfiers provider creator (payToPubKeyScript pubkey) sigversion sigdata =
      ⟨false, [], .nonstandard, sigdata⟩ := by
  unfold signStep
  rw [solver_payToPubKeyScript sized]

theorem signRedeemScript_of_ne_scripthash {progress : SignProgress}
    (notP2sh : progress.whichType ≠ .scripthash) :
    signRedeemScript hashes satisfiers provider creator progress = (none, progress) := by
  simp [signRedeemScript, notP2sh]

/-- Outside the witness templates the witness stage changes nothing. -/
theorem signWitnessProgram_of_not_witness {p2sh : Bool} {progress : SignProgress}
    (notKeyHash : progress.whichType ≠ .witnessV0KeyHash)
    (notScriptHash : progress.whichType ≠ .witnessV0ScriptHash)
    (notTaproot : progress.whichType ≠ .witnessV1Taproot)
    (notUnknown : progress.whichType ≠ .witnessUnknown) :
    signWitnessProgram hashes satisfiers provider creator p2sh progress = progress := by
  obtain ⟨solved, result, whichType, sigdata⟩ := progress
  simp_all [signWitnessProgram]

/-- The input is reported complete only if its scriptSig and witness verify
under the standard flags with the creator's checker. -/
theorem verifyScript_of_finishSignature {fromPubKey : CScript} {subscript : Option CScript}
    {progress : SignProgress}
    (completed : (finishSignature hashes creator fromPubKey subscript progress).1 = true) :
    verifyScript hashes creator.checker STANDARD_SCRIPT_VERIFY_FLAGS
      (finishSignature hashes creator fromPubKey subscript progress).2.scriptSig fromPubKey
      (finishSignature hashes creator fromPubKey subscript progress).2.scriptWitness = .ok () := by
  simp only [finishSignature, Bool.and_eq_true] at completed ⊢
  obtain ⟨-, verified⟩ := completed
  obtain ⟨⟨⟩, verified⟩ := Except.toBool_eq_true.mp verified
  exact verified

/-- `ProduceSignature` reports an input complete only if it was complete
already or its scriptSig and witness verify under the standard flags. -/
theorem produceSignature_complete {fromPubKey : CScript} {sigdata : SignatureData}
    (completed : (produceSignature hashes satisfiers provider creator fromPubKey sigdata).1 = true) :
    sigdata.complete = true ∨
      verifyScript hashes creator.checker STANDARD_SCRIPT_VERIFY_FLAGS
        (produceSignature hashes satisfiers provider creator fromPubKey sigdata).2.scriptSig fromPubKey
        (produceSignature hashes satisfiers provider creator fromPubKey sigdata).2.scriptWitness =
          .ok () := by
  cases incomplete : sigdata.complete with
  | true => exact Or.inl rfl
  | false =>
      simp only [produceSignature, incomplete, Bool.false_eq_true, if_false] at completed ⊢
      exact Or.inr (verifyScript_of_finishSignature hashes completed)

/-- Signing a key-hash output leaves an empty scriptSig or the pushes of a
signature of the creator's size and a key. -/
theorem produceSignature_payToPubKeyHashScript {hash : valtype} (sized20 : hash.length = 20)
    (signs : creator.SignsWithSize size) {sigdata : SignatureData}
    (sized : sigdata.SignaturesSized size) (incomplete : sigdata.complete = false) :
    (produceSignature hashes satisfiers provider creator (payToPubKeyHashScript hash) sigdata).2.scriptSig =
        pushAll [] ∨
      ∃ sig pubkey, (produceSignature hashes satisfiers provider creator (payToPubKeyHashScript hash)
        sigdata).2.scriptSig = pushAll [sig, CQPubKey.toBytes pubkey] ∧ sig.length = size := by
  rcases signStep_payToPubKeyHashScript hashes satisfiers provider sized20 signs sized .base with ⟨sigdata', stepped⟩ | ⟨sig, pubkey, sigdata', stepped, sigSized⟩
  · left
    simp [produceSignature, incomplete, stepped, signRedeemScript, signWitnessProgram, finishSignature]
  · right
    refine ⟨sig, pubkey, ?_, sigSized⟩
    simp [produceSignature, incomplete, stepped, signRedeemScript, signWitnessProgram, finishSignature]

/-- Signing a P2WPKH output leaves an empty scriptSig, and a witness that is
empty or holds a signature of the creator's size and a key. -/
theorem produceSignature_payToWitnessScript {program : valtype} (sized20 : program.length = 20)
    (signs : creator.SignsWithSize size) {sigdata : SignatureData}
    (sized : sigdata.SignaturesSized size) (incomplete : sigdata.complete = false) :
    (produceSignature hashes satisfiers provider creator (payToWitnessScript program) sigdata).2.scriptSig =
        pushAll [] ∧
      ((produceSignature hashes satisfiers provider creator (payToWitnessScript program)
          sigdata).2.scriptWitness.stack = [] ∨
        ∃ sig pubkey, (produceSignature hashes satisfiers provider creator (payToWitnessScript program)
          sigdata).2.scriptWitness.stack = [sig, CQPubKey.toBytes pubkey] ∧ sig.length = size) := by
  rcases signStep_payToPubKeyHashScript hashes satisfiers provider sized20 signs sized .witnessV0 with ⟨sigdata', stepped⟩ | ⟨sig, pubkey, sigdata', stepped, sigSized⟩
  · simp [produceSignature, incomplete, signStep_payToWitnessScript hashes satisfiers provider sized20, signRedeemScript,
      signWitnessProgram, stepped, finishSignature]
  · refine ⟨?_, Or.inr ⟨sig, pubkey, ?_, sigSized⟩⟩
    · simp [produceSignature, incomplete, signStep_payToWitnessScript hashes satisfiers provider sized20, signRedeemScript,
        signWitnessProgram, stepped, finishSignature]
    · simp [produceSignature, incomplete, signStep_payToWitnessScript hashes satisfiers provider sized20, signRedeemScript,
        signWitnessProgram, stepped, finishSignature]

/-- A bare-key output of a 1952-byte key is not solved: the scriptSig is empty
and the input is not complete. -/
theorem produceSignature_payToPubKeyScript {pubkey : valtype}
    (sized : pubkey.length = DILITHIUM_PUBLICKEY_SIZE) {sigdata : SignatureData}
    (incomplete : sigdata.complete = false) :
    (produceSignature hashes satisfiers provider creator (payToPubKeyScript pubkey) sigdata).1 = false ∧
      (produceSignature hashes satisfiers provider creator (payToPubKeyScript pubkey)
        sigdata).2.scriptSig = pushAll [] := by
  simp [produceSignature, incomplete, signStep_payToPubKeyScript hashes satisfiers provider sized, signRedeemScript,
    signWitnessProgram, finishSignature]

end Runs

section Rejection

/-! What the standard verification makes of the scriptSigs and witnesses the
signer builds for single-key outputs: a signature of `CRYPTO_BYTES + 1` bytes
fails the DER test, and an empty scriptSig or witness leaves no signature. -/

variable {hashes : Hashes} {checker : BaseSignatureChecker} {flags : Nat}
  {scriptSig : CScript} {witness : CScriptWitness}

theorem hasFlag_standard_dersig : hasFlag STANDARD_SCRIPT_VERIFY_FLAGS SCRIPT_VERIFY_DERSIG = true := by
  decide

theorem hasFlag_standard_witness : hasFlag STANDARD_SCRIPT_VERIFY_FLAGS SCRIPT_VERIFY_WITNESS = true := by
  decide

/-- The empty scriptSig leaves the empty stack. -/
theorem evalScript_pushAll_nil {sigversion : SigVersion} {execdata : ScriptExecutionData}
    {final : List valtype}
    (running : evalScript hashes checker flags sigversion [] (pushAll []) execdata = .ok final) :
    final = [] := by
  have noPushes : pushAll [] = List.flatMap pushData [] := rfl
  rw [noPushes] at running
  simpa using evalScript_flatMap_pushData (by simp) running

/-- A bare-key output is not spent by the empty scriptSig. -/
theorem verifyScript_payToPubKeyScript_ne_ok {pubkey : valtype} (emptySig : scriptSig = pushAll []) :
    verifyScript hashes checker flags scriptSig (payToPubKeyScript pubkey) witness ≠ .ok () := by
  intro passed
  obtain ⟨sig, rest, sigRun, -⟩ := verifyScript_payToPubKey_accepted passed
  rw [emptySig] at sigRun
  cases evalScript_pushAll_nil sigRun

/-- Under `DERSIG`, a key-hash output is spent neither by the empty scriptSig
nor by the pushes of a signature of `CRYPTO_BYTES + 1` bytes and a key. -/
theorem verifyScript_payToPubKeyHashScript_ne_ok {hash : valtype}
    (derSig : hasFlag flags SCRIPT_VERIFY_DERSIG = true)
    (signed : scriptSig = pushAll [] ∨ ∃ sig pubkey, scriptSig = pushAll [sig, CQPubKey.toBytes pubkey] ∧
      sig.length = DILITHIUM_SIGNATURE_SIZE + 1) :
    verifyScript hashes checker flags scriptSig (payToPubKeyHashScript hash) witness ≠ .ok () := by
  intro passed
  obtain ⟨pubkey, sig, rest, sigRun, -, encoded, -⟩ := verifyScript_payToPubKeyHash_accepted passed
  rcases signed with emptySig | ⟨sig', pubkey', rfl, sigSize⟩
  · rw [emptySig] at sigRun
    cases evalScript_pushAll_nil sigRun
  · have pushes : ∀ v ∈ [sig', pubkey'.toBytes], v.length ≠ 1 ∧ v.length < 2 ^ 32 := by
      simp [sigSize, DILITHIUM_SIGNATURE_SIZE, DILITHIUM_PUBLICKEY_SIZE]
    rw [pushAll_of_ne_one (fun v mem => (pushes v mem).1)] at sigRun
    have stacked := evalScript_flatMap_pushData (fun v mem => (pushes v mem).2) sigRun
    simp only [List.reverse_cons, List.reverse_nil, List.nil_append, List.cons_append,
      List.append_nil, List.cons.injEq] at stacked
    obtain ⟨-, rfl, -⟩ := stacked
    rw [checkSignatureEncoding_of_long derSig (by rw [sigSize]; decide)] at encoded
    cases encoded

/-- Under `WITNESS` and `DERSIG`, a P2WPKH output is spent neither by the empty
witness nor by a witness of a signature of `CRYPTO_BYTES + 1` bytes and a key. -/
theorem verifyScript_payToWitnessScript_ne_ok {program : valtype}
    (witnessFlag : hasFlag flags SCRIPT_VERIFY_WITNESS = true)
    (derSig : hasFlag flags SCRIPT_VERIFY_DERSIG = true)
    (keyHash : program.length = WITNESS_V0_KEYHASH_SIZE)
    (signed : witness.stack = [] ∨ ∃ sig pubkey, witness.stack = [sig, pubkey] ∧
      sig.length = DILITHIUM_SIGNATURE_SIZE + 1) :
    verifyScript hashes checker flags scriptSig (payToWitnessScript program) witness ≠ .ok () := by
  intro passed
  obtain ⟨-, sig, pubkey, stacked, -, encoded, -⟩ :=
    verifyScript_payToWitnessScript_accepted witnessFlag keyHash passed
  rcases signed with emptyWitness | ⟨sig', pubkey', signedStack, sigSize⟩
  · rw [emptyWitness] at stacked
    cases stacked
  · rw [signedStack, List.cons.injEq] at stacked
    obtain ⟨rfl, -⟩ := stacked
    rw [checkSignatureEncoding_of_long derSig (by rw [sigSize]; decide)] at encoded
    cases encoded

end Rejection

/-- The signer's own single-key outputs fail the standard verification: for a
bare key, a key hash or a P2WPKH key hash, the scriptSig and witness that
`ProduceSignature` builds with a `MutableTransactionSignatureCreator` are
rejected by `VerifyScript` under the standard flags, whatever the checker, and
the input is never reported complete. -/
theorem produceSignature_keyOutputs_rejected {lib : Dilithium} (sigSize : lib.SignatureSize)
    (hashes : Hashes) (SignatureHash : SignatureHasher) (SignatureHashSchnorr : SchnorrSignatureHasher)
    (satisfiers : ExternalSatisfiers) (provider : SigningProvider)
    (creator : MutableTransactionSignatureCreator) (checker : BaseSignatureChecker)
    (pubkey : CQPubKey) {scriptPubKey : CScript}
    (template : scriptPubKey = payToPubKeyScript pubkey.toBytes ∨
      scriptPubKey = payToPubKeyHashScript (pubkey.getID hashes) ∨
      scriptPubKey = payToWitnessScript (pubkey.getID hashes))
    {sigdata : SignatureData} (incomplete : sigdata.complete = false)
    (fresh : sigdata.signatures = []) :
    let signed := produceSignature hashes satisfiers provider
      (creator.toBase lib SignatureHash SignatureHashSchnorr) scriptPubKey sigdata
    signed.1 = false ∧
      verifyScript hashes checker STANDARD_SCRIPT_VERIFY_FLAGS signed.2.scriptSig scriptPubKey
        signed.2.scriptWitness ≠ .ok () := by
  intro signed
  have signs := creator.toBase_signsWithSize SignatureHash SignatureHashSchnorr sigSize
  have sized : sigdata.SignaturesSized (DILITHIUM_SIGNATURE_SIZE + 1) := by
    intro entry held
    rw [fresh] at held
    cases held
  have keyHash : (pubkey.getID hashes).length = 20 := Hashes.hash160_length hashes _
  have rejected : ∀ checker' : BaseSignatureChecker, verifyScript hashes checker'
      STANDARD_SCRIPT_VERIFY_FLAGS signed.2.scriptSig scriptPubKey signed.2.scriptWitness ≠ .ok () := by
    intro checker'
    rcases template with rfl | rfl | rfl
    · obtain ⟨-, emptySig⟩ := produceSignature_payToPubKeyScript hashes satisfiers provider
        (CQPubKey.toBytes_length pubkey) incomplete
      exact verifyScript_payToPubKeyScript_ne_ok emptySig
    · exact verifyScript_payToPubKeyHashScript_ne_ok hasFlag_standard_dersig
        (produceSignature_payToPubKeyHashScript hashes satisfiers provider keyHash signs sized incomplete)
    · obtain ⟨-, signedWitness⟩ := produceSignature_payToWitnessScript hashes satisfiers provider
        keyHash signs sized incomplete
      refine verifyScript_payToWitnessScript_ne_ok hasFlag_standard_witness hasFlag_standard_dersig
        keyHash ?_
      rcases signedWitness with emptyWitness | ⟨sig, key, signedStack, sigLength⟩
      · exact Or.inl emptyWitness
      · exact Or.inr ⟨sig, key.toBytes, signedStack, sigLength⟩
  refine ⟨?_, rejected checker⟩
  cases completed : signed.1 with
  | false => rfl
  | true =>
      rcases produceSignature_complete hashes satisfiers provider completed with wasComplete | verified
      · rw [incomplete] at wasComplete
        cases wasComplete
      · exact absurd verified (rejected _)

set_option maxRecDepth 20000 in
/-- `produceSignature_keyOutputs_rejected` for a key-hash output, with the
constant library and hash functions, a provider that holds the key, and fresh
signature data: the signer does sign, with a signature one byte too long. -/
theorem produceSignature_keyOutputs_rejected_zeros :
    let key := CQKey.generateRandomQKey Dilithium.zeros []
    let pubkey := (key.getPubKey Dilithium.zeros []).1
    let creator : MutableTransactionSignatureCreator := ⟨⟨[], [], 2, 0⟩, 0, 0, SIGHASH_ALL, false⟩
    let SignatureHash : SignatureHasher := fun _ _ _ _ _ _ => List.replicate 32 0
    let SignatureHashSchnorr : SchnorrSignatureHasher := fun _ _ _ _ _ => none
    let satisfiers : ExternalSatisfiers :=
      ⟨fun _ _ _ sigdata => (false, [], sigdata), fun _ _ _ sigdata => (false, [], sigdata)⟩
    let provider : SigningProvider := ⟨fun _ => none,
      fun id => if id = pubkey.getID Hashes.zeros then some pubkey else none,
      fun id => if id = pubkey.getID Hashes.zeros then some key else none, fun _ => none⟩
    let scriptPubKey := payToPubKeyHashScript (pubkey.getID Hashes.zeros)
    let signed := produceSignature Hashes.zeros satisfiers provider
      (creator.toBase Dilithium.zeros SignatureHash SignatureHashSchnorr) scriptPubKey SignatureData.empty
    key.isValid = true ∧ signed.2.signatures.map (fun entry => entry.2.2.length) = [DILITHIUM_SIGNATURE_SIZE + 1] ∧
      signed.1 = false ∧
      verifyScript Hashes.zeros (creator.checker.toBase Dilithium.zeros SignatureHash SignatureHashSchnorr)
        STANDARD_SCRIPT_VERIFY_FLAGS signed.2.scriptSig scriptPubKey signed.2.scriptWitness ≠ .ok () :=
  ⟨by decide, by decide,
    produceSignature_keyOutputs_rejected Dilithium.zeros_signatureSize Hashes.zeros _ _ _ _ _ _ _
      (Or.inr (Or.inl rfl)) rfl rfl⟩

end Qbitcoin
