import Qbitcoin.Key.QKey
import Qbitcoin.Primitives.Transaction
import Qbitcoin.Script.Types

/-!
# `GenericTransactionSignatureChecker`

The signature checker that validation and signing use, for one input `nIn`
of `txTo` spending `amount`.  The digests `SignatureHash` and
`SignatureHashSchnorr` are parameters of the checker: no result here depends on
their values.

In this fork every key goes through `CQPubKey`, whose constructor invalidates a
byte string of any length but 1952.  So the branch of `CheckECDSASignature` that
accepts 33- and 65-byte keys without any verification is unreachable
(`checkECDSASignature_verified`), and `QXOnlyPubKey::VerifySchnorr` rejects
every signature, so `CheckSchnorrSignature` never succeeds
(`checkSchnorrSignature_ne_ok`).
-/

namespace Qbitcoin

/-- `SignatureHash(scriptCode, txTo, nIn, nHashType, amount, sigversion)`. -/
abbrev SignatureHasher := CScript → CTransaction → Nat → Nat → CAmount → SigVersion → valtype

/-- `SignatureHashSchnorr`, `none` where it returns `false`. -/
abbrev SchnorrSignatureHasher :=
  ScriptExecutionData → CTransaction → Nat → Nat → SigVersion → Option valtype

/-- `MissingDataBehavior`. -/
inductive MissingDataBehavior where
  | assertFail
  | fail
  deriving DecidableEq, Repr

/-- The data of a `GenericTransactionSignatureChecker`. -/
structure TransactionSignatureChecker where
  txTo : CTransaction
  nIn : Nat
  amount : CAmount
  /-- Whether precomputed transaction data was supplied (`txdata != nullptr`). -/
  txdataReady : Bool
  mdb : MissingDataBehavior

namespace TransactionSignatureChecker

variable (lib : Dilithium) (SignatureHash : SignatureHasher)
  (SignatureHashSchnorr : SchnorrSignatureHasher) (checker : TransactionSignatureChecker)

/-- `HandleMissingData`: `ASSERT_FAIL` aborts the process, which can accept
nothing; both behaviours are a failed check. -/
def handleMissingData : Bool := false

/-- `GenericTransactionSignatureChecker::CheckECDSASignature`.  The last byte of
the signature is the hash type; the rest is verified as a Dilithium signature,
except for 33- and 65-byte keys, which pass unverified once `CQPubKey` accepts
them. -/
def checkECDSASignature (vchSigIn vchPubKey : valtype) (scriptCode : CScript)
    (sigversion : SigVersion) : Bool :=
  let pubkey := CQPubKey.ofBytes vchPubKey
  if !pubkey.isValid then false
  else
    match vchSigIn.getLast? with
    | none => false
    | some nHashType =>
        let vchSig := vchSigIn.dropLast
        if sigversion == .witnessV0 && checker.amount < 0 then handleMissingData
        else
          let sighash := SignatureHash scriptCode checker.txTo checker.nIn nHashType.toNat
            checker.amount sigversion
          if vchPubKey.length = 33 ∨ vchPubKey.length = 65 then true
          else pubkey.verify lib sighash vchSig

/-- `GenericTransactionSignatureChecker::CheckDilithiumSignature`: the whole
signature, hash-type byte included, is verified against the `SIGHASH_ALL`
digest. -/
def checkDilithiumSignature (vchSigIn vchPubKey : valtype) (scriptCode : CScript)
    (sigversion : SigVersion) : Bool :=
  let pubkey := CQPubKey.ofBytes vchPubKey
  if !pubkey.isValid then false
  else if vchSigIn.isEmpty then false
  else if vchSigIn.length < DILITHIUM_SIGNATURE_SIZE then false
  else
    let sighash := SignatureHash scriptCode checker.txTo checker.nIn SIGHASH_ALL checker.amount
      sigversion
    pubkey.verify lib sighash vchSigIn

/-- `GenericTransactionSignatureChecker::CheckSchnorrSignature`.  The last step,
`QXOnlyPubKey::VerifySchnorr`, returns `false` for every input in this fork. -/
def checkSchnorrSignature (sig _pubkey : valtype) (sigversion : SigVersion)
    (execdata : ScriptExecutionData) : Except ScriptError Unit :=
  if sig.length ≠ 64 ∧ sig.length ≠ 65 then .error .schnorrSigSize
  else
    let hashtype := if sig.length = 65 then (sig.getLastD 0).toNat else 0
    if sig.length = 65 ∧ hashtype = 0 then .error .schnorrSigHashtype
    else if !checker.txdataReady then
      if handleMissingData then .ok () else .error .unknownError
    else
      match SignatureHashSchnorr execdata checker.txTo checker.nIn hashtype sigversion with
      | none => .error .schnorrSigHashtype
      | some _ => .error .schnorrSig

/-- `GenericTransactionSignatureChecker::CheckLockTime`.  The C++ reads
`txTo->vin[nIn]` unchecked; an index out of range fails here. -/
def checkLockTime (nLockTime : Int) : Bool :=
  let txLockTime : Int := checker.txTo.nLockTime.toNat
  let sameKind := (txLockTime < LOCKTIME_THRESHOLD && nLockTime < LOCKTIME_THRESHOLD) ||
    (txLockTime ≥ LOCKTIME_THRESHOLD && nLockTime ≥ LOCKTIME_THRESHOLD)
  if !sameKind then false
  else if nLockTime > txLockTime then false
  else
    match checker.txTo.vin[checker.nIn]? with
    | none => false
    | some input => input.nSequence != SEQUENCE_FINAL

/-- `GenericTransactionSignatureChecker::CheckSequence`, for the non-negative
operand `OP_CHECKSEQUENCEVERIFY` passes. -/
def checkSequence (nSequence : Int) : Bool :=
  match checker.txTo.vin[checker.nIn]? with
  | none => false
  | some input =>
      let txToSequence := input.nSequence.toNat
      let nLockTimeMask := SEQUENCE_LOCKTIME_TYPE_FLAG ||| SEQUENCE_LOCKTIME_MASK
      let txToSequenceMasked := txToSequence &&& nLockTimeMask
      let nSequenceMasked := nSequence.toNat &&& nLockTimeMask
      if checker.txTo.version < 2 then false
      else if txToSequence &&& SEQUENCE_LOCKTIME_DISABLE_FLAG ≠ 0 then false
      else if !((txToSequenceMasked < SEQUENCE_LOCKTIME_TYPE_FLAG &&
            nSequenceMasked < SEQUENCE_LOCKTIME_TYPE_FLAG) ||
          (txToSequenceMasked ≥ SEQUENCE_LOCKTIME_TYPE_FLAG &&
            nSequenceMasked ≥ SEQUENCE_LOCKTIME_TYPE_FLAG)) then false
      else nSequenceMasked ≤ txToSequenceMasked

/-- The checker as the interpreter sees it. -/
def toBase : BaseSignatureChecker where
  checkECDSASignature := checker.checkECDSASignature lib SignatureHash
  checkSchnorrSignature := checker.checkSchnorrSignature SignatureHashSchnorr
  checkDilithiumSignature := checker.checkDilithiumSignature lib SignatureHash
  checkLockTime := checker.checkLockTime
  checkSequence := checker.checkSequence

@[simp]
theorem toBase_checkLockTime :
    (checker.toBase lib SignatureHash SignatureHashSchnorr).checkLockTime = checker.checkLockTime := by
  simp only [toBase]

@[simp]
theorem toBase_checkSequence :
    (checker.toBase lib SignatureHash SignatureHashSchnorr).checkSequence = checker.checkSequence := by
  simp only [toBase]

/-- A key that `CheckECDSASignature` accepts is a valid 1952-byte Dilithium key,
and the library accepted the signature without its last byte against the digest
of the hash type that byte names. -/
theorem checkECDSASignature_verified {vchSigIn vchPubKey : valtype} {scriptCode : CScript}
    {sigversion : SigVersion}
    (accepted : checker.checkECDSASignature lib SignatureHash vchSigIn vchPubKey scriptCode
      sigversion = true) :
    vchPubKey.length = DILITHIUM_PUBLICKEY_SIZE ∧ (CQPubKey.ofBytes vchPubKey).isValid = true ∧
      ∃ nHashType : UInt8,
      vchSigIn.getLast? = some nHashType ∧
      lib.verify vchSigIn.dropLast (SignatureHash scriptCode checker.txTo checker.nIn
        nHashType.toNat checker.amount sigversion) vchPubKey = true := by
  unfold checkECDSASignature at accepted
  have sized : vchPubKey.length = DILITHIUM_PUBLICKEY_SIZE := by
    by_contra wrongSize
    simp [CQPubKey.isValid_ofBytes_of_length wrongSize] at accepted
  have notLegacy : ¬ (vchPubKey.length = 33 ∨ vchPubKey.length = 65) := by
    rw [sized]
    decide
  cases lastByte : vchSigIn.getLast? with
  | none => simp [lastByte] at accepted
  | some nHashType =>
      simp only [lastByte, notLegacy, handleMissingData, if_false] at accepted
      split_ifs at accepted
      obtain ⟨valid, verified⟩ := CQPubKey.lib_verify_of_verify accepted
      rw [CQPubKey.toBytes_ofBytes sized] at verified
      exact ⟨sized, valid, nHashType, rfl, verified⟩

/-- A key that `CheckDilithiumSignature` accepts is a valid 1952-byte key, and
the library accepted the whole signature against the `SIGHASH_ALL` digest. -/
theorem checkDilithiumSignature_verified {vchSigIn vchPubKey : valtype} {scriptCode : CScript}
    {sigversion : SigVersion}
    (accepted : checker.checkDilithiumSignature lib SignatureHash vchSigIn vchPubKey scriptCode
      sigversion = true) :
    vchPubKey.length = DILITHIUM_PUBLICKEY_SIZE ∧ (CQPubKey.ofBytes vchPubKey).isValid = true ∧
      lib.verify vchSigIn (SignatureHash scriptCode checker.txTo checker.nIn SIGHASH_ALL
        checker.amount sigversion) vchPubKey = true := by
  unfold checkDilithiumSignature at accepted
  have sized : vchPubKey.length = DILITHIUM_PUBLICKEY_SIZE := by
    by_contra wrongSize
    simp [CQPubKey.isValid_ofBytes_of_length wrongSize] at accepted
  dsimp only at accepted
  split_ifs at accepted
  obtain ⟨valid, verified⟩ := CQPubKey.lib_verify_of_verify accepted
  rw [CQPubKey.toBytes_ofBytes sized] at verified
  exact ⟨sized, valid, verified⟩

/-- What the Dilithium library accepted for `pubkey`, a valid 1952-byte key: a
signature over a digest `SignatureHash` computes for the checker's input. -/
def LibraryAccepted (pubkey : valtype) : Prop :=
  pubkey.length = DILITHIUM_PUBLICKEY_SIZE ∧ (CQPubKey.ofBytes pubkey).isValid = true ∧
    ∃ sig scriptCode nHashType sigversion, lib.verify sig
      (SignatureHash scriptCode checker.txTo checker.nIn nHashType checker.amount sigversion) pubkey = true

/-- No signature passes `CheckSchnorrSignature`. -/
theorem checkSchnorrSignature_ne_ok (sig pubkey : valtype) (sigversion : SigVersion)
    (execdata : ScriptExecutionData) :
    checker.checkSchnorrSignature SignatureHashSchnorr sig pubkey sigversion execdata ≠ .ok () := by
  intro accepted
  unfold checkSchnorrSignature handleMissingData at accepted
  simp only [Bool.false_eq_true, if_false] at accepted
  split_ifs at accepted
  all_goals
    first
    | cases accepted
    | split at accepted <;> cases accepted

/-- What `CheckLockTime` accepts: an operand of the transaction lock time's
kind, at most that lock time, for an input that is not final. -/
theorem checkLockTime_eq_true {nLockTime : Int} (accepted : checker.checkLockTime nLockTime = true) :
    ∃ input, checker.txTo.vin[checker.nIn]? = some input ∧ input.nSequence ≠ SEQUENCE_FINAL ∧
      (nLockTime < LOCKTIME_THRESHOLD ↔ (checker.txTo.nLockTime.toNat : Int) < LOCKTIME_THRESHOLD) ∧
      nLockTime ≤ checker.txTo.nLockTime.toNat := by
  unfold checkLockTime at accepted
  dsimp only at accepted
  split_ifs at accepted with sameKind later
  split at accepted
  · cases accepted
  · rename_i input spent
    simp only [Bool.not_eq_true', Bool.not_eq_false, Bool.or_eq_true, Bool.and_eq_true,
      decide_eq_true_eq, ge_iff_le] at sameKind
    refine ⟨input, spent, by simpa using accepted, ?_, by omega⟩
    omega

/-- What `CheckSequence` accepts: a transaction of version 2 or more whose input
has relative lock times enabled, and an operand of the input's kind whose lock
value is at most the input's. -/
theorem checkSequence_eq_true {nSequence : Int} (accepted : checker.checkSequence nSequence = true) :
    ∃ input, checker.txTo.vin[checker.nIn]? = some input ∧ 2 ≤ checker.txTo.version ∧
      input.nSequence.toNat &&& SEQUENCE_LOCKTIME_DISABLE_FLAG = 0 ∧
      (nSequence.toNat &&& SEQUENCE_LOCKTIME_TYPE_FLAG = 0 ↔
        input.nSequence.toNat &&& SEQUENCE_LOCKTIME_TYPE_FLAG = 0) ∧
      nSequence.toNat &&& SEQUENCE_LOCKTIME_MASK ≤ input.nSequence.toNat &&& SEQUENCE_LOCKTIME_MASK := by
  unfold checkSequence at accepted
  split at accepted
  · cases accepted
  · rename_i input spent
    dsimp only at accepted
    split_ifs at accepted with oldVersion disabled sameKind
    simp only [Bool.not_eq_true', Bool.not_eq_false, Bool.or_eq_true, Bool.and_eq_true,
      decide_eq_true_eq, ge_iff_le] at sameKind
    exact ⟨input, spent, by simpa using oldVersion, by simpa using disabled,
      lockValue_le_of_masked_le (sameKind.imp And.symm And.symm) (of_decide_eq_true accepted)⟩

end TransactionSignatureChecker

end Qbitcoin
