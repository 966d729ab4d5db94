import Qbitcoin.Script.Run
import Qbitcoin.Script.Checker

/-!
# `VerifyScript`

Script validation of one input: the scriptSig and the scriptPubKey run on one
stack, then the P2SH redeem script and the witness program.  C++ stacks are
vectors with the top last; the interpreter's stacks are lists with the top
first, so a witness stack (a `CScriptWitness`, bottom first) is reversed when it
becomes an interpreter stack.

Key-path and script-path Taproot spends fail in this fork:
`CheckSchnorrSignature` never succeeds and `QXOnlyPubKey::CheckTapTweak`
returns `false`, so `VerifyTaprootCommitment` rejects every control block.

`OP_CHECKSIG` sends a 1952-byte key to `CheckDilithiumSignature`, which verifies
the whole signature, while `OP_CHECKMULTISIG` always calls
`CheckECDSASignature`, which verifies the signature without its last byte.  A
library that accepts only signatures of one length therefore never accepts the
same signature in both (`checksig_checkmultisig_disagree`).
-/

namespace Qbitcoin

open ByteCodec

/-- `WITNESS_V0_SCRIPTHASH_SIZE`. -/
def WITNESS_V0_SCRIPTHASH_SIZE : Nat := 32
/-- `WITNESS_V0_KEYHASH_SIZE`. -/
def WITNESS_V0_KEYHASH_SIZE : Nat := 20
/-- `WITNESS_V1_TAPROOT_SIZE`. -/
def WITNESS_V1_TAPROOT_SIZE : Nat := 32
/-- `TAPROOT_LEAF_MASK`. -/
def TAPROOT_LEAF_MASK : UInt8 := 0xfe
/-- `TAPROOT_LEAF_TAPSCRIPT`. -/
def TAPROOT_LEAF_TAPSCRIPT : UInt8 := 0xc0
/-- `TAPROOT_CONTROL_BASE_SIZE`. -/
def TAPROOT_CONTROL_BASE_SIZE : Nat := 33
/-- `TAPROOT_CONTROL_NODE_SIZE`. -/
def TAPROOT_CONTROL_NODE_SIZE : Nat := 32
/-- `TAPROOT_CONTROL_MAX_SIZE`. -/
def TAPROOT_CONTROL_MAX_SIZE : Nat := TAPROOT_CONTROL_BASE_SIZE + TAPROOT_CONTROL_NODE_SIZE * 128
/-- `ANNEX_TAG`. -/
def ANNEX_TAG : UInt8 := 0x50
/-- `VALIDATION_WEIGHT_OFFSET`. -/
def VALIDATION_WEIGHT_OFFSET : Int := 50

namespace Hashes

variable (hashes : Hashes)

/-- A BIP340 tagged hash: SHA-256 of the twice-hashed tag followed by the data. -/
def taggedHash (tag : String) (data : valtype) : valtype :=
  let tagHash := hashes.sha256 (tag.toList.map fun c => c.toNat.toUInt8)
  hashes.sha256 (tagHash ++ tagHash ++ data)

/-- `ComputeTapleafHash`. -/
def computeTapleafHash (leafVersion : UInt8) (script : CScript) : valtype :=
  hashes.taggedHash "TapLeaf" (leafVersion :: serializeBytes script)

/-- `ComputeTapbranchHash`: the two children in lexicographic order. -/
def computeTapbranchHash (a b : valtype) : valtype :=
  if List.lex a b (· < ·) then hashes.taggedHash "TapBranch" (a ++ b)
  else hashes.taggedHash "TapBranch" (b ++ a)

/-- `ComputeTaprootMerkleRoot`: the leaf hash combined with each 32-byte node of
the control block after its 33-byte base. -/
def computeTaprootMerkleRoot (control : valtype) (tapleafHash : valtype) : valtype :=
  let nodes := (List.range ((control.length - TAPROOT_CONTROL_BASE_SIZE) / TAPROOT_CONTROL_NODE_SIZE)).map
    fun i => (control.drop (TAPROOT_CONTROL_BASE_SIZE + TAPROOT_CONTROL_NODE_SIZE * i)).take
      TAPROOT_CONTROL_NODE_SIZE
  nodes.foldl hashes.computeTapbranchHash tapleafHash

end Hashes

/-- `QXOnlyPubKey::CheckTapTweak`: a stub that ignores its arguments. -/
def checkTapTweak (_output _internal _merkleRoot : valtype) (_parity : Bool) : Bool := false

/-- `VerifyTaprootCommitment`. -/
def verifyTaprootCommitment (hashes : Hashes) (control program tapleafHash : valtype) : Bool :=
  let p := (control.drop 1).take (TAPROOT_CONTROL_BASE_SIZE - 1)
  let merkleRoot := hashes.computeTaprootMerkleRoot control tapleafHash
  checkTapTweak program p merkleRoot (control.headD 0 &&& 1 == 1)

/-- The `OP_SUCCESSx` scan of a Tapscript: `true` once such an opcode is read. -/
def findOpSuccess (pc : List UInt8) : Except ScriptError Bool :=
  match pc with
  | [] => .ok false
  | first :: tail =>
      match reading : getScriptOp (first :: tail) with
      | none => .error .badOpcode
      | some (opcode, _, rest) => if isOpSuccess opcode then .ok true else findOpSuccess rest
termination_by pc.length
decreasing_by exact getScriptOp_rest_lt reading

section

variable (hashes : Hashes) (checker : BaseSignatureChecker) (flags : Nat)

/-- The clean-stack rule of witness scripts: exactly one element, and it is true. -/
def cleanTrue (stack : List valtype) : Except ScriptError Unit :=
  match stack with
  | [top] => Except.failIf (!castToBool top) .evalFalse
  | _ => .error .cleanstack

/-- The Tapscript prelude of `ExecuteWitnessScript`: `some` outcome when an
`OP_SUCCESSx` decides the script before it runs, `none` when it runs. -/
def tapscriptPrelude (stack : List valtype) (execScript : CScript) :
    Except ScriptError (Option Unit) := do
  if ← findOpSuccess execScript then
    Except.failIf (hasFlag flags SCRIPT_VERIFY_DISCOURAGE_OP_SUCCESS) .discourageOpSuccess
    return some ()
  Except.failIf (stack.length > MAX_STACK_SIZE) .stackSize
  return none

/-- The part of `ExecuteWitnessScript` that runs the script: the element size
test, the interpreter on the reversed witness stack, and the clean-stack rule. -/
def runWitnessScript (stack : List valtype) (execScript : CScript) (sigversion : SigVersion)
    (execdata : ScriptExecutionData) : Except ScriptError Unit := do
  Except.failIf (stack.any (·.length > MAX_SCRIPT_ELEMENT_SIZE)) .pushSize
  let stack ← evalScript hashes checker flags sigversion stack.reverse execScript execdata
  cleanTrue stack

/-- `ExecuteWitnessScript`, for a witness stack given bottom first. -/
def executeWitnessScript (stack : List valtype) (execScript : CScript) (sigversion : SigVersion)
    (execdata : ScriptExecutionData) : Except ScriptError Unit := do
  let decided ← if sigversion == .tapscript then tapscriptPrelude flags stack execScript
    else pure none
  match decided with
  | some () => pure ()
  | none => runWitnessScript hashes checker flags stack execScript sigversion execdata

/-- `VerifyWitnessProgram`.  For BIP141 P2WSH the last witness element is the
script; for P2WPKH two witness elements run the implied key-hash script.  A
Taproot stack of one element spends the key path; otherwise the control block
and then the leaf script spend a script path. -/
def verifyWitnessProgram (witness : CScriptWitness) (witversion : Nat) (program : valtype)
    (isP2sh : Bool) : Except ScriptError Unit :=
  let stack := witness.stack
  let execdata := ScriptExecutionData.empty
  if witversion = 0 then
    if program.length = WITNESS_V0_SCRIPTHASH_SIZE then
      match stack.getLast? with
      | none => .error .witnessProgramWitnessEmpty
      | some scriptBytes =>
          if hashes.sha256 scriptBytes ≠ program.take 32 then .error .witnessProgramMismatch
          else executeWitnessScript hashes checker flags stack.dropLast scriptBytes .witnessV0 execdata
    else if program.length = WITNESS_V0_KEYHASH_SIZE then
      if stack.length ≠ 2 then .error .witnessProgramMismatch
      else executeWitnessScript hashes checker flags stack (payToPubKeyHashScript program) .witnessV0
        execdata
    else .error .witnessProgramWrongLength
  else if witversion = 1 ∧ program.length = WITNESS_V1_TAPROOT_SIZE ∧ !isP2sh then
    if !hasFlag flags SCRIPT_VERIFY_TAPROOT then .ok ()
    else if stack.isEmpty then .error .witnessProgramWitnessEmpty
    else
      let withAnnex := stack.length ≥ 2 && (stack.getLastD []).headD 1 == ANNEX_TAG &&
        !(stack.getLastD []).isEmpty
      let execdata :=
        if withAnnex then
          { execdata with annexHash := hashes.sha256 (serializeBytes (stack.getLastD [])),
                          annexPresent := true, annexInit := true }
        else { execdata with annexPresent := false, annexInit := true }
      let stack := if withAnnex then stack.dropLast else stack
      match stack with
      | [sig] =>
          checker.checkSchnorrSignature sig program .taproot execdata
      | _ =>
          let control := stack.getLastD []
          let script := stack.dropLast.getLastD []
          let stack := stack.dropLast.dropLast
          if control.length < TAPROOT_CONTROL_BASE_SIZE ∨ control.length > TAPROOT_CONTROL_MAX_SIZE ∨
              (control.length - TAPROOT_CONTROL_BASE_SIZE) % TAPROOT_CONTROL_NODE_SIZE ≠ 0 then
            .error .taprootWrongControlSize
          else
            let leafVersion := control.headD 0 &&& TAPROOT_LEAF_MASK
            let tapleafHash := hashes.computeTapleafHash leafVersion script
            if !verifyTaprootCommitment hashes control program tapleafHash then
              .error .witnessProgramMismatch
            else
              let execdata := { execdata with tapleafHash, tapleafHashInit := true }
              if leafVersion = TAPROOT_LEAF_TAPSCRIPT then
                let execdata := { execdata with
                  validationWeightLeft := witness.serialize.length + VALIDATION_WEIGHT_OFFSET,
                  validationWeightLeftInit := true }
                executeWitnessScript hashes checker flags stack script .tapscript execdata
              else if hasFlag flags SCRIPT_VERIFY_DISCOURAGE_UPGRADABLE_TAPROOT_VERSION then
                .error .discourageUpgradableTaprootVersion
              else .ok ()
  else if !isP2sh && isPayToAnchor witversion program then .ok ()
  else if hasFlag flags SCRIPT_VERIFY_DISCOURAGE_UPGRADABLE_WITNESS_PROGRAM then
    .error .discourageUpgradableWitnessProgram
  else .ok ()

/-- `if (stack.empty() || !CastToBool(stack.back())) return EVAL_FALSE`. -/
def evalTrue (stack : List valtype) : Except ScriptError Unit :=
  match stack with
  | [] => .error .evalFalse
  | top :: _ => Except.failIf (!castToBool top) .evalFalse

/-- `stack.resize(1)` on a non-empty stack: only the bottom element is kept. -/
def keepBottom (stack : List valtype) : List valtype := [stack.getLastD []]

/-- The witness stage of `VerifyScript` for a program found in `script`: the
scriptSig must be exactly `expectedScriptSig`, then the program must verify.
`none` when `script` is no witness program. -/
def verifyWitnessStage (scriptSig : CScript) (script : CScript) (expectedScriptSig : CScript)
    (malleated : ScriptError) (witness : CScriptWitness) (isP2sh : Bool) :
    Option (Except ScriptError Unit) :=
  (isWitnessProgram script).map fun (witnessversion, witnessprogram) =>
    if scriptSig ≠ expectedScriptSig then .error malleated
    else verifyWitnessProgram hashes checker flags witness witnessversion witnessprogram isP2sh

/-- The bare witness stage of `VerifyScript`: whether a witness program was
found, and the stack the later tests see. -/
def verifyBareWitness (scriptSig scriptPubKey : CScript) (stack : List valtype)
    (witness : CScriptWitness) : Except ScriptError (Bool × List valtype) :=
  match verifyWitnessStage hashes checker flags scriptSig scriptPubKey [] .witnessMalleated
      witness false with
  | some outcome => outcome.map fun () => (true, keepBottom stack)
  | none => .ok (false, stack)

/-- The pay-to-script-hash stage of `VerifyScript`: the scriptSig must be push
only, and the redeem script on top of the stack it left runs on the rest. -/
def verifyPayToScriptHash (scriptSig : CScript) (stackCopy : List valtype)
    (witness : CScriptWitness) (hadWitness : Bool) : Except ScriptError (Bool × List valtype) := do
  Except.failIf (!isPushOnly scriptSig) .sigPushonly
  match stackCopy with
  | [] => .error .unknownError
  | pubKeySerialized :: rest => do
      let stack ← evalScript hashes checker flags .base rest pubKeySerialized .empty
      evalTrue stack
      if hasFlag flags SCRIPT_VERIFY_WITNESS then
        match verifyWitnessStage hashes checker flags scriptSig pubKeySerialized
            (pushData pubKeySerialized) .witnessMalleatedP2sh witness true with
        | some outcome => outcome.map fun () => (true, keepBottom stack)
        | none => pure (hadWitness, stack)
      else pure (hadWitness, stack)

/-- `VerifyScript`: scriptSig and scriptPubKey are evaluated one after the
other on the same stack. -/
def verifyScript (scriptSig scriptPubKey : CScript) (witness : CScriptWitness) :
    Except ScriptError Unit := do
  Except.failIf (hasFlag flags SCRIPT_VERIFY_SIGPUSHONLY && !isPushOnly scriptSig) .sigPushonly
  let stack ← evalScript hashes checker flags .base [] scriptSig .empty
  let stackCopy := stack
  let stack ← evalScript hashes checker flags .base stack scriptPubKey .empty
  evalTrue stack
  let afterWitness ← (
    if hasFlag flags SCRIPT_VERIFY_WITNESS then
      verifyBareWitness hashes checker flags scriptSig scriptPubKey stack witness
    else pure (false, stack))
  let afterP2sh ← (
    if hasFlag flags SCRIPT_VERIFY_P2SH && isPayToScriptHash scriptPubKey then
      verifyPayToScriptHash hashes checker flags scriptSig stackCopy witness afterWitness.1
    else pure afterWitness)
  Except.failIf (hasFlag flags SCRIPT_VERIFY_CLEANSTACK && afterP2sh.2.length ≠ 1) .cleanstack
  Except.failIf (hasFlag flags SCRIPT_VERIFY_WITNESS && !afterP2sh.1 && !witness.isNull)
    .witnessUnexpected

end

section Inversion

/-! Inversion of the verification stages: what a verification that passed ran. -/

variable {hashes : Hashes} {checker : BaseSignatureChecker} {flags : Nat}
  {scriptSig scriptPubKey : CScript} {witness : CScriptWitness}

theorem evalTrue_eq_ok {stack : List valtype} (passed : evalTrue stack = .ok ()) :
    ∃ top rest, stack = top :: rest ∧ castToBool top = true := by
  match stack, passed with
  | [], passed => cases passed
  | top :: rest, passed =>
      simp only [evalTrue, Except.failIf_eq_ok, Bool.not_eq_false'] at passed
      exact ⟨top, rest, rfl, passed⟩

theorem cleanTrue_eq_ok {stack : List valtype} (passed : cleanTrue stack = .ok ()) :
    ∃ top, stack = [top] ∧ castToBool top = true := by
  match stack, passed with
  | [top], passed =>
      simp only [cleanTrue, Except.failIf_eq_ok, Bool.not_eq_false'] at passed
      exact ⟨top, rfl, passed⟩
  | [], passed => cases passed
  | _ :: _ :: _, passed => cases passed

/-- A witness script that ran passed with a single true element left. -/
theorem runWitnessScript_eq_ok {stack : List valtype} {execScript : CScript}
    {sigversion : SigVersion} {execdata : ScriptExecutionData}
    (passed : runWitnessScript hashes checker flags stack execScript sigversion execdata = .ok ()) :
    ∃ top, evalScript hashes checker flags sigversion stack.reverse execScript execdata = .ok [top] ∧
      castToBool top = true := by
  obtain ⟨⟨⟩, -, passed⟩ := Except.bind_eq_ok.mp passed
  obtain ⟨final, evaluated, cleaned⟩ := Except.bind_eq_ok.mp passed
  obtain ⟨top, rfl, isTrue⟩ := cleanTrue_eq_ok cleaned
  exact ⟨top, evaluated, isTrue⟩

/-- Outside Tapscript there is no prelude: the script runs. -/
theorem executeWitnessScript_of_ne_tapscript {stack : List valtype} {execScript : CScript}
    {sigversion : SigVersion} {execdata : ScriptExecutionData}
    (notTapscript : sigversion ≠ .tapscript) :
    executeWitnessScript hashes checker flags stack execScript sigversion execdata =
      runWitnessScript hashes checker flags stack execScript sigversion execdata := by
  have skipPrelude : (sigversion == .tapscript) = false := by simpa using notTapscript
  simp only [executeWitnessScript, skipPrelude, Bool.false_eq_true, if_false]
  rfl

/-- A P2WPKH program that verified had two witness elements, which ran the
implied key-hash script. -/
theorem verifyWitnessProgram_keyHash_eq_ok {program : valtype} {isP2sh : Bool}
    (keyHash : program.length = WITNESS_V0_KEYHASH_SIZE)
    (passed : verifyWitnessProgram hashes checker flags witness 0 program isP2sh = .ok ()) :
    witness.stack.length = 2 ∧ executeWitnessScript hashes checker flags witness.stack
      (payToPubKeyHashScript program) .witnessV0 .empty = .ok () := by
  have notScriptHash : program.length ≠ WITNESS_V0_SCRIPTHASH_SIZE := by
    rw [keyHash]
    decide
  dsimp only [verifyWitnessProgram] at passed
  rw [if_pos rfl, if_neg notScriptHash, if_pos keyHash] at passed
  by_cases twoElements : witness.stack.length = 2
  · rw [if_neg (not_not.mpr twoElements)] at passed
    exact ⟨twoElements, passed⟩
  · rw [if_pos twoElements] at passed
    cases passed

/-- A verification that passed evaluated the scriptSig and then the
scriptPubKey to a stack with a true top. -/
theorem verifyScript_eq_ok (passed : verifyScript hashes checker flags scriptSig scriptPubKey witness = .ok ()) :
    ∃ stack₁ stack₂, evalScript hashes checker flags .base [] scriptSig .empty = .ok stack₁ ∧
      evalScript hashes checker flags .base stack₁ scriptPubKey .empty = .ok stack₂ ∧
      evalTrue stack₂ = .ok () := by
  unfold verifyScript at passed
  obtain ⟨⟨⟩, -, passed⟩ := Except.bind_eq_ok.mp passed
  obtain ⟨stack₁, sigRun, passed⟩ := Except.bind_eq_ok.mp passed
  obtain ⟨stack₂, pubKeyRun, passed⟩ := Except.bind_eq_ok.mp passed
  obtain ⟨⟨⟩, topTrue, -⟩ := Except.bind_eq_ok.mp passed
  exact ⟨stack₁, stack₂, sigRun, pubKeyRun, topTrue⟩

/-- Under `WITNESS`, a verification of a witness program that passed had an
empty scriptSig and a program that verified. -/
theorem verifyScript_witnessProgram_eq_ok {witversion : Nat} {program : valtype}
    (witnessFlag : hasFlag flags SCRIPT_VERIFY_WITNESS = true)
    (isProgram : isWitnessProgram scriptPubKey = some (witversion, program))
    (passed : verifyScript hashes checker flags scriptSig scriptPubKey witness = .ok ()) :
    scriptSig = [] ∧ verifyWitnessProgram hashes checker flags witness witversion program false = .ok () := by
  unfold verifyScript at passed
  obtain ⟨⟨⟩, -, passed⟩ := Except.bind_eq_ok.mp passed
  obtain ⟨stack₁, -, passed⟩ := Except.bind_eq_ok.mp passed
  obtain ⟨stack₂, -, passed⟩ := Except.bind_eq_ok.mp passed
  obtain ⟨⟨⟩, -, passed⟩ := Except.bind_eq_ok.mp passed
  obtain ⟨_, witnessStage, -⟩ := Except.bind_eq_ok.mp passed
  simp only [witnessFlag, if_true, verifyBareWitness, verifyWitnessStage, isProgram,
    Option.map_some] at witnessStage
  obtain ⟨⟨⟩, stage, -⟩ := Except.map_eq_ok'.mp witnessStage
  by_cases emptySig : scriptSig = []
  · rw [if_neg (not_not.mpr emptySig)] at stage
    exact ⟨emptySig, stage⟩
  · rw [if_pos emptySig] at stage
    cases stage

/-- A key-hash script run before Tapscript that left a true top checked a
signature below a key of the given hash: the signature passed the encoding
tests, and the check the key's size selects accepted it. -/
theorem evalScript_payToPubKeyHash_accepted {stack final : List valtype} {hash : valtype}
    {sigversion : SigVersion} {execdata : ScriptExecutionData}
    (pre : (EvalContext.mk hashes checker flags sigversion).isPreTapscript = true)
    (fits : hash.length < 2 ^ 32)
    (running : evalScript hashes checker flags sigversion stack (payToPubKeyHashScript hash)
      execdata = .ok final)
    (isTrue : evalTrue final = .ok ()) :
    ∃ pubkey sig rest, stack = pubkey :: sig :: rest ∧ hashes.hash160 pubkey = hash ∧
      checkSignatureEncoding sig flags = .ok () ∧ ∃ cleanedCode,
        (EvalContext.mk hashes checker flags sigversion).checkSignatureBySize sig pubkey
          cleanedCode = true := by
  obtain ⟨pubkey, sig, rest, fSuccess, _, rfl, hashed, checking, rfl⟩ :=
    evalScript_payToPubKeyHash fits running
  have judged := EvalContext.evalChecksig_of_isPreTapscript _ pre checking
  obtain ⟨encoded, cleanedCode, rfl⟩ := EvalContext.evalChecksigPreTapscript_eq_ok _ judged
  obtain ⟨_, _, stacked, topTrue⟩ := evalTrue_eq_ok isTrue
  simp only [List.cons.injEq] at stacked
  rw [← stacked.1, castToBool_pushBool] at topTrue
  exact ⟨pubkey, sig, rest, rfl, hashed, encoded, cleanedCode, topTrue⟩

/-- A bare-key script run before Tapscript that left a true top checked a
signature against its key: see `evalScript_payToPubKeyHash_accepted`. -/
theorem evalScript_payToPubKey_accepted {stack final : List valtype} {pubkey : valtype}
    {sigversion : SigVersion} {execdata : ScriptExecutionData}
    (pre : (EvalContext.mk hashes checker flags sigversion).isPreTapscript = true)
    (fits : pubkey.length < 2 ^ 32)
    (running : evalScript hashes checker flags sigversion stack (payToPubKeyScript pubkey)
      execdata = .ok final)
    (isTrue : evalTrue final = .ok ()) :
    ∃ sig rest, stack = sig :: rest ∧ checkSignatureEncoding sig flags = .ok () ∧ ∃ cleanedCode,
      (EvalContext.mk hashes checker flags sigversion).checkSignatureBySize sig pubkey
        cleanedCode = true := by
  obtain ⟨sig, rest, fSuccess, _, rfl, checking, rfl⟩ := evalScript_payToPubKey fits running
  have judged := EvalContext.evalChecksig_of_isPreTapscript _ pre checking
  obtain ⟨encoded, cleanedCode, rfl⟩ := EvalContext.evalChecksigPreTapscript_eq_ok _ judged
  obtain ⟨_, _, stacked, topTrue⟩ := evalTrue_eq_ok isTrue
  simp only [List.cons.injEq] at stacked
  rw [← stacked.1, castToBool_pushBool] at topTrue
  exact ⟨sig, rest, rfl, encoded, cleanedCode, topTrue⟩

/-- A key-hash output spent by a verified scriptSig: the scriptSig left a key
of the output's hash above a signature that passed the encoding tests and that
the check the key's size selects accepted. -/
theorem verifyScript_payToPubKeyHash_accepted {hash : valtype}
    (passed : verifyScript hashes checker flags scriptSig (payToPubKeyHashScript hash) witness = .ok ()) :
    ∃ pubkey sig rest, evalScript hashes checker flags .base [] scriptSig .empty =
        .ok (pubkey :: sig :: rest) ∧ hashes.hash160 pubkey = hash ∧
      checkSignatureEncoding sig flags = .ok () ∧ ∃ cleanedCode,
        (EvalContext.mk hashes checker flags .base).checkSignatureBySize sig pubkey
          cleanedCode = true := by
  obtain ⟨stack₁, stack₂, sigRun, pubKeyRun, isTrue⟩ := verifyScript_eq_ok passed
  have fits : hash.length < 2 ^ 32 := by
    have bounded := length_le_of_evalScript rfl pubKeyRun
    have pushed := length_le_pushData hash
    simp only [payToPubKeyHashScript, List.length_append, MAX_SCRIPT_SIZE] at bounded
    omega
  obtain ⟨pubkey, sig, rest, rfl, hashed, encoded, accepted⟩ :=
    evalScript_payToPubKeyHash_accepted rfl fits pubKeyRun isTrue
  exact ⟨pubkey, sig, rest, sigRun, hashed, encoded, accepted⟩

/-- A bare-key output spent by a verified scriptSig: the scriptSig left a
signature that passed the encoding tests and that the check the key's size
selects accepted. -/
theorem verifyScript_payToPubKey_accepted {pubkey : valtype}
    (passed : verifyScript hashes checker flags scriptSig (payToPubKeyScript pubkey) witness = .ok ()) :
    ∃ sig rest, evalScript hashes checker flags .base [] scriptSig .empty = .ok (sig :: rest) ∧
      checkSignatureEncoding sig flags = .ok () ∧ ∃ cleanedCode,
        (EvalContext.mk hashes checker flags .base).checkSignatureBySize sig pubkey
          cleanedCode = true := by
  obtain ⟨stack₁, stack₂, sigRun, pubKeyRun, isTrue⟩ := verifyScript_eq_ok passed
  have fits : pubkey.length < 2 ^ 32 := by
    have bounded := length_le_of_evalScript rfl pubKeyRun
    have pushed := length_le_pushData pubkey
    simp only [payToPubKeyScript, List.length_append, MAX_SCRIPT_SIZE] at bounded
    omega
  obtain ⟨sig, rest, rfl, encoded, accepted⟩ :=
    evalScript_payToPubKey_accepted rfl fits pubKeyRun isTrue
  exact ⟨sig, rest, sigRun, encoded, accepted⟩

/-- A P2WPKH spend that verified had an empty scriptSig and a witness of a
signature and a key of the program's hash; the key-hash script ran on them as
a segwit v0 script and accepted the signature. -/
theorem verifyScript_payToWitnessScript_accepted {program : valtype}
    (witnessFlag : hasFlag flags SCRIPT_VERIFY_WITNESS = true)
    (keyHash : program.length = WITNESS_V0_KEYHASH_SIZE)
    (passed : verifyScript hashes checker flags scriptSig (payToWitnessScript program) witness = .ok ()) :
    scriptSig = [] ∧ ∃ sig pubkey, witness.stack = [sig, pubkey] ∧ hashes.hash160 pubkey = program ∧
      checkSignatureEncoding sig flags = .ok () ∧ ∃ cleanedCode,
        (EvalContext.mk hashes checker flags .witnessV0).checkSignatureBySize sig pubkey
          cleanedCode = true := by
  have programSize : 2 ≤ program.length ∧ program.length ≤ 40 := by
    simp only [keyHash, WITNESS_V0_KEYHASH_SIZE]
    decide
  have isProgram := isWitnessProgram_payToWitnessScript programSize
  obtain ⟨emptySig, verified⟩ := verifyScript_witnessProgram_eq_ok witnessFlag isProgram passed
  obtain ⟨twoElements, executed⟩ := verifyWitnessProgram_keyHash_eq_ok keyHash verified
  rw [executeWitnessScript_of_ne_tapscript (by decide)] at executed
  obtain ⟨top, running, topTrue⟩ := runWitnessScript_eq_ok executed
  have fits : program.length < 2 ^ 32 := by
    rw [keyHash]
    decide
  have isTrue : evalTrue [top] = .ok () := by simp [evalTrue, topTrue]
  obtain ⟨pubkey, sig, rest, stacked, hashed, encoded, accepted⟩ :=
    evalScript_payToPubKeyHash_accepted rfl fits running isTrue
  match witnessStack : witness.stack, twoElements with
  | [first, second], _ =>
      rw [witnessStack] at stacked
      simp only [List.reverse_cons, List.reverse_nil, List.nil_append, List.cons_append,
        List.cons.injEq] at stacked
      obtain ⟨rfl, rfl, -⟩ := stacked
      exact ⟨emptySig, first, second, rfl, hashed, encoded, accepted⟩

end Inversion

/-- A signature check that `CheckSignatureBySize` passed with a transaction
checker was a check the Dilithium library accepted, for a valid 1952-byte key:
the 33- and 65-byte branch of `CheckECDSASignature` is never reached. -/
theorem libraryAccepted_of_checkSignatureBySize {lib : Dilithium} {SignatureHash : SignatureHasher}
    {SignatureHashSchnorr : SchnorrSignatureHasher} {checker : TransactionSignatureChecker}
    {hashes : Hashes} {flags : Nat} {sigversion : SigVersion} {sig pubkey : valtype} {code : CScript}
    (accepted : (EvalContext.mk hashes (checker.toBase lib SignatureHash SignatureHashSchnorr) flags
      sigversion).checkSignatureBySize sig pubkey code = true) :
    checker.LibraryAccepted lib SignatureHash pubkey := by
  unfold EvalContext.checkSignatureBySize at accepted
  split_ifs at accepted
  · obtain ⟨sized, valid, verified⟩ := checker.checkDilithiumSignature_verified lib SignatureHash accepted
    exact ⟨sized, valid, sig, code, SIGHASH_ALL, sigversion, verified⟩
  · obtain ⟨sized, valid, nHashType, -, verified⟩ :=
      checker.checkECDSASignature_verified lib SignatureHash accepted
    exact ⟨sized, valid, sig.dropLast, code, nHashType.toNat, sigversion, verified⟩

/-- Signature soundness of the single-key outputs: when `VerifyScript` passes
with a transaction checker under `WITNESS`, the Dilithium library accepted a
signature over a digest of the checker's input, for the output's key or for a
key of the output's hash, and that key is a valid 1952-byte key. -/
theorem verifyScript_keyOutputs_verified {lib : Dilithium} (hashes : Hashes)
    (SignatureHash : SignatureHasher) (SignatureHashSchnorr : SchnorrSignatureHasher)
    (checker : TransactionSignatureChecker) {flags : Nat}
    (witnessFlag : hasFlag flags SCRIPT_VERIFY_WITNESS = true) {scriptSig scriptPubKey : CScript}
    {witness : CScriptWitness}
    (passed : verifyScript hashes (checker.toBase lib SignatureHash SignatureHashSchnorr) flags
      scriptSig scriptPubKey witness = .ok ()) :
    (∀ pubkey, scriptPubKey = payToPubKeyScript pubkey → checker.LibraryAccepted lib SignatureHash pubkey) ∧
      ∀ hash, scriptPubKey = payToPubKeyHashScript hash ∨
          (hash.length = WITNESS_V0_KEYHASH_SIZE ∧ scriptPubKey = payToWitnessScript hash) →
        ∃ pubkey, hashes.hash160 pubkey = hash ∧ checker.LibraryAccepted lib SignatureHash pubkey := by
  refine ⟨fun pubkey bare => ?_, fun hash keyHashed => ?_⟩
  · subst bare
    obtain ⟨sig, rest, -, -, cleanedCode, accepted⟩ := verifyScript_payToPubKey_accepted passed
    exact libraryAccepted_of_checkSignatureBySize accepted
  · rcases keyHashed with rfl | ⟨keyHash, rfl⟩
    · obtain ⟨pubkey, sig, rest, -, hashed, -, cleanedCode, accepted⟩ :=
        verifyScript_payToPubKeyHash_accepted passed
      exact ⟨pubkey, hashed, libraryAccepted_of_checkSignatureBySize accepted⟩
    · obtain ⟨-, sig, pubkey, -, hashed, -, cleanedCode, accepted⟩ :=
        verifyScript_payToWitnessScript_accepted witnessFlag keyHash passed
      exact ⟨pubkey, hashed, libraryAccepted_of_checkSignatureBySize accepted⟩

set_option maxRecDepth 200000 in
/-- `verifyScript_keyOutputs_verified` for a bare-key output spent by a
3309-byte signature, with the constant library and hash functions and the
flags `P2SH | WITNESS`. -/
theorem verifyScript_keyOutputs_verified_zeros :
    (⟨⟨[], [], 2, 0⟩, 0, 0, false, .fail⟩ : TransactionSignatureChecker).LibraryAccepted
      Dilithium.zeros (fun _ _ _ _ _ _ => List.replicate 32 0)
      (List.replicate DILITHIUM_PUBLICKEY_SIZE 1) := by
  have passed : verifyScript Hashes.zeros
      ((⟨⟨[], [], 2, 0⟩, 0, 0, false, .fail⟩ : TransactionSignatureChecker).toBase Dilithium.zeros
        (fun _ _ _ _ _ _ => List.replicate 32 0) (fun _ _ _ _ _ => none))
      (SCRIPT_VERIFY_P2SH ||| SCRIPT_VERIFY_WITNESS)
      (pushData (List.replicate DILITHIUM_SIGNATURE_SIZE 0))
      (payToPubKeyScript (List.replicate DILITHIUM_PUBLICKEY_SIZE 1)) ⟨[]⟩ = .ok () := by
    decide +kernel
  exact (verifyScript_keyOutputs_verified Hashes.zeros _ _ _ (by decide) passed).1 _ rfl

/-! ## `OP_CHECKSIG` against `OP_CHECKMULTISIG` -/

section

variable {lib : Dilithium} (rejects : lib.VerifyRejectsLength) {SignatureHash : SignatureHasher}
  {SignatureHashSchnorr : SchnorrSignatureHasher} {checker : TransactionSignatureChecker}
include rejects

/-- With a library that accepts only signatures of `CRYPTO_BYTES`, a signature
`CheckSignatureBySize` passes is exactly that long: the 1952-byte key selects
`CheckDilithiumSignature`, which verifies the whole signature. -/
theorem length_of_checkSignatureBySize {hashes : Hashes} {flags : Nat} {sigversion : SigVersion}
    {sig pubkey : valtype} {code : CScript}
    (accepted : (EvalContext.mk hashes (checker.toBase lib SignatureHash SignatureHashSchnorr) flags
      sigversion).checkSignatureBySize sig pubkey code = true) :
    sig.length = DILITHIUM_SIGNATURE_SIZE := by
  unfold EvalContext.checkSignatureBySize at accepted
  split_ifs at accepted with dilithiumKey
  · obtain ⟨-, -, verified⟩ := checker.checkDilithiumSignature_verified lib SignatureHash accepted
    exact rejects _ _ _ verified
  · obtain ⟨sized, -⟩ := checker.checkECDSASignature_verified lib SignatureHash accepted
    exact absurd sized dilithiumKey

/-- A signature `CheckECDSASignature` passes is one byte longer: the library
verified it without its hash-type byte. -/
theorem length_of_checkECDSASignature {sig pubkey : valtype} {code : CScript} {sigversion : SigVersion}
    (accepted : checker.checkECDSASignature lib SignatureHash sig pubkey code sigversion = true) :
    sig.length = DILITHIUM_SIGNATURE_SIZE + 1 := by
  obtain ⟨-, -, nHashType, last, verified⟩ := checker.checkECDSASignature_verified lib SignatureHash accepted
  have shorter := rejects _ _ _ verified
  have nonempty : sig ≠ [] := by
    rintro rfl
    cases last
  rw [List.length_dropLast] at shorter
  have positive := List.length_pos_iff.mpr nonempty
  omega

end

theorem checksig_checkmultisig_disagree {lib : Dilithium} (rejects : lib.VerifyRejectsLength) (hashes : Hashes)
    (SignatureHash : SignatureHasher) (SignatureHashSchnorr : SchnorrSignatureHasher)
    (checker : TransactionSignatureChecker) (flags : Nat) {sigversion : SigVersion}
    (pre : sigversion = .base ∨ sigversion = .witnessV0) (execdata : ScriptExecutionData) (sig pubkey : valtype)
    (accepted : evalScript hashes (checker.toBase lib SignatureHash SignatureHashSchnorr) flags sigversion []
      (pushData sig ++ pushData pubkey ++ [OP_CHECKSIG]) execdata = .ok [vchTrue]) :
    evalScript hashes (checker.toBase lib SignatureHash SignatureHashSchnorr) flags sigversion []
      (pushData [] ++ pushData sig ++ [OP_1] ++ pushData pubkey ++ [OP_1, OP_CHECKMULTISIG]) execdata ≠
        .ok [vchTrue] := by
  intro multisigAccepted
  have isPre : (EvalContext.mk hashes (checker.toBase lib SignatureHash SignatureHashSchnorr) flags
      sigversion).isPreTapscript = true := by
    rcases pre with rfl | rfl <;> rfl
  have short := length_le_of_evalScript isPre accepted
  have fitsSig : sig.length < 2 ^ 32 := by
    have := length_le_pushData sig
    simp [MAX_SCRIPT_SIZE] at short
    omega
  have fitsKey : pubkey.length < 2 ^ 32 := by
    have := length_le_pushData pubkey
    simp [MAX_SCRIPT_SIZE] at short
    omega
  obtain ⟨st, looped, finalStack⟩ := evalScript_eq_ok accepted
  rw [List.append_assoc] at looped
  obtain ⟨count, looped⟩ := EvalContext.evalLoop_pushData _ looped (by simp [initialState]) fitsSig
  obtain ⟨sig', rest, fSuccess, execdata', stacked, checking, pushed⟩ :=
    EvalContext.evalLoop_payToPubKey _ (by simp [initialState]) fitsKey looped
  simp only [initialState, List.cons.injEq] at stacked
  obtain ⟨rfl, rfl⟩ := stacked
  rw [← finalStack, List.cons.injEq] at pushed
  have succeeded : fSuccess = true := by
    cases fSuccess
    · cases pushed.1
    · rfl
  subst succeeded
  obtain ⟨-, cleanedCode, bySize⟩ := EvalContext.evalChecksigPreTapscript_eq_ok _
    (EvalContext.evalChecksig_of_isPreTapscript _ isPre checking)
  have checksigLength := length_of_checkSignatureBySize rejects bySize.symm
  obtain ⟨st₂, looped₂, finalStack₂⟩ := evalScript_eq_ok multisigAccepted
  obtain ⟨scriptCode, fMultisig, checked, pushed₂⟩ :=
    EvalContext.evalLoop_singleMultisig _ (by simp [initialState]) rfl fitsSig fitsKey looped₂
  rw [← finalStack₂, List.cons.injEq] at pushed₂
  have multisigSucceeded : fMultisig = true := by
    cases fMultisig
    · cases pushed₂.1
    · rfl
  subst multisigSucceeded
  have multisigLength := length_of_checkECDSASignature rejects
    ((EvalContext.checkMultisigLoop_single _ checked).symm)
  omega

set_option maxRecDepth 200000 in
/-- With the constant library, a 3309-byte signature and a 1952-byte key under
no flags in a segwit v0 script: `OP_CHECKSIG` leaves true, and
`OP_CHECKMULTISIG` on the same pair does not. -/
theorem checksig_checkmultisig_disagree_zeros :
    evalScript Hashes.zeros ((⟨⟨[], [], 2, 0⟩, 0, 0, false, .fail⟩ : TransactionSignatureChecker).toBase
        Dilithium.zeros (fun _ _ _ _ _ _ => List.replicate 32 0) (fun _ _ _ _ _ => none)) 0 .witnessV0 []
        (pushData (List.replicate DILITHIUM_SIGNATURE_SIZE 0) ++ pushData (List.replicate DILITHIUM_PUBLICKEY_SIZE 1) ++
          [OP_CHECKSIG]) ScriptExecutionData.empty = .ok [vchTrue] ∧
      evalScript Hashes.zeros ((⟨⟨[], [], 2, 0⟩, 0, 0, false, .fail⟩ : TransactionSignatureChecker).toBase
        Dilithium.zeros (fun _ _ _ _ _ _ => List.replicate 32 0) (fun _ _ _ _ _ => none)) 0 .witnessV0 []
        (pushData [] ++ pushData (List.replicate DILITHIUM_SIGNATURE_SIZE 0) ++ [OP_1] ++
          pushData (List.replicate DILITHIUM_PUBLICKEY_SIZE 1) ++ [OP_1, OP_CHECKMULTISIG])
        ScriptExecutionData.empty ≠ .ok [vchTrue] := by
  have accepted : evalScript Hashes.zeros ((⟨⟨[], [], 2, 0⟩, 0, 0, false, .fail⟩ : TransactionSignatureChecker).toBase
        Dilithium.zeros (fun _ _ _ _ _ _ => List.replicate 32 0) (fun _ _ _ _ _ => none)) 0 .witnessV0 []
        (pushData (List.replicate DILITHIUM_SIGNATURE_SIZE 0) ++ pushData (List.replicate DILITHIUM_PUBLICKEY_SIZE 1) ++
          [OP_CHECKSIG]) ScriptExecutionData.empty = .ok [vchTrue] := by
    decide +kernel
  exact ⟨accepted, checksig_checkmultisig_disagree Dilithium.zeros_verifyRejectsLength Hashes.zeros _ _ _ 0
    (.inr rfl) _ _ _ accepted⟩

end Qbitcoin
