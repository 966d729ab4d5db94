import Qbitcoin.Script.SignatureEncoding
import Qbitcoin.Crypto.Hashes
import Qbitcoin.Lib.Except
import Qbitcoin.Primitives.Transaction

/-!
# `EvalScript`

The script interpreter of `script/interpreter.cpp`, one loop iteration at a
time.  The stack is a list with its top first: `stacktop(-1)` is the head, and
in general `stacktop(-i)` is the element at index `i - 1`.  A size check that
precedes a stack access in the C++ is the fallback branch of the list match
that performs the access.

Exceptions thrown inside the loop are caught and reported as
`SCRIPT_ERR_UNKNOWN_ERROR`; the only one that can arise is the
`scriptnum_error` of a rejected number, so `readNum` maps a failed decode to
`.unknownError`.

`pbegincodehash` is kept as the suffix of the script that starts at it, which
is exactly the `CScript(pbegincodehash, pend)` each signature check reads.
-/

namespace Qbitcoin

/-- The read-only arguments of one `EvalScript` call. -/
structure EvalContext where
  hashes : Hashes
  checker : BaseSignatureChecker
  flags : Nat
  sigversion : SigVersion

/-- The locals of `EvalScript` that change from one opcode to the next. -/
structure EvalState where
  stack : List valtype
  altstack : List valtype
  vfExec : ConditionStack
  nOpCount : Nat
  pbegincodehash : CScript
  opcodePos : UInt32
  execdata : ScriptExecutionData

/-- `vchTrue`. -/
def vchTrue : valtype := [1]
/-- `vchFalse`. -/
def vchFalse : valtype := []

/-- The boolean pushed by comparison and signature opcodes. -/
def pushBool (b : Bool) : valtype := if b then vchTrue else vchFalse

@[simp]
theorem castToBool_pushBool (b : Bool) : castToBool (pushBool b) = b := by
  cases b <;> rfl

namespace EvalContext

variable (ctx : EvalContext)

def fRequireMinimal : Bool := hasFlag ctx.flags SCRIPT_VERIFY_MINIMALDATA

def isPreTapscript : Bool := ctx.sigversion == .base || ctx.sigversion == .witnessV0

/-- `CScriptNum(vch, fRequireMinimal, nMaxNumSize)`, a throw being caught as
`SCRIPT_ERR_UNKNOWN_ERROR`. -/
def readNum (vch : valtype) (nMaxNumSize : Nat) : Except ScriptError Int :=
  match CScriptNum.decode vch ctx.fRequireMinimal nMaxNumSize with
  | none => .error .unknownError
  | some value => .ok value

/-! ## Signature opcodes -/

/-- The signature removal of legacy scripts: `FindAndDelete` of the pushed
signature, an error under `CONST_SCRIPTCODE` when it found one. -/
def cleanScriptCode (sig : valtype) (scriptCode : CScript) : Except ScriptError CScript :=
  if ctx.sigversion == .base then
    let (found, cleaned) := findAndDelete scriptCode (pushData sig)
    if found > 0 && hasFlag ctx.flags SCRIPT_VERIFY_CONST_SCRIPTCODE then .error .sigFindanddelete
    else .ok cleaned
  else .ok scriptCode

/-- The check a key's size selects: Dilithium for 1952-byte keys, the ECDSA
entry point for every other key. -/
def checkSignatureBySize (sig pubkey : valtype) (scriptCode : CScript) : Bool :=
  if pubkey.length = DILITHIUM_PUBLICKEY_SIZE then
    ctx.checker.checkDilithiumSignature sig pubkey scriptCode ctx.sigversion
  else ctx.checker.checkECDSASignature sig pubkey scriptCode ctx.sigversion

/-- `EvalChecksigPreTapscript`: the signature is dropped from the script code
in legacy scripts, the encodings are checked, and a 1952-byte key selects the
Dilithium check. -/
def evalChecksigPreTapscript (sig pubkey : valtype) (scriptCode : CScript) :
    Except ScriptError Bool := do
  let scriptCode ← ctx.cleanScriptCode sig scriptCode
  checkSignatureEncoding sig ctx.flags
  checkPubKeyEncoding pubkey ctx.flags ctx.sigversion
  let fSuccess := ctx.checkSignatureBySize sig pubkey scriptCode
  Except.failIf (!fSuccess && hasFlag ctx.flags SCRIPT_VERIFY_NULLFAIL && !sig.isEmpty) .sigNullfail
  pure fSuccess

/-- `VALIDATION_WEIGHT_PER_SIGOP_PASSED`. -/
def VALIDATION_WEIGHT_PER_SIGOP_PASSED : Int := 50

/-- `EvalChecksigTapscript`: the key size selects Schnorr, Dilithium or an
upgradable key type; a non-empty signature spends validation weight. -/
def evalChecksigTapscript (sig pubkey : valtype) (execdata : ScriptExecutionData) :
    Except ScriptError (Bool × ScriptExecutionData) := do
  let success := !sig.isEmpty
  let execdata ←
    if success then
      let left := execdata.validationWeightLeft - VALIDATION_WEIGHT_PER_SIGOP_PASSED
      if left < 0 then throw .tapscriptValidationWeight
      pure { execdata with validationWeightLeft := left }
    else pure execdata
  if pubkey.length = 0 then throw .pubkeytype
  else if pubkey.length = 32 then
    if success then ctx.checker.checkSchnorrSignature sig pubkey ctx.sigversion execdata
  else if pubkey.length = DILITHIUM_PUBLICKEY_SIZE then
    if success && !ctx.checker.checkDilithiumSignature sig pubkey [] ctx.sigversion then
      throw .sigDer
  else if hasFlag ctx.flags SCRIPT_VERIFY_DISCOURAGE_UPGRADABLE_PUBKEYTYPE then
    throw .discourageUpgradablePubkeytype
  pure (success, execdata)

/-- `EvalChecksig`: dispatch on the signature version.  Key-path Taproot runs
no script, so its branch is the C++ `assert(false)`. -/
def evalChecksig (sig pubkey : valtype) (scriptCode : CScript) (execdata : ScriptExecutionData) :
    Except ScriptError (Bool × ScriptExecutionData) :=
  match ctx.sigversion with
  | .base | .witnessV0 =>
      (ctx.evalChecksigPreTapscript sig pubkey scriptCode).map (·, execdata)
  | .tapscript => ctx.evalChecksigTapscript sig pubkey execdata
  | .taproot => .error .unknownError

/-- The signature loop of `OP_CHECKMULTISIG` over the remaining signatures and
keys, both top first: each key is tried once, a signature advances only when
it verifies, and the loop fails as soon as more signatures than keys remain. -/
def checkMultisigLoop (scriptCode : CScript) : List valtype → List valtype → Except ScriptError Bool
  | [], _ => .ok true
  | _ :: _, [] => .ok false
  | sig :: sigs, key :: keys => do
      checkSignatureEncoding sig ctx.flags
      checkPubKeyEncoding key ctx.flags ctx.sigversion
      let fOk := ctx.checker.checkECDSASignature sig key scriptCode ctx.sigversion
      let remaining := if fOk then sigs else sig :: sigs
      if remaining.length > keys.length then pure false
      else checkMultisigLoop scriptCode remaining keys

/-- The signature removal of `OP_CHECKMULTISIG`, one signature after another. -/
def dropMultisigSignatures (scriptCode : CScript) (sigs : List valtype) :
    Except ScriptError CScript :=
  sigs.foldlM (fun code sig => ctx.cleanScriptCode sig code) scriptCode

/-- `OP_CHECKMULTISIG` and `OP_CHECKMULTISIGVERIFY`.  The stack holds, top
first, the key count, the keys, the signature count, the signatures and the
extra element consumed by the historical off-by-one, which the depth test
counts.  The cleanup pops every argument; with `NULLFAIL` a failed check must
have left every signature empty. -/
def opCheckMultisig (isVerify : Bool) (st : EvalState) : Except ScriptError EvalState := do
  if ctx.sigversion == .tapscript then throw .tapscriptCheckmultisig
  let keysCount ← match st.stack with
    | top :: _ => ctx.readNum top CScriptNum.nDefaultMaxNumSize
    | [] => throw .invalidStackOperation
  let nKeysCount := CScriptNum.getint keysCount
  if nKeysCount < 0 || nKeysCount > MAX_PUBKEYS_PER_MULTISIG then throw .pubkeyCount
  let nOpCount := st.nOpCount + nKeysCount.toNat
  if nOpCount > MAX_OPS_PER_SCRIPT then throw .opCount
  let sigsCountDepth := 2 + nKeysCount.toNat
  if st.stack.length < sigsCountDepth then throw .invalidStackOperation
  let sigsCount ← ctx.readNum (st.stack.getD (sigsCountDepth - 1) []) CScriptNum.nDefaultMaxNumSize
  let nSigsCount := CScriptNum.getint sigsCount
  if nSigsCount < 0 || nSigsCount > nKeysCount then throw .sigCount
  let consumed := sigsCountDepth + nSigsCount.toNat
  if st.stack.length < consumed + 1 then throw .invalidStackOperation
  let keys := (st.stack.drop 1).take nKeysCount.toNat
  let sigs := (st.stack.drop sigsCountDepth).take nSigsCount.toNat
  let scriptCode ← ctx.dropMultisigSignatures st.pbegincodehash sigs
  let fSuccess ← ctx.checkMultisigLoop scriptCode sigs keys
  if !fSuccess && hasFlag ctx.flags SCRIPT_VERIFY_NULLFAIL && sigs.any (· ≠ []) then
    throw .sigNullfail
  match st.stack.drop consumed with
  | [] => throw .invalidStackOperation
  | dummy :: rest =>
      if hasFlag ctx.flags SCRIPT_VERIFY_NULLDUMMY && dummy ≠ [] then throw .sigNulldummy
      if isVerify then
        if fSuccess then pure { st with stack := rest, nOpCount }
        else throw .checkmultisigverify
      else pure { st with stack := pushBool fSuccess :: rest, nOpCount }

/-- `OP_CHECKSIG` and `OP_CHECKSIGVERIFY`. -/
def opCheckSig (isVerify : Bool) (st : EvalState) : Except ScriptError EvalState :=
  match st.stack with
  | pubkey :: sig :: rest => do
      let (fSuccess, execdata) ← ctx.evalChecksig sig pubkey st.pbegincodehash st.execdata
      if isVerify then
        if fSuccess then pure { st with stack := rest, execdata }
        else throw .checksigverify
      else pure { st with stack := pushBool fSuccess :: rest, execdata }
  | _ => .error .invalidStackOperation

/-- `OP_CHECKSIGADD`, available only in Tapscript. -/
def opCheckSigAdd (st : EvalState) : Except ScriptError EvalState := do
  if ctx.isPreTapscript then throw .badOpcode
  match st.stack with
  | pubkey :: numBytes :: sig :: rest =>
      let num ← ctx.readNum numBytes CScriptNum.nDefaultMaxNumSize
      let (success, execdata) ← ctx.evalChecksig sig pubkey st.pbegincodehash st.execdata
      pure { st with
        stack := CScriptNum.serialize (num + if success then 1 else 0) :: rest, execdata }
  | _ => throw .invalidStackOperation


/-! ## The other opcodes -/

/-- `OP_1NEGATE` and `OP_1` to `OP_16`: push `opcode - (OP_1 - 1)`. -/
def opPushNumber (opcode : opcodetype) (st : EvalState) : EvalState :=
  { st with stack := CScriptNum.serialize ((opcode.toNat : Int) - (OP_1.toNat - 1 : Nat)) :: st.stack }

/-- `OP_CHECKLOCKTIMEVERIFY`, a `NOP2` without its flag. -/
def opCheckLockTimeVerify (st : EvalState) : Except ScriptError EvalState := do
  if !hasFlag ctx.flags SCRIPT_VERIFY_CHECKLOCKTIMEVERIFY then return st
  match st.stack with
  | [] => throw .invalidStackOperation
  | top :: _ =>
      let nLockTime ← ctx.readNum top 5
      if nLockTime < 0 then throw .negativeLocktime
      if !ctx.checker.checkLockTime nLockTime then throw .unsatisfiedLocktime
      pure st

/-- `OP_CHECKSEQUENCEVERIFY`, a `NOP3` without its flag or with the disable bit set. -/
def opCheckSequenceVerify (st : EvalState) : Except ScriptError EvalState := do
  if !hasFlag ctx.flags SCRIPT_VERIFY_CHECKSEQUENCEVERIFY then return st
  match st.stack with
  | [] => throw .invalidStackOperation
  | top :: _ =>
      let nSequence ← ctx.readNum top 5
      if nSequence < 0 then throw .negativeLocktime
      if nSequence.toNat &&& SEQUENCE_LOCKTIME_DISABLE_FLAG ≠ 0 then return st
      if !ctx.checker.checkSequence nSequence then throw .unsatisfiedLocktime
      pure st

/-- `OP_IF` and `OP_NOTIF`; in an unexecuted branch they only push a false level. -/
def opIf (isNotIf fExec : Bool) (st : EvalState) : Except ScriptError EvalState := do
  if !fExec then return { st with vfExec := st.vfExec.pushBack false }
  match st.stack with
  | [] => throw .unbalancedConditional
  | vch :: rest =>
      if ctx.sigversion == .tapscript then
        if vch.length > 1 || (vch.length = 1 && vch.head? ≠ some 1) then
          throw .tapscriptMinimalif
      if ctx.sigversion == .witnessV0 && hasFlag ctx.flags SCRIPT_VERIFY_MINIMALIF then
        if vch.length > 1 then throw .minimalif
        if vch.length = 1 && vch.head? ≠ some 1 then throw .minimalif
      let fValue := if isNotIf then !castToBool vch else castToBool vch
      pure { st with stack := rest, vfExec := st.vfExec.pushBack fValue }

/-- The stack-shuffling opcodes, on the main and alternate stacks (top first). -/
def stackOp (opcode : Nat) (stack altstack : List valtype) :
    Except ScriptError (List valtype × List valtype) :=
  let invalid : Except ScriptError (List valtype × List valtype) := .error .invalidStackOperation
  match opcode, stack with
  | 0x6b, x :: rest => .ok (rest, x :: altstack)                      -- OP_TOALTSTACK
  | 0x6b, _ => invalid
  | 0x6c, _ =>                                                        -- OP_FROMALTSTACK
      match altstack with
      | x :: rest => .ok (x :: stack, rest)
      | [] => .error .invalidAltstackOperation
  | 0x6d, _ :: _ :: rest => .ok (rest, altstack)                      -- OP_2DROP
  | 0x6e, x2 :: x1 :: rest => .ok (x2 :: x1 :: x2 :: x1 :: rest, altstack)  -- OP_2DUP
  | 0x6f, x3 :: x2 :: x1 :: rest =>                                   -- OP_3DUP
      .ok (x3 :: x2 :: x1 :: x3 :: x2 :: x1 :: rest, altstack)
  | 0x70, x4 :: x3 :: x2 :: x1 :: rest =>                             -- OP_2OVER
      .ok (x2 :: x1 :: x4 :: x3 :: x2 :: x1 :: rest, altstack)
  | 0x71, x6 :: x5 :: x4 :: x3 :: x2 :: x1 :: rest =>                 -- OP_2ROT
      .ok (x2 :: x1 :: x6 :: x5 :: x4 :: x3 :: rest, altstack)
  | 0x72, x4 :: x3 :: x2 :: x1 :: rest =>                             -- OP_2SWAP
      .ok (x2 :: x1 :: x4 :: x3 :: rest, altstack)
  | 0x73, x :: rest =>                                                -- OP_IFDUP
      .ok (if castToBool x then x :: x :: rest else x :: rest, altstack)
  | 0x74, _ => .ok (CScriptNum.serialize stack.length :: stack, altstack)  -- OP_DEPTH
  | 0x75, _ :: rest => .ok (rest, altstack)                           -- OP_DROP
  | 0x76, x :: rest => .ok (x :: x :: rest, altstack)                 -- OP_DUP
  | 0x77, x2 :: _ :: rest => .ok (x2 :: rest, altstack)               -- OP_NIP
  | 0x78, x2 :: x1 :: rest => .ok (x1 :: x2 :: x1 :: rest, altstack)  -- OP_OVER
  | 0x7b, x3 :: x2 :: x1 :: rest => .ok (x1 :: x3 :: x2 :: rest, altstack)  -- OP_ROT
  | 0x7c, x2 :: x1 :: rest => .ok (x1 :: x2 :: rest, altstack)        -- OP_SWAP
  | 0x7d, x2 :: x1 :: rest => .ok (x2 :: x1 :: x2 :: rest, altstack)  -- OP_TUCK
  | 0x82, x :: rest =>                                                -- OP_SIZE
      .ok (CScriptNum.serialize x.length :: x :: rest, altstack)
  | _, _ => invalid

/-- `OP_PICK` and `OP_ROLL`: the depth is read and popped before it is checked. -/
def opPickRoll (isRoll : Bool) (st : EvalState) : Except ScriptError EvalState :=
  match st.stack with
  | top :: second :: rest => do
      let n := CScriptNum.getint (← ctx.readNum top CScriptNum.nDefaultMaxNumSize)
      let stack := second :: rest
      if n < 0 || n ≥ stack.length then throw .invalidStackOperation
      let vch := stack.getD n.toNat []
      let stack := if isRoll then stack.eraseIdx n.toNat else stack
      pure { st with stack := vch :: stack }
  | _ => .error .invalidStackOperation

/-- `OP_EQUAL` and `OP_EQUALVERIFY`. -/
def opEqual (isVerify : Bool) (st : EvalState) : Except ScriptError EvalState :=
  match st.stack with
  | x2 :: x1 :: rest =>
      let fEqual := decide (x1 = x2)
      if isVerify then
        if fEqual then .ok { st with stack := rest } else .error .equalverify
      else .ok { st with stack := pushBool fEqual :: rest }
  | _ => .error .invalidStackOperation

/-- The one-operand arithmetic opcodes. -/
def numUnary (opcode : Nat) (bn : Int) : Int :=
  match opcode with
  | 0x8b => bn + 1                         -- OP_1ADD
  | 0x8c => bn - 1                         -- OP_1SUB
  | 0x8f => -bn                            -- OP_NEGATE
  | 0x90 => if bn < 0 then -bn else bn     -- OP_ABS
  | 0x91 => if bn = 0 then 1 else 0        -- OP_NOT
  | _ => if bn ≠ 0 then 1 else 0           -- OP_0NOTEQUAL

/-- The two-operand arithmetic opcodes; `bn1` is the deeper operand. -/
def numBinary (opcode : Nat) (bn1 bn2 : Int) : Int :=
  let ofBool (b : Bool) : Int := if b then 1 else 0
  match opcode with
  | 0x93 => bn1 + bn2                      -- OP_ADD
  | 0x94 => bn1 - bn2                      -- OP_SUB
  | 0x9a => ofBool (bn1 ≠ 0 && bn2 ≠ 0)    -- OP_BOOLAND
  | 0x9b => ofBool (bn1 ≠ 0 || bn2 ≠ 0)    -- OP_BOOLOR
  | 0x9c | 0x9d => ofBool (bn1 = bn2)      -- OP_NUMEQUAL, OP_NUMEQUALVERIFY
  | 0x9e => ofBool (bn1 ≠ bn2)             -- OP_NUMNOTEQUAL
  | 0x9f => ofBool (bn1 < bn2)             -- OP_LESSTHAN
  | 0xa0 => ofBool (bn1 > bn2)             -- OP_GREATERTHAN
  | 0xa1 => ofBool (bn1 ≤ bn2)             -- OP_LESSTHANOREQUAL
  | 0xa2 => ofBool (bn1 ≥ bn2)             -- OP_GREATERTHANOREQUAL
  | 0xa3 => if bn1 < bn2 then bn1 else bn2 -- OP_MIN
  | _ => if bn1 > bn2 then bn1 else bn2    -- OP_MAX

def opNumUnary (opcode : Nat) (st : EvalState) : Except ScriptError EvalState :=
  match st.stack with
  | top :: rest => do
      let bn ← ctx.readNum top CScriptNum.nDefaultMaxNumSize
      pure { st with stack := CScriptNum.serialize (numUnary opcode bn) :: rest }
  | [] => .error .invalidStackOperation

def opNumBinary (opcode : Nat) (st : EvalState) : Except ScriptError EvalState :=
  match st.stack with
  | x2 :: x1 :: rest => do
      let bn1 ← ctx.readNum x1 CScriptNum.nDefaultMaxNumSize
      let bn2 ← ctx.readNum x2 CScriptNum.nDefaultMaxNumSize
      let result := CScriptNum.serialize (numBinary opcode bn1 bn2)
      if opcode = 0x9d then                -- OP_NUMEQUALVERIFY
        if castToBool result then pure { st with stack := rest }
        else throw .numequalverify
      else pure { st with stack := result :: rest }
  | _ => .error .invalidStackOperation

/-- `OP_WITHIN`: `min <= x < max`. -/
def opWithin (st : EvalState) : Except ScriptError EvalState :=
  match st.stack with
  | x3 :: x2 :: x1 :: rest => do
      let bn1 ← ctx.readNum x1 CScriptNum.nDefaultMaxNumSize
      let bn2 ← ctx.readNum x2 CScriptNum.nDefaultMaxNumSize
      let bn3 ← ctx.readNum x3 CScriptNum.nDefaultMaxNumSize
      pure { st with stack := pushBool (bn2 ≤ bn1 && bn1 < bn3) :: rest }
  | _ => .error .invalidStackOperation

/-- The hashing opcodes. -/
def opHash (opcode : Nat) (st : EvalState) : Except ScriptError EvalState :=
  match st.stack with
  | vch :: rest =>
      let vchHash :=
        match opcode with
        | 0xa6 => ctx.hashes.ripemd160 vch     -- OP_RIPEMD160
        | 0xa7 => ctx.hashes.sha1 vch          -- OP_SHA1
        | 0xa8 => ctx.hashes.sha256 vch        -- OP_SHA256
        | 0xa9 => ctx.hashes.hash160 vch       -- OP_HASH160
        | _ => ctx.hashes.hash256 vch          -- OP_HASH256
      .ok { st with stack := vchHash :: rest }
  | [] => .error .invalidStackOperation

/-- The `switch (opcode)` of `EvalScript`, reached for executed opcodes that are
not data pushes and for the conditional opcodes of unexecuted branches. -/
def execOpcode (opcode : opcodetype) (afterOp : CScript) (fExec : Bool) (st : EvalState) :
    Except ScriptError EvalState :=
  let withStacks (result : Except ScriptError (List valtype × List valtype)) :=
    result.map fun (stack, altstack) => { st with stack, altstack }
  match opcode.toNat with
  | 0x4f | 0x51 | 0x52 | 0x53 | 0x54 | 0x55 | 0x56 | 0x57 | 0x58 | 0x59 | 0x5a | 0x5b | 0x5c
  | 0x5d | 0x5e | 0x5f | 0x60 => .ok (opPushNumber opcode st)
  | 0x61 => .ok st                                                   -- OP_NOP
  | 0xb1 => ctx.opCheckLockTimeVerify st
  | 0xb2 => ctx.opCheckSequenceVerify st
  | 0xb0 | 0xb3 | 0xb4 | 0xb5 | 0xb6 | 0xb7 | 0xb8 | 0xb9 =>         -- OP_NOP1, OP_NOP4..10
      if hasFlag ctx.flags SCRIPT_VERIFY_DISCOURAGE_UPGRADABLE_NOPS then
        .error .discourageUpgradableNops
      else .ok st
  | 0x63 => ctx.opIf false fExec st                                  -- OP_IF
  | 0x64 => ctx.opIf true fExec st                                   -- OP_NOTIF
  | 0x67 =>                                                          -- OP_ELSE
      if st.vfExec.empty then .error .unbalancedConditional
      else .ok { st with vfExec := st.vfExec.toggleTop }
  | 0x68 =>                                                          -- OP_ENDIF
      if st.vfExec.empty then .error .unbalancedConditional
      else .ok { st with vfExec := st.vfExec.popBack }
  | 0x69 =>                                                          -- OP_VERIFY
      match st.stack with
      | top :: rest => if castToBool top then .ok { st with stack := rest } else .error .verify
      | [] => .error .invalidStackOperation
  | 0x6a => .error .opReturn                                         -- OP_RETURN
  | 0x6b | 0x6c | 0x6d | 0x6e | 0x6f | 0x70 | 0x71 | 0x72 | 0x73 | 0x74 | 0x75 | 0x76 | 0x77
  | 0x78 | 0x7b | 0x7c | 0x7d | 0x82 => withStacks (stackOp opcode.toNat st.stack st.altstack)
  | 0x79 => ctx.opPickRoll false st                                  -- OP_PICK
  | 0x7a => ctx.opPickRoll true st                                   -- OP_ROLL
  | 0x87 => opEqual false st                                         -- OP_EQUAL
  | 0x88 => opEqual true st                                          -- OP_EQUALVERIFY
  | 0x8b | 0x8c | 0x8f | 0x90 | 0x91 | 0x92 => ctx.opNumUnary opcode.toNat st
  | 0x93 | 0x94 | 0x9a | 0x9b | 0x9c | 0x9d | 0x9e | 0x9f | 0xa0 | 0xa1 | 0xa2 | 0xa3
  | 0xa4 => ctx.opNumBinary opcode.toNat st
  | 0xa5 => ctx.opWithin st                                          -- OP_WITHIN
  | 0xa6 | 0xa7 | 0xa8 | 0xa9 | 0xaa => ctx.opHash opcode.toNat st
  | 0xab =>                                                          -- OP_CODESEPARATOR
      .ok { st with pbegincodehash := afterOp,
                    execdata := { st.execdata with codeseparatorPos := st.opcodePos } }
  | 0xac => ctx.opCheckSig false st                                  -- OP_CHECKSIG
  | 0xad => ctx.opCheckSig true st                                   -- OP_CHECKSIGVERIFY
  | 0xba => ctx.opCheckSigAdd st                                     -- OP_CHECKSIGADD
  | 0xae => ctx.opCheckMultisig false st                             -- OP_CHECKMULTISIG
  | 0xaf => ctx.opCheckMultisig true st                              -- OP_CHECKMULTISIGVERIFY
  | _ => .error .badOpcode

/-- The opcodes disabled since CVE-2010-5137. -/
def isDisabledOpcode (opcode : opcodetype) : Bool :=
  opcode.toNat ∈ [0x7e, 0x7f, 0x80, 0x81, 0x83, 0x84, 0x85, 0x86, 0x8d, 0x8e, 0x95, 0x96, 0x97,
    0x98, 0x99]

/-- The tests `EvalScript` makes on every opcode it reads, executed or not:
the element size, the opcode limit, the disabled opcodes and `OP_CODESEPARATOR`
under `CONST_SCRIPTCODE`.  The result is the updated opcode count, to which
`OP_RESERVED` and the pushes do not count. -/
def checkOpcode (opcode : opcodetype) (vchPushValue : valtype) (nOpCount : Nat) :
    Except ScriptError Nat := do
  if vchPushValue.length > MAX_SCRIPT_ELEMENT_SIZE then throw .pushSize
  let nOpCount ←
    if ctx.isPreTapscript && opcode > OP_16 then
      if nOpCount + 1 > MAX_OPS_PER_SCRIPT then throw .opCount
      pure (nOpCount + 1)
    else pure nOpCount
  if isDisabledOpcode opcode then throw .disabledOpcode
  if opcode == OP_CODESEPARATOR && ctx.sigversion == .base &&
      hasFlag ctx.flags SCRIPT_VERIFY_CONST_SCRIPTCODE then throw .opCodeseparator
  pure nOpCount

/-- The body of the loop for an opcode that passed `checkOpcode`: an executed
push, the `switch`, or nothing at all in an unexecuted branch. -/
def execute (opcode : opcodetype) (vchPushValue : valtype) (afterOp : CScript) (st : EvalState) :
    Except ScriptError EvalState :=
  let fExec := st.vfExec.allTrue
  if fExec && opcode ≤ OP_PUSHDATA4 then
    if ctx.fRequireMinimal && !checkMinimalPush vchPushValue opcode then .error .minimaldata
    else .ok { st with stack := vchPushValue :: st.stack }
  else if fExec || (OP_IF ≤ opcode && opcode ≤ OP_ENDIF) then
    ctx.execOpcode opcode afterOp fExec st
  else .ok st

/-- One iteration of the `EvalScript` loop after `GetOp` has read `opcode` and
`vchPushValue`, with `afterOp` the rest of the script. -/
def step (opcode : opcodetype) (vchPushValue : valtype) (afterOp : CScript) (st : EvalState) :
    Except ScriptError EvalState := do
  let nOpCount ← ctx.checkOpcode opcode vchPushValue st.nOpCount
  let st ← ctx.execute opcode vchPushValue afterOp { st with nOpCount }
  if st.stack.length + st.altstack.length > MAX_STACK_SIZE then throw .stackSize
  pure st

/-- The `for (; pc < pend; ++opcode_pos)` loop of `EvalScript`. -/
def evalLoop (pc : List UInt8) (st : EvalState) : Except ScriptError EvalState :=
  match pc with
  | [] => .ok st
  | first :: tail =>
      match reading : getScriptOp (first :: tail) with
      | none => .error .badOpcode
      | some (opcode, vchPushValue, rest) =>
          match ctx.step opcode vchPushValue rest st with
          | .error e => .error e
          | .ok next => evalLoop rest { next with opcodePos := next.opcodePos + 1 }
termination_by pc.length
decreasing_by exact getScriptOp_rest_lt reading

end EvalContext

/-- The locals of `EvalScript` before the first opcode: no condition open, the
code hash starting at the script's first byte, no separator seen. -/
def initialState (stack : List valtype) (script : CScript) (execdata : ScriptExecutionData) :
    EvalState :=
  { stack, altstack := [], vfExec := ConditionStack.init, nOpCount := 0,
    pbegincodehash := script, opcodePos := 0,
    execdata := { execdata with codeseparatorPos := 0xFFFFFFFF, codeseparatorPosInit := true } }

/-- `EvalScript(stack, script, flags, checker, sigversion, execdata)`: the final
stack, or the error `serror` reports. -/
def evalScript (hashes : Hashes) (checker : BaseSignatureChecker) (flags : Nat)
    (sigversion : SigVersion) (stack : List valtype) (script : CScript)
    (execdata : ScriptExecutionData) : Except ScriptError (List valtype) :=
  let ctx : EvalContext := ⟨hashes, checker, flags, sigversion⟩
  if ctx.isPreTapscript && script.length > MAX_SCRIPT_SIZE then .error .scriptSize
  else
    match ctx.evalLoop script (initialState stack script execdata) with
    | .error e => .error e
    | .ok final => if final.vfExec.empty then .ok final.stack else .error .unbalancedConditional

end Qbitcoin
