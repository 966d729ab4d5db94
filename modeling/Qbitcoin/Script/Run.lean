import Qbitcoin.Script.Interpreter

/-!
# Running `EvalScript`

What a successful iteration of the interpreter loop can have done.  The loop
reads one opcode, `checkOpcode` tests it, and `execute` pushes its data, runs
the `switch` or skips it; the lemmas below invert each of these stages once, so
that a run of a concrete script is walked opcode by opcode without unfolding
the interpreter again.
-/

namespace Qbitcoin

namespace EvalContext

variable (ctx : EvalContext) {st st' final : EvalState}

@[simp]
theorem evalLoop_nil : ctx.evalLoop [] st = .ok st := by
  rw [evalLoop]

/-- The loop on a script whose next opcode reads: one step, then the rest. -/
theorem evalLoop_of_getScriptOp {pc rest : List UInt8} {opcode : opcodetype}
    {vchPushValue : valtype} (reading : getScriptOp pc = some (opcode, vchPushValue, rest)) :
    ctx.evalLoop pc st = ctx.step opcode vchPushValue rest st >>= fun next =>
      ctx.evalLoop rest { next with opcodePos := next.opcodePos + 1 } := by
  cases pc with
  | nil => simp [getScriptOp] at reading
  | cons first tail =>
      rw [evalLoop]
      split
      · rename_i noOpcode
        rw [reading] at noOpcode
        cases noOpcode
      · rename_i opcode' vchPushValue' rest' reading'
        rw [reading] at reading'
        cases reading'
        cases ctx.step opcode vchPushValue rest st <;> rfl

/-- A step that succeeds passed `checkOpcode` and then `execute`. -/
theorem step_eq_ok {opcode : opcodetype} {vchPushValue : valtype} {afterOp : CScript}
    (stepping : ctx.step opcode vchPushValue afterOp st = .ok st') :
    ∃ nOpCount, ctx.checkOpcode opcode vchPushValue st.nOpCount = .ok nOpCount ∧
      ctx.execute opcode vchPushValue afterOp { st with nOpCount } = .ok st' := by
  unfold step at stepping
  obtain ⟨nOpCount, checked, stepping⟩ := Except.bind_eq_ok.mp stepping
  obtain ⟨next, executed, sized⟩ := Except.bind_eq_ok.mp stepping
  refine ⟨nOpCount, checked, ?_⟩
  split_ifs at sized
  · simp [throw, throwThe, MonadExceptOf.throw] at sized
  · simpa using executed.trans (by simpa using sized)

/-- An executed push puts its data on the stack and changes nothing else. -/
theorem execute_push {opcode : opcodetype} {vchPushValue : valtype} {afterOp : CScript}
    (fExec : st.vfExec.allTrue = true) (isPush : opcode ≤ OP_PUSHDATA4)
    (executing : ctx.execute opcode vchPushValue afterOp st = .ok st') :
    st' = { st with stack := vchPushValue :: st.stack } := by
  unfold execute at executing
  simp only [fExec, isPush, decide_true, Bool.and_self, if_true] at executing
  split_ifs at executing
  cases executing
  rfl

/-- An executed opcode above the pushes goes to the `switch`. -/
theorem execute_of_not_push {opcode : opcodetype} {vchPushValue : valtype} {afterOp : CScript}
    (fExec : st.vfExec.allTrue = true) (notPush : OP_PUSHDATA4 < opcode) :
    ctx.execute opcode vchPushValue afterOp st = ctx.execOpcode opcode afterOp true st := by
  have skipPush : ¬ opcode ≤ OP_PUSHDATA4 := UInt8.not_le.mpr notPush
  simp [execute, fExec, skipPush]

/-- An executed opcode above the pushes runs its `switch` case, then the rest. -/
theorem evalLoop_of_not_push {opcode : opcodetype} {rest : List UInt8}
    (running : ctx.evalLoop (opcode :: rest) st = .ok final)
    (fExec : st.vfExec.allTrue = true) (notPush : OP_PUSHDATA4 < opcode) :
    ∃ nOpCount next, ctx.execOpcode opcode rest true { st with nOpCount } = .ok next ∧
      ctx.evalLoop rest { next with opcodePos := next.opcodePos + 1 } = .ok final := by
  rw [ctx.evalLoop_of_getScriptOp (getScriptOp_of_not_push rest notPush)] at running
  obtain ⟨next, stepping, continuing⟩ := Except.bind_eq_ok.mp running
  obtain ⟨nOpCount, -, executing⟩ := ctx.step_eq_ok stepping
  have counted : ({ st with nOpCount } : EvalState).vfExec.allTrue = true := fExec
  rw [ctx.execute_of_not_push counted notPush] at executing
  exact ⟨nOpCount, next, executing, continuing⟩

/-- An executed push of `data` puts it on the stack, then the rest runs. -/
theorem evalLoop_pushData {data : valtype} {rest : List UInt8}
    (running : ctx.evalLoop (pushData data ++ rest) st = .ok final)
    (fExec : st.vfExec.allTrue = true) (fits : data.length < 2 ^ 32) :
    ∃ nOpCount, ctx.evalLoop rest
      { st with nOpCount, stack := data :: st.stack, opcodePos := st.opcodePos + 1 } = .ok final := by
  rw [ctx.evalLoop_of_getScriptOp (getScriptOp_pushData data rest fits)] at running
  obtain ⟨next, stepping, continuing⟩ := Except.bind_eq_ok.mp running
  obtain ⟨nOpCount, -, executing⟩ := ctx.step_eq_ok stepping
  have counted : ({ st with nOpCount } : EvalState).vfExec.allTrue = true := fExec
  have pushed := ctx.execute_push counted (pushOpcode_le _) executing
  subst pushed
  exact ⟨nOpCount, continuing⟩

/-! ## The opcodes of the key templates -/

/-- A script of pushes only leaves its data on the stack, the last push on top. -/
theorem evalLoop_flatMap_pushData {values : List valtype} (fExec : st.vfExec.allTrue = true)
    (fits : ∀ v ∈ values, v.length < 2 ^ 32)
    (running : ctx.evalLoop (values.flatMap pushData) st = .ok final) :
    final.stack = values.reverse ++ st.stack := by
  induction values generalizing st with
  | nil =>
      rw [List.flatMap_nil, evalLoop_nil] at running
      cases running
      rfl
  | cons v vs pushesRest =>
      rw [List.flatMap_cons] at running
      obtain ⟨nOpCount, running⟩ := ctx.evalLoop_pushData running fExec (fits v List.mem_cons_self)
      have restFit : ∀ w ∈ vs, w.length < 2 ^ 32 := fun w mem => fits w (List.mem_cons_of_mem v mem)
      rw [pushesRest (by exact fExec) restFit running]
      simp

variable {afterOp : CScript}

theorem execOpcode_dup (running : ctx.execOpcode OP_DUP afterOp true st = .ok st') :
    ∃ x rest, st.stack = x :: rest ∧ st' = { st with stack := x :: x :: rest } := by
  change (stackOp 0x76 st.stack st.altstack).map _ = _ at running
  match stack : st.stack, running with
  | [], running => simp [stackOp] at running
  | x :: rest, running =>
      simp only [stackOp, Except.map_eq_ok', Except.ok.injEq] at running
      obtain ⟨_, rfl, rfl⟩ := running
      exact ⟨x, rest, rfl, rfl⟩

theorem execOpcode_hash160 (running : ctx.execOpcode OP_HASH160 afterOp true st = .ok st') :
    ∃ x rest, st.stack = x :: rest ∧
      st' = { st with stack := ctx.hashes.hash160 x :: rest } := by
  change ctx.opHash 0xa9 st = _ at running
  match stack : st.stack, running with
  | [], running => simp [stack, opHash] at running
  | x :: rest, running =>
      simp only [opHash, stack, Except.ok.injEq] at running
      exact ⟨x, rest, rfl, running.symm⟩

theorem execOpcode_equalverify (running : ctx.execOpcode OP_EQUALVERIFY afterOp true st = .ok st') :
    ∃ x rest, st.stack = x :: x :: rest ∧ st' = { st with stack := rest } := by
  change opEqual true st = _ at running
  match stack : st.stack, running with
  | [], running => simp [stack, opEqual] at running
  | [_], running => simp [stack, opEqual] at running
  | x2 :: x1 :: rest, running =>
      simp only [opEqual, stack, decide_eq_true_eq, if_true] at running
      split_ifs at running with equal
      cases running
      exact ⟨x2, rest, by rw [equal], rfl⟩

/-- `OP_CHECKLOCKTIMEVERIFY` under its flag passes a non-negative operand that
the checker's `CheckLockTime` accepts, and changes nothing. -/
theorem execOpcode_checkLockTimeVerify {fExec : Bool}
    (flag : hasFlag ctx.flags SCRIPT_VERIFY_CHECKLOCKTIMEVERIFY = true)
    (running : ctx.execOpcode OP_CHECKLOCKTIMEVERIFY afterOp fExec st = .ok st') :
    ∃ top rest nLockTime, st.stack = top :: rest ∧ ctx.readNum top 5 = .ok nLockTime ∧
      0 ≤ nLockTime ∧ ctx.checker.checkLockTime nLockTime = true ∧ st' = st := by
  change ctx.opCheckLockTimeVerify st = _ at running
  unfold opCheckLockTimeVerify at running
  simp only [flag, Bool.not_true, Bool.false_eq_true, if_false] at running
  match st.stack, running with
  | [], running => simp at running
  | top :: rest, running =>
      cases read : ctx.readNum top 5 with
      | error e => simp [read] at running
      | ok nLockTime =>
          simp only [read, Except.ok_bind] at running
          by_cases negative : nLockTime < 0
          · rw [if_pos negative] at running
            cases running
          by_cases accepted : ctx.checker.checkLockTime nLockTime = true
          · rw [if_neg negative, if_neg (by simpa using accepted)] at running
            cases running
            exact ⟨top, rest, nLockTime, rfl, read, by omega, accepted, rfl⟩
          · rw [if_neg negative, if_pos (by simpa using accepted)] at running
            cases running

/-- `OP_CHECKSEQUENCEVERIFY` under its flag passes a non-negative operand, one
that the checker's `CheckSequence` accepts unless its disable bit is set, and
changes nothing. -/
theorem execOpcode_checkSequenceVerify {fExec : Bool}
    (flag : hasFlag ctx.flags SCRIPT_VERIFY_CHECKSEQUENCEVERIFY = true)
    (running : ctx.execOpcode OP_CHECKSEQUENCEVERIFY afterOp fExec st = .ok st') :
    ∃ top rest nSequence, st.stack = top :: rest ∧ ctx.readNum top 5 = .ok nSequence ∧
      0 ≤ nSequence ∧
      (nSequence.toNat &&& SEQUENCE_LOCKTIME_DISABLE_FLAG = 0 → ctx.checker.checkSequence nSequence = true) ∧
      st' = st := by
  change ctx.opCheckSequenceVerify st = _ at running
  unfold opCheckSequenceVerify at running
  simp only [flag, Bool.not_true, Bool.false_eq_true, if_false] at running
  match st.stack, running with
  | [], running => simp at running
  | top :: rest, running =>
      cases read : ctx.readNum top 5 with
      | error e => simp [read] at running
      | ok nSequence =>
          simp only [read, Except.ok_bind] at running
          by_cases negative : nSequence < 0
          · rw [if_pos negative] at running
            cases running
          rw [if_neg negative] at running
          by_cases disabled : nSequence.toNat &&& SEQUENCE_LOCKTIME_DISABLE_FLAG ≠ 0
          · rw [if_pos disabled] at running
            cases running
            exact ⟨top, rest, nSequence, rfl, read, by omega, fun enabled => absurd enabled disabled, rfl⟩
          rw [if_neg disabled] at running
          by_cases accepted : ctx.checker.checkSequence nSequence = true
          · rw [if_neg (by simpa using accepted)] at running
            cases running
            exact ⟨top, rest, nSequence, rfl, read, by omega, fun _ => accepted, rfl⟩
          · rw [if_pos (by simpa using accepted)] at running
            cases running

/-- `OP_CHECKSIG` pops the key and the signature and pushes the outcome of
`EvalChecksig` on them, against the script code from the last separator. -/
theorem execOpcode_checksig (running : ctx.execOpcode OP_CHECKSIG afterOp true st = .ok st') :
    ∃ pubkey sig rest fSuccess execdata, st.stack = pubkey :: sig :: rest ∧
      ctx.evalChecksig sig pubkey st.pbegincodehash st.execdata = .ok (fSuccess, execdata) ∧
      st' = { st with stack := pushBool fSuccess :: rest, execdata } := by
  change ctx.opCheckSig false st = _ at running
  match stack : st.stack, running with
  | [], running => simp [stack, opCheckSig] at running
  | [_], running => simp [stack, opCheckSig] at running
  | pubkey :: sig :: rest, running =>
      simp only [opCheckSig, stack] at running
      obtain ⟨⟨fSuccess, execdata⟩, checked, pushed⟩ := Except.bind_eq_ok.mp running
      simp only [Bool.false_eq_true, if_false, Except.pure_eq_ok] at pushed
      exact ⟨pubkey, sig, rest, fSuccess, execdata, rfl, checked, pushed.symm⟩

/-! ## Signature checks before Tapscript -/

/-- A signature check of a legacy or segwit-v0 script that did not fail passed
the encoding tests, and a success came from the check its key size selects. -/
theorem evalChecksigPreTapscript_eq_ok {sig pubkey : valtype} {scriptCode : CScript}
    {fSuccess : Bool} (checking : ctx.evalChecksigPreTapscript sig pubkey scriptCode = .ok fSuccess) :
    checkSignatureEncoding sig ctx.flags = .ok () ∧
      ∃ cleanedCode, fSuccess = ctx.checkSignatureBySize sig pubkey cleanedCode := by
  unfold evalChecksigPreTapscript at checking
  obtain ⟨cleanedCode, -, checking⟩ := Except.bind_eq_ok.mp checking
  obtain ⟨⟨⟩, encoded, checking⟩ := Except.bind_eq_ok.mp checking
  obtain ⟨⟨⟩, -, checking⟩ := Except.bind_eq_ok.mp checking
  obtain ⟨⟨⟩, -, checking⟩ := Except.bind_eq_ok.mp checking
  exact ⟨encoded, cleanedCode, (Except.pure_eq_ok.mp checking).symm⟩

theorem evalChecksig_of_isPreTapscript {sig pubkey : valtype} {scriptCode : CScript}
    {execdata execdata' : ScriptExecutionData} {fSuccess : Bool} (pre : ctx.isPreTapscript = true)
    (checking : ctx.evalChecksig sig pubkey scriptCode execdata = .ok (fSuccess, execdata')) :
    ctx.evalChecksigPreTapscript sig pubkey scriptCode = .ok fSuccess := by
  unfold isPreTapscript at pre
  unfold evalChecksig at checking
  cases sigversion : ctx.sigversion with
  | base | witnessV0 =>
      rw [sigversion] at checking
      obtain ⟨_, checked, paired⟩ := Except.map_eq_ok'.mp checking
      cases paired
      exact checked
  | taproot | tapscript => simp [sigversion] at pre

/-! ## Runs of the key templates -/

/-- `<pubkey> OP_CHECKSIG` succeeds only on a stack holding a signature, which
`EvalChecksig` judged against `pubkey`. -/
theorem evalLoop_payToPubKey {pubkey : valtype} (fExec : st.vfExec.allTrue = true)
    (fits : pubkey.length < 2 ^ 32) (running : ctx.evalLoop (payToPubKeyScript pubkey) st = .ok final) :
    ∃ sig rest fSuccess execdata, st.stack = sig :: rest ∧
      ctx.evalChecksig sig pubkey st.pbegincodehash st.execdata = .ok (fSuccess, execdata) ∧
      final.stack = pushBool fSuccess :: rest := by
  obtain ⟨nOpCount, running⟩ := ctx.evalLoop_pushData running fExec fits
  obtain ⟨nOpCount', checked, checking, finished⟩ :=
    ctx.evalLoop_of_not_push running fExec (by decide)
  obtain ⟨pubkey', sig, rest, fSuccess, execdata, stacked, judged, rfl⟩ :=
    ctx.execOpcode_checksig checking
  simp only [List.cons.injEq] at stacked
  obtain ⟨rfl, below⟩ := stacked
  rw [evalLoop_nil] at finished
  cases finished
  exact ⟨sig, rest, fSuccess, execdata, below, judged, rfl⟩

/-- `OP_DUP OP_HASH160 <hash> OP_EQUALVERIFY OP_CHECKSIG` succeeds only on a stack
holding a key whose Hash160 is `hash` above a signature, which `EvalChecksig`
judged against that key. -/
theorem evalLoop_payToPubKeyHash {hash : valtype} (fExec : st.vfExec.allTrue = true)
    (fits : hash.length < 2 ^ 32)
    (running : ctx.evalLoop (payToPubKeyHashScript hash) st = .ok final) :
    ∃ pubkey sig rest fSuccess execdata, st.stack = pubkey :: sig :: rest ∧
      ctx.hashes.hash160 pubkey = hash ∧
      ctx.evalChecksig sig pubkey st.pbegincodehash st.execdata = .ok (fSuccess, execdata) ∧
      final.stack = pushBool fSuccess :: rest := by
  obtain ⟨count₁, afterDup, duplicating, running⟩ :=
    ctx.evalLoop_of_not_push running fExec (by decide)
  obtain ⟨pubkey, below, stacked, rfl⟩ := ctx.execOpcode_dup duplicating
  obtain ⟨count₂, afterHash, hashing, running⟩ :=
    ctx.evalLoop_of_not_push running fExec (by decide)
  obtain ⟨_, _, hashedStack, rfl⟩ := ctx.execOpcode_hash160 hashing
  simp only [List.cons.injEq] at hashedStack
  obtain ⟨rfl, rfl⟩ := hashedStack
  obtain ⟨count₃, running⟩ := ctx.evalLoop_pushData running fExec fits
  obtain ⟨count₄, afterEqual, comparing, running⟩ :=
    ctx.evalLoop_of_not_push running fExec (by decide)
  obtain ⟨_, _, equalStack, rfl⟩ := ctx.execOpcode_equalverify comparing
  simp only [List.cons.injEq] at equalStack
  obtain ⟨rfl, hashed, rfl⟩ := equalStack
  obtain ⟨count₅, afterCheck, checking, finished⟩ :=
    ctx.evalLoop_of_not_push running fExec (by decide)
  obtain ⟨pubkey', sig, rest, fSuccess, execdata, checkStack, judged, rfl⟩ :=
    ctx.execOpcode_checksig checking
  simp only [List.cons.injEq] at checkStack
  obtain ⟨rfl, rfl⟩ := checkStack
  rw [evalLoop_nil] at finished
  cases finished
  exact ⟨pubkey, sig, rest, fSuccess, execdata, stacked, hashed, judged, rfl⟩

/-! ## One signature against one key in `OP_CHECKMULTISIG` -/

theorem execOpcode_checkMultisig (fExec : Bool) :
    ctx.execOpcode OP_CHECKMULTISIG afterOp fExec st = ctx.opCheckMultisig false st := rfl

/-- `OP_1` pushes the number one. -/
theorem execOpcode_one (running : ctx.execOpcode OP_1 afterOp true st = .ok st') :
    st' = { st with stack := vchTrue :: st.stack } := by
  change Except.ok (opPushNumber OP_1 st) = _ at running
  cases running
  have one : CScriptNum.serialize ((OP_1.toNat : Int) - (OP_1.toNat - 1 : Nat)) = vchTrue := by
    have value : ((OP_1.toNat : Int) - (OP_1.toNat - 1 : Nat)) = ((1 : Nat) : Int) := by
      simp [OP_1]
    rw [value, CScriptNum.serialize_of_small (by decide) (by decide)]
    rfl
  simp [opPushNumber, one]

theorem readNum_one (nMaxNumSize : Nat) (large : 1 ≤ nMaxNumSize) : ctx.readNum vchTrue nMaxNumSize = .ok 1 := by
  have decoded : ∀ fRequireMinimal, CScriptNum.decode vchTrue fRequireMinimal nMaxNumSize = some 1 := by
    intro fRequireMinimal
    have short : ¬ vchTrue.length > nMaxNumSize := by simp [vchTrue]; omega
    cases fRequireMinimal <;> simp [CScriptNum.decode, short] <;> decide
  simp [readNum, decoded]

/-- `OP_CHECKMULTISIG` on one key and one signature: the signature loop runs on
the pair, and its outcome replaces the arguments and the extra element. -/
theorem opCheckMultisig_single (pubkey sig dummy : valtype) (rest : List valtype)
    (stacked : st.stack = vchTrue :: pubkey :: vchTrue :: sig :: dummy :: rest)
    (running : ctx.opCheckMultisig false st = .ok st') :
    ∃ scriptCode fSuccess, ctx.checkMultisigLoop scriptCode [sig] [pubkey] = .ok fSuccess ∧
      st'.stack = pushBool fSuccess :: rest := by
  have getintOne : CScriptNum.getint 1 = 1 := by decide
  unfold opCheckMultisig at running
  simp only [stacked, readNum_one ctx CScriptNum.nDefaultMaxNumSize (by decide), Except.ite_throw_eq_ok,
    Except.ok_bind, getintOne, Int.toNat_one, List.getD_cons_succ, List.getD_cons_zero, List.drop_succ_cons,
    List.drop_zero, List.take_succ_cons, List.take_zero, Except.bind_eq_ok] at running
  obtain ⟨-, -, -, -, -, -, scriptCode, -, fSuccess, checked, -, -, pushed⟩ := running
  simp only [Bool.false_eq_true, if_false, Except.pure_eq_ok] at pushed
  exact ⟨scriptCode, fSuccess, checked, by rw [← pushed]⟩

/-- The signature loop on one signature and one key returns what the checker's
`CheckECDSASignature` says of them. -/
theorem checkMultisigLoop_single {scriptCode : CScript} {sig pubkey : valtype} {fSuccess : Bool}
    (checked : ctx.checkMultisigLoop scriptCode [sig] [pubkey] = .ok fSuccess) :
    fSuccess = ctx.checker.checkECDSASignature sig pubkey scriptCode ctx.sigversion := by
  simp only [checkMultisigLoop, Except.bind_eq_ok] at checked
  obtain ⟨-, -, -, -, checked⟩ := checked
  cases verified : ctx.checker.checkECDSASignature sig pubkey scriptCode ctx.sigversion <;>
    simp [verified, checkMultisigLoop] at checked <;> exact checked

/-- `OP_0 <sig> OP_1 <pubkey> OP_1 OP_CHECKMULTISIG` from an empty stack leaves
only the outcome of the signature loop on the pair. -/
theorem evalLoop_singleMultisig {sig pubkey : valtype} (fExec : st.vfExec.allTrue = true) (empty : st.stack = [])
    (fitsSig : sig.length < 2 ^ 32) (fitsKey : pubkey.length < 2 ^ 32)
    (running : ctx.evalLoop (pushData [] ++ pushData sig ++ [OP_1] ++ pushData pubkey ++ [OP_1, OP_CHECKMULTISIG])
      st = .ok final) :
    ∃ scriptCode fSuccess, ctx.checkMultisigLoop scriptCode [sig] [pubkey] = .ok fSuccess ∧
      final.stack = [pushBool fSuccess] := by
  simp only [List.append_assoc, List.cons_append, List.nil_append] at running
  obtain ⟨count₁, running⟩ := ctx.evalLoop_pushData running fExec (by simp)
  obtain ⟨count₂, running⟩ := ctx.evalLoop_pushData running fExec fitsSig
  obtain ⟨count₃, afterOne, pushingOne, running⟩ := ctx.evalLoop_of_not_push running fExec (by decide)
  obtain rfl := ctx.execOpcode_one pushingOne
  obtain ⟨count₄, running⟩ := ctx.evalLoop_pushData running fExec fitsKey
  obtain ⟨count₅, afterTwo, pushingTwo, running⟩ := ctx.evalLoop_of_not_push running fExec (by decide)
  obtain rfl := ctx.execOpcode_one pushingTwo
  obtain ⟨count₆, afterCheck, checking, finished⟩ := ctx.evalLoop_of_not_push running fExec (by decide)
  rw [execOpcode_checkMultisig] at checking
  obtain ⟨scriptCode, fSuccess, checked, stacked⟩ := ctx.opCheckMultisig_single pubkey sig [] [] (by simp [empty]) checking
  rw [evalLoop_nil] at finished
  cases finished
  exact ⟨scriptCode, fSuccess, checked, stacked⟩

end EvalContext

section

variable {hashes : Hashes} {checker : BaseSignatureChecker} {flags : Nat} {sigversion : SigVersion}
  {stack final : List valtype} {script : CScript} {execdata : ScriptExecutionData}

/-- A successful `EvalScript` ran its loop from the initial state to a state
with no open conditional, whose stack it returns. -/
theorem evalScript_eq_ok
    (running : evalScript hashes checker flags sigversion stack script execdata = .ok final) :
    ∃ st, (EvalContext.mk hashes checker flags sigversion).evalLoop script
        (initialState stack script execdata) = .ok st ∧ final = st.stack := by
  unfold evalScript at running
  dsimp only at running
  split_ifs at running
  split at running
  · cases running
  · rename_i st looped
    split_ifs at running
    cases running
    exact ⟨st, looped, rfl⟩

/-- `EvalScript` of a key-hash script: see `evalLoop_payToPubKeyHash`. -/
theorem evalScript_payToPubKeyHash {hash : valtype} (fits : hash.length < 2 ^ 32)
    (running : evalScript hashes checker flags sigversion stack (payToPubKeyHashScript hash)
      execdata = .ok final) :
    ∃ pubkey sig rest fSuccess execdata', stack = pubkey :: sig :: rest ∧
      hashes.hash160 pubkey = hash ∧
      (EvalContext.mk hashes checker flags sigversion).evalChecksig sig pubkey
        (payToPubKeyHashScript hash)
        (initialState stack (payToPubKeyHashScript hash) execdata).execdata =
        .ok (fSuccess, execdata') ∧
      final = pushBool fSuccess :: rest := by
  obtain ⟨st, looped, rfl⟩ := evalScript_eq_ok running
  exact EvalContext.evalLoop_payToPubKeyHash _ (by simp [initialState]) fits looped

/-- `EvalScript` of a bare-key script: see `evalLoop_payToPubKey`. -/
theorem evalScript_payToPubKey {pubkey : valtype} (fits : pubkey.length < 2 ^ 32)
    (running : evalScript hashes checker flags sigversion stack (payToPubKeyScript pubkey)
      execdata = .ok final) :
    ∃ sig rest fSuccess execdata', stack = sig :: rest ∧
      (EvalContext.mk hashes checker flags sigversion).evalChecksig sig pubkey
        (payToPubKeyScript pubkey)
        (initialState stack (payToPubKeyScript pubkey) execdata).execdata =
        .ok (fSuccess, execdata') ∧
      final = pushBool fSuccess :: rest := by
  obtain ⟨st, looped, rfl⟩ := evalScript_eq_ok running
  exact EvalContext.evalLoop_payToPubKey _ (by simp [initialState]) fits looped

/-- Before Tapscript, a script that runs is at most `MAX_SCRIPT_SIZE` bytes long. -/
theorem length_le_of_evalScript
    (pre : (EvalContext.mk hashes checker flags sigversion).isPreTapscript = true)
    (running : evalScript hashes checker flags sigversion stack script execdata = .ok final) :
    script.length ≤ MAX_SCRIPT_SIZE := by
  by_contra tooLong
  unfold evalScript at running
  dsimp only at running
  rw [if_pos (by simp [pre, Nat.lt_of_not_le tooLong])] at running
  cases running

/-- See `evalLoop_flatMap_pushData`. -/
theorem evalScript_flatMap_pushData {values : List valtype}
    (fits : ∀ v ∈ values, v.length < 2 ^ 32)
    (running : evalScript hashes checker flags sigversion stack (values.flatMap pushData)
      execdata = .ok final) :
    final = values.reverse ++ stack := by
  obtain ⟨st, looped, rfl⟩ := evalScript_eq_ok running
  exact EvalContext.evalLoop_flatMap_pushData _ (by simp [initialState]) fits looped

/-- Under `DERSIG`, a signature check before Tapscript fails on a signature
longer than the 73 bytes of the longest DER signature. -/
theorem evalChecksig_ne_ok_of_long {sig pubkey : valtype} {scriptCode : CScript}
    {execdata : ScriptExecutionData} {outcome : Bool × ScriptExecutionData}
    (derSig : hasFlag flags SCRIPT_VERIFY_DERSIG = true)
    (pre : (EvalContext.mk hashes checker flags sigversion).isPreTapscript = true)
    (long : 73 < sig.length) :
    (EvalContext.mk hashes checker flags sigversion).evalChecksig sig pubkey scriptCode execdata ≠
      .ok outcome := by
  intro checking
  have judged := EvalContext.evalChecksig_of_isPreTapscript _ pre checking
  obtain ⟨encoded, -⟩ := EvalContext.evalChecksigPreTapscript_eq_ok _ judged
  rw [checkSignatureEncoding_of_long derSig long] at encoded
  cases encoded

/-- Under `DERSIG`, a key-hash script run before Tapscript fails when the
signature below the key is longer than 73 bytes. -/
theorem evalScript_payToPubKeyHash_ne_ok_of_long {hash pubkey sig : valtype} {rest : List valtype}
    (derSig : hasFlag flags SCRIPT_VERIFY_DERSIG = true)
    (pre : (EvalContext.mk hashes checker flags sigversion).isPreTapscript = true)
    (fits : hash.length < 2 ^ 32) (long : 73 < sig.length) :
    evalScript hashes checker flags sigversion (pubkey :: sig :: rest) (payToPubKeyHashScript hash)
      execdata ≠ .ok final := by
  intro running
  obtain ⟨_, sig', _, _, _, stacked, -, checking, -⟩ := evalScript_payToPubKeyHash fits running
  simp only [List.cons.injEq] at stacked
  obtain ⟨-, rfl, -⟩ := stacked
  exact evalChecksig_ne_ok_of_long derSig pre long checking

/-- A key-hash script fails on a stack of fewer than two elements. -/
theorem evalScript_payToPubKeyHash_ne_ok_of_short {hash : valtype}
    (fits : hash.length < 2 ^ 32) (short : stack.length < 2) :
    evalScript hashes checker flags sigversion stack (payToPubKeyHashScript hash)
      execdata ≠ .ok final := by
  intro running
  obtain ⟨_, _, rest, _, _, rfl, -⟩ := evalScript_payToPubKeyHash fits running
  simp only [List.length_cons] at short
  omega

/-- A bare-key script fails on the empty stack. -/
theorem evalScript_payToPubKey_ne_ok_of_nil {pubkey : valtype} (fits : pubkey.length < 2 ^ 32) :
    evalScript hashes checker flags sigversion [] (payToPubKeyScript pubkey) execdata ≠ .ok final := by
  intro running
  obtain ⟨_, _, _, _, stacked, -⟩ := evalScript_payToPubKey fits running
  cases stacked

end

end Qbitcoin
