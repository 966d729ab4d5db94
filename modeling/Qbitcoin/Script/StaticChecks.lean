import Qbitcoin.Script.Run

/-!
# What `EvalScript` checks of every opcode it reads

`EvalScript` skips the body of an opcode in an unexecuted branch, but not its
checks: every opcode the loop reads passes the element size limit, the opcode
limit, the disabled opcodes and `OP_CODESEPARATOR` under `CONST_SCRIPTCODE`,
and the opcodes from `OP_IF` to `OP_ENDIF` run even when their branch does not.
So a script that `EvalScript` accepts is read to its end, each of its
operations passes those checks, its conditionals are balanced, and before
Tapscript it counts at most `MAX_OPS_PER_SCRIPT` opcodes, whichever branches it
took.

The balance is stated on a depth (`conditionStep`), our reading of what the
condition stack is for; the interpreter keeps the depth in the `uint32_t`
size of `vfExec`, which each operation moves as `ConditionMove` says.
-/

namespace Qbitcoin

/-! ## The nesting of conditionals -/

/-- How an opcode moves the nesting depth of conditionals: `OP_IF` and
`OP_NOTIF` open a level, `OP_ELSE` needs an open one and `OP_ENDIF` closes one;
`OP_VERIF` and `OP_VERNOTIF`, which sit between them, never pass. -/
def conditionStep (depth : Nat) (opcode : opcodetype) : Option Nat :=
  match opcode.toNat with
  | 0x63 | 0x64 => some (depth + 1)
  | 0x65 | 0x66 => none
  | 0x67 => if depth = 0 then none else some depth
  | 0x68 => if depth = 0 then none else some (depth - 1)
  | _ => some depth

theorem conditionStep_le {depth depth' : Nat} {opcode : opcodetype}
    (moved : conditionStep depth opcode = some depth') : depth' ≤ depth + 1 := by
  unfold conditionStep at moved
  split at moved <;> (try split_ifs at moved) <;> cases moved <;> omega

/-- What one operation may do to the condition stack, by the cases of the
`switch`: the conditional opcodes push, toggle or pop a level, `OP_VERIF` and
`OP_VERNOTIF` fail, and every other opcode leaves the stack alone. -/
def ConditionMove (opcode : opcodetype) (before after : ConditionStack) : Prop :=
  match opcode.toNat with
  | 0x63 | 0x64 => ∃ f, after = before.pushBack f
  | 0x65 | 0x66 => False
  | 0x67 => before.empty = false ∧ after = before.toggleTop
  | 0x68 => before.empty = false ∧ after = before.popBack
  | _ => after = before

theorem conditionMove_refl {opcode : opcodetype} (ordinary : opcode.toNat < 0x63 ∨ 0x68 < opcode.toNat)
    (c : ConditionStack) : ConditionMove opcode c c := by
  unfold ConditionMove
  split <;> first | omega | rfl

/-- The condition stack follows the depth, as long as its `uint32_t` size does
not wrap. -/
theorem ConditionMove.conditionStep_stackSize {opcode : opcodetype} {before after : ConditionStack}
    (move : ConditionMove opcode before after) (fits : before.stackSize.toNat + 1 < 2 ^ 32) :
    conditionStep before.stackSize.toNat opcode = some after.stackSize.toNat := by
  unfold ConditionMove at move
  unfold conditionStep
  split at move
  · obtain ⟨f, rfl⟩ := move
    simp only [ConditionStack.pushBack, UInt32.toNat_add, UInt32.reduceToNat, Option.some.injEq]
    omega
  · obtain ⟨f, rfl⟩ := move
    simp only [ConditionStack.pushBack, UInt32.toNat_add, UInt32.reduceToNat, Option.some.injEq]
    omega
  · exact move.elim
  · exact move.elim
  · obtain ⟨nonempty, rfl⟩ := move
    have : before.stackSize.toNat ≠ 0 := by
      simpa [ConditionStack.empty, UInt32.ext_iff] using nonempty
    simp only [this, if_false]
    unfold ConditionStack.toggleTop
    split_ifs <;> rfl
  · obtain ⟨nonempty, rfl⟩ := move
    have : before.stackSize.toNat ≠ 0 := by
      simpa [ConditionStack.empty, UInt32.ext_iff] using nonempty
    simp only [this, if_false, ConditionStack.popBack, Option.some.injEq]
    rw [UInt32.toNat_sub_of_le _ _ (by simp [UInt32.le_iff_toNat_le]; omega)]
    rfl
  · rw [move]

namespace EvalContext

variable (ctx : EvalContext) {st st' : EvalState}

/-! ## Opcodes that leave the control state alone -/

/-- The operation left the condition stack and the opcode count as they were. -/
def SameControl (st st' : EvalState) : Prop := st'.vfExec = st.vfExec ∧ st'.nOpCount = st.nOpCount

@[simp]
theorem opCheckLockTimeVerify_sameControl : (ctx.opCheckLockTimeVerify st).Ensures (SameControl st) := by
  unfold opCheckLockTimeVerify
  split
  · simp [SameControl]
  · split <;> simp [SameControl]

@[simp]
theorem opCheckSequenceVerify_sameControl : (ctx.opCheckSequenceVerify st).Ensures (SameControl st) := by
  unfold opCheckSequenceVerify
  split
  · simp [SameControl]
  · split <;> simp [SameControl]

@[simp]
theorem opPickRoll_sameControl (isRoll : Bool) : (ctx.opPickRoll isRoll st).Ensures (SameControl st) := by
  unfold opPickRoll
  split <;> simp [SameControl]

@[simp]
theorem opEqual_sameControl (isVerify : Bool) : (opEqual isVerify st).Ensures (SameControl st) := by
  unfold opEqual
  split <;> simp [SameControl]

@[simp]
theorem opNumUnary_sameControl (opcode : Nat) : (ctx.opNumUnary opcode st).Ensures (SameControl st) := by
  unfold opNumUnary
  split <;> simp [SameControl]

@[simp]
theorem opNumBinary_sameControl (opcode : Nat) : (ctx.opNumBinary opcode st).Ensures (SameControl st) := by
  unfold opNumBinary
  split <;> simp [SameControl]

@[simp]
theorem opWithin_sameControl : (ctx.opWithin st).Ensures (SameControl st) := by
  unfold opWithin
  split <;> simp [SameControl]

@[simp]
theorem opHash_sameControl (opcode : Nat) : (ctx.opHash opcode st).Ensures (SameControl st) := by
  unfold opHash
  split <;> simp [SameControl]

@[simp]
theorem opCheckSig_sameControl (isVerify : Bool) : (ctx.opCheckSig isVerify st).Ensures (SameControl st) := by
  unfold opCheckSig
  split <;> simp [SameControl]

@[simp]
theorem opCheckSigAdd_sameControl : (ctx.opCheckSigAdd st).Ensures (SameControl st) := by
  unfold opCheckSigAdd
  split <;> simp [SameControl]

/-- `OP_CHECKMULTISIG` adds its key count to the opcode count, and only once it
has checked that the sum stays within `MAX_OPS_PER_SCRIPT`. -/
theorem opCheckMultisig_nOpCount (isVerify : Bool) :
    (ctx.opCheckMultisig isVerify st).Ensures fun st' =>
      st'.vfExec = st.vfExec ∧ st.nOpCount ≤ st'.nOpCount ∧ st'.nOpCount ≤ MAX_OPS_PER_SCRIPT := by
  unfold opCheckMultisig
  simp only [Except.ensures_bind, Except.ensures_ite, Except.ensures_throw]
  refine ⟨fun _ => trivial, fun _ => ?_⟩
  split
  · simp
    intro keysCount _ _ _ fits _ sigsCount _ _ _ _ scriptCode _ fSuccess _ _
    split
    · simp
    · simp [fits]
  · simp

/-- Outside `OP_IF` to `OP_ENDIF`, only `OP_CHECKMULTISIG` touches the control
state, and the opcode count only grows within its limit. -/
theorem execOpcode_ordinary {opcode : opcodetype} {afterOp : CScript} {fExec : Bool}
    (ordinary : opcode.toNat < 0x63 ∨ 0x68 < opcode.toNat) :
    (ctx.execOpcode opcode afterOp fExec st).Ensures fun st' =>
      st'.vfExec = st.vfExec ∧ st.nOpCount ≤ st'.nOpCount ∧
        (st'.nOpCount = st.nOpCount ∨ st'.nOpCount ≤ MAX_OPS_PER_SCRIPT) := by
  have same : ∀ st' : EvalState, SameControl st st' →
      st'.vfExec = st.vfExec ∧ st.nOpCount ≤ st'.nOpCount ∧
        (st'.nOpCount = st.nOpCount ∨ st'.nOpCount ≤ MAX_OPS_PER_SCRIPT) :=
    fun st' ⟨vfExec, nOpCount⟩ => ⟨vfExec, nOpCount.ge, .inl nOpCount⟩
  have multisig : ∀ st' : EvalState, st'.vfExec = st.vfExec ∧ st.nOpCount ≤ st'.nOpCount ∧ st'.nOpCount ≤ MAX_OPS_PER_SCRIPT →
      st'.vfExec = st.vfExec ∧ st.nOpCount ≤ st'.nOpCount ∧
        (st'.nOpCount = st.nOpCount ∨ st'.nOpCount ≤ MAX_OPS_PER_SCRIPT) :=
    fun _ ⟨vfExec, grows, bounded⟩ => ⟨vfExec, grows, .inr bounded⟩
  unfold execOpcode
  dsimp only
  split <;> rename_i isOpcode
  all_goals first
    | omega
    | exact (ctx.opCheckMultisig_nOpCount _).mono multisig
    | (refine Except.Ensures.mono ?_ same; (try split) <;> simp [SameControl, opPushNumber])

/-! ## The conditional opcodes -/

/-- `OP_IF` and `OP_NOTIF` push a level, executed or not. -/
theorem opIf_pushBack (isNotIf fExec : Bool) :
    (ctx.opIf isNotIf fExec st).Ensures fun st' =>
      (∃ f, st'.vfExec = st.vfExec.pushBack f) ∧ st'.nOpCount = st.nOpCount := by
  unfold opIf
  split
  · simp
  · split <;> simp [-Bool.exists_bool]

/-- What an executed or skipped operation does to the control state: it moves
the condition stack as its kind allows, and the opcode count only grows, within
its limit when it grows. -/
@[mk_iff]
structure ControlStep (opcode : opcodetype) (st st' : EvalState) : Prop where
  condition : ConditionMove opcode st.vfExec st'.vfExec
  grows : st.nOpCount ≤ st'.nOpCount
  bounded : st'.nOpCount = st.nOpCount ∨ st'.nOpCount ≤ MAX_OPS_PER_SCRIPT

theorem execOpcode_control (opcode : opcodetype) (afterOp : CScript) (fExec : Bool) :
    (ctx.execOpcode opcode afterOp fExec st).Ensures (ControlStep opcode st) := by
  by_cases ordinary : opcode.toNat < 0x63 ∨ 0x68 < opcode.toNat
  · refine (ctx.execOpcode_ordinary ordinary).mono fun st' ⟨vfExec, grows, bounded⟩ => ⟨?_, grows, bounded⟩
    rw [vfExec]
    exact conditionMove_refl ordinary _
  · have conditional : opcode.toNat = 0x63 ∨ opcode.toNat = 0x64 ∨ opcode.toNat = 0x65 ∨
        opcode.toNat = 0x66 ∨ opcode.toNat = 0x67 ∨ opcode.toNat = 0x68 := by
      omega
    rcases conditional with isOpcode | isOpcode | isOpcode | isOpcode | isOpcode | isOpcode
    · simp only [execOpcode, isOpcode]
      refine (ctx.opIf_pushBack false fExec).mono fun st' ⟨pushed, same⟩ => ⟨?_, same.ge, .inl same⟩
      simpa only [ConditionMove, isOpcode] using pushed
    · simp only [execOpcode, isOpcode]
      refine (ctx.opIf_pushBack true fExec).mono fun st' ⟨pushed, same⟩ => ⟨?_, same.ge, .inl same⟩
      simpa only [ConditionMove, isOpcode] using pushed
    all_goals simp [execOpcode, isOpcode, controlStep_iff, ConditionMove]

/-- A push outside `OP_IF` to `OP_ENDIF`, or a skipped opcode, leaves the
condition stack alone; the rest is the `switch`. -/
theorem execute_control (opcode : opcodetype) (vchPushValue : valtype) (afterOp : CScript) :
    (ctx.execute opcode vchPushValue afterOp st).Ensures (ControlStep opcode st) := by
  unfold execute
  dsimp only
  split_ifs with pushing minimal running
  · simp
  · have ordinary : opcode.toNat < 0x63 ∨ 0x68 < opcode.toNat := by
      simp only [Bool.and_eq_true, decide_eq_true_eq, UInt8.le_iff_toNat_le] at pushing
      have isPush : opcode.toNat ≤ 0x4e := pushing.2
      omega
    simpa [controlStep_iff] using conditionMove_refl ordinary st.vfExec
  · exact ctx.execOpcode_control opcode afterOp _
  · have ordinary : opcode.toNat < 0x63 ∨ 0x68 < opcode.toNat := by
      simp only [Bool.or_eq_true, Bool.and_eq_true, decide_eq_true_eq, UInt8.le_iff_toNat_le, not_or,
        not_and_or, Nat.not_le] at running
      simpa [OP_IF, OP_ENDIF] using running.2
    simpa [controlStep_iff] using conditionMove_refl ordinary st.vfExec

/-! ## The checks of every read operation -/

/-- The checks `EvalScript` makes on each operation it reads, whether its
branch runs or not. -/
@[mk_iff]
structure ReadableOp (opcode : opcodetype) (vchPushValue : valtype) : Prop where
  pushSize : vchPushValue.length ≤ MAX_SCRIPT_ELEMENT_SIZE
  enabled : isDisabledOpcode opcode = false
  codeSeparator : opcode = OP_CODESEPARATOR → ctx.sigversion = .base →
    hasFlag ctx.flags SCRIPT_VERIFY_CONST_SCRIPTCODE = false

instance (opcode : opcodetype) (vchPushValue : valtype) : Decidable (ctx.ReadableOp opcode vchPushValue) :=
  decidable_of_iff _ (ctx.readableOp_iff opcode vchPushValue).symm

/-- `checkOpcode` passes readable operations only, and adds one to the count for
an opcode above `OP_16` before Tapscript, within `MAX_OPS_PER_SCRIPT`. -/
theorem checkOpcode_readable (opcode : opcodetype) (vchPushValue : valtype) (nOpCount : Nat) :
    (ctx.checkOpcode opcode vchPushValue nOpCount).Ensures fun counted =>
      ctx.ReadableOp opcode vchPushValue ∧
        counted = nOpCount + (if ctx.isPreTapscript && decide (OP_16 < opcode) then 1 else 0) ∧
        (counted = nOpCount ∨ counted ≤ MAX_OPS_PER_SCRIPT) := by
  unfold checkOpcode
  simp +contextual [readableOp_iff]

/-- What one accepted iteration of the loop tells about the operation it read
and the control state. -/
structure ReadStep (opcode : opcodetype) (vchPushValue : valtype) (st st' : EvalState) : Prop where
  readable : ctx.ReadableOp opcode vchPushValue
  condition : ConditionMove opcode st.vfExec st'.vfExec
  counts : st.nOpCount + (if ctx.isPreTapscript && decide (OP_16 < opcode) then 1 else 0) ≤ st'.nOpCount
  bounded : st.nOpCount ≤ MAX_OPS_PER_SCRIPT → st'.nOpCount ≤ MAX_OPS_PER_SCRIPT

theorem step_readStep {opcode : opcodetype} {vchPushValue : valtype} {afterOp : CScript}
    (stepping : ctx.step opcode vchPushValue afterOp st = .ok st') : ctx.ReadStep opcode vchPushValue st st' := by
  obtain ⟨counted, checked, executed⟩ := ctx.step_eq_ok stepping
  obtain ⟨readable, countedEq, countedBound⟩ := (ctx.checkOpcode_readable opcode vchPushValue _).of_eq_ok checked
  have control := (ctx.execute_control opcode vchPushValue afterOp).of_eq_ok executed
  have grows : counted ≤ st'.nOpCount := control.grows
  refine ⟨readable, control.condition, by omega, fun bounded => ?_⟩
  rcases control.bounded with same | within
  · change st'.nOpCount = counted at same
    omega
  · exact within

/-! ## Whole runs -/

end EvalContext

/-- The operations read that count towards `MAX_OPS_PER_SCRIPT` before
Tapscript: every opcode above `OP_16`. -/
def countedOps (ops : List (opcodetype × valtype)) : Nat := ops.countP fun op => OP_16 < op.1

namespace EvalContext

variable (ctx : EvalContext) {st st' : EvalState}

/-- What an accepted run of the loop over `pc`, from `st` to `final`, tells
about the operations `GetOp` reads from `pc`. -/
structure ReadChecked (pc : List UInt8) (st final : EvalState) : Prop where
  consumed : (readOps pc).2 = []
  readable : ∀ op ∈ (readOps pc).1, ctx.ReadableOp op.1 op.2
  nested : ((readOps pc).1.map Prod.fst).foldlM conditionStep st.vfExec.stackSize.toNat =
    some final.vfExec.stackSize.toNat
  counted : ctx.isPreTapscript = true → st.nOpCount + countedOps (readOps pc).1 ≤ final.nOpCount
  bounded : st.nOpCount ≤ MAX_OPS_PER_SCRIPT → final.nOpCount ≤ MAX_OPS_PER_SCRIPT

/-- The loop stops only where nothing is left to read. -/
theorem readChecked_nil : ctx.ReadChecked [] st st := by
  have stopped : readOps [] = ([], []) := by
    rw [readOps]
    rfl
  exact ⟨by rw [stopped], by simp [stopped], by simp [stopped], by simp [stopped, countedOps], id⟩

/-- One operation read and run, then the rest of the script. -/
theorem ReadChecked.cons {pc rest : List UInt8} {opcode : opcodetype} {vchPushValue : valtype}
    {next final : EvalState} (reading : getScriptOp pc = some (opcode, vchPushValue, rest))
    (step : ctx.ReadStep opcode vchPushValue st next)
    (moved : conditionStep st.vfExec.stackSize.toNat opcode = some next.vfExec.stackSize.toNat)
    (restChecked : ctx.ReadChecked rest { next with opcodePos := next.opcodePos + 1 } final) :
    ctx.ReadChecked pc st final := by
  have read := readOps_of_getScriptOp reading
  refine ⟨?_, ?_, ?_, fun pre => ?_, fun bounded => restChecked.bounded (step.bounded bounded)⟩
  · rw [read]
    exact restChecked.consumed
  · rw [read]
    intro op member
    rcases List.mem_cons.mp member with rfl | later
    · exact step.readable
    · exact restChecked.readable op later
  · rw [read]
    simpa [moved] using restChecked.nested
  · rw [read]
    have counts := step.counts
    have restCounted := restChecked.counted pre
    simp only [pre, Bool.true_and] at counts
    simp only [countedOps, List.countP_cons] at restCounted ⊢
    omega

/-- The run lemma: every operation of an accepted run is read, passes the read
checks and moves the depth, as long as the `uint32_t` size of `vfExec` cannot
wrap.  The recursion is the loop's own, on the bytes left. -/
theorem evalLoop_readChecked (pc : List UInt8) (st final : EvalState)
    (fits : st.vfExec.stackSize.toNat + pc.length < 2 ^ 32)
    (running : ctx.evalLoop pc st = .ok final) : ctx.ReadChecked pc st final := by
  cases reading : getScriptOp pc with
  | none =>
      cases pc with
      | nil =>
          rw [evalLoop_nil] at running
          cases running
          exact ctx.readChecked_nil
      | cons first tail =>
          rw [evalLoop] at running
          split at running
          · cases running
          · rename_i read
            rw [reading] at read
            cases read
  | some operation =>
      obtain ⟨opcode, vchPushValue, rest⟩ := operation
      rw [ctx.evalLoop_of_getScriptOp reading] at running
      obtain ⟨next, stepping, continued⟩ := Except.bind_eq_ok.mp running
      have step := ctx.step_readStep stepping
      have shorter := getScriptOp_rest_lt reading
      have moved := step.condition.conditionStep_stackSize (by omega)
      have deeper := conditionStep_le moved
      have restFits : next.vfExec.stackSize.toNat + rest.length < 2 ^ 32 := by omega
      exact ReadChecked.cons ctx reading step moved (evalLoop_readChecked rest _ final restFits continued)
termination_by pc.length
decreasing_by exact getScriptOp_rest_lt reading

/-! ## Accepted scripts -/

/-- What `EvalScript` demands of a script whichever branches it takes: `GetOp`
reads it to its end, every operation passes the read checks, the conditionals
are balanced, and before Tapscript it fits `MAX_SCRIPT_SIZE` and counts at most
`MAX_OPS_PER_SCRIPT` opcodes. -/
@[mk_iff]
structure WellFormedScript (script : CScript) : Prop where
  consumed : (readOps script).2 = []
  readable : ∀ op ∈ (readOps script).1, ctx.ReadableOp op.1 op.2
  balanced : ((readOps script).1.map Prod.fst).foldlM conditionStep 0 = some 0
  limits : ctx.isPreTapscript = true →
    script.length ≤ MAX_SCRIPT_SIZE ∧ countedOps (readOps script).1 ≤ MAX_OPS_PER_SCRIPT

instance (script : CScript) : Decidable (ctx.WellFormedScript script) :=
  decidable_of_iff _ (ctx.wellFormedScript_iff script).symm

/-- An accepted `EvalScript` ran its loop to a state with no open conditional. -/
theorem evalScript_eq_ok_closed {stack result : List valtype} {script : CScript}
    {execdata : ScriptExecutionData}
    (accepted : evalScript ctx.hashes ctx.checker ctx.flags ctx.sigversion stack script execdata = .ok result) :
    ∃ final, ctx.evalLoop script (initialState stack script execdata) = .ok final ∧
      final.vfExec.empty = true := by
  unfold evalScript at accepted
  dsimp only at accepted
  split_ifs at accepted
  split at accepted
  · cases accepted
  · rename_i final looped
    split_ifs at accepted with closed
    exact ⟨final, looped, closed⟩

end EvalContext

end Qbitcoin
