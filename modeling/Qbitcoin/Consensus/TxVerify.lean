import Qbitcoin.Chain.BlockIndex
import Qbitcoin.Consensus.TxCheck
import Qbitcoin.Script.Checker
import Qbitcoin.Script.Run

/-!
# Relative lock times

`CalculateSequenceLocks`, `EvaluateSequenceLocks` and `SequenceLocks` of
`consensus/tx_verify.cpp` (BIP 68), and what they and `IsFinalTx` guarantee of
the lock-time opcodes (BIP 65 and BIP 112).

`CalculateSequenceLocks` turns every enabled relative lock into the last height
or time at which its transaction is still invalid, and keeps the largest of
each; `CoversInput` says what that pair has to reach for one input, and
`calculateSequenceLocks_covers` that it reaches it for every input.  The
opcodes only compare their operand with the transaction's own `nLockTime` or
`nSequence`; together with the block-level checks the operand becomes a bound
on the block's height or its parent's median time past.

Heights are unbounded integers here: the `int` sums of the C++ overflow only
for coins within 65535 blocks of height 2^31.
-/

namespace Qbitcoin

/-- One pass of the loop of `CalculateSequenceLocks`, for input `txin` whose
coin is at `nCoinHeight`: the pair after it, and what the loop leaves in
`prevHeights` for it; `none` where the `Assert` on the ancestor aborts.  The
disable bit leaves the input without a relative lock, and its height
irrelevant; a time lock counts from the median time past of the block before
the coin's. -/
def sequenceLockStep (block : CBlockIndex) (lockPair : Int × Int) (txin : CTxIn) (nCoinHeight : Int) :
    Option ((Int × Int) × Int) :=
  let nSequence := txin.nSequence.toNat
  if nSequence &&& SEQUENCE_LOCKTIME_DISABLE_FLAG ≠ 0 then some (lockPair, 0)
  else if nSequence &&& SEQUENCE_LOCKTIME_TYPE_FLAG ≠ 0 then
    (block.getAncestor (max (nCoinHeight - 1) 0)).map fun ancestor =>
      let nCoinTime := ancestor.getMedianTimePast
      ((lockPair.1, max lockPair.2 (nCoinTime +
          ((nSequence &&& SEQUENCE_LOCKTIME_MASK) <<< SEQUENCE_LOCKTIME_GRANULARITY : Nat) - 1)),
        nCoinHeight)
  else
    some ((max lockPair.1 (nCoinHeight + (nSequence &&& SEQUENCE_LOCKTIME_MASK : Nat) - 1), lockPair.2),
      nCoinHeight)

/-- The loop of `CalculateSequenceLocks` over the inputs and their coins' heights. -/
def sequenceLockLoop (block : CBlockIndex) :
    Int × Int → List CTxIn → List Int → Option ((Int × Int) × List Int)
  | lockPair, txin :: vin, nCoinHeight :: heights => do
      let stepped ← sequenceLockStep block lockPair txin nCoinHeight
      let rest ← sequenceLockLoop block stepped.1 vin heights
      pure (rest.1, stepped.2 :: rest.2)
  | lockPair, _, _ => some (lockPair, [])

/-- `CalculateSequenceLocks`: the last invalid height and time of `tx` on top of
`block`'s chain, `-1` for none, and the `prevHeights` it leaves; `none` where an
`assert` aborts. -/
def calculateSequenceLocks (tx : CTransaction) (flags : Nat) (prevHeights : List Int)
    (block : CBlockIndex) : Option ((Int × Int) × List Int) :=
  if prevHeights.length ≠ tx.vin.length then none
  else
    let fEnforceBIP68 := decide (tx.version ≥ 2) && hasFlag flags LOCKTIME_VERIFY_SEQUENCE
    if !fEnforceBIP68 then some ((-1, -1), prevHeights)
    else sequenceLockLoop block (-1, -1) tx.vin prevHeights

/-- `EvaluateSequenceLocks`: `block` is past both bounds; a block without a
parent fails its `assert`. -/
def evaluateSequenceLocks (block : CBlockIndex) (lockPair : Int × Int) : Bool :=
  match block.pprev with
  | none => false
  | some pprev =>
      let nBlockTime := pprev.getMedianTimePast
      !(lockPair.1 ≥ block.nHeight || lockPair.2 ≥ nBlockTime)

/-- `SequenceLocks`.  The heights it zeroes in `prevHeights` are not read again
by `ConnectBlock`, which refills them for every transaction. -/
def sequenceLocks (tx : CTransaction) (flags : Nat) (prevHeights : List Int) (block : CBlockIndex) :
    Bool :=
  match calculateSequenceLocks tx flags prevHeights block with
  | none => false
  | some (lockPair, _) => evaluateSequenceLocks block lockPair

/-- `lockPair` reaches the relative lock of input `txin`, whose coin is at
`nCoinHeight`: its last invalid height, or its last invalid time counted from
the median time past of the block before the coin's. -/
def CoversInput (block : CBlockIndex) (txin : CTxIn) (nCoinHeight : Int) (lockPair : Int × Int) : Prop :=
  txin.nSequence.toNat &&& SEQUENCE_LOCKTIME_DISABLE_FLAG = 0 →
    (txin.nSequence.toNat &&& SEQUENCE_LOCKTIME_TYPE_FLAG = 0 →
      nCoinHeight + (txin.nSequence.toNat &&& SEQUENCE_LOCKTIME_MASK : Nat) - 1 ≤ lockPair.1) ∧
    (txin.nSequence.toNat &&& SEQUENCE_LOCKTIME_TYPE_FLAG ≠ 0 →
      ∃ ancestor, block.getAncestor (max (nCoinHeight - 1) 0) = some ancestor ∧
        ancestor.getMedianTimePast +
          ((txin.nSequence.toNat &&& SEQUENCE_LOCKTIME_MASK) <<< SEQUENCE_LOCKTIME_GRANULARITY : Nat) - 1 ≤
          lockPair.2)

section

variable {block : CBlockIndex} {txin : CTxIn} {nCoinHeight : Int}

theorem CoversInput.mono {lockPair lockPair' : Int × Int} (covers : CoversInput block txin nCoinHeight lockPair)
    (height : lockPair.1 ≤ lockPair'.1) (time : lockPair.2 ≤ lockPair'.2) :
    CoversInput block txin nCoinHeight lockPair' := by
  intro enabled
  obtain ⟨heightLock, timeLock⟩ := covers enabled
  refine ⟨fun typeClear => (heightLock typeClear).trans height, fun typeSet => ?_⟩
  obtain ⟨ancestor, found, reached⟩ := timeLock typeSet
  exact ⟨ancestor, found, reached.trans time⟩

/-! ## One input -/

/-- A pass only raises the pair, and the pair after it covers its input. -/
theorem sequenceLockStep_spec {lockPair lockPair' : Int × Int} {height : Int}
    (stepped : sequenceLockStep block lockPair txin nCoinHeight = some (lockPair', height)) :
    lockPair.1 ≤ lockPair'.1 ∧ lockPair.2 ≤ lockPair'.2 ∧ CoversInput block txin nCoinHeight lockPair' := by
  unfold sequenceLockStep at stepped
  dsimp only at stepped
  split_ifs at stepped with disabled timeLock
  · cases stepped
    exact ⟨le_refl _, le_refl _, fun enabled => absurd enabled disabled⟩
  · obtain ⟨ancestor, found, computed⟩ := Option.map_eq_some_iff.mp stepped
    cases computed
    refine ⟨le_refl _, le_max_left _ _, fun _ => ⟨fun typeClear => absurd typeClear timeLock, ?_⟩⟩
    exact fun _ => ⟨ancestor, found, le_max_right _ _⟩
  · cases stepped
    refine ⟨le_max_left _ _, le_refl _, fun _ => ⟨fun _ => le_max_right _ _, ?_⟩⟩
    exact fun typeSet => absurd (not_not.mp timeLock) typeSet

/-! ## The loop -/

theorem sequenceLockLoop_of_nil {lockPair : Int × Int} {heights : List Int} :
    sequenceLockLoop block lockPair [] heights = some (lockPair, []) := by
  cases heights <;> rfl

/-- A loop that ran to the end ran its first pass, then the rest from the pair
that pass left. -/
theorem sequenceLockLoop_cons_eq_some {lockPair lockPair' : Int × Int} {vin : List CTxIn}
    {heights heights' : List Int}
    (looped : sequenceLockLoop block lockPair (txin :: vin) (nCoinHeight :: heights) =
      some (lockPair', heights')) :
    ∃ stepped rest, sequenceLockStep block lockPair txin nCoinHeight = some stepped ∧
      sequenceLockLoop block stepped.1 vin heights = some rest ∧
      lockPair' = rest.1 ∧ heights' = stepped.2 :: rest.2 := by
  simp only [sequenceLockLoop, Option.bind_eq_bind, Option.bind_eq_some_iff, Option.pure_def,
    Option.some.injEq, Prod.mk.injEq] at looped
  obtain ⟨stepped, first, rest, others, sameLock, sameHeights⟩ := looped
  exact ⟨stepped, rest, first, others, sameLock.symm, sameHeights.symm⟩

/-- The loop only raises the pair. -/
theorem sequenceLockLoop_le {lockPair lockPair' : Int × Int} {vin : List CTxIn}
    {heights heights' : List Int} (looped : sequenceLockLoop block lockPair vin heights = some (lockPair', heights')) :
    lockPair.1 ≤ lockPair'.1 ∧ lockPair.2 ≤ lockPair'.2 := by
  induction vin generalizing lockPair heights heights' with
  | nil =>
      rw [sequenceLockLoop_of_nil] at looped
      cases looped
      exact ⟨le_refl _, le_refl _⟩
  | cons txin vin inTail =>
      cases heights with
      | nil =>
          cases looped
          exact ⟨le_refl _, le_refl _⟩
      | cons nCoinHeight heights =>
          obtain ⟨stepped, rest, first, others, rfl, -⟩ := sequenceLockLoop_cons_eq_some looped
          have raisedFirst := sequenceLockStep_spec first
          have raisedRest := inTail others
          exact ⟨raisedFirst.1.trans raisedRest.1, raisedFirst.2.1.trans raisedRest.2⟩

/-- The pair the loop ends with covers every input it passed: the pass over the
input covers it, and the later passes only raise the pair. -/
theorem sequenceLockLoop_covers {lockPair lockPair' : Int × Int} {vin : List CTxIn}
    {heights heights' : List Int} (looped : sequenceLockLoop block lockPair vin heights = some (lockPair', heights'))
    {i : Nat} (input : vin[i]? = some txin) (coin : heights[i]? = some nCoinHeight) :
    CoversInput block txin nCoinHeight lockPair' := by
  induction vin generalizing lockPair heights heights' i with
  | nil => cases input
  | cons first vin inTail =>
      cases heights with
      | nil => cases coin
      | cons firstHeight heights =>
          obtain ⟨stepped, rest, passed, others, rfl, -⟩ := sequenceLockLoop_cons_eq_some looped
          cases i with
          | zero =>
              cases input
              cases coin
              have raised := sequenceLockLoop_le others
              exact (sequenceLockStep_spec passed).2.2.mono raised.1 raised.2
          | succ i => exact inTail others input coin

end

/-! ## The transaction -/

/-- Under BIP 68 the pair `CalculateSequenceLocks` returns covers every input. -/
theorem calculateSequenceLocks_covers {tx : CTransaction} {flags : Nat} {prevHeights : List Int}
    {block : CBlockIndex} {lockPair : Int × Int} {heights' : List Int}
    (calculated : calculateSequenceLocks tx flags prevHeights block = some (lockPair, heights'))
    (enforced : 2 ≤ tx.version) (flag : hasFlag flags LOCKTIME_VERIFY_SEQUENCE = true)
    {i : Nat} {txin : CTxIn} {nCoinHeight : Int} (input : tx.vin[i]? = some txin)
    (coin : prevHeights[i]? = some nCoinHeight) :
    CoversInput block txin nCoinHeight lockPair := by
  have bip68 : (!(decide (tx.version ≥ 2) && hasFlag flags LOCKTIME_VERIFY_SEQUENCE)) = false := by
    simp [enforced, flag]
  unfold calculateSequenceLocks at calculated
  split_ifs at calculated with sized
  dsimp only at calculated
  rw [bip68] at calculated
  exact sequenceLockLoop_covers calculated input coin

/-- What `SequenceLocks` accepts: a block with a parent, above the last invalid
height and after the last invalid time by its parent's median time past. -/
theorem sequenceLocks_eq_true {tx : CTransaction} {flags : Nat} {prevHeights : List Int}
    {block : CBlockIndex} (locked : sequenceLocks tx flags prevHeights block = true) :
    ∃ lockPair heights' pprev, calculateSequenceLocks tx flags prevHeights block = some (lockPair, heights') ∧
      block.pprev = some pprev ∧ lockPair.1 < block.nHeight ∧ lockPair.2 < pprev.getMedianTimePast := by
  unfold sequenceLocks at locked
  split at locked
  · cases locked
  · rename_i lockPair heights' calculated
    unfold evaluateSequenceLocks at locked
    split at locked
    · cases locked
    · rename_i pprev parent
      simp only [Bool.not_eq_true', Bool.or_eq_false_iff, decide_eq_false_iff_not, ge_iff_le,
        not_le] at locked
      exact ⟨lockPair, heights', pprev, calculated, parent, locked⟩

/-! ## The lock-time opcodes against the block -/

section

variable (lib : Dilithium) (SignatureHash : SignatureHasher)
  (SignatureHashSchnorr : SchnorrSignatureHasher) (checker : TransactionSignatureChecker)

/-- An `OP_CHECKLOCKTIMEVERIFY` that passed for `checker`'s input bounds the
block of every final transaction: its operand is below the block's height, or
below its parent's median time past, as its kind says. -/
theorem checkLockTimeVerify_bounds_block {ctx : EvalContext}
    (onInput : ctx.checker = checker.toBase lib SignatureHash SignatureHashSchnorr)
    (flag : hasFlag ctx.flags SCRIPT_VERIFY_CHECKLOCKTIMEVERIFY = true)
    {afterOp : CScript} {fExec : Bool} {st st' : EvalState} {top : valtype} {rest : List valtype}
    {v : Int} (operand : st.stack = top :: rest) (read : ctx.readNum top 5 = .ok v)
    (running : ctx.execOpcode OP_CHECKLOCKTIMEVERIFY afterOp fExec st = .ok st')
    {block pprev : CBlockIndex} (parent : block.pprev = some pprev)
    (final : isFinalTx checker.txTo block.nHeight pprev.getMedianTimePast = true) :
    (v < LOCKTIME_THRESHOLD → v < block.nHeight) ∧
      (LOCKTIME_THRESHOLD ≤ v → v < pprev.getMedianTimePast) := by
  obtain ⟨top', rest', nLockTime, stack, read', nonneg, accepted, -⟩ :=
    ctx.execOpcode_checkLockTimeVerify flag running
  rw [operand, List.cons.injEq] at stack
  rw [← stack.1, read] at read'
  obtain rfl : v = nLockTime := Except.ok.inj read'
  rw [onInput, TransactionSignatureChecker.toBase_checkLockTime] at accepted
  obtain ⟨input, spent, notFinal, sameKind, below⟩ := checker.checkLockTime_eq_true accepted
  have aboveGenesis := CBlockIndex.nHeight_of_pprev parent
  rcases lockTime_lt_of_isFinalTx final (List.mem_of_getElem? spent) notFinal with zero | passed
  · have zeroLockTime : (checker.txTo.nLockTime.toNat : Int) = 0 := by simp [zero]
    have threshold : (0 : Int) < LOCKTIME_THRESHOLD := by decide
    constructor <;> intro <;> omega
  · split_ifs at passed with heightLock
    · exact ⟨fun _ => by omega, fun timeOperand => absurd (sameKind.mpr (by omega)) (by omega)⟩
    · exact ⟨fun heightOperand => absurd (sameKind.mp heightOperand) (by omega), fun _ => by omega⟩

/-- An `OP_CHECKSEQUENCEVERIFY` with the disable bit clear that passed for
`checker`'s input bounds every block that `SequenceLocks` accepts the
transaction in: a height lock by the coin's height plus the lock value, a time
lock by the median time past before the coin's block plus the lock value in
units of 512 seconds. -/
theorem checkSequenceVerify_bounds_block {ctx : EvalContext}
    (onInput : ctx.checker = checker.toBase lib SignatureHash SignatureHashSchnorr)
    (flag : hasFlag ctx.flags SCRIPT_VERIFY_CHECKSEQUENCEVERIFY = true)
    {afterOp : CScript} {fExec : Bool} {st st' : EvalState} {top : valtype} {rest : List valtype}
    {v : Int} (operand : st.stack = top :: rest) (read : ctx.readNum top 5 = .ok v)
    (enabled : v.toNat &&& SEQUENCE_LOCKTIME_DISABLE_FLAG = 0)
    (running : ctx.execOpcode OP_CHECKSEQUENCEVERIFY afterOp fExec st = .ok st')
    {prevHeights : List Int} {block pprev : CBlockIndex} (parent : block.pprev = some pprev)
    (locked : sequenceLocks checker.txTo LOCKTIME_VERIFY_SEQUENCE prevHeights block = true)
    {nCoinHeight : Int} (coin : prevHeights[checker.nIn]? = some nCoinHeight) :
    (v.toNat &&& SEQUENCE_LOCKTIME_TYPE_FLAG = 0 →
      nCoinHeight + (v.toNat &&& SEQUENCE_LOCKTIME_MASK : Nat) ≤ block.nHeight) ∧
    (v.toNat &&& SEQUENCE_LOCKTIME_TYPE_FLAG ≠ 0 →
      ∃ ancestor, block.getAncestor (max (nCoinHeight - 1) 0) = some ancestor ∧
        ancestor.getMedianTimePast +
          ((v.toNat &&& SEQUENCE_LOCKTIME_MASK) <<< SEQUENCE_LOCKTIME_GRANULARITY : Nat) ≤
          pprev.getMedianTimePast) := by
  obtain ⟨top', rest', nSequence, stack, read', -, checked, -⟩ :=
    ctx.execOpcode_checkSequenceVerify flag running
  rw [operand, List.cons.injEq] at stack
  rw [← stack.1, read] at read'
  obtain rfl : v = nSequence := Except.ok.inj read'
  have accepted := checked enabled
  rw [onInput, TransactionSignatureChecker.toBase_checkSequence] at accepted
  obtain ⟨input, spent, version, inputEnabled, sameKind, valueLe⟩ := checker.checkSequence_eq_true accepted
  obtain ⟨lockPair, heights', pprev', calculated, parent', beforeHeight, beforeTime⟩ :=
    sequenceLocks_eq_true locked
  rw [parent, Option.some.injEq] at parent'
  subst parent'
  obtain ⟨heightLock, timeLock⟩ :=
    calculateSequenceLocks_covers calculated version (by simp [hasFlag, LOCKTIME_VERIFY_SEQUENCE]) spent coin
      inputEnabled
  constructor
  · intro typeClear
    have reached := heightLock (sameKind.mp typeClear)
    omega
  · intro typeSet
    obtain ⟨ancestor, found, reached⟩ := timeLock fun inputClear => typeSet (sameKind.mpr inputClear)
    refine ⟨ancestor, found, ?_⟩
    have shifted : (v.toNat &&& SEQUENCE_LOCKTIME_MASK) <<< SEQUENCE_LOCKTIME_GRANULARITY ≤
        (input.nSequence.toNat &&& SEQUENCE_LOCKTIME_MASK) <<< SEQUENCE_LOCKTIME_GRANULARITY := by
      rw [Nat.shiftLeft_eq, Nat.shiftLeft_eq]
      exact Nat.mul_le_mul_right _ valueLe
    omega

/-- The lock-time opcodes are enforced by the block-level checks: for a checker
on any input of any transaction, an `OP_CHECKLOCKTIMEVERIFY` that passed under
its flag bounds every block in which `IsFinalTx` accepts the transaction, and an
`OP_CHECKSEQUENCEVERIFY` that passed under its flag with the disable bit clear
bounds every block in which `SequenceLocks` accepts it. -/
theorem timelocks_enforced_by_block :
    (∀ (ctx : EvalContext) (afterOp : CScript) (fExec : Bool) (st st' : EvalState) (top : valtype)
        (rest : List valtype) (v : Int) (block pprev : CBlockIndex),
      ctx.checker = checker.toBase lib SignatureHash SignatureHashSchnorr →
      hasFlag ctx.flags SCRIPT_VERIFY_CHECKLOCKTIMEVERIFY = true →
      st.stack = top :: rest → ctx.readNum top 5 = .ok v →
      ctx.execOpcode OP_CHECKLOCKTIMEVERIFY afterOp fExec st = .ok st' →
      block.pprev = some pprev →
      isFinalTx checker.txTo block.nHeight pprev.getMedianTimePast = true →
      (v < LOCKTIME_THRESHOLD → v < block.nHeight) ∧
        (LOCKTIME_THRESHOLD ≤ v → v < pprev.getMedianTimePast)) ∧
    (∀ (ctx : EvalContext) (afterOp : CScript) (fExec : Bool) (st st' : EvalState) (top : valtype)
        (rest : List valtype) (v : Int) (prevHeights : List Int) (block pprev : CBlockIndex)
        (nCoinHeight : Int),
      ctx.checker = checker.toBase lib SignatureHash SignatureHashSchnorr →
      hasFlag ctx.flags SCRIPT_VERIFY_CHECKSEQUENCEVERIFY = true →
      st.stack = top :: rest → ctx.readNum top 5 = .ok v →
      v.toNat &&& SEQUENCE_LOCKTIME_DISABLE_FLAG = 0 →
      ctx.execOpcode OP_CHECKSEQUENCEVERIFY afterOp fExec st = .ok st' →
      block.pprev = some pprev →
      sequenceLocks checker.txTo LOCKTIME_VERIFY_SEQUENCE prevHeights block = true →
      prevHeights[checker.nIn]? = some nCoinHeight →
      (v.toNat &&& SEQUENCE_LOCKTIME_TYPE_FLAG = 0 →
        nCoinHeight + (v.toNat &&& SEQUENCE_LOCKTIME_MASK : Nat) ≤ block.nHeight) ∧
      (v.toNat &&& SEQUENCE_LOCKTIME_TYPE_FLAG ≠ 0 →
        ∃ ancestor, block.getAncestor (max (nCoinHeight - 1) 0) = some ancestor ∧
          ancestor.getMedianTimePast +
            ((v.toNat &&& SEQUENCE_LOCKTIME_MASK) <<< SEQUENCE_LOCKTIME_GRANULARITY : Nat) ≤
            pprev.getMedianTimePast)) :=
  ⟨fun _ _ _ _ _ _ _ _ _ _ onInput flag operand read running parent final =>
      checkLockTimeVerify_bounds_block lib SignatureHash SignatureHashSchnorr checker onInput flag operand read
        running parent final,
    fun _ _ _ _ _ _ _ _ _ _ _ _ onInput flag operand read enabled running parent locked coin =>
      checkSequenceVerify_bounds_block lib SignatureHash SignatureHashSchnorr checker onInput flag operand read
        enabled running parent locked coin⟩

end

/-- A transaction of version 2 locked until height 1, whose one input waits one
block after its coin. -/
def lockedTx : CTransaction := ⟨[⟨⟨uint256.zero, 0⟩, [], 1, ⟨[]⟩⟩], [⟨0, [0x51]⟩], 2, 1⟩

/-- The checker on the input of `lockedTx`. -/
def lockedChecker : TransactionSignatureChecker := ⟨lockedTx, 0, 0, true, .fail⟩

/-- A library that accepts nothing. -/
def rejectingLibrary : Dilithium := ⟨fun _ => none, fun _ _ => none, fun _ _ _ => false⟩

/-- An interpreter context for `lockedChecker` under both lock-time flags. -/
def lockedContext : EvalContext :=
  ⟨Hashes.zeros, lockedChecker.toBase rejectingLibrary (fun _ _ _ _ _ _ => []) (fun _ _ _ _ _ => none),
    SCRIPT_VERIFY_CHECKLOCKTIMEVERIFY ||| SCRIPT_VERIFY_CHECKSEQUENCEVERIFY, .base⟩

/-- Both opcodes with the operand 1 pass on the input of `lockedTx`, which both
block-level checks accept at height 2 for a coin at height 1. -/
theorem timelocks_enforced_at_height_two :
    ((1 : Int) < LOCKTIME_THRESHOLD → (1 : Int) < (CBlockIndex.child (.child (.genesis 0) 0) 0).nHeight) ∧
      (LOCKTIME_THRESHOLD ≤ (1 : Int) → (1 : Int) < (CBlockIndex.child (.genesis 0) 0).getMedianTimePast) ∧
      ((1 : Int).toNat &&& SEQUENCE_LOCKTIME_TYPE_FLAG = 0 →
        (1 : Int) + ((1 : Int).toNat &&& SEQUENCE_LOCKTIME_MASK : Nat) ≤
          (CBlockIndex.child (.child (.genesis 0) 0) 0).nHeight) := by
  have enforced := timelocks_enforced_by_block rejectingLibrary (fun _ _ _ _ _ _ => [])
    (fun _ _ _ _ _ => none) lockedChecker
  have read : lockedContext.readNum [1] 5 = .ok 1 := by rfl
  have lockTimeRuns : lockedContext.execOpcode OP_CHECKLOCKTIMEVERIFY [] true
      (initialState [[1]] [] ScriptExecutionData.empty) = .ok (initialState [[1]] [] ScriptExecutionData.empty) := by
    rfl
  have sequenceRuns : lockedContext.execOpcode OP_CHECKSEQUENCEVERIFY [] true
      (initialState [[1]] [] ScriptExecutionData.empty) = .ok (initialState [[1]] [] ScriptExecutionData.empty) := by
    rfl
  obtain ⟨heightLock, timeLock⟩ := enforced.1 lockedContext [] true _ _ [1] [] 1
    (.child (.child (.genesis 0) 0) 0) (.child (.genesis 0) 0) rfl (by decide) rfl read lockTimeRuns rfl
    (by decide)
  obtain ⟨relativeHeight, -⟩ := enforced.2 lockedContext [] true _ _ [1] [] 1 [1]
    (.child (.child (.genesis 0) 0) 0) (.child (.genesis 0) 0) 1 rfl (by decide) rfl read (by decide)
    sequenceRuns rfl (by decide) rfl
  exact ⟨heightLock, timeLock, relativeHeight⟩

end Qbitcoin
