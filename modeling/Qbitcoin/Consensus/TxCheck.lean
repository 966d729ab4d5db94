import Qbitcoin.Lib.Except
import Qbitcoin.Primitives.Block

/-!
# Context-free transaction checks

The limits of `consensus/consensus.h`, `CheckTransaction` of
`consensus/tx_check.cpp`, `IsFinalTx` and `GetLegacySigOpCount` of
`consensus/tx_verify.cpp`, and `CScript::GetSigOpCount`.

A failed check returns the reject reason that `TxValidationState::Invalid`
records; every failure of `CheckTransaction` is `TX_CONSENSUS`.

This fork raised `MAX_BLOCK_WEIGHT` and `MAX_BLOCK_SERIALIZED_SIZE` from 4 MB
to 184 MB for Dilithium witnesses, and kept `MAX_BLOCK_SIGOPS_COST`.
-/

namespace Qbitcoin

/-- `MAX_BLOCK_SERIALIZED_SIZE`. -/
def MAX_BLOCK_SERIALIZED_SIZE : Nat := 184000000
/-- `MAX_BLOCK_WEIGHT`. -/
def MAX_BLOCK_WEIGHT : Nat := 184000000
/-- `MAX_BLOCK_SIGOPS_COST`. -/
def MAX_BLOCK_SIGOPS_COST : Nat := 80000
/-- `LOCKTIME_VERIFY_SEQUENCE`: enforce relative lock times (BIP 68). -/
def LOCKTIME_VERIFY_SEQUENCE : Nat := 1 <<< 0

/-- The output loop of `CheckTransaction`, with the running total `nValueOut`. -/
def checkOutputValues : List CTxOut → CAmount → Except String Unit
  | [], _ => pure ()
  | txout :: rest, nValueOut => do
      Except.failIf (decide (txout.nValue < 0)) "bad-txns-vout-negative"
      Except.failIf (decide (txout.nValue > MAX_MONEY)) "bad-txns-vout-toolarge"
      Except.failIf (!moneyRange (nValueOut + txout.nValue)) "bad-txns-txouttotal-toolarge"
      checkOutputValues rest (nValueOut + txout.nValue)

/-- The duplicate-input loop of `CheckTransaction`: `seen` is the set
`vInOutPoints` of the outpoints inserted so far. -/
def checkDuplicateInputs : List CTxIn → List COutPoint → Except String Unit
  | [], _ => pure ()
  | txin :: rest, seen => do
      Except.failIf (seen.contains txin.prevout) "bad-txns-inputs-duplicate"
      checkDuplicateInputs rest (txin.prevout :: seen)

/-- `CheckTransaction`.  The size limit does not count the witness, which is
not yet checked for malleability; `IsCoinBase` guarantees the input `vin[0]`. -/
def checkTransaction (tx : CTransaction) : Except String Unit := do
  Except.failIf tx.vin.isEmpty "bad-txns-vin-empty"
  Except.failIf tx.vout.isEmpty "bad-txns-vout-empty"
  Except.failIf (decide ((tx.serialize false).length * WITNESS_SCALE_FACTOR > MAX_BLOCK_WEIGHT))
    "bad-txns-oversize"
  checkOutputValues tx.vout 0
  checkDuplicateInputs tx.vin []
  if tx.isCoinBase then
    let scriptSigSize := (tx.vin.head?.map fun txin => txin.scriptSig.length).getD 0
    Except.failIf (decide (scriptSigSize < 2 ∨ scriptSigSize > 100)) "bad-cb-length"
  else
    Except.failIf (tx.vin.any fun txin => txin.prevout.isNull) "bad-txns-prevout-null"

/-- Every output `CheckTransaction` accepts is in the money range. -/
theorem checkOutputValues_eq_ok {outs : List CTxOut} {nValueOut : CAmount}
    (checked : checkOutputValues outs nValueOut = .ok ()) : ∀ txout ∈ outs, moneyRange txout.nValue = true := by
  induction outs generalizing nValueOut with
  | nil => simp
  | cons txout rest ih =>
      simp only [checkOutputValues, Except.bind_eq_ok, Except.failIf_eq_ok, decide_eq_false_iff_not] at checked
      obtain ⟨-, nonneg, -, bounded, -, -, restChecked⟩ := checked
      intro out listed
      rcases List.mem_cons.mp listed with rfl | later
      · simp only [moneyRange, Bool.and_eq_true, decide_eq_true_eq]
        exact ⟨not_lt.mp nonneg, not_lt.mp bounded⟩
      · exact ih restChecked out later

/-- The inputs the loop accepts spend distinct outpoints, none of them seen before. -/
theorem checkDuplicateInputs_eq_ok {vin : List CTxIn} {seen : List COutPoint}
    (checked : checkDuplicateInputs vin seen = .ok ()) :
    (vin.map (·.prevout)).Nodup ∧ ∀ txin ∈ vin, txin.prevout ∉ seen := by
  induction vin generalizing seen with
  | nil => simp
  | cons txin rest ih =>
      simp only [checkDuplicateInputs, Except.bind_eq_ok, Except.failIf_eq_ok] at checked
      obtain ⟨-, fresh, restChecked⟩ := checked
      have inRest := ih restChecked
      refine ⟨List.nodup_cons.mpr ⟨?_, inRest.1⟩, ?_⟩
      · simp only [List.mem_map, not_exists, not_and]
        intro other listed same
        exact inRest.2 other listed (same ▸ List.mem_cons_self)
      · intro other listed
        rcases List.mem_cons.mp listed with rfl | later
        · simpa using fresh
        · exact fun mem => inRest.2 other later (List.mem_cons_of_mem _ mem)

/-- What `CheckTransaction` guarantees the value accounting: outputs in the
money range, and no outpoint spent twice. -/
theorem checkTransaction_eq_ok {tx : CTransaction} (checked : checkTransaction tx = .ok ()) :
    (∀ txout ∈ tx.vout, moneyRange txout.nValue = true) ∧ (tx.vin.map (·.prevout)).Nodup := by
  simp only [checkTransaction, Except.bind_eq_ok] at checked
  obtain ⟨-, -, -, -, -, -, ⟨⟩, outputs, ⟨⟩, inputs, -⟩ := checked
  exact ⟨checkOutputValues_eq_ok outputs, (checkDuplicateInputs_eq_ok inputs).1⟩

/-- `IsFinalTx`: the lock time is zero or passed, by height below
`LOCKTIME_THRESHOLD` and by time above it, or every input is final. -/
def isFinalTx (tx : CTransaction) (nBlockHeight : Int) (nBlockTime : Int) : Bool :=
  if tx.nLockTime = 0 then true
  else if (tx.nLockTime.toNat : Int) <
      (if tx.nLockTime.toNat < LOCKTIME_THRESHOLD then nBlockHeight else nBlockTime) then true
  else tx.vin.all fun txin => txin.nSequence == SEQUENCE_FINAL

/-- The signature operations `GetSigOpCount` charges for one opcode, given the
opcode before it. -/
def sigOpsOf (fAccurate : Bool) (lastOpcode opcode : opcodetype) : Nat :=
  if opcode = OP_CHECKSIG ∨ opcode = OP_CHECKSIGVERIFY then 1
  else if opcode = OP_CHECKMULTISIG ∨ opcode = OP_CHECKMULTISIGVERIFY then
    if fAccurate ∧ OP_1 ≤ lastOpcode ∧ lastOpcode ≤ OP_16 then decodeOpN lastOpcode
    else MAX_PUBKEYS_PER_MULTISIG.toNat
  else 0

/-- The loop of `CScript::GetSigOpCount`: it stops at the end or at the first
opcode `GetOp` cannot read. -/
def sigOpLoop (fAccurate : Bool) (pc : List UInt8) (lastOpcode : opcodetype) (n : Nat) : Nat :=
  match reading : getScriptOp pc with
  | none => n
  | some (opcode, _, rest) => sigOpLoop fAccurate rest opcode (n + sigOpsOf fAccurate lastOpcode opcode)
termination_by pc.length
decreasing_by exact getScriptOp_rest_lt reading

/-- `CScript::GetSigOpCount(bool fAccurate)`. -/
def CScript.getSigOpCount (script : CScript) (fAccurate : Bool) : Nat :=
  sigOpLoop fAccurate script OP_INVALIDOPCODE 0

/-- `GetLegacySigOpCount`: the inexact count over every scriptSig and scriptPubKey. -/
def getLegacySigOpCount (tx : CTransaction) : Nat :=
  (tx.vin.map fun txin => CScript.getSigOpCount txin.scriptSig false).sum +
    (tx.vout.map fun txout => CScript.getSigOpCount txout.scriptPubKey false).sum

theorem sigOpsOf_le (fAccurate : Bool) (lastOpcode opcode : opcodetype) :
    sigOpsOf fAccurate lastOpcode opcode ≤ 20 := by
  unfold sigOpsOf
  split_ifs with single multi accurate
  · decide
  · have upper : lastOpcode.toNat ≤ 0x60 := UInt8.le_iff_toNat_le.mp accurate.2.2
    have one : OP_1.toNat = 0x51 := rfl
    unfold decodeOpN
    split_ifs <;> omega
  · decide
  · decide

/-- Each opcode takes at least one byte and is charged at most
`MAX_PUBKEYS_PER_MULTISIG`. -/
theorem sigOpLoop_le (fAccurate : Bool) (pc : List UInt8) (lastOpcode : opcodetype) (n : Nat) :
    sigOpLoop fAccurate pc lastOpcode n ≤ n + 20 * pc.length := by
  fun_induction sigOpLoop fAccurate pc lastOpcode n with
  | case1 pc lastOpcode n reading => omega
  | case2 pc lastOpcode n opcode data rest reading ih =>
      have shorter := getScriptOp_rest_lt reading
      have charged := sigOpsOf_le fAccurate lastOpcode opcode
      omega

theorem getSigOpCount_le (script : CScript) (fAccurate : Bool) :
    script.getSigOpCount fAccurate ≤ 20 * script.length := by
  simpa [CScript.getSigOpCount] using sigOpLoop_le fAccurate script OP_INVALIDOPCODE 0

/-- A run of `OP_0`s pushes empty vectors and charges nothing. -/
theorem sigOpLoop_replicate_zero (fAccurate : Bool) (count : Nat) (lastOpcode : opcodetype) (n : Nat) :
    sigOpLoop fAccurate (List.replicate count OP_0) lastOpcode n = n := by
  induction count generalizing lastOpcode with
  | zero => simp [sigOpLoop, getScriptOp]
  | succ count ih =>
      have step : getScriptOp (List.replicate (count + 1) OP_0) =
          some (OP_0, [], List.replicate count OP_0) := by
        simp [List.replicate_succ, getScriptOp, readPushSize, OP_0, OP_PUSHDATA1, OP_PUSHDATA4]
      rw [sigOpLoop, step]
      simpa [sigOpsOf, OP_0, OP_CHECKSIG, OP_CHECKSIGVERIFY, OP_CHECKMULTISIG,
        OP_CHECKMULTISIGVERIFY] using ih OP_0

/-- A transaction with an input that is not final is final only with a lock
time of zero or one that has passed, by height or by time as its kind says. -/
theorem lockTime_lt_of_isFinalTx {tx : CTransaction} {nBlockHeight nBlockTime : Int}
    (final : isFinalTx tx nBlockHeight nBlockTime = true) {txin : CTxIn} (input : txin ∈ tx.vin)
    (notFinal : txin.nSequence ≠ SEQUENCE_FINAL) :
    tx.nLockTime = 0 ∨ (tx.nLockTime.toNat : Int) <
      if tx.nLockTime.toNat < LOCKTIME_THRESHOLD then nBlockHeight else nBlockTime := by
  by_cases zero : tx.nLockTime = 0
  · exact .inl zero
  by_cases passed : (tx.nLockTime.toNat : Int) <
      if tx.nLockTime.toNat < LOCKTIME_THRESHOLD then nBlockHeight else nBlockTime
  · exact .inr passed
  rw [isFinalTx, if_neg zero, if_neg passed] at final
  have allFinal := List.all_eq_true.mp final txin input
  exact absurd (beq_iff_eq.mp allFinal) notFinal

end Qbitcoin
