import Qbitcoin.Script.Script

/-!
# Interpreter vocabulary

The types `script/interpreter.h` and `script/script_error.h` give the
interpreter: signature versions, error codes, verification flags, the
per-execution data of Tapscript, the condition stack of nested `OP_IF`s, and
the signature-checker interface.

`ConditionStack` keeps the C++ representation (a size and the position of the
first false value, both `uint32_t`) rather than a list of booleans, so that
its refinement of a boolean vector is a theorem, not an assumption.

A checker is a record of the virtual methods of `BaseSignatureChecker`.  A
method that returns `false` and sets `serror` is a `.error`; one that returns
`false` without setting it leaves the `SCRIPT_ERR_UNKNOWN_ERROR` that
`EvalScript` stores on entry, so it is `.error .unknownError`.
-/

namespace Qbitcoin

/-- `SigVersion`. -/
inductive SigVersion where
  | base
  | witnessV0
  | taproot
  | tapscript
  deriving DecidableEq, Repr

/-- `ScriptError_t`. -/
inductive ScriptError where
  | ok
  | unknownError
  | evalFalse
  | opReturn
  | scriptSize
  | pushSize
  | opCount
  | stackSize
  | sigCount
  | pubkeyCount
  | verify
  | equalverify
  | checkmultisigverify
  | checksigverify
  | numequalverify
  | badOpcode
  | disabledOpcode
  | invalidStackOperation
  | invalidAltstackOperation
  | unbalancedConditional
  | negativeLocktime
  | unsatisfiedLocktime
  | sigHashtype
  | sigDer
  | minimaldata
  | sigPushonly
  | sigHighS
  | sigNulldummy
  | pubkeytype
  | cleanstack
  | minimalif
  | sigNullfail
  | discourageUpgradableNops
  | discourageUpgradableWitnessProgram
  | discourageUpgradableTaprootVersion
  | discourageOpSuccess
  | discourageUpgradablePubkeytype
  | witnessProgramWrongLength
  | witnessProgramWitnessEmpty
  | witnessProgramMismatch
  | witnessMalleated
  | witnessMalleatedP2sh
  | witnessUnexpected
  | witnessPubkeytype
  | schnorrSigSize
  | schnorrSigHashtype
  | schnorrSig
  | taprootWrongControlSize
  | tapscriptValidationWeight
  | tapscriptCheckmultisig
  | tapscriptMinimalif
  | opCodeseparator
  | sigFindanddelete
  deriving DecidableEq, Repr

/-! ## Verification flags (`SCRIPT_VERIFY_*`), an unsigned bit mask -/

def SCRIPT_VERIFY_NONE : Nat := 0
def SCRIPT_VERIFY_P2SH : Nat := 1 <<< 0
def SCRIPT_VERIFY_STRICTENC : Nat := 1 <<< 1
def SCRIPT_VERIFY_DERSIG : Nat := 1 <<< 2
def SCRIPT_VERIFY_LOW_S : Nat := 1 <<< 3
def SCRIPT_VERIFY_NULLDUMMY : Nat := 1 <<< 4
def SCRIPT_VERIFY_SIGPUSHONLY : Nat := 1 <<< 5
def SCRIPT_VERIFY_MINIMALDATA : Nat := 1 <<< 6
def SCRIPT_VERIFY_DISCOURAGE_UPGRADABLE_NOPS : Nat := 1 <<< 7
def SCRIPT_VERIFY_CLEANSTACK : Nat := 1 <<< 8
def SCRIPT_VERIFY_CHECKLOCKTIMEVERIFY : Nat := 1 <<< 9
def SCRIPT_VERIFY_CHECKSEQUENCEVERIFY : Nat := 1 <<< 10
def SCRIPT_VERIFY_WITNESS : Nat := 1 <<< 11
def SCRIPT_VERIFY_DISCOURAGE_UPGRADABLE_WITNESS_PROGRAM : Nat := 1 <<< 12
def SCRIPT_VERIFY_MINIMALIF : Nat := 1 <<< 13
def SCRIPT_VERIFY_NULLFAIL : Nat := 1 <<< 14
def SCRIPT_VERIFY_WITNESS_PUBKEYTYPE : Nat := 1 <<< 15
def SCRIPT_VERIFY_CONST_SCRIPTCODE : Nat := 1 <<< 16
def SCRIPT_VERIFY_TAPROOT : Nat := 1 <<< 17
def SCRIPT_VERIFY_DISCOURAGE_UPGRADABLE_TAPROOT_VERSION : Nat := 1 <<< 18
def SCRIPT_VERIFY_DISCOURAGE_OP_SUCCESS : Nat := 1 <<< 19
def SCRIPT_VERIFY_DISCOURAGE_UPGRADABLE_PUBKEYTYPE : Nat := 1 <<< 20

/-- `flags & flag` is non-zero. -/
def hasFlag (flags flag : Nat) : Bool := flags &&& flag != 0

/-- A flag set has every flag of a union once it has one of its members. -/
theorem hasFlag_or_of_left {flags a : Nat} (b : Nat) (has : hasFlag flags a = true) :
    hasFlag flags (a ||| b) = true := by
  simp only [hasFlag, bne_iff_ne, ne_eq, Nat.and_or_distrib_left, Nat.or_eq_zero_iff] at has ⊢
  exact fun both => has both.1

theorem hasFlag_or_of_right {flags b : Nat} (a : Nat) (has : hasFlag flags b = true) :
    hasFlag flags (a ||| b) = true := by
  simp only [hasFlag, bne_iff_ne, ne_eq, Nat.and_or_distrib_left, Nat.or_eq_zero_iff] at has ⊢
  exact fun both => has both.2

/-- `MANDATORY_SCRIPT_VERIFY_FLAGS` of `policy/policy.h`. -/
def MANDATORY_SCRIPT_VERIFY_FLAGS : Nat :=
  SCRIPT_VERIFY_P2SH ||| SCRIPT_VERIFY_DERSIG ||| SCRIPT_VERIFY_NULLDUMMY |||
    SCRIPT_VERIFY_CHECKLOCKTIMEVERIFY ||| SCRIPT_VERIFY_CHECKSEQUENCEVERIFY |||
    SCRIPT_VERIFY_WITNESS ||| SCRIPT_VERIFY_TAPROOT

/-- `STANDARD_SCRIPT_VERIFY_FLAGS` of `policy/policy.h`. -/
def STANDARD_SCRIPT_VERIFY_FLAGS : Nat :=
  MANDATORY_SCRIPT_VERIFY_FLAGS ||| SCRIPT_VERIFY_STRICTENC ||| SCRIPT_VERIFY_MINIMALDATA |||
    SCRIPT_VERIFY_DISCOURAGE_UPGRADABLE_NOPS ||| SCRIPT_VERIFY_CLEANSTACK |||
    SCRIPT_VERIFY_MINIMALIF ||| SCRIPT_VERIFY_NULLFAIL ||| SCRIPT_VERIFY_LOW_S |||
    SCRIPT_VERIFY_DISCOURAGE_UPGRADABLE_WITNESS_PROGRAM ||| SCRIPT_VERIFY_WITNESS_PUBKEYTYPE |||
    SCRIPT_VERIFY_CONST_SCRIPTCODE ||| SCRIPT_VERIFY_DISCOURAGE_UPGRADABLE_TAPROOT_VERSION |||
    SCRIPT_VERIFY_DISCOURAGE_OP_SUCCESS ||| SCRIPT_VERIFY_DISCOURAGE_UPGRADABLE_PUBKEYTYPE

/-- `ScriptExecutionData`.  Fields without an `_init` flag are meaningful only
once that flag is set, as in the C++ struct. -/
structure ScriptExecutionData where
  tapleafHashInit : Bool
  tapleafHash : valtype
  codeseparatorPosInit : Bool
  codeseparatorPos : UInt32
  annexInit : Bool
  annexPresent : Bool
  annexHash : valtype
  validationWeightLeftInit : Bool
  validationWeightLeft : Int
  deriving DecidableEq, Repr

/-- A freshly declared `ScriptExecutionData`: every `_init` flag is false. -/
def ScriptExecutionData.empty : ScriptExecutionData where
  tapleafHashInit := false
  tapleafHash := []
  codeseparatorPosInit := false
  codeseparatorPos := 0
  annexInit := false
  annexPresent := false
  annexHash := []
  validationWeightLeftInit := false
  validationWeightLeft := 0

/-! ## The condition stack -/

/-- `ConditionStack`: the size of the implied boolean stack and the position
of its first false value, `NO_FALSE` when every value is true. -/
structure ConditionStack where
  stackSize : UInt32
  firstFalsePos : UInt32
  deriving DecidableEq, Repr

namespace ConditionStack

/-- `ConditionStack::NO_FALSE`. -/
def NO_FALSE : UInt32 := 0xFFFFFFFF

/-- The empty condition stack. -/
def init : ConditionStack := ⟨0, NO_FALSE⟩

def empty (c : ConditionStack) : Bool := c.stackSize == 0

def allTrue (c : ConditionStack) : Bool := c.firstFalsePos == NO_FALSE

/-- `push_back`: a false value on an all-true stack becomes the first false one. -/
def pushBack (c : ConditionStack) (f : Bool) : ConditionStack :=
  let firstFalsePos := if c.firstFalsePos == NO_FALSE && !f then c.stackSize else c.firstFalsePos
  ⟨c.stackSize + 1, firstFalsePos⟩

/-- `pop_back` (the caller has checked that the stack is not empty). -/
def popBack (c : ConditionStack) : ConditionStack :=
  let stackSize := c.stackSize - 1
  ⟨stackSize, if c.firstFalsePos == stackSize then NO_FALSE else c.firstFalsePos⟩

/-- `toggle_top` (the caller has checked that the stack is not empty): only a
toggle of the first false value, or of an all-true stack's top, is observable. -/
def toggleTop (c : ConditionStack) : ConditionStack :=
  if c.firstFalsePos == NO_FALSE then ⟨c.stackSize, c.stackSize - 1⟩
  else if c.firstFalsePos == c.stackSize - 1 then ⟨c.stackSize, NO_FALSE⟩
  else c

@[simp]
theorem init_allTrue : init.allTrue = true := rfl

@[simp]
theorem init_empty : init.empty = true := rfl

end ConditionStack

/-! ## Signature checkers -/

/-- The virtual interface of `BaseSignatureChecker`.  The Schnorr check
returns the error it reports, or `()` on success. -/
structure BaseSignatureChecker where
  checkECDSASignature : valtype → valtype → CScript → SigVersion → Bool
  checkSchnorrSignature : valtype → valtype → SigVersion → ScriptExecutionData →
    Except ScriptError Unit
  checkDilithiumSignature : valtype → valtype → CScript → SigVersion → Bool
  checkLockTime : Int → Bool
  checkSequence : Int → Bool

/-- The base class itself: every check fails. -/
def BaseSignatureChecker.base : BaseSignatureChecker where
  checkECDSASignature _ _ _ _ := false
  checkSchnorrSignature _ _ _ _ := .error .unknownError
  checkDilithiumSignature _ _ _ _ := false
  checkLockTime _ := false
  checkSequence _ := false

end Qbitcoin
