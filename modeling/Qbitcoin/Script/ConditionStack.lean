import Qbitcoin.Script.Types
import Qbitcoin.Lib.Simulation

/-!
# The condition stack refines a vector of booleans

`ConditionStack` (script/interpreter.cpp) stands for the vector of booleans of
the nested `OP_IF`s but stores only its size and the position of its first
false value.  `Represents` relates it to the vector, each operation keeps the
relation, and `empty()` and `all_true()` read the same answer off both.
Positions are `uint32_t`: the vector stays shorter than `NO_FALSE`.
-/

namespace Qbitcoin

namespace ConditionStack

/-- The operations on a condition stack. -/
inductive Op where
  | pushBack (f : Bool)
  | popBack
  | toggleTop
  deriving DecidableEq, Repr

/-- An operation on the condition stack. -/
def Op.apply : Op → ConditionStack → ConditionStack
  | .pushBack f, c => c.pushBack f
  | .popBack, c => c.popBack
  | .toggleTop, c => c.toggleTop

/-- The operation on the `std::vector<bool>`, its back last; `toggle_top`
negates the last element. -/
def Op.applyVector : Op → List Bool → List Bool
  | .pushBack f, v => v ++ [f]
  | .popBack, v => v.dropLast
  | .toggleTop, v => v.dropLast ++ (v.getLast?.map not).toList

/-- `pop_back` and `toggle_top` on a non-empty stack, and every stack shorter
than `NO_FALSE`. -/
def Op.Allowed : Op → List Bool → Prop
  | .pushBack _, v => v.length + 1 < NO_FALSE.toNat
  | .popBack, v => v ≠ []
  | .toggleTop, v => v ≠ []

/-- Where `m_first_false_pos` points for the vector `v`. -/
def firstFalseIndex (v : List Bool) : Nat := if false ∈ v then v.idxOf false else NO_FALSE.toNat

/-- The stack stands for `v`: the same size, and the first false value where `v`
has it. -/
structure Represents (c : ConditionStack) (v : List Bool) : Prop where
  short : v.length < NO_FALSE.toNat
  size_eq : c.stackSize.toNat = v.length
  firstFalse_eq : c.firstFalsePos.toNat = firstFalseIndex v

theorem firstFalseIndex_concat (v : List Bool) (b : Bool) :
    firstFalseIndex (v ++ [b]) = if false ∈ v then firstFalseIndex v else if b then NO_FALSE.toNat else v.length := by
  by_cases hasFalse : false ∈ v
  · simp [firstFalseIndex, hasFalse, List.idxOf_append_of_mem]
  · cases b <;> simp [firstFalseIndex, hasFalse, List.idxOf_append_of_notMem]

theorem firstFalseIndex_lt {v : List Bool} (hasFalse : false ∈ v) : firstFalseIndex v < v.length := by
  rw [firstFalseIndex, if_pos hasFalse]
  exact List.idxOf_lt_length_of_mem hasFalse

theorem firstFalseIndex_of_not_mem {v : List Bool} (allTrue : false ∉ v) : firstFalseIndex v = NO_FALSE.toNat :=
  if_neg allTrue

theorem toNat_NO_FALSE : NO_FALSE.toNat = 2 ^ 32 - 1 := rfl

theorem beq_eq_decide_toNat (a b : UInt32) : (a == b) = decide (a.toNat = b.toNat) := by
  rw [Bool.eq_iff_iff, beq_iff_eq, decide_eq_true_iff, UInt32.toNat_inj]

section Steps

variable {c : ConditionStack} {v : List Bool}

theorem Represents.empty_eq (represents : Represents c v) : c.empty = v.isEmpty := by
  rw [empty, beq_eq_decide_toNat, represents.size_eq]
  cases v <;> simp

theorem Represents.allTrue_eq (represents : Represents c v) : c.allTrue = !v.contains false := by
  rw [allTrue, beq_eq_decide_toNat, represents.firstFalse_eq]
  by_cases hasFalse : false ∈ v
  · have inside := firstFalseIndex_lt hasFalse
    have := represents.short
    have notNone : firstFalseIndex v ≠ NO_FALSE.toNat := by omega
    simp [hasFalse, notNone]
  · simp [firstFalseIndex_of_not_mem hasFalse, hasFalse]

theorem represents_init : Represents init [] := ⟨by decide, rfl, rfl⟩

/-- The size of a non-empty stack less one, as a number. -/
theorem toNat_sub_one (sizeEq : c.stackSize.toNat = v.length + 1) : (c.stackSize - 1).toNat = v.length := by
  have positive : (1 : UInt32) ≤ c.stackSize := by
    rw [UInt32.le_iff_toNat_le, UInt32.toNat_one]
    omega
  rw [UInt32.toNat_sub_of_le _ _ positive, UInt32.toNat_one]
  omega

/-- A stack standing for a non-empty vector, read off its last value. -/
theorem Represents.of_concat {w : List Bool} {b : Bool} (represents : Represents c (w ++ [b])) :
    w.length + 1 < NO_FALSE.toNat ∧ c.stackSize.toNat = w.length + 1 ∧
      c.firstFalsePos.toNat = if false ∈ w then firstFalseIndex w else if b then NO_FALSE.toNat else w.length := by
  have short := represents.short
  have sizeEq := represents.size_eq
  have firstFalse := represents.firstFalse_eq
  rw [List.length_append, List.length_singleton] at short sizeEq
  rw [firstFalseIndex_concat] at firstFalse
  exact ⟨short, sizeEq, firstFalse⟩

theorem Represents.pushBack (represents : Represents c v) (fits : v.length + 1 < NO_FALSE.toNat) (f : Bool) :
    Represents (c.pushBack f) (v ++ [f]) := by
  have noFalse := toNat_NO_FALSE
  have sizeEq := represents.size_eq
  have firstFalse := represents.firstFalse_eq
  refine ⟨by simpa using fits, ?_, ?_⟩
  · simp only [ConditionStack.pushBack, UInt32.toNat_add, UInt32.toNat_one, List.length_append, List.length_singleton]
    omega
  · simp only [ConditionStack.pushBack, firstFalseIndex_concat, beq_eq_decide_toNat, Bool.and_eq_true,
      decide_eq_true_eq, Bool.not_eq_true']
    by_cases hasFalse : false ∈ v
    · have := firstFalseIndex_lt hasFalse
      have notNone : c.firstFalsePos.toNat ≠ NO_FALSE.toNat := by omega
      rw [if_neg (fun both => notNone both.1), if_pos hasFalse, firstFalse]
    · rw [firstFalseIndex_of_not_mem hasFalse] at firstFalse
      rw [if_neg hasFalse]
      cases f
      · rw [if_pos ⟨firstFalse, rfl⟩, sizeEq]
        rfl
      · rw [if_neg (fun both => Bool.noConfusion both.2), firstFalse]
        rfl

/-- `pop_back`: the popped value was the first false one exactly when the first
false position is the new size. -/
theorem Represents.popBack (represents : Represents c v) (nonempty : v ≠ []) :
    Represents c.popBack v.dropLast := by
  obtain ⟨w, b, rfl⟩ := (List.eq_nil_or_concat' v).resolve_left nonempty
  have noFalse := toNat_NO_FALSE
  obtain ⟨short, sizeEq, firstFalse⟩ := represents.of_concat
  have shrunk := toNat_sub_one sizeEq
  refine ⟨by simp; omega, by simp [ConditionStack.popBack, shrunk], ?_⟩
  simp only [ConditionStack.popBack, List.dropLast_concat, beq_eq_decide_toNat, shrunk, decide_eq_true_eq]
  by_cases hasFalse : false ∈ w
  · rw [if_pos hasFalse] at firstFalse
    have notTop : c.firstFalsePos.toNat ≠ w.length := by
      have := firstFalseIndex_lt hasFalse
      omega
    rw [if_neg notTop, firstFalse]
  · rw [if_neg hasFalse] at firstFalse
    rw [firstFalseIndex_of_not_mem hasFalse]
    cases b
    · simp only [Bool.false_eq_true, if_false] at firstFalse
      rw [if_pos firstFalse]
    · simp only [if_true] at firstFalse
      have notTop : c.firstFalsePos.toNat ≠ w.length := by omega
      rw [if_neg notTop, firstFalse]

/-- `toggle_top`: only toggling the first false value, or the top of an
all-true stack, moves the first false value. -/
theorem Represents.toggleTop (represents : Represents c v) (nonempty : v ≠ []) :
    Represents c.toggleTop (v.dropLast ++ (v.getLast?.map not).toList) := by
  obtain ⟨w, b, rfl⟩ := (List.eq_nil_or_concat' v).resolve_left nonempty
  have noFalse := toNat_NO_FALSE
  obtain ⟨short, sizeEq, firstFalse⟩ := represents.of_concat
  have top := toNat_sub_one sizeEq
  simp only [List.dropLast_concat, List.getLast?_concat, Option.map_some, Option.toList_some]
  refine ⟨by simpa using short, ?_, ?_⟩
  · simp only [ConditionStack.toggleTop]
    split_ifs <;> simpa using sizeEq
  · rw [firstFalseIndex_concat]
    simp only [ConditionStack.toggleTop, beq_eq_decide_toNat, decide_eq_true_eq, top]
    by_cases hasFalse : false ∈ w
    · rw [if_pos hasFalse] at firstFalse
      have := firstFalseIndex_lt hasFalse
      have notNone : c.firstFalsePos.toNat ≠ NO_FALSE.toNat := by omega
      have notTop : c.firstFalsePos.toNat ≠ w.length := by omega
      rw [if_neg notNone, if_neg notTop, if_pos hasFalse, firstFalse]
    · rw [if_neg hasFalse] at firstFalse
      rw [if_neg hasFalse]
      cases b
      · simp only [Bool.false_eq_true, if_false] at firstFalse
        have notNone : c.firstFalsePos.toNat ≠ NO_FALSE.toNat := by omega
        rw [if_neg notNone, if_pos firstFalse]
        rfl
      · simp only [if_true] at firstFalse
        rw [if_pos firstFalse]
        simpa using top

end Steps

theorem Op.apply_represents (op : Op) {c : ConditionStack} {v : List Bool} (allowed : op.Allowed v)
    (represents : Represents c v) : Represents (op.apply c) (op.applyVector v) := by
  cases op with
  | pushBack f => exact represents.pushBack allowed f
  | popBack => exact represents.popBack allowed
  | toggleTop => exact represents.toggleTop allowed

/-- `ConditionStack` refines a vector of booleans: after any run of
`push_back`, of `pop_back` on a non-empty stack and of `toggle_top` on a
non-empty stack, with every stack shorter than `NO_FALSE`, `empty()` and
`all_true()` agree with the emptiness of the vector and the absence of a false
value in it. -/
theorem conditionStack_refines_boolVector (ops : List Op) (allowed : AllowedRun Op.applyVector Op.Allowed ops []) :
    (runOps Op.apply ops init).empty = (runOps Op.applyVector ops []).isEmpty ∧
      (runOps Op.apply ops init).allTrue = !(runOps Op.applyVector ops []).contains false := by
  have represents := runOps_related Represents (fun op _ _ allowedOp => op.apply_represents allowedOp) ops
    represents_init allowed
  exact ⟨represents.empty_eq, represents.allTrue_eq⟩

/-- Two nested branches: the inner one is entered false, toggled by `OP_ELSE` and
closed. -/
theorem conditionStack_refines_boolVector_nested :
    AllowedRun Op.applyVector Op.Allowed [.pushBack true, .pushBack false, .toggleTop, .popBack] [] ∧
      (runOps Op.apply [.pushBack true, .pushBack false, .toggleTop, .popBack] init).empty =
          (runOps Op.applyVector [.pushBack true, .pushBack false, .toggleTop, .popBack] []).isEmpty ∧
        (runOps Op.apply [.pushBack true, .pushBack false, .toggleTop, .popBack] init).allTrue =
          !(runOps Op.applyVector [.pushBack true, .pushBack false, .toggleTop, .popBack] []).contains false := by
  have allowed : AllowedRun Op.applyVector Op.Allowed [.pushBack true, .pushBack false, .toggleTop, .popBack] [] := by
    simp [AllowedRun, Op.Allowed, Op.applyVector, toNat_NO_FALSE]
  exact ⟨allowed, conditionStack_refines_boolVector _ allowed⟩

end ConditionStack

end Qbitcoin
