import Mathlib.Tactic.TypeStar
import Mathlib.Logic.Function.Basic

/-!
# One machine simulating another, operation by operation

Two machines take the same operations, each with its own state and step
function.  A relation between their states that every allowed operation keeps
holds after any run of allowed operations.  Whether an operation is allowed is
decided on the second machine, the reference.

A reference may also be a specification that leaves some results open (the
contents a moved-from container is left with, say): a relation `spec` between
its states before and after an operation.  Then whether an operation is
allowed is decided on the implementation, and a relation such that every
allowed step of the implementation is matched by a step of the specification
is kept along every allowed run (`exists_specRun`).

A program may act on a family of objects indexed by `ι`, each related to its
own reference; replacing one object and its reference by a related pair keeps
the family related (`update_related`).
-/

namespace Qbitcoin

variable {ω σ τ : Type*}

/-- Run the operations one after another. -/
def runOps (step : ω → σ → σ) (ops : List ω) (state : σ) : σ :=
  ops.foldl (fun state op => step op state) state

/-- Each operation is allowed in the state it meets. -/
def AllowedRun (step : ω → τ → τ) (allowed : ω → τ → Prop) : List ω → τ → Prop
  | [], _ => True
  | op :: rest, state => allowed op state ∧ AllowedRun step allowed rest (step op state)

@[simp] theorem runOps_nil (step : ω → σ → σ) (state : σ) : runOps step [] state = state := rfl

@[simp] theorem runOps_cons (step : ω → σ → σ) (op : ω) (rest : List ω) (state : σ) :
    runOps step (op :: rest) state = runOps step rest (step op state) := rfl

/-- A relation kept by every allowed operation holds after every allowed run. -/
theorem runOps_related {stepS : ω → σ → σ} {stepT : ω → τ → τ} {allowed : ω → τ → Prop} (related : σ → τ → Prop)
    (preserved : ∀ op s t, allowed op t → related s t → related (stepS op s) (stepT op t)) (ops : List ω) {s : σ}
    {t : τ} (start : related s t) (allowedRun : AllowedRun stepT allowed ops t) :
    related (runOps stepS ops s) (runOps stepT ops t) := by
  induction ops generalizing s t with
  | nil => exact start
  | cons op rest inductionHypothesis =>
    obtain ⟨allowedOp, allowedRest⟩ := allowedRun
    exact inductionHypothesis (preserved op s t allowedOp start) allowedRest

instance instDecidableAllowedRun {step : ω → τ → τ} {allowed : ω → τ → Prop} [∀ op state, Decidable (allowed op state)] :
    ∀ (ops : List ω) (state : τ), Decidable (AllowedRun step allowed ops state)
  | [], _ => instDecidableTrue
  | op :: rest, state =>
    have : Decidable (AllowedRun step allowed rest (step op state)) := instDecidableAllowedRun rest (step op state)
    inferInstanceAs (Decidable (allowed op state ∧ AllowedRun step allowed rest (step op state)))

/-- The specification can go from `t` to `t'` by the operations `ops`. -/
def SpecRun (spec : τ → ω → τ → Prop) : List ω → τ → τ → Prop
  | [], t, t' => t' = t
  | op :: rest, t, t' => ∃ next, spec t op next ∧ SpecRun spec rest next t'

/-- A forward simulation, kept along a run: every allowed run of the implementation is matched by a run of
the specification, to related states.  The induction is on the operations, generalizing both states. -/
theorem exists_specRun {stepS : ω → σ → σ} {allowed : ω → σ → Prop} {spec : τ → ω → τ → Prop}
    (related : σ → τ → Prop)
    (matched : ∀ op s t, allowed op s → related s t → ∃ t', spec t op t' ∧ related (stepS op s) t')
    (ops : List ω) {s : σ} {t : τ} (start : related s t) (allowedRun : AllowedRun stepS allowed ops s) :
    ∃ t', SpecRun spec ops t t' ∧ related (runOps stepS ops s) t' := by
  induction ops generalizing s t with
  | nil => exact ⟨t, rfl, start⟩
  | cons op rest inductionHypothesis =>
    obtain ⟨allowedOp, allowedRest⟩ := allowedRun
    obtain ⟨next, specStep, related'⟩ := matched op s t allowedOp start
    obtain ⟨t', run, final⟩ := inductionHypothesis related' allowedRest
    exact ⟨t', ⟨next, specStep, run⟩, final⟩

/-- Replacing one object of a family, and its reference, by a related pair keeps the family related. -/
theorem update_related {ι : Type*} [DecidableEq ι] {R : σ → τ → Prop} {s : ι → σ} {A : ι → τ}
    (related : ∀ k, R (s k) (A k)) {i : ι} {x : σ} {y : τ} (r : R x y) (k : ι) :
    R (Function.update s i x k) (Function.update A i y k) := by
  by_cases same : k = i
  · subst same
    rw [Function.update_self, Function.update_self]
    exact r
  · rw [Function.update_of_ne same, Function.update_of_ne same]
    exact related k

end Qbitcoin
