import Mathlib.Algebra.Order.Field.Basic
import Mathlib.Tactic.Linarith
import Mathlib.Tactic.Ring
import Mathlib.Tactic.FieldSimp

/-!
# Paths of straight steps

A path from the origin made of straight steps, each given by its width and its
rise, continued horizontally after the last one.  With positive widths the
path passes through its corners, the end points of the steps, and is straight
in between.  When in addition the slopes never increase the path is concave,
and on its span it is the least of the lines that extend its steps: a point
lies under it exactly when it lies under each of those lines.  From this, a
second path whose corners all lie under the first lies under it everywhere on
its span.
-/

namespace Qbitcoin

variable {K : Type*} [Field K]

/-- The height at `x` of the path whose steps are given as `(width, rise)`. -/
def polyline [LinearOrder K] : List (K × K) → K → K
  | [], _ => 0
  | step :: rest, x => if x ≤ step.1 then step.2 / step.1 * x else step.2 + polyline rest (x - step.1)

/-- The total width of the steps. -/
def pathWidth (steps : List (K × K)) : K := (steps.map Prod.fst).sum

/-- The total rise of the steps. -/
def pathRise (steps : List (K × K)) : K := (steps.map Prod.snd).sum

/-- The end points of the steps, in order. -/
def corners : List (K × K) → List (K × K)
  | [] => []
  | step :: rest => step :: (corners rest).map fun corner => (step.1 + corner.1, step.2 + corner.2)

/-- The lines that extend the steps, each as its intercept and its slope. -/
def stepLines : List (K × K) → List (K × K)
  | [] => []
  | step :: rest => (0, step.2 / step.1) :: (stepLines rest).map fun line => (line.1 + step.2 - line.2 * step.1, line.2)

/-- Steps of positive width whose slopes never increase. -/
structure ConcaveSteps [LinearOrder K] (steps : List (K × K)) : Prop where
  widths_pos : ∀ step ∈ steps, 0 < step.1
  slopes_antitone : steps.Pairwise fun earlier later => later.2 / later.1 ≤ earlier.2 / earlier.1

@[simp] theorem pathWidth_nil : pathWidth ([] : List (K × K)) = 0 := rfl

@[simp] theorem pathWidth_cons (step : K × K) (rest : List (K × K)) :
    pathWidth (step :: rest) = step.1 + pathWidth rest := by
  simp [pathWidth]

@[simp] theorem pathWidth_append (first second : List (K × K)) :
    pathWidth (first ++ second) = pathWidth first + pathWidth second := by
  simp [pathWidth]

@[simp] theorem pathRise_nil : pathRise ([] : List (K × K)) = 0 := rfl

@[simp] theorem pathRise_cons (step : K × K) (rest : List (K × K)) :
    pathRise (step :: rest) = step.2 + pathRise rest := by
  simp [pathRise]

@[simp] theorem pathRise_append (first second : List (K × K)) :
    pathRise (first ++ second) = pathRise first + pathRise second := by
  simp [pathRise]

/-- The slope of every line of the steps is the slope of one of the steps. -/
theorem exists_slope_of_mem_stepLines {steps : List (K × K)} {line : K × K} (member : line ∈ stepLines steps) :
    ∃ step ∈ steps, line.2 = step.2 / step.1 := by
  induction steps generalizing line with
  | nil => simp [stepLines] at member
  | cons step rest inductionHypothesis =>
      simp only [stepLines, List.mem_cons, List.mem_map] at member
      rcases member with first | ⟨restLine, restMember, shifted⟩
      · exact ⟨step, List.mem_cons_self, by rw [first]⟩
      · obtain ⟨restStep, restStepMember, slope⟩ := inductionHypothesis restMember
        exact ⟨restStep, List.mem_cons_of_mem _ restStepMember, by rw [← shifted, ← slope]⟩

variable [LinearOrder K]

theorem ConcaveSteps.tail {step : K × K} {rest : List (K × K)} (concave : ConcaveSteps (step :: rest)) :
    ConcaveSteps rest :=
  ⟨fun s member => concave.widths_pos s (List.mem_cons_of_mem _ member), (List.pairwise_cons.mp concave.slopes_antitone).2⟩

/-- The path starts at the origin. -/
@[simp] theorem polyline_zero {steps : List (K × K)} (positive : ∀ step ∈ steps, 0 < step.1) :
    polyline steps 0 = 0 := by
  cases steps with
  | nil => rfl
  | cons step rest => simp [polyline, (positive step List.mem_cons_self).le]

variable [IsStrictOrderedRing K]

theorem pathWidth_nonneg {steps : List (K × K)} (positive : ∀ step ∈ steps, 0 < step.1) :
    0 ≤ pathWidth steps := by
  induction steps with
  | nil => simp
  | cons step rest inductionHypothesis =>
      have first := positive step List.mem_cons_self
      have later := inductionHypothesis fun s member => positive s (List.mem_cons_of_mem _ member)
      rw [pathWidth_cons]
      linarith

theorem eq_nil_of_pathWidth_nonpos {steps : List (K × K)} (positive : ∀ step ∈ steps, 0 < step.1)
    (narrow : pathWidth steps ≤ 0) : steps = [] := by
  cases steps with
  | nil => rfl
  | cons step rest =>
      have first := positive step List.mem_cons_self
      have later := pathWidth_nonneg fun s member => positive s (List.mem_cons_of_mem _ member)
      rw [pathWidth_cons] at narrow
      linarith

/-- Up to the end of a first part the path is that of the first part. -/
theorem polyline_append_of_le {first second : List (K × K)} (positive : ∀ step ∈ first ++ second, 0 < step.1)
    {x : K} (nonneg : 0 ≤ x) (inside : x ≤ pathWidth first) :
    polyline (first ++ second) x = polyline first x := by
  induction first generalizing x with
  | nil =>
      have atOrigin : x = 0 := le_antisymm inside nonneg
      rw [atOrigin, List.nil_append, polyline_zero fun s member => positive s (by simpa using member)]
      rfl
  | cons step rest inductionHypothesis =>
      simp only [List.cons_append, polyline]
      split_ifs with within
      · rfl
      · rw [pathWidth_cons] at inside
        rw [inductionHypothesis (fun s member => positive s (List.mem_cons_of_mem _ member)) (by linarith)
          (by linarith)]

/-- After the end of a first part the path is the second part's, raised to
the first part's end. -/
theorem polyline_append_of_ge {first second : List (K × K)} (positive : ∀ step ∈ first ++ second, 0 < step.1)
    {x : K} (beyond : pathWidth first ≤ x) :
    polyline (first ++ second) x = pathRise first + polyline second (x - pathWidth first) := by
  induction first generalizing x with
  | nil => simp
  | cons step rest inductionHypothesis =>
      have width := positive step List.mem_cons_self
      have restWidth : 0 ≤ pathWidth rest := pathWidth_nonneg fun s member => positive s (by simp [member])
      rw [pathWidth_cons] at beyond
      simp only [List.cons_append, polyline]
      split_ifs with within
      · have restEmpty : rest = [] :=
          eq_nil_of_pathWidth_nonpos (fun s member => positive s (by simp [member])) (by linarith)
        have atEnd : x = step.1 := by linarith
        subst restEmpty
        rw [atEnd, div_mul_cancel₀ _ width.ne', pathRise_cons, pathWidth_cons, pathRise_nil, pathWidth_nil, add_zero,
          add_zero, sub_self, polyline_zero fun s member => positive s (by simp [member]), add_zero]
      · rw [inductionHypothesis (fun s member => positive s (List.mem_cons_of_mem _ member)) (by linarith),
          pathRise_cons, pathWidth_cons]
        ring_nf

/-- Past the end of its steps the path stays at its total rise. -/
theorem polyline_of_pathWidth_le {steps : List (K × K)} (positive : ∀ step ∈ steps, 0 < step.1) {x : K}
    (beyond : pathWidth steps ≤ x) : polyline steps x = pathRise steps := by
  have extended := polyline_append_of_ge (by simpa using positive : ∀ step ∈ steps ++ ([] : List (K × K)), 0 < step.1)
    beyond
  rw [List.append_nil] at extended
  rw [extended]
  simp [polyline]

/-- The corners of steps of positive width lie to the right of the origin. -/
theorem corner_fst_pos {steps : List (K × K)} (positive : ∀ step ∈ steps, 0 < step.1) :
    ∀ corner ∈ corners steps, 0 < corner.1 := by
  induction steps with
  | nil => simp [corners]
  | cons step rest inductionHypothesis =>
      have width := positive step List.mem_cons_self
      have later := inductionHypothesis fun s member => positive s (List.mem_cons_of_mem _ member)
      intro corner member
      simp only [corners, List.mem_cons, List.mem_map] at member
      rcases member with first | ⟨restCorner, restMember, shifted⟩
      · rw [first]
        exact width
      · rw [← shifted]
        have := later restCorner restMember
        dsimp only
        linarith

/-- A path whose steps all rise at most at `slope` stays under the line of
that slope through the origin. -/
theorem polyline_le_mul {steps : List (K × K)} (positive : ∀ step ∈ steps, 0 < step.1) {slope : K}
    (steep : ∀ step ∈ steps, step.2 / step.1 ≤ slope) {x : K} (nonneg : 0 ≤ x) (inside : x ≤ pathWidth steps) :
    polyline steps x ≤ slope * x := by
  induction steps generalizing x with
  | nil =>
      have atOrigin : x = 0 := le_antisymm inside nonneg
      simp [polyline, atOrigin]
  | cons step rest inductionHypothesis =>
      have width := positive step List.mem_cons_self
      have firstSlope := steep step List.mem_cons_self
      unfold polyline
      split_ifs with within
      · exact mul_le_mul_of_nonneg_right firstSlope nonneg
      · have restBelow := inductionHypothesis (fun s member => positive s (List.mem_cons_of_mem _ member))
          (fun s member => steep s (List.mem_cons_of_mem _ member)) (by linarith : 0 ≤ x - step.1)
          (by rw [pathWidth_cons] at inside; linarith)
        have firstRise : step.2 ≤ slope * step.1 := by
          rw [div_le_iff₀ width] at firstSlope
          linarith
        linarith

/-- A line with a nonnegative intercept that passes over every corner passes
over the whole path on its span: between two corners the path is their chord. -/
theorem polyline_le_of_corners_le {steps : List (K × K)} (positive : ∀ step ∈ steps, 0 < step.1)
    {intercept slope : K} (origin : 0 ≤ intercept)
    (under : ∀ corner ∈ corners steps, corner.2 ≤ intercept + slope * corner.1)
    {x : K} (nonneg : 0 ≤ x) (inside : x ≤ pathWidth steps) :
    polyline steps x ≤ intercept + slope * x := by
  induction steps generalizing intercept x with
  | nil =>
      have atOrigin : x = 0 := le_antisymm inside nonneg
      simp [polyline, atOrigin, origin]
  | cons step rest inductionHypothesis =>
      have width := positive step List.mem_cons_self
      have firstCorner : step.2 ≤ intercept + slope * step.1 := under step (by simp [corners])
      unfold polyline
      split_ifs with within
      · have fraction : x / step.1 ≤ 1 := (div_le_one width).mpr within
        have scaled : x / step.1 * step.2 ≤ x / step.1 * (intercept + slope * step.1) :=
          mul_le_mul_of_nonneg_left firstCorner (div_nonneg nonneg width.le)
        have shrunk : x / step.1 * intercept ≤ intercept := mul_le_of_le_one_left origin fraction
        calc step.2 / step.1 * x = x / step.1 * step.2 := by ring
          _ ≤ x / step.1 * (intercept + slope * step.1) := scaled
          _ = x / step.1 * intercept + slope * x := by field_simp
          _ ≤ intercept + slope * x := by linarith
      · rw [pathWidth_cons] at inside
        have restUnder := inductionHypothesis (fun s member => positive s (List.mem_cons_of_mem _ member))
          (by linarith : 0 ≤ intercept + slope * step.1 - step.2)
          (fun corner member => by
            have shifted := under (step.1 + corner.1, step.2 + corner.2)
              (List.mem_cons_of_mem _ (List.mem_map_of_mem member))
            dsimp only at shifted
            linarith)
          (by linarith : 0 ≤ x - step.1) (by linarith)
        linarith

/-- On its span a concave path lies under every line that extends one of its
steps. -/
theorem polyline_le_of_mem_stepLines {steps : List (K × K)} (concave : ConcaveSteps steps) {line : K × K}
    (member : line ∈ stepLines steps) {x : K} (nonneg : 0 ≤ x) (inside : x ≤ pathWidth steps) :
    polyline steps x ≤ line.1 + line.2 * x := by
  induction steps generalizing line x with
  | nil => simp [stepLines] at member
  | cons step rest inductionHypothesis =>
      have width := concave.widths_pos step List.mem_cons_self
      have restConcave := concave.tail
      have flatter : ∀ s ∈ rest, s.2 / s.1 ≤ step.2 / step.1 := (List.pairwise_cons.mp concave.slopes_antitone).1
      have firstRise : step.2 = step.2 / step.1 * step.1 := (div_mul_cancel₀ _ width.ne').symm
      rw [pathWidth_cons] at inside
      simp only [stepLines, List.mem_cons, List.mem_map] at member
      unfold polyline
      rcases member with first | ⟨restLine, restMember, shifted⟩
      · rw [first]
        split_ifs with within
        · simp
        · have restBelow := polyline_le_mul restConcave.widths_pos flatter (by linarith : 0 ≤ x - step.1)
            (by linarith)
          dsimp only
          linarith
      · rw [← shifted]
        dsimp only
        have restOrigin : 0 ≤ restLine.1 := by
          have atOrigin := inductionHypothesis restConcave restMember le_rfl (pathWidth_nonneg restConcave.widths_pos)
          rwa [polyline_zero restConcave.widths_pos, mul_zero, add_zero] at atOrigin
        obtain ⟨restStep, restStepMember, slope⟩ := exists_slope_of_mem_stepLines restMember
        have restSlope : restLine.2 ≤ step.2 / step.1 := slope ▸ flatter restStep restStepMember
        split_ifs with within
        · have spread := mul_nonneg (sub_nonneg.mpr restSlope) (sub_nonneg.mpr within)
          nlinarith
        · have restBelow := inductionHypothesis restConcave restMember (by linarith : 0 ≤ x - step.1) (by linarith)
          linarith

/-- On its span the path meets one of the lines of its steps. -/
theorem exists_stepLine_eq_polyline {steps : List (K × K)} (positive : ∀ step ∈ steps, 0 < step.1)
    (nonempty : steps ≠ []) {x : K} (nonneg : 0 ≤ x) (inside : x ≤ pathWidth steps) :
    ∃ line ∈ stepLines steps, polyline steps x = line.1 + line.2 * x := by
  induction steps generalizing x with
  | nil => exact absurd rfl nonempty
  | cons step rest inductionHypothesis =>
      have restPositive : ∀ s ∈ rest, 0 < s.1 := fun s member => positive s (List.mem_cons_of_mem _ member)
      rw [pathWidth_cons] at inside
      unfold polyline
      split_ifs with within
      · exact ⟨(0, step.2 / step.1), List.mem_cons_self, by ring⟩
      · have restNonempty : rest ≠ [] := by
          intro empty
          rw [empty, pathWidth_nil] at inside
          linarith
        obtain ⟨restLine, restMember, meets⟩ :=
          inductionHypothesis restPositive restNonempty (by linarith : 0 ≤ x - step.1) (by linarith)
        refine ⟨(restLine.1 + step.2 - restLine.2 * step.1, restLine.2),
          List.mem_cons_of_mem _ (List.mem_map_of_mem restMember), ?_⟩
        rw [meets]
        ring

/-- A path whose corners all lie under a concave path lies under it wherever
both are defined: at `x` the concave path is one of its lines, and that line
passes over every corner of the other. -/
theorem polyline_le_polyline {lower upper : List (K × K)} (positive : ∀ step ∈ lower, 0 < step.1)
    (concave : ConcaveSteps upper)
    (cornersUnder : ∀ corner ∈ corners lower, corner.1 ≤ pathWidth upper ∧ corner.2 ≤ polyline upper corner.1)
    {x : K} (nonneg : 0 ≤ x) (inside : x ≤ pathWidth lower) (insideUpper : x ≤ pathWidth upper) :
    polyline lower x ≤ polyline upper x := by
  by_cases empty : upper = []
  · have atOrigin : x = 0 := by
      rw [empty, pathWidth_nil] at insideUpper
      exact le_antisymm insideUpper nonneg
    rw [atOrigin, polyline_zero positive, polyline_zero concave.widths_pos]
  · obtain ⟨line, member, meets⟩ := exists_stepLine_eq_polyline concave.widths_pos empty nonneg insideUpper
    have origin : 0 ≤ line.1 := by
      have atOrigin := polyline_le_of_mem_stepLines concave member le_rfl (pathWidth_nonneg concave.widths_pos)
      rwa [polyline_zero concave.widths_pos, mul_zero, add_zero] at atOrigin
    rw [meets]
    refine polyline_le_of_corners_le positive origin (fun corner cornerMember => ?_) nonneg inside
    obtain ⟨cornerInside, cornerUnder⟩ := cornersUnder corner cornerMember
    exact le_trans cornerUnder
      (polyline_le_of_mem_stepLines concave member (corner_fst_pos positive corner cornerMember).le cornerInside)

/-- A line that is positive somewhere between two ends is positive at one of
them. -/
theorem pos_at_end_of_line {base slope low high x : K} (lower : low ≤ x) (upper : x ≤ high)
    (positiveAt : 0 < base + slope * x) : 0 < base + slope * low ∨ 0 < base + slope * high := by
  by_contra neither
  simp only [not_or, not_lt] at neither
  obtain ⟨atLow, atHigh⟩ := neither
  have mix : (high - low) * (base + slope * x) =
      (high - x) * (base + slope * low) + (x - low) * (base + slope * high) := by ring
  have fromLow : (high - x) * (base + slope * low) ≤ 0 := mul_nonpos_of_nonneg_of_nonpos (by linarith) atLow
  have fromHigh : (x - low) * (base + slope * high) ≤ 0 := mul_nonpos_of_nonneg_of_nonpos (by linarith) atHigh
  rcases eq_or_lt_of_le (le_trans lower upper) with same | wider
  · have atEnd : x = low := by linarith
    rw [atEnd] at positiveAt
    linarith
  · have scaled := mul_pos (sub_pos.mpr wider) positiveAt
    linarith

end Qbitcoin
