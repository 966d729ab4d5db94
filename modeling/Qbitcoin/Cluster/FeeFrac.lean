import Qbitcoin.Lib.Polyline
import Mathlib.Algebra.Order.Field.Rat
import Mathlib.Algebra.Order.Ring.Int
import Mathlib.Data.List.GetD
import Mathlib.Algebra.Order.BigOperators.Group.List

/-!
# Fees and sizes, and the feerate diagram

`FeeFrac` of `util/feefrac.h`: a fee and a size, ordered by the feerate
fee / size, which the source compares by cross-multiplying.  A list of chunks
gives a feerate diagram: the path from the origin through the chunks'
accumulated sizes and fees, continued horizontally, as `CompareChunks`
describes it; here it is the path of `Lib/Polyline.lean` with each chunk a
step of width its size and rise its fee.

The fee is an `int64_t` and the size an `int32_t`; the source asks its callers
that the sums it forms do not overflow (and `Mul` works in 128 bits), so both
are integers here.  Sizes are positive in every diagram the source builds
(`DepGraph`'s serialization rejects size 0): the lemmas that need it say so.
-/

namespace Qbitcoin

/-- `FeeFrac`: a fee and a size. -/
@[ext] structure FeeFrac where
  fee : Int
  size : Int
  deriving DecidableEq, Repr

namespace FeeFrac

/-- `operator+`: fees and sizes add. -/
instance : Add FeeFrac := ⟨fun a b => ⟨a.fee + b.fee, a.size + b.size⟩⟩

/-- `operator-`: fees and sizes subtract. -/
instance : Sub FeeFrac := ⟨fun a b => ⟨a.fee - b.fee, a.size - b.size⟩⟩

/-- The empty `FeeFrac`, fee and size 0. -/
instance : Zero FeeFrac := ⟨⟨0, 0⟩⟩

@[simp] theorem fee_add (a b : FeeFrac) : (a + b).fee = a.fee + b.fee := rfl
@[simp] theorem size_add (a b : FeeFrac) : (a + b).size = a.size + b.size := rfl
@[simp] theorem fee_sub (a b : FeeFrac) : (a - b).fee = a.fee - b.fee := rfl
@[simp] theorem size_sub (a b : FeeFrac) : (a - b).size = a.size - b.size := rfl
@[simp] theorem fee_zero : (0 : FeeFrac).fee = 0 := rfl
@[simp] theorem size_zero : (0 : FeeFrac).size = 0 := rfl

instance : AddCommMonoid FeeFrac where
  add_assoc a b c := by ext <;> simp [Int.add_assoc]
  zero_add a := by ext <;> simp
  add_zero a := by ext <;> simp
  add_comm a b := by ext <;> simp [Int.add_comm]
  nsmul := nsmulRec

@[simp] theorem fee_sum (l : List FeeFrac) : l.sum.fee = (l.map fee).sum := by
  induction l with
  | nil => rfl
  | cons head tail inductionHypothesis => simp [inductionHypothesis]

@[simp] theorem size_sum (l : List FeeFrac) : l.sum.size = (l.map size).sum := by
  induction l with
  | nil => rfl
  | cons head tail inductionHypothesis => simp [inductionHypothesis]

/-- `FeeRateCompare`: compare two `FeeFrac`s by feerate alone. -/
def feeRateCompare (a b : FeeFrac) : Ordering := compare (a.fee * b.size) (b.fee * a.size)

/-- `operator<<`: a strictly lower feerate than another. -/
def lowerFeerate (a b : FeeFrac) : Bool := decide (a.fee * b.size < b.fee * a.size)

/-- `operator>>`: a strictly higher feerate than another. -/
def higherFeerate (a b : FeeFrac) : Bool := decide (a.fee * b.size > b.fee * a.size)

@[simp] theorem lowerFeerate_eq_true_iff {a b : FeeFrac} :
    lowerFeerate a b = true ↔ a.fee * b.size < b.fee * a.size := by
  simp [lowerFeerate]

@[simp] theorem higherFeerate_eq_true_iff {a b : FeeFrac} :
    higherFeerate a b = true ↔ b.fee * a.size < a.fee * b.size := by
  simp [higherFeerate]

/-! ## Feerates of sums

With positive sizes, the feerate of a sum lies between those of its parts
(the mediant), and comparing feerates is transitive. -/

section Mediant

variable {a b c : FeeFrac}

/-- The feerate of a sum is at least that of a part exactly when it is at
most that of the other part. -/
theorem le_rate_add_iff : a.fee * (a + b).size ≤ (a + b).fee * a.size ↔ a.fee * b.size ≤ b.fee * a.size := by
  simp only [fee_add, size_add]
  constructor <;> intro h <;> linarith

theorem rate_add_le_iff : (a + b).fee * b.size ≤ b.fee * (a + b).size ↔ a.fee * b.size ≤ b.fee * a.size := by
  simp only [fee_add, size_add]
  constructor <;> intro h <;> linarith

/-- Feerate comparison through a middle term of positive size. -/
theorem rate_le_trans (ab : a.fee * b.size ≤ b.fee * a.size) (bc : b.fee * c.size ≤ c.fee * b.size)
    (aPos : 0 < a.size) (bPos : 0 < b.size) (cPos : 0 < c.size) : a.fee * c.size ≤ c.fee * a.size := by
  have scaledAB := mul_le_mul_of_nonneg_right ab cPos.le
  have scaledBC := mul_le_mul_of_nonneg_right bc aPos.le
  have cancelled : b.size * (a.fee * c.size) ≤ b.size * (c.fee * a.size) := by linarith
  exact le_of_mul_le_mul_left cancelled bPos

theorem rate_lt_of_lt_of_le (ab : a.fee * b.size < b.fee * a.size) (bc : b.fee * c.size ≤ c.fee * b.size)
    (aPos : 0 < a.size) (bPos : 0 < b.size) (cPos : 0 < c.size) : a.fee * c.size < c.fee * a.size := by
  have scaledAB := mul_lt_mul_of_pos_right ab cPos
  have scaledBC := mul_le_mul_of_nonneg_right bc aPos.le
  have cancelled : b.size * (a.fee * c.size) < b.size * (c.fee * a.size) := by linarith
  exact lt_of_mul_lt_mul_left cancelled bPos.le

end Mediant

/-! ## The diagram -/

/-- A chunk as a step of the diagram: its size across, its fee up. -/
def toStep (chunk : FeeFrac) : ℚ × ℚ := ((chunk.size : ℚ), (chunk.fee : ℚ))

/-- The feerate diagram of a list of chunks: from the origin through the
accumulated sizes and fees, then horizontal. -/
def diagram (chunks : List FeeFrac) : ℚ → ℚ := polyline (chunks.map toStep)

@[simp] theorem toStep_fst (chunk : FeeFrac) : (toStep chunk).1 = chunk.size := rfl
@[simp] theorem toStep_snd (chunk : FeeFrac) : (toStep chunk).2 = chunk.fee := rfl

theorem positive_steps {chunks : List FeeFrac} (positive : ∀ chunk ∈ chunks, 0 < chunk.size) :
    ∀ step ∈ chunks.map toStep, 0 < step.1 := by
  intro step member
  obtain ⟨chunk, chunkMember, rfl⟩ := List.mem_map.mp member
  show (0 : ℚ) < chunk.size
  exact_mod_cast positive chunk chunkMember

@[simp] theorem pathWidth_map_toStep (chunks : List FeeFrac) :
    pathWidth (chunks.map toStep) = (chunks.sum.size : ℚ) := by
  induction chunks with
  | nil => simp
  | cons head tail inductionHypothesis => simp [inductionHypothesis]

@[simp] theorem pathRise_map_toStep (chunks : List FeeFrac) :
    pathRise (chunks.map toStep) = (chunks.sum.fee : ℚ) := by
  induction chunks with
  | nil => simp
  | cons head tail inductionHypothesis => simp [inductionHypothesis]

/-- Along a chunk, the diagram is the straight line from the point the chunks
before it reach, at that chunk's feerate. -/
theorem diagram_of_mem_segment {before after : List FeeFrac} {chunk : FeeFrac}
    (positive : ∀ c ∈ before ++ chunk :: after, 0 < c.size) {x : ℚ} (start : (before.sum.size : ℚ) ≤ x)
    (finish : x ≤ before.sum.size + chunk.size) :
    diagram (before ++ chunk :: after) x = before.sum.fee + chunk.fee / chunk.size * (x - before.sum.size) := by
  have steps := positive_steps positive
  rw [List.map_append] at steps
  rw [diagram, List.map_append, polyline_append_of_ge steps (by simpa using start)]
  have within : x - pathWidth (before.map toStep) ≤ (toStep chunk).1 := by simp only [pathWidth_map_toStep, toStep_fst]; linarith
  rw [List.map_cons, polyline, if_pos within, pathRise_map_toStep, pathWidth_map_toStep, toStep_fst, toStep_snd]

/-- Past its total size the diagram stays at the total fee. -/
theorem diagram_of_sum_le {chunks : List FeeFrac} (positive : ∀ chunk ∈ chunks, 0 < chunk.size) {x : ℚ}
    (beyond : (chunks.sum.size : ℚ) ≤ x) : diagram chunks x = chunks.sum.fee := by
  rw [diagram, polyline_of_pathWidth_le (positive_steps positive) (by simpa using beyond), pathRise_map_toStep]

/-- With positive sizes, each further chunk moves strictly right. -/
theorem size_sum_take_lt {chunks : List FeeFrac} (positive : ∀ c ∈ chunks, 0 < c.size) {i : Nat}
    (inside : i < chunks.length) : (chunks.take i).sum.size < (chunks.take (i + 1)).sum.size := by
  rw [List.sum_take_succ _ _ inside, size_add]
  have := positive _ (List.getElem_mem inside)
  omega

/-- The diagram passes through the sum of its first chunks. -/
theorem diagram_sum_take {chunks : List FeeFrac} (positive : ∀ c ∈ chunks, 0 < c.size) {i : Nat}
    (inside : i < chunks.length) :
    diagram chunks ((chunks.take (i + 1)).sum.size) = (chunks.take (i + 1)).sum.fee := by
  have chunkPos : (0 : ℚ) < chunks[i].size := by exact_mod_cast positive _ (List.getElem_mem inside)
  have split : chunks = chunks.take i ++ chunks[i] :: chunks.drop (i + 1) := by simp
  have positiveSplit : ∀ c ∈ chunks.take i ++ chunks[i] :: chunks.drop (i + 1), 0 < c.size := by
    rw [← split]
    exact positive
  rw [List.sum_take_succ _ _ inside]
  conv_lhs => arg 1; rw [split]
  rw [diagram_of_mem_segment positiveSplit (by simp only [size_add]; push_cast; linarith)
    (by simp only [size_add]; push_cast; linarith)]
  simp only [size_add, fee_add]
  push_cast
  field_simp
  ring

/-- On each chunk the diagram is the line from the point the chunks before it
reach, at that chunk's feerate. -/
theorem diagram_eq_of_mem_chunk {chunks : List FeeFrac} (positive : ∀ c ∈ chunks, 0 < c.size) {i : Nat}
    (inside : i < chunks.length) {x : ℚ} (start : ((chunks.take i).sum.size : ℚ) ≤ x)
    (finish : x ≤ (chunks.take (i + 1)).sum.size) :
    diagram chunks x = (chunks.take i).sum.fee + chunks[i].fee / chunks[i].size * (x - (chunks.take i).sum.size) := by
  have split : chunks = chunks.take i ++ chunks[i] :: chunks.drop (i + 1) := by simp
  have positiveSplit : ∀ c ∈ chunks.take i ++ chunks[i] :: chunks.drop (i + 1), 0 < c.size := by
    rw [← split]
    exact positive
  rw [List.sum_take_succ _ _ inside, size_add] at finish
  push_cast at finish
  conv_lhs => arg 1; rw [split]
  exact diagram_of_mem_segment positiveSplit start finish

theorem line_lt_iff {start slope size height x : ℚ} (pos : 0 < size) :
    start + slope / size * x < height ↔ slope * x < (height - start) * size := by
  rw [← lt_sub_iff_add_lt', div_mul_eq_mul_div, div_lt_iff₀ pos]

theorem lt_line_iff {start slope size height x : ℚ} (pos : 0 < size) :
    height < start + slope / size * x ↔ (height - start) * size < slope * x := by
  rw [← sub_lt_iff_lt_add', div_mul_eq_mul_div, lt_div_iff₀ pos]

theorem size_sum_nonneg {chunks : List FeeFrac} (positive : ∀ c ∈ chunks, 0 < c.size) : 0 ≤ chunks.sum.size := by
  rw [size_sum]
  exact List.sum_nonneg fun size member => by
    obtain ⟨c, cMember, rfl⟩ := List.mem_map.mp member
    exact (positive c cMember).le

theorem diagram_zero {chunks : List FeeFrac} (positive : ∀ c ∈ chunks, 0 < c.size) : diagram chunks 0 = 0 :=
  polyline_zero (positive_steps positive)

end FeeFrac

end Qbitcoin
