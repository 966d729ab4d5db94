import Mathlib.Data.List.Chain

/-!
# Merging adjacent blocks on a stack

A sequence is cut into blocks from left to right with a stack of blocks, the
last block on top: each new element starts a block of its own, which absorbs the
blocks below it while it is better than them, and is then pushed.  What a block
is is left open: `merge new below` joins a block to the one before it, and
`better new below` decides whether it should.

Two facts about the stack.  It never holds a block better than the one below
it, whatever `better` is.  And when each block is the `summary` of a piece of
the input, with `merge` summarising the joined pieces, the blocks are the
summaries of consecutive non-empty pieces that together make up the input.
Both hold of one push, and so of the whole scan.
-/

namespace Qbitcoin

variable {α β γ : Type*}

/-- Push `new` on `stack` (top first), merging it first with each block below it
for as long as it is better than that block. -/
def absorbPush (better : β → β → Bool) (merge : β → β → β) (new : β) : List β → List β
  | [] => [new]
  | below :: rest => if better new below then absorbPush better merge (merge new below) rest else new :: below :: rest

section Push

variable (better : β → β → Bool) (merge : β → β → β)

/-- No block on the stack is better than the block below it. -/
def Settled (stack : List β) : Prop := stack.IsChain fun above below => better above below = false

theorem absorbPush_settled {stack : List β} (settled : Settled better stack) (new : β) :
    Settled better (absorbPush better merge new stack) := by
  induction stack generalizing new with
  | nil => exact List.isChain_singleton new
  | cons below rest inductionHypothesis =>
    rw [absorbPush]
    split_ifs with absorbs
    · exact inductionHypothesis settled.tail _
    · exact List.isChain_cons_cons.mpr ⟨Bool.eq_false_iff.mpr absorbs, settled⟩

/-- Pushing commutes with a map that both `better` and `merge` see through. -/
theorem map_absorbPush (better' : γ → γ → Bool) (merge' : γ → γ → γ) (f : β → γ)
    (sameBetter : ∀ a b, better' (f a) (f b) = better a b) (sameMerge : ∀ a b, f (merge a b) = merge' (f a) (f b))
    (new : β) (stack : List β) :
    (absorbPush better merge new stack).map f = absorbPush better' merge' (f new) (stack.map f) := by
  induction stack generalizing new with
  | nil => rfl
  | cons below rest inductionHypothesis =>
    simp only [absorbPush, List.map_cons, sameBetter]
    split_ifs
    · rw [inductionHypothesis, sameMerge]
    · rfl

variable {better merge}
variable {summary : List α → β} (merges : ∀ first second, summary (first ++ second) = merge (summary second) (summary first))
include merges

/-- Pushing the summary of a non-empty piece onto the summaries of pieces (top
first) leaves the summaries of pieces that make up the old ones and the new
one, in order. -/
theorem absorbPush_pieces (better : β → β → Bool) (pieces : List (List α)) (nonempty : ∀ piece ∈ pieces, piece ≠ []) {piece : List α}
    (pieceNonempty : piece ≠ []) :
    ∃ after : List (List α), absorbPush better merge (summary piece) (pieces.map summary) = after.map summary ∧
      after.reverse.flatten = pieces.reverse.flatten ++ piece ∧ ∀ piece ∈ after, piece ≠ [] := by
  induction pieces generalizing piece with
  | nil => exact ⟨[piece], rfl, by simp, by simpa using pieceNonempty⟩
  | cons below rest inductionHypothesis =>
    simp only [List.map_cons, absorbPush]
    split_ifs
    · have restNonempty : ∀ piece ∈ rest, piece ≠ [] := fun other member => nonempty other (List.mem_cons_of_mem _ member)
      obtain ⟨after, pushed, joined, afterNonempty⟩ :=
        inductionHypothesis restNonempty (by simp [pieceNonempty] : below ++ piece ≠ [])
      refine ⟨after, by rw [← merges, pushed], ?_, afterNonempty⟩
      simp [joined]
    · refine ⟨piece :: below :: rest, rfl, by simp, ?_⟩
      simpa [pieceNonempty] using nonempty

end Push

/-- The scan: every element, as `single x`, pushed in turn. -/
def mergeAdjacent (better : β → β → Bool) (merge : β → β → β) (single : α → β) (stack : List β) (xs : List α) :
    List β :=
  xs.foldl (fun stack x => absorbPush better merge (single x) stack) stack

section Scan

variable {better : β → β → Bool} {merge : β → β → β} {single : α → β}

theorem mergeAdjacent_settled {stack : List β} (settled : Settled better stack) (xs : List α) :
    Settled better (mergeAdjacent better merge single stack xs) := by
  induction xs generalizing stack with
  | nil => exact settled
  | cons x rest inductionHypothesis => exact inductionHypothesis (absorbPush_settled better merge settled (single x))

/-- The scan commutes with a map that `better`, `merge` and `single` see through. -/
theorem map_mergeAdjacent (better' : γ → γ → Bool) (merge' : γ → γ → γ) (single' : α → γ) (f : β → γ)
    (sameBetter : ∀ a b, better' (f a) (f b) = better a b) (sameMerge : ∀ a b, f (merge a b) = merge' (f a) (f b))
    (sameSingle : ∀ x, f (single x) = single' x) (stack : List β) (xs : List α) :
    (mergeAdjacent better merge single stack xs).map f = mergeAdjacent better' merge' single' (stack.map f) xs := by
  induction xs generalizing stack with
  | nil => rfl
  | cons x rest inductionHypothesis =>
    simp only [mergeAdjacent, List.foldl_cons] at inductionHypothesis ⊢
    rw [inductionHypothesis, map_absorbPush better merge better' merge' f sameBetter sameMerge, sameSingle]

variable {summary : List α → β} (merges : ∀ first second, summary (first ++ second) = merge (summary second) (summary first))
  (singles : ∀ x, summary [x] = single x)
include merges singles

/-- The scan cuts its input into consecutive non-empty pieces and leaves their
summaries, top first. -/
theorem mergeAdjacent_pieces (better : β → β → Bool) (pieces : List (List α)) (nonempty : ∀ piece ∈ pieces, piece ≠ []) (xs : List α) :
    ∃ after : List (List α), mergeAdjacent better merge single (pieces.map summary) xs = after.map summary ∧
      after.reverse.flatten = pieces.reverse.flatten ++ xs ∧ ∀ piece ∈ after, piece ≠ [] := by
  induction xs generalizing pieces with
  | nil => exact ⟨pieces, rfl, by simp, nonempty⟩
  | cons x rest inductionHypothesis =>
    obtain ⟨pushed, pushedEq, pushedJoined, pushedNonempty⟩ :=
      absorbPush_pieces merges better pieces nonempty (List.cons_ne_nil x [])
    rw [singles] at pushedEq
    obtain ⟨after, scanned, joined, afterNonempty⟩ := inductionHypothesis pushed pushedNonempty
    refine ⟨after, ?_, by simp [joined, pushedJoined], afterNonempty⟩
    rw [mergeAdjacent, List.foldl_cons, pushedEq]
    exact scanned

end Scan

end Qbitcoin
