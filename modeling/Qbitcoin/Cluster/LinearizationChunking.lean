import Qbitcoin.Cluster.DepGraph
import Qbitcoin.Lib.AdjacentMerge
import Mathlib.Algebra.BigOperators.Group.List.Basic

/-!
# Chunking a linearization

`ChunkLinearization` and `LinearizationChunking::BuildChunks` of
`cluster_linearize.h` cut a linearization into chunks with one stack each: every
transaction starts a chunk, which absorbs the last chunks while it has a higher
feerate.  Both are the scan of `Lib/AdjacentMerge.lean`, with the vector kept
reversed (its back first); `ChunkLinearization` keeps fees and sizes,
`BuildChunks` the sets too, and skips the positions already done.
-/

namespace Qbitcoin

/-- `ChunkLinearization(depgraph, linearization)`: for each position in turn, its
fee and size start a new chunk, which absorbs the last chunk while it has the
higher feerate (`new_chunk += ret.back()`), and is then pushed. -/
def chunkLinearization (depgraph : DepGraph) (linearization : List Nat) : List FeeFrac :=
  (mergeAdjacent FeeFrac.higherFeerate (· + ·) depgraph.feeRate [] linearization).reverse

/-- `SetInfo`: a set of transactions with their combined fee and size. -/
structure SetInfo where
  transactions : Finset Nat
  feerate : FeeFrac
  deriving DecidableEq

/-- `SetInfo(depgraph, pos)`. -/
def SetInfo.ofPosition (depgraph : DepGraph) (pos : Nat) : SetInfo := ⟨{pos}, depgraph.feeRate pos⟩

/-- `SetInfo::operator|=`. -/
def SetInfo.union (info other : SetInfo) : SetInfo :=
  ⟨info.transactions ∪ other.transactions, info.feerate + other.feerate⟩

/-- `LinearizationChunking`, its graph passed separately: what remains of the
linearization, the chunks of what remains (in the order of `m_chunks`), how many
of them are done, and the positions still to do. -/
structure LinearizationChunking where
  linearization : List Nat
  chunks : List SetInfo
  chunksSkip : Nat
  todo : Finset Nat

/-- `LinearizationChunking::BuildChunks`: the initial part of the
linearization that is already done is chopped off, and the rest absorbed into
the chunks. -/
def buildChunks (depgraph : DepGraph) (chunking : LinearizationChunking) : LinearizationChunking :=
  let linearization := chunking.linearization.dropWhile fun idx => idx ∉ chunking.todo
  let chunks := linearization.foldl (fun chunks idx =>
    if idx ∈ chunking.todo then
      absorbPush (fun add back => FeeFrac.higherFeerate add.feerate back.feerate) SetInfo.union
        (SetInfo.ofPosition depgraph idx) chunks
    else chunks) chunking.chunks.reverse
  { chunking with linearization := linearization, chunks := chunks.reverse }

/-! ## The chunks are the summaries of consecutive segments -/

/-- The fee and size of a segment. -/
def segmentFeerate (depgraph : DepGraph) (segment : List Nat) : FeeFrac := (segment.map depgraph.feeRate).sum

/-- The transactions of a segment with their fee and size. -/
def segmentInfo (depgraph : DepGraph) (segment : List Nat) : SetInfo :=
  ⟨segment.toFinset, segmentFeerate depgraph segment⟩

section Segments

variable (depgraph : DepGraph)

theorem segmentFeerate_append (first second : List Nat) :
    segmentFeerate depgraph (first ++ second) = segmentFeerate depgraph second + segmentFeerate depgraph first := by
  simp [segmentFeerate, add_comm]

theorem segmentInfo_append (first second : List Nat) :
    segmentInfo depgraph (first ++ second) = (segmentInfo depgraph second).union (segmentInfo depgraph first) := by
  simp only [segmentInfo, SetInfo.union, List.toFinset_append, segmentFeerate_append, Finset.union_comm]

@[simp] theorem segmentFeerate_singleton (pos : Nat) : segmentFeerate depgraph [pos] = depgraph.feeRate pos := by
  simp [segmentFeerate]

@[simp] theorem segmentInfo_singleton (pos : Nat) : segmentInfo depgraph [pos] = SetInfo.ofPosition depgraph pos := by
  simp [segmentInfo, SetInfo.ofPosition]

theorem sum_segmentFeerate (segments : List (List Nat)) :
    (segments.map (segmentFeerate depgraph)).sum = (segments.flatten.map depgraph.feeRate).sum := by
  induction segments with
  | nil => rfl
  | cons segment rest inductionHypothesis => simp [segmentFeerate, inductionHypothesis]

end Segments

/-- `ChunkLinearization` cuts the linearization into consecutive non-empty
segments and returns the fee and size of each. -/
theorem chunkLinearization_segments (depgraph : DepGraph) (linearization : List Nat) :
    ∃ segments : List (List Nat), segments.flatten = linearization ∧ (∀ segment ∈ segments, segment ≠ []) ∧
      chunkLinearization depgraph linearization = segments.map (segmentFeerate depgraph) := by
  obtain ⟨pieces, scanned, joined, nonempty⟩ :=
    mergeAdjacent_pieces (segmentFeerate_append depgraph) (segmentFeerate_singleton depgraph) FeeFrac.higherFeerate [] (by simp)
      linearization
  refine ⟨pieces.reverse, by simpa using joined, by simpa using nonempty, ?_⟩
  rw [chunkLinearization, ← List.map_nil (f := segmentFeerate depgraph), scanned, List.map_reverse]

/-- No chunk of `ChunkLinearization` has a higher feerate than the chunk before it. -/
theorem chunkLinearization_settled (depgraph : DepGraph) (linearization : List Nat) :
    (chunkLinearization depgraph linearization).IsChain fun earlier later => FeeFrac.higherFeerate later earlier = false := by
  rw [chunkLinearization, List.isChain_reverse]
  exact mergeAdjacent_settled List.IsChain.nil linearization

/-- A child paying for its parent joins it in one chunk; a cheaper third
transaction stays a chunk of its own. -/
example :
    chunkLinearization ⟨[⟨⟨1, 2⟩, ∅, ∅⟩, ⟨⟨5, 1⟩, ∅, ∅⟩, ⟨⟨1, 1⟩, ∅, ∅⟩], ∅⟩ [0, 1, 2] = [⟨6, 3⟩, ⟨1, 1⟩] := by
  decide

/-- The positions `BuildChunks` scans: those still to do, in order. -/
theorem buildChunks_chunks (depgraph : DepGraph) (chunking : LinearizationChunking) :
    (buildChunks depgraph chunking).chunks =
      (mergeAdjacent (fun add back => FeeFrac.higherFeerate add.feerate back.feerate) SetInfo.union
        (SetInfo.ofPosition depgraph) chunking.chunks.reverse
        (chunking.linearization.filter fun idx => idx ∈ chunking.todo)).reverse := by
  have chopped : ∀ linearization : List Nat,
      (linearization.dropWhile fun idx => idx ∉ chunking.todo).filter (fun idx => idx ∈ chunking.todo) =
        linearization.filter fun idx => idx ∈ chunking.todo := by
    intro linearization
    induction linearization with
    | nil => rfl
    | cons idx rest inductionHypothesis =>
      by_cases done : idx ∈ chunking.todo
      · simp [done]
      · simpa [done] using inductionHypothesis
  simp only [buildChunks, mergeAdjacent, ← chopped chunking.linearization, List.foldl_filter, decide_eq_true_eq]

/-- Started with no chunks, `BuildChunks` finds for the positions still to do the
feerates that `ChunkLinearization` finds. -/
theorem buildChunks_feerates (depgraph : DepGraph) {chunking : LinearizationChunking} (fresh : chunking.chunks = []) :
    (buildChunks depgraph chunking).chunks.map SetInfo.feerate =
      chunkLinearization depgraph (chunking.linearization.filter fun idx => idx ∈ chunking.todo) := by
  rw [buildChunks_chunks, fresh, List.map_reverse, chunkLinearization, List.reverse_nil,
    map_mergeAdjacent FeeFrac.higherFeerate (· + ·) depgraph.feeRate SetInfo.feerate (fun _ _ => rfl) (fun _ _ => rfl)
      (fun _ => rfl), List.map_nil]

end Qbitcoin
