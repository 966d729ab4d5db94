import Qbitcoin.Cluster.FeeFrac

/-!
# Comparing two chunkings

The loop of `CompareChunks` (src/util/feefrac.cpp) sweeps both feerate diagrams
left to right, one chunk end at a time, and the proof that it decides which
diagram lies above the other: the invariant `Sweeps` says what the flags know of
the part of both diagrams already swept.
-/

namespace Qbitcoin

namespace FeeFrac

/-! ## CompareChunks -/

/-- The state of the loop of `CompareChunks`.  The two diagrams are indexed by
a `Bool`, `false` for `chunks0` and `true` for `chunks1`: for each, how many of
its chunks are processed (`next_index`), the point they reach (`accum`), and
whether it was found strictly better somewhere (`better_somewhere`). -/
structure CompareState where
  nextIndex : Bool → Nat
  accum : Bool → FeeFrac
  betterSomewhere : Bool → Bool

namespace CompareState

variable (chunk : Bool → List FeeFrac) (st : CompareState)

/-- `next_point`: the first unprocessed point of a diagram. -/
def nextPoint (dia : Bool) : FeeFrac := (chunk dia).getD (st.nextIndex dia) 0 + st.accum dia

/-- `advance`: move a diagram on to its next point. -/
def advance (dia : Bool) : CompareState :=
  { st with
    accum := Function.update st.accum dia (st.accum dia + (chunk dia).getD (st.nextIndex dia) 0)
    nextIndex := Function.update st.nextIndex dia (st.nextIndex dia + 1) }

/-- `better_somewhere[dia] = true`. -/
def markBetter (dia : Bool) : CompareState :=
  { st with betterSomewhere := Function.update st.betterSomewhere dia true }

/-- `done_0`, `done_1`: every chunk of the diagram is processed. -/
def done (dia : Bool) : Bool := st.nextIndex dia == (chunk dia).length

/-- `unproc_side`: the diagram whose next point comes first, or the one not
finished. -/
def unprocSide : Bool :=
  if st.done chunk false || st.done chunk true then st.done chunk false
  else decide ((st.nextPoint chunk false).size > (st.nextPoint chunk true).size)

/-- `cmp`: the slope from the other diagram's processed point `A` to the next
point `P`, against the slope of the other diagram's next chunk, or against the
horizontal when that diagram is finished. -/
def roundCompare : Ordering :=
  let pointP := st.nextPoint chunk (st.unprocSide chunk)
  let pointA := st.accum (!st.unprocSide chunk)
  if st.done chunk false || st.done chunk true then feeRateCompare (pointP - pointA) ⟨0, 1⟩
  else feeRateCompare (pointP - pointA) (st.nextPoint chunk (!st.unprocSide chunk) - pointA)

/-- Whether the round also processes the other diagram's next point, which it
does when that point has the size of `P`. -/
def advancesOther : Bool :=
  !(st.done chunk false || st.done chunk true) &&
    (st.nextPoint chunk (!st.unprocSide chunk)).size == (st.nextPoint chunk (st.unprocSide chunk)).size

/-- One round of the loop, once some diagram has points left: the other
diagram's point of the same size is processed too, the side found better at
`P` is marked, and `P` is processed. -/
def compareRound : CompareState :=
  let side := st.unprocSide chunk
  let cmp := st.roundCompare chunk
  let st := if st.advancesOther chunk then st.advance chunk (!side) else st
  let st := if cmp == .gt then st.markBetter side else st
  let st := if cmp == .lt then st.markBetter (!side) else st
  st.advance chunk side

@[simp] theorem advance_nextIndex (dia other : Bool) :
    (st.advance chunk dia).nextIndex other = if other = dia then st.nextIndex dia + 1 else st.nextIndex other := by
  by_cases same : other = dia
  · subst same
    simp [advance]
  · simp [advance, same]

@[simp] theorem advance_accum (dia other : Bool) :
    (st.advance chunk dia).accum other =
      if other = dia then st.accum dia + (chunk dia).getD (st.nextIndex dia) 0 else st.accum other := by
  by_cases same : other = dia
  · subst same
    simp [advance]
  · simp [advance, same]

@[simp] theorem advance_betterSomewhere (dia : Bool) :
    (st.advance chunk dia).betterSomewhere = st.betterSomewhere := rfl

@[simp] theorem markBetter_nextIndex (dia : Bool) : (st.markBetter dia).nextIndex = st.nextIndex := rfl

@[simp] theorem markBetter_accum (dia : Bool) : (st.markBetter dia).accum = st.accum := rfl

@[simp] theorem markBetter_betterSomewhere (dia other : Bool) :
    (st.markBetter dia).betterSomewhere other = (other == dia || st.betterSomewhere other) := by
  by_cases same : other = dia
  · subst same
    simp [markBetter]
  · simp [markBetter, same]

end CompareState

open CompareState in
/-- The `do ... while` loop of `CompareChunks`, for `fuel` rounds; every round
processes a point, so the number of chunks is enough.  `none` is `unordered`. -/
def compareChunksLoop (chunk : Bool → List FeeFrac) : Nat → CompareState → Option Ordering
  | 0, st => some (compare (st.betterSomewhere false) (st.betterSomewhere true))
  | fuel + 1, st =>
      if st.done chunk false && st.done chunk true then
        some (compare (st.betterSomewhere false) (st.betterSomewhere true))
      else
        let st := st.compareRound chunk
        if st.betterSomewhere false && st.betterSomewhere true then none
        else compareChunksLoop chunk fuel st

/-- `CompareChunks`: compare the feerate diagrams of two chunk lists, `gt`
when the first is better somewhere and nowhere worse, `none` (`unordered`)
when each is better somewhere. -/
def compareChunks (chunks0 chunks1 : List FeeFrac) : Option Ordering :=
  compareChunksLoop (fun dia => if dia then chunks1 else chunks0) (chunks0.length + chunks1.length)
    ⟨fun _ => 0, fun _ => 0, fun _ => false⟩

/-! ## What the loop computes

Each round compares the first unprocessed point `P` with the segment of the
other diagram that spans it: `cmp` is `gt` exactly when `P` is strictly above
the other diagram and `lt` exactly when strictly below.  Between the furthest
point processed before the round and `P` both diagrams are straight, so a
side strictly above the other anywhere there is so at one of the two ends,
and is marked then or before.  When both diagrams are finished they are flat
from there on, and the flags say exactly which diagram is strictly above the
other somewhere. -/

namespace CompareState

variable {chunk : Bool → List FeeFrac} {st : CompareState}

/-- What holds at the top of every round: each diagram's processed point is
the sum of its processed chunks, and each diagram's next point lies strictly
to the right of the other diagram's processed point. -/
structure Tracks (chunk : Bool → List FeeFrac) (st : CompareState) : Prop where
  nextIndex_le : ∀ dia, st.nextIndex dia ≤ (chunk dia).length
  accum_eq : ∀ dia, st.accum dia = ((chunk dia).take (st.nextIndex dia)).sum
  behind : ∀ dia, st.nextIndex dia < (chunk dia).length → (st.accum (!dia)).size < (st.nextPoint chunk dia).size

theorem done_eq_false_iff (tracks : st.Tracks chunk) {dia : Bool} :
    st.done chunk dia = false ↔ st.nextIndex dia < (chunk dia).length := by
  have bounded := tracks.nextIndex_le dia
  simp only [done, beq_eq_false_iff_ne, ne_eq]
  omega

/-- The next point of a diagram is the sum of its chunks up to the next one. -/
theorem nextPoint_eq {dia : Bool} (accumulated : st.accum dia = ((chunk dia).take (st.nextIndex dia)).sum)
    (inside : st.nextIndex dia < (chunk dia).length) :
    st.nextPoint chunk dia = ((chunk dia).take (st.nextIndex dia + 1)).sum := by
  rw [nextPoint, accumulated, List.getD_eq_getElem _ _ inside, List.sum_take_succ _ _ inside, add_comm]

/-- The unprocessed side has a point left, and it comes no later than the
other side's next point. -/
theorem unprocSide_spec (tracks : st.Tracks chunk) (notDone : (st.done chunk false && st.done chunk true) = false) :
    st.nextIndex (st.unprocSide chunk) < (chunk (st.unprocSide chunk)).length ∧
      (st.done chunk (!st.unprocSide chunk) = false →
        (st.nextPoint chunk (st.unprocSide chunk)).size ≤ (st.nextPoint chunk (!st.unprocSide chunk)).size) := by
  cases done0 : st.done chunk false <;> cases done1 : st.done chunk true
  · by_cases later : (st.nextPoint chunk false).size > (st.nextPoint chunk true).size
    · have side : st.unprocSide chunk = true := by simp [unprocSide, done0, done1, later]
      rw [side]
      exact ⟨(done_eq_false_iff tracks).mp done1, fun _ => later.le⟩
    · have side : st.unprocSide chunk = false := by simp [unprocSide, done0, done1, later]
      rw [side]
      exact ⟨(done_eq_false_iff tracks).mp done0, fun _ => not_lt.mp later⟩
  · have side : st.unprocSide chunk = false := by simp [unprocSide, done0, done1]
    rw [side]
    exact ⟨(done_eq_false_iff tracks).mp done0, fun open1 => absurd open1 (by simp [done1])⟩
  · have side : st.unprocSide chunk = true := by simp [unprocSide, done0, done1]
    rw [side]
    exact ⟨(done_eq_false_iff tracks).mp done1, fun open0 => absurd open0 (by simp [done0])⟩
  · simp [done0, done1] at notDone

theorem done_or_eq (u : Bool) :
    (st.done chunk false || st.done chunk true) = (st.done chunk u || st.done chunk (!u)) := by
  cases u <;> simp [Bool.or_comm]

/-- `cmp` says where the next point `P` lies against the other diagram at
`P`'s size: `gt` when strictly above it, `lt` when strictly below. -/
theorem roundCompare_spec (positive : ∀ dia, ∀ c ∈ chunk dia, 0 < c.size) (tracks : st.Tracks chunk)
    (notDone : (st.done chunk false && st.done chunk true) = false) :
    (st.roundCompare chunk = .gt ↔
        diagram (chunk (!st.unprocSide chunk)) (st.nextPoint chunk (st.unprocSide chunk)).size <
          (st.nextPoint chunk (st.unprocSide chunk)).fee) ∧
      (st.roundCompare chunk = .lt ↔
        ((st.nextPoint chunk (st.unprocSide chunk)).fee : ℚ) <
          diagram (chunk (!st.unprocSide chunk)) (st.nextPoint chunk (st.unprocSide chunk)).size) := by
  obtain ⟨openSide, order⟩ := unprocSide_spec tracks notDone
  have behind := tracks.behind _ openSide
  have bounded := tracks.accum_eq (!st.unprocSide chunk)
  unfold roundCompare
  rw [done_or_eq (st.unprocSide chunk)]
  cases otherDone : st.done chunk (!st.unprocSide chunk)
  · have openOther := (done_eq_false_iff tracks).mp otherDone
    have openHere : st.done chunk (st.unprocSide chunk) = false := (done_eq_false_iff tracks).mpr openSide
    have notLater := order otherDone
    have chunkPos : (0 : ℚ) < (chunk (!st.unprocSide chunk))[st.nextIndex (!st.unprocSide chunk)].size := by
      exact_mod_cast positive _ _ (List.getElem_mem openOther)
    have slopeB : st.nextPoint chunk (!st.unprocSide chunk) - st.accum (!st.unprocSide chunk) =
        (chunk (!st.unprocSide chunk))[st.nextIndex (!st.unprocSide chunk)] := by
      rw [nextPoint, List.getD_eq_getElem _ _ openOther]
      ext <;> simp
    have reachB := nextPoint_eq bounded openOther
    have atP := diagram_eq_of_mem_chunk (positive _) openOther
      (x := (st.nextPoint chunk (st.unprocSide chunk)).size)
      (by rw [← bounded]; exact_mod_cast behind.le) (by rw [← reachB]; exact_mod_cast notLater)
    rw [← bounded] at atP
    simp only [openHere, Bool.or_self, Bool.false_eq_true, if_false, slopeB, feeRateCompare, atP,
      compare_gt_iff_gt, compare_lt_iff_lt, line_lt_iff chunkPos, lt_line_iff chunkPos, fee_sub, size_sub]
    constructor <;> constructor <;> intro comparison <;> exact_mod_cast comparison
  · have whole : st.accum (!st.unprocSide chunk) = (chunk (!st.unprocSide chunk)).sum := by
      have finished : (chunk (!st.unprocSide chunk)).length ≤ st.nextIndex (!st.unprocSide chunk) := by
        simp only [done, beq_iff_eq] at otherDone
        omega
      rw [bounded, List.take_of_length_le finished]
    have atP := diagram_of_sum_le (positive (!st.unprocSide chunk))
      (x := (st.nextPoint chunk (st.unprocSide chunk)).size) (by rw [← whole]; exact_mod_cast behind.le)
    rw [← whole] at atP
    simp only [Bool.or_true, if_true, feeRateCompare, atP, compare_gt_iff_gt, compare_lt_iff_lt, fee_sub,
      size_sub, mul_one, zero_mul]
    constructor <;> constructor <;> intro comparison
    · exact_mod_cast (sub_pos.mp comparison)
    · exact sub_pos.mpr (by exact_mod_cast comparison)
    · exact_mod_cast (sub_neg.mp comparison)
    · exact sub_neg.mpr (by exact_mod_cast comparison)

theorem compareRound_eq :
    st.compareRound chunk =
      ((if st.roundCompare chunk == Ordering.lt then
          (if st.roundCompare chunk == Ordering.gt then
            (if st.advancesOther chunk then st.advance chunk (!st.unprocSide chunk) else st).markBetter (st.unprocSide chunk)
          else (if st.advancesOther chunk then st.advance chunk (!st.unprocSide chunk) else st)).markBetter
            (!st.unprocSide chunk)
        else (if st.roundCompare chunk == Ordering.gt then
            (if st.advancesOther chunk then st.advance chunk (!st.unprocSide chunk) else st).markBetter (st.unprocSide chunk)
          else (if st.advancesOther chunk then st.advance chunk (!st.unprocSide chunk) else st))).advance chunk
        (st.unprocSide chunk)) := rfl

/-- The round moves the unprocessed side one chunk on, and the other side one
chunk on exactly when it processes that side's point too. -/
theorem compareRound_nextIndex (k : Bool) :
    (st.compareRound chunk).nextIndex k =
      if k = st.unprocSide chunk then st.nextIndex k + 1
      else if st.advancesOther chunk then st.nextIndex k + 1 else st.nextIndex k := by
  rw [compareRound_eq]
  by_cases here : k = st.unprocSide chunk
  · subst here
    split_ifs <;> simp_all
  · have other : k = !st.unprocSide chunk := Bool.eq_not_iff.mpr here
    split_ifs <;> simp [other]

theorem compareRound_accum (k : Bool) :
    (st.compareRound chunk).accum k =
      if k = st.unprocSide chunk then st.accum k + (chunk k).getD (st.nextIndex k) 0
      else if st.advancesOther chunk then st.accum k + (chunk k).getD (st.nextIndex k) 0 else st.accum k := by
  rw [compareRound_eq]
  by_cases here : k = st.unprocSide chunk
  · subst here
    split_ifs <;> simp_all
  · have other : k = !st.unprocSide chunk := Bool.eq_not_iff.mpr here
    split_ifs <;> simp [other]

/-- The round marks the unprocessed side when `P` is above the other
diagram, and the other side when `P` is below it. -/
theorem compareRound_betterSomewhere (k : Bool) :
    (st.compareRound chunk).betterSomewhere k =
      (st.betterSomewhere k || (k == st.unprocSide chunk && st.roundCompare chunk == Ordering.gt) ||
        (k == !st.unprocSide chunk && st.roundCompare chunk == Ordering.lt)) := by
  rw [compareRound_eq]
  cases k <;> cases st.unprocSide chunk <;> cases st.roundCompare chunk <;> split_ifs <;> simp_all

theorem accum_add_getD {dia : Bool} (accumulated : st.accum dia = ((chunk dia).take (st.nextIndex dia)).sum)
    (inside : st.nextIndex dia < (chunk dia).length) :
    st.accum dia + (chunk dia).getD (st.nextIndex dia) 0 = ((chunk dia).take (st.nextIndex dia + 1)).sum := by
  rw [add_comm, ← nextPoint, nextPoint_eq accumulated inside]

/-- The round keeps `Tracks`: the processed points stay sums of processed
chunks, and after `P` is processed both next points lie right of it. -/
theorem compareRound_tracks (positive : ∀ dia, ∀ c ∈ chunk dia, 0 < c.size) (tracks : st.Tracks chunk)
    (notDone : (st.done chunk false && st.done chunk true) = false) : (st.compareRound chunk).Tracks chunk := by
  obtain ⟨openSide, order⟩ := unprocSide_spec tracks notDone
  have behind := tracks.behind _ openSide
  have reachP := nextPoint_eq (tracks.accum_eq _) openSide
  have otherOpen : st.advancesOther chunk = true →
      st.nextIndex (!st.unprocSide chunk) < (chunk (!st.unprocSide chunk)).length ∧
        (st.nextPoint chunk (!st.unprocSide chunk)).size = (st.nextPoint chunk (st.unprocSide chunk)).size := by
    intro advanced
    simp only [advancesOther, Bool.and_eq_true, Bool.not_eq_true', beq_iff_eq] at advanced
    rw [done_or_eq (st.unprocSide chunk), Bool.or_eq_false_iff] at advanced
    exact ⟨(done_eq_false_iff tracks).mp advanced.1.2, advanced.2⟩
  have otherAhead : st.advancesOther chunk = false →
      st.nextIndex (!st.unprocSide chunk) < (chunk (!st.unprocSide chunk)).length →
        (st.nextPoint chunk (st.unprocSide chunk)).size < (st.nextPoint chunk (!st.unprocSide chunk)).size := by
    intro stays otherInside
    have otherNotDone := (done_eq_false_iff tracks).mpr otherInside
    have hereNotDone := (done_eq_false_iff tracks).mpr openSide
    have different : (st.nextPoint chunk (!st.unprocSide chunk)).size ≠ (st.nextPoint chunk (st.unprocSide chunk)).size := by
      simpa [advancesOther, done_or_eq (st.unprocSide chunk), hereNotDone, otherNotDone] using stays
    exact lt_of_le_of_ne (order otherNotDone) (Ne.symm different)
  have indexLe : ∀ k, (st.compareRound chunk).nextIndex k ≤ (chunk k).length := by
    intro k
    rw [compareRound_nextIndex]
    by_cases here : k = st.unprocSide chunk
    · rw [if_pos here, here]
      exact openSide
    · rw [if_neg here, Bool.eq_not_iff.mpr here]
      split_ifs with advanced
      · exact (otherOpen advanced).1
      · exact tracks.nextIndex_le _
  have accumEq : ∀ k, (st.compareRound chunk).accum k = ((chunk k).take ((st.compareRound chunk).nextIndex k)).sum := by
    intro k
    rw [compareRound_accum, compareRound_nextIndex]
    by_cases here : k = st.unprocSide chunk
    · rw [if_pos here, if_pos here, here]
      exact accum_add_getD (tracks.accum_eq _) openSide
    · rw [if_neg here, if_neg here, Bool.eq_not_iff.mpr here]
      split_ifs with advanced
      · exact accum_add_getD (tracks.accum_eq _) (otherOpen advanced).1
      · exact tracks.accum_eq _
  refine ⟨indexLe, accumEq, fun k inside => ?_⟩
  rw [nextPoint_eq (accumEq k) inside, accumEq (!k)]
  rw [compareRound_nextIndex] at inside
  by_cases here : k = st.unprocSide chunk
  · subst here
    rw [if_pos rfl] at inside
    have further := size_sum_take_lt (positive _) inside
    rw [compareRound_nextIndex, compareRound_nextIndex, if_pos rfl, if_neg (by simp)]
    rw [← reachP] at further
    split_ifs with advanced
    · rw [← nextPoint_eq (tracks.accum_eq _) (otherOpen advanced).1, (otherOpen advanced).2]
      exact further
    · rw [← tracks.accum_eq]
      exact lt_trans behind further
  · have other := Bool.eq_not_iff.mpr here
    rw [if_neg here] at inside
    rw [compareRound_nextIndex, compareRound_nextIndex, if_neg here, other, Bool.not_not, if_pos rfl, ← reachP]
    rw [other] at inside
    split_ifs at inside ⊢ with advanced
    · have further := size_sum_take_lt (positive _) inside
      rw [← nextPoint_eq (tracks.accum_eq _) (otherOpen advanced).1, (otherOpen advanced).2] at further
      exact further
    · rw [← nextPoint_eq (tracks.accum_eq _) inside]
      exact otherAhead (by simpa using advanced) inside

/-- The furthest point processed so far, on either diagram. -/
def frontier (state : CompareState) : Int := max (state.accum false).size (state.accum true).size

theorem frontier_le_iff {state : CompareState} {bound : Int} :
    frontier state ≤ bound ↔ ∀ k, (state.accum k).size ≤ bound := by
  constructor
  · intro below k
    cases k
    · exact le_trans (le_max_left _ _) below
    · exact le_trans (le_max_right _ _) below
  · intro below
    exact max_le (below false) (below true)

theorem accum_size_le_frontier (state : CompareState) (k : Bool) : (state.accum k).size ≤ frontier state :=
  frontier_le_iff.mp le_rfl k

/-- After the round, the furthest processed point is `P`. -/
theorem frontier_compareRound (tracks : st.Tracks chunk)
    (notDone : (st.done chunk false && st.done chunk true) = false) :
    frontier (st.compareRound chunk) = (st.nextPoint chunk (st.unprocSide chunk)).size := by
  obtain ⟨openSide, _⟩ := unprocSide_spec tracks notDone
  have behind := tracks.behind _ openSide
  have reachedP : (st.compareRound chunk).accum (st.unprocSide chunk) = st.nextPoint chunk (st.unprocSide chunk) := by
    rw [compareRound_accum, if_pos rfl, accum_add_getD (tracks.accum_eq _) openSide,
      nextPoint_eq (tracks.accum_eq _) openSide]
  apply le_antisymm
  · apply frontier_le_iff.mpr
    intro k
    by_cases here : k = st.unprocSide chunk
    · rw [here, reachedP]
    · rw [compareRound_accum, if_neg here, Bool.eq_not_iff.mpr here]
      split_ifs with advanced
      · simp only [advancesOther, Bool.and_eq_true, beq_iff_eq] at advanced
        rw [add_comm, ← nextPoint, advanced.2]
      · exact behind.le
  · rw [← reachedP]
    exact accum_size_le_frontier _ _

/-- Between the furthest processed point and `P`, each diagram is a line. -/
theorem affine_before_nextPoint (positive : ∀ dia, ∀ c ∈ chunk dia, 0 < c.size) (tracks : st.Tracks chunk)
    (notDone : (st.done chunk false && st.done chunk true) = false) (k : Bool) :
    ∃ base slope : ℚ, ∀ y : ℚ, (frontier st : ℚ) ≤ y → y ≤ (st.nextPoint chunk (st.unprocSide chunk)).size →
      diagram (chunk k) y = base + slope * y := by
  obtain ⟨openSide, order⟩ := unprocSide_spec tracks notDone
  have started : ∀ y : ℚ, (frontier st : ℚ) ≤ y → ((st.accum k).size : ℚ) ≤ y :=
    fun y after => le_trans (by exact_mod_cast accum_size_le_frontier st k) after
  have onChunk : st.nextIndex k < (chunk k).length →
      (st.nextPoint chunk (st.unprocSide chunk)).size ≤ (st.nextPoint chunk k).size →
      ∃ base slope : ℚ, ∀ y : ℚ, (frontier st : ℚ) ≤ y → y ≤ (st.nextPoint chunk (st.unprocSide chunk)).size →
        diagram (chunk k) y = base + slope * y := by
    intro inside notLater
    refine ⟨(st.accum k).fee - (chunk k)[st.nextIndex k].fee / (chunk k)[st.nextIndex k].size * (st.accum k).size,
      (chunk k)[st.nextIndex k].fee / (chunk k)[st.nextIndex k].size, fun y after before => ?_⟩
    have finish : y ≤ ((chunk k).take (st.nextIndex k + 1)).sum.size := by
      rw [← nextPoint_eq (tracks.accum_eq k) inside]
      exact le_trans before (by exact_mod_cast notLater)
    rw [diagram_eq_of_mem_chunk (positive k) inside (by rw [← tracks.accum_eq k]; exact started y after) finish,
      ← tracks.accum_eq k]
    ring
  by_cases here : k = st.unprocSide chunk
  · subst here
    exact onChunk openSide le_rfl
  · have other := Bool.eq_not_iff.mpr here
    subst other
    cases otherDone : st.done chunk (!st.unprocSide chunk)
    · exact onChunk ((done_eq_false_iff tracks).mp otherDone) (order otherDone)
    · have finished : (chunk (!st.unprocSide chunk)).length ≤ st.nextIndex (!st.unprocSide chunk) := by
        simp only [done, beq_iff_eq] at otherDone
        omega
      have whole : st.accum (!st.unprocSide chunk) = (chunk (!st.unprocSide chunk)).sum := by
        rw [tracks.accum_eq _, List.take_of_length_le finished]
      refine ⟨(chunk (!st.unprocSide chunk)).sum.fee, 0, fun y after _ => ?_⟩
      rw [diagram_of_sum_le (positive _) (by rw [← whole]; exact started y after)]
      ring

theorem frontier_nonneg (positive : ∀ dia, ∀ c ∈ chunk dia, 0 < c.size) (tracks : st.Tracks chunk) :
    0 ≤ frontier st := by
  rw [frontier, tracks.accum_eq false]
  exact le_max_of_le_left (size_sum_nonneg fun c member => positive false c (List.mem_of_mem_take member))

/-- The loop's invariant: `Tracks`; a side marked better is strictly above the
other diagram somewhere; and wherever, up to the furthest processed point, a
side is strictly above the other, that side is marked. -/
structure Sweeps (chunk : Bool → List FeeFrac) (st : CompareState) : Prop where
  tracks : st.Tracks chunk
  sound : ∀ k, st.betterSomewhere k = true → ∃ x : ℚ, 0 ≤ x ∧ diagram (chunk (!k)) x < diagram (chunk k) x
  complete : ∀ k (x : ℚ), 0 ≤ x → x ≤ frontier st → diagram (chunk (!k)) x < diagram (chunk k) x →
    st.betterSomewhere k = true

/-- A round keeps the invariant.  A side newly above the other between the
old furthest point and `P` is above at one of the two ends, since both
diagrams are lines there: at the old end it was marked before, at `P` the
round marks it. -/
theorem compareRound_sweeps (positive : ∀ dia, ∀ c ∈ chunk dia, 0 < c.size) (sweeps : st.Sweeps chunk)
    (notDone : (st.done chunk false && st.done chunk true) = false) : (st.compareRound chunk).Sweeps chunk := by
  have tracks := sweeps.tracks
  obtain ⟨openSide, _⟩ := unprocSide_spec tracks notDone
  obtain ⟨aboveIff, belowIff⟩ := roundCompare_spec positive tracks notDone
  have reachP := nextPoint_eq (tracks.accum_eq _) openSide
  have atP : diagram (chunk (st.unprocSide chunk)) (st.nextPoint chunk (st.unprocSide chunk)).size =
      (st.nextPoint chunk (st.unprocSide chunk)).fee := by
    rw [reachP]
    exact diagram_sum_take (positive _) openSide
  have pointNonneg : (0 : ℚ) ≤ (st.nextPoint chunk (st.unprocSide chunk)).size := by
    rw [reachP]
    exact_mod_cast size_sum_nonneg fun c member => positive _ c (List.mem_of_mem_take member)
  refine ⟨compareRound_tracks positive tracks notDone, fun k marked => ?_, fun k x nonneg within above => ?_⟩
  · rw [compareRound_betterSomewhere] at marked
    simp only [Bool.or_eq_true, Bool.and_eq_true, beq_iff_eq] at marked
    rcases marked with (old | ⟨here, gt⟩) | ⟨there, lt⟩
    · exact sweeps.sound k old
    · subst here
      exact ⟨_, pointNonneg, by rw [atP]; exact aboveIff.mp gt⟩
    · subst there
      exact ⟨_, pointNonneg, by rw [Bool.not_not, atP]; exact belowIff.mp lt⟩
  · rw [frontier_compareRound tracks notDone] at within
    rw [compareRound_betterSomewhere]
    by_cases early : x ≤ frontier st
    · simp [sweeps.complete k x nonneg early above]
    · have fromFrontier : (frontier st : ℚ) ≤ x := le_of_lt (not_le.mp early)
      obtain ⟨baseHere, slopeHere, lineHere⟩ := affine_before_nextPoint positive tracks notDone k
      obtain ⟨baseThere, slopeThere, lineThere⟩ := affine_before_nextPoint positive tracks notDone (!k)
      have gap : ∀ y : ℚ, (frontier st : ℚ) ≤ y → y ≤ (st.nextPoint chunk (st.unprocSide chunk)).size →
          diagram (chunk k) y - diagram (chunk (!k)) y =
            (baseHere - baseThere) + (slopeHere - slopeThere) * y := by
        intro y after before
        rw [lineHere y after before, lineThere y after before]
        ring
      have endpoints := pos_at_end_of_line fromFrontier within
        (by rw [← gap x fromFrontier within]; linarith)
      rcases endpoints with atFrontier | atPoint
      · rw [← gap _ le_rfl (le_trans fromFrontier within)] at atFrontier
        have marked := sweeps.complete k _ (by exact_mod_cast frontier_nonneg positive tracks) le_rfl
          (by linarith)
        simp [marked]
      · rw [← gap _ (le_trans fromFrontier within) le_rfl] at atPoint
        by_cases here : k = st.unprocSide chunk
        · subst here
          rw [atP] at atPoint
          simp [aboveIff.mpr (by linarith)]
        · have there := Bool.eq_not_iff.mpr here
          subst there
          rw [Bool.not_not, atP] at atPoint
          simp [belowIff.mpr (by linarith)]

/-- The number of chunks the loop has still to process. -/
def remaining (chunk : Bool → List FeeFrac) (state : CompareState) : Nat :=
  ((chunk false).length - state.nextIndex false) + ((chunk true).length - state.nextIndex true)

theorem remaining_compareRound_lt (tracks : st.Tracks chunk)
    (notDone : (st.done chunk false && st.done chunk true) = false) :
    remaining chunk (st.compareRound chunk) < remaining chunk st := by
  obtain ⟨openSide, _⟩ := unprocSide_spec tracks notDone
  have bounded0 := tracks.nextIndex_le false
  have bounded1 := tracks.nextIndex_le true
  unfold remaining
  rw [compareRound_nextIndex, compareRound_nextIndex]
  cases side : st.unprocSide chunk <;> rw [side] at openSide <;>
    simp only [Bool.false_eq_true, Bool.true_eq_false, if_true, if_false] <;> split_ifs <;> omega

/-- Once both diagrams are finished, a side is marked exactly when its
diagram is strictly above the other somewhere: past the furthest point both
diagrams are flat. -/
theorem betterSomewhere_iff_of_done (positive : ∀ dia, ∀ c ∈ chunk dia, 0 < c.size) (sweeps : st.Sweeps chunk)
    (finished : (st.done chunk false && st.done chunk true) = true) (k : Bool) :
    st.betterSomewhere k = true ↔ ∃ x : ℚ, 0 ≤ x ∧ diagram (chunk (!k)) x < diagram (chunk k) x := by
  refine ⟨sweeps.sound k, fun ⟨x, nonneg, above⟩ => ?_⟩
  have whole : ∀ dia, st.accum dia = (chunk dia).sum := by
    intro dia
    have doneHere : st.done chunk dia = true := by
      cases dia <;> simp_all
    have reached : (chunk dia).length ≤ st.nextIndex dia := by
      simp only [done, beq_iff_eq] at doneHere
      omega
    rw [sweeps.tracks.accum_eq, List.take_of_length_le reached]
  have flat : ∀ dia (y : ℚ), (frontier st : ℚ) ≤ y → diagram (chunk dia) y = (chunk dia).sum.fee := by
    intro dia y beyond
    apply diagram_of_sum_le (positive dia)
    rw [← whole dia]
    exact le_trans (by exact_mod_cast accum_size_le_frontier st dia) beyond
  by_cases early : x ≤ frontier st
  · exact sweeps.complete k x nonneg early above
  · have beyond : (frontier st : ℚ) ≤ x := le_of_lt (not_le.mp early)
    rw [flat _ x beyond, flat _ x beyond] at above
    exact sweeps.complete k _ (by exact_mod_cast frontier_nonneg positive sweeps.tracks) le_rfl
      (by rw [flat _ _ le_rfl, flat _ _ le_rfl]; exact above)

end CompareState

/-- The reference comparison from which diagram is strictly above the other
somewhere: `none` when both are. -/
def compareFromAbove (above0 above1 : Bool) : Option Ordering :=
  if above0 && above1 then none else some (compare above0 above1)

/-- The diagram of `upper` is strictly above that of `lower` at some size. -/
def AboveSomewhere (upper lower : List FeeFrac) : Prop := ∃ x : ℚ, 0 ≤ x ∧ diagram lower x < diagram upper x

open Classical in
/-- The reference comparison of two feerate diagrams, each extended
horizontally: greater when the first is strictly above somewhere and nowhere
below, unordered (`none`) when each is strictly above the other somewhere. -/
noncomputable def diagramCompare (chunks0 chunks1 : List FeeFrac) : Option Ordering :=
  compareFromAbove (decide (AboveSomewhere chunks0 chunks1)) (decide (AboveSomewhere chunks1 chunks0))

open CompareState

open Classical in
/-- What the loop returns, from any state satisfying the invariant, with
enough fuel and not both sides marked yet: the reference comparison. -/
theorem compareChunksLoop_eq {chunk : Bool → List FeeFrac} (positive : ∀ dia, ∀ c ∈ chunk dia, 0 < c.size) :
    ∀ (fuel : Nat) (st : CompareState), st.Sweeps chunk → remaining chunk st ≤ fuel →
      (st.betterSomewhere false && st.betterSomewhere true) = false →
      compareChunksLoop chunk fuel st = diagramCompare (chunk false) (chunk true) := by
  have flagsAtEnd : ∀ st : CompareState, st.Sweeps chunk → (st.done chunk false && st.done chunk true) = true →
      st.betterSomewhere false = decide (AboveSomewhere (chunk false) (chunk true)) ∧
        st.betterSomewhere true = decide (AboveSomewhere (chunk true) (chunk false)) := by
    intro st sweeps finished
    have first := betterSomewhere_iff_of_done positive sweeps finished false
    have second := betterSomewhere_iff_of_done positive sweeps finished true
    constructor
    · rw [Bool.eq_iff_iff, decide_eq_true_iff]
      exact first
    · rw [Bool.eq_iff_iff, decide_eq_true_iff]
      exact second
  have atEnd : ∀ st : CompareState, st.Sweeps chunk → (st.done chunk false && st.done chunk true) = true →
      (st.betterSomewhere false && st.betterSomewhere true) = false →
      some (compare (st.betterSomewhere false) (st.betterSomewhere true)) = diagramCompare (chunk false) (chunk true) := by
    intro st sweeps finished notBoth
    obtain ⟨first, second⟩ := flagsAtEnd st sweeps finished
    rw [diagramCompare, compareFromAbove, ← first, ← second, if_neg (by simp [notBoth])]
  intro fuel
  induction fuel with
  | zero =>
      intro st sweeps few notBoth
      have finished : (st.done chunk false && st.done chunk true) = true := by
        have bounded0 := sweeps.tracks.nextIndex_le false
        have bounded1 := sweeps.tracks.nextIndex_le true
        simp only [remaining, Nat.le_zero, Nat.add_eq_zero_iff] at few
        simp only [done, Bool.and_eq_true, beq_iff_eq]
        omega
      rw [compareChunksLoop]
      exact atEnd st sweeps finished notBoth
  | succ fuel inductionHypothesis =>
      intro st sweeps few notBoth
      rw [compareChunksLoop]
      split_ifs with finished
      · exact atEnd st sweeps finished notBoth
      · have open_ : (st.done chunk false && st.done chunk true) = false := by simpa using finished
        have next := compareRound_sweeps positive sweeps open_
        have fewer := remaining_compareRound_lt sweeps.tracks open_
        dsimp only
        split_ifs with both
        · have above0 := next.sound false (by simp_all)
          have above1 := next.sound true (by simp_all)
          simp only [Bool.not_false, Bool.not_true] at above0 above1
          have first : AboveSomewhere (chunk false) (chunk true) := above0
          have second : AboveSomewhere (chunk true) (chunk false) := above1
          rw [diagramCompare, compareFromAbove, decide_eq_true first, decide_eq_true second]
          rfl
        · exact inductionHypothesis _ next (by omega) (by simpa using both)

/-- `CompareChunks` is the reference comparison of the two diagrams, for
chunks of positive size. -/
theorem compareChunks_eq_diagramCompare {chunks0 chunks1 : List FeeFrac} (positive0 : ∀ c ∈ chunks0, 0 < c.size)
    (positive1 : ∀ c ∈ chunks1, 0 < c.size) : compareChunks chunks0 chunks1 = diagramCompare chunks0 chunks1 := by
  have positive : ∀ dia : Bool, ∀ c ∈ (if dia then chunks1 else chunks0), 0 < c.size := by
    intro dia
    cases dia
    · exact positive0
    · exact positive1
  apply compareChunksLoop_eq positive
  · refine ⟨⟨fun _ => Nat.zero_le _, fun _ => by simp, fun dia inside => ?_⟩, fun _ marked => by simp at marked,
      fun k x nonneg within above => ?_⟩
    · have first := positive dia _ (List.getElem_mem inside)
      simp only [nextPoint, List.getD_eq_getElem _ _ inside]
      simpa using first
    · have atOrigin : x = 0 := le_antisymm (by simpa [CompareState.frontier] using within) nonneg
      rw [atOrigin, diagram_zero (positive _), diagram_zero (positive _)] at above
      exact absurd above (lt_irrefl 0)
  · simp [remaining]
  · rfl

theorem compareFromAbove_ge_iff (above0 above1 : Bool) :
    (compareFromAbove above0 above1 = some .gt ∨ compareFromAbove above0 above1 = some .eq) ↔ above1 = false := by
  cases above0 <;> cases above1 <;> decide

theorem compareFromAbove_eq_none_iff (above0 above1 : Bool) :
    compareFromAbove above0 above1 = none ↔ above0 = true ∧ above1 = true := by
  cases above0 <;> cases above1 <;> decide

theorem compareFromAbove_swap (above0 above1 : Bool) :
    compareFromAbove above1 above0 = (compareFromAbove above0 above1).map Ordering.swap := by
  cases above0 <;> cases above1 <;> decide

end FeeFrac

end Qbitcoin
