import Qbitcoin.Chain.MedianTime

/-!
# BIP9 version bits

`AbstractThresholdConditionChecker::GetStateFor` and `GetStateSinceHeightFor`
(`versionbits.cpp`) over the block index of `Chain/SkipList.lean`, with the
`ThresholdConditionCache` the calls share, and the state BIP9 gives a block: a
recursion over the periods from the genesis block (`bip9State`).

`GetStateFor` walks back a period at a time until the cache knows the state or
the period ended before the start time, then forward, caching each state it
computes.  The cache is keyed by pointer and shared by every branch of the
index.  Every state it holds is BIP9's (`CacheSound`), and each call keeps it
so, whatever earlier calls filled.  The early stop of the walk back is sound
because the median time past never drops along a chain
(`Chain/MedianTime.lean`).

The loops of the model run on fuel; each theorem gives fuel enough for the
walk to end by its own test.
-/

namespace Qbitcoin

/-- `ThresholdState`. -/
inductive ThresholdState where
  | DEFINED
  | STARTED
  | LOCKED_IN
  | ACTIVE
  | FAILED
  deriving DecidableEq, Repr

/-- `BIP9Deployment::ALWAYS_ACTIVE`, the start time of a deployment active
everywhere. -/
def ALWAYS_ACTIVE : Int := -1

/-- `BIP9Deployment::NEVER_ACTIVE`, the start time of a deployment never
active. -/
def NEVER_ACTIVE : Int := -2

/-- An `AbstractThresholdConditionChecker`: what its virtual methods return,
`Condition` of each block of the index and the deployment's parameters.  A
period has at least one block. -/
structure ThresholdConditionChecker (Id : Type) where
  condition : Id → Bool
  beginTime : Int
  endTime : Int
  minActivationHeight : Int
  period : Nat
  threshold : Nat
  period_pos : 0 < period

/-- `ThresholdConditionCache`: the state of the period after each key, which
is `nullptr` or the last block of a period. -/
abbrev ThresholdConditionCache (Id : Type) := Option Id → Option ThresholdState

namespace ThresholdConditionChecker

open BlockMap

variable {Id : Type} (checker : ThresholdConditionChecker Id) (blocks : BlockMap Id) (blockTime : Id → Int)

/-- A deployment with a real start time, neither `ALWAYS_ACTIVE` nor
`NEVER_ACTIVE`. -/
def Ordinary : Prop := checker.beginTime ≠ ALWAYS_ACTIVE ∧ checker.beginTime ≠ NEVER_ACTIVE

/-! ## The C++ -/

/-- The counting loop of the `STARTED` case, `for (int i = 0; i < nPeriod; i++)`:
`count` plus how many of the `n` blocks from `pindexCount` back satisfy
`Condition`. -/
def countLoop : Nat → Option Id → Nat → Except String Nat
  | 0, _, count => pure count
  | _ + 1, none, _ => throw "invalid pointer"
  | n + 1, some pindexCount, count =>
      match blocks pindexCount with
      | none => throw "invalid pointer"
      | some entry => countLoop n entry.pprev (if checker.condition pindexCount then count + 1 else count)

/-- The `switch (state)` of the walk forward: the state after the period that
ends at `pindexPrev`, from the state of that period.  Activation waits for
`min_activation_height`. -/
def nextState (state : ThresholdState) (pindexPrev : Id) (entry : SkipEntry Id) : Except String ThresholdState :=
  match state with
  | .DEFINED =>
      pure (if getMedianTimePast blocks blockTime pindexPrev ≥ checker.beginTime then .STARTED else .DEFINED)
  | .STARTED => do
      let count ← countLoop checker blocks checker.period (some pindexPrev) 0
      pure (if count ≥ checker.threshold then .LOCKED_IN
        else if getMedianTimePast blocks blockTime pindexPrev ≥ checker.endTime then .FAILED
        else .STARTED)
  | .LOCKED_IN =>
      pure (if (entry.nHeight : Int) + 1 ≥ checker.minActivationHeight then .ACTIVE else .LOCKED_IN)
  | .FAILED => pure .FAILED
  | .ACTIVE => pure .ACTIVE

/-- The walk forward, `while (!vToCompute.empty())`: `vToCompute` is listed from
its back, the oldest pending block first; each block's state is computed from
the one before and cached. -/
def walkForward [DecidableEq Id] (cache : ThresholdConditionCache Id) (state : ThresholdState) :
    List Id → Except String (ThresholdConditionCache Id × ThresholdState)
  | [] => pure (cache, state)
  | pindexPrev :: vToCompute =>
      match blocks pindexPrev with
      | none => throw "invalid pointer"
      | some entry => do
          let stateNext ← nextState checker blocks blockTime state pindexPrev entry
          walkForward (Function.update cache (some pindexPrev) (some stateNext)) stateNext vToCompute

/-- The walk back, `while (cache.count(pindexPrev) == 0)`, for at most `fuel`
rounds: a period at a time, until the cache knows the state, the walk passes
the genesis block, or the period ended before the start time, which is cached
as `DEFINED`.  The blocks passed are pushed on `vToCompute`. -/
def walkBack [DecidableEq Id] : Nat → ThresholdConditionCache Id → Option Id → List Id →
    Except String (ThresholdConditionCache Id × Option Id × List Id)
  | 0, cache, pindexPrev, vToCompute => pure (cache, pindexPrev, vToCompute)
  | fuel + 1, cache, pindexPrev, vToCompute =>
      if (cache pindexPrev).isSome then pure (cache, pindexPrev, vToCompute)
      else
        match pindexPrev with
        | none => pure (Function.update cache none (some .DEFINED), none, vToCompute)
        | some p =>
            match blocks p with
            | none => throw "invalid pointer"
            | some entry =>
                if getMedianTimePast blocks blockTime p < checker.beginTime then
                  pure (Function.update cache (some p) (some .DEFINED), some p, vToCompute)
                else do
                  let pindexPrev ← getAncestor blocks p ((entry.nHeight : Int) - checker.period)
                  walkBack fuel cache pindexPrev (p :: vToCompute)

/-- The last block of the period before the block after `pindexPrev`, whose
state every block of that period shares, with as many rounds as the walk back
from it can need. -/
def periodStart : Option Id → Except String (Option Id × Nat)
  | none => pure (none, 1)
  | some p =>
      match blocks p with
      | none => throw "invalid pointer"
      | some entry => do
          let pindexPrev ← getAncestor blocks p ((entry.nHeight : Int) - ((entry.nHeight + 1) % checker.period : Nat))
          pure (pindexPrev, entry.nHeight + 2)

/-- The walk back from the last block of a period, for at most `rounds`
rounds, then forward from the state the cache knows: the state of the next
period, and the cache as the walks leave it. -/
def walkBackAndForward [DecidableEq Id] (cache : ThresholdConditionCache Id) (pindexPrev : Option Id) (rounds : Nat) :
    Except String (ThresholdState × ThresholdConditionCache Id) := do
  let (cache, pindexPrev, vToCompute) ← walkBack checker blocks blockTime rounds cache pindexPrev []
  match cache pindexPrev with
  | none => throw "assert(cache.count(pindexPrev))"
  | some state => do
      let (cache, state) ← walkForward checker blocks blockTime cache state vToCompute
      pure (state, cache)

/-- `GetStateFor`: the state of the block after `pindexPrev`, and the cache as
the call leaves it. -/
def getStateFor [DecidableEq Id] (cache : ThresholdConditionCache Id) (pindexPrev : Option Id) :
    Except String (ThresholdState × ThresholdConditionCache Id) :=
  if checker.beginTime = ALWAYS_ACTIVE then pure (.ACTIVE, cache)
  else if checker.beginTime = NEVER_ACTIVE then pure (.FAILED, cache)
  else do
    let (pindexPrev, rounds) ← periodStart checker blocks pindexPrev
    walkBackAndForward checker blocks blockTime cache pindexPrev rounds

/-- The loop of `GetStateSinceHeightFor`,
`while (previousPeriodParent != nullptr && GetStateFor(previousPeriodParent, cache) == initialState)`,
for at most `fuel` rounds: back a period at a time while the period before has
the same state, ending at the last block of the period before the earliest. -/
def sinceLoop [DecidableEq Id] (initialState : ThresholdState) :
    Nat → ThresholdConditionCache Id → Id → Option Id → Except String (Id × ThresholdConditionCache Id)
  | 0, cache, pindexPrev, _ => pure (pindexPrev, cache)
  | _ + 1, cache, pindexPrev, none => pure (pindexPrev, cache)
  | fuel + 1, cache, pindexPrev, some previousPeriodParent => do
      let (state, cache) ← getStateFor checker blocks blockTime cache (some previousPeriodParent)
      if state = initialState then
        match blocks previousPeriodParent with
        | none => throw "invalid pointer"
        | some entry => do
            let next ← getAncestor blocks previousPeriodParent ((entry.nHeight : Int) - checker.period)
            sinceLoop initialState fuel cache previousPeriodParent next
      else pure (pindexPrev, cache)

/-- `GetStateSinceHeightFor`: the height from which the blocks have the state
of the block after `pindexPrev`, and the cache as the call leaves it.  The
C++ `Assert`s that the period before has a last block, which holds unless the
state is `DEFINED`. -/
def getStateSinceHeightFor [DecidableEq Id] (cache : ThresholdConditionCache Id) (pindexPrev : Option Id) :
    Except String (Int × ThresholdConditionCache Id) :=
  if checker.beginTime = ALWAYS_ACTIVE ∨ checker.beginTime = NEVER_ACTIVE then pure (0, cache)
  else do
    let (initialState, cache) ← getStateFor checker blocks blockTime cache pindexPrev
    if initialState = .DEFINED then pure (0, cache)
    else do
      let (start, _) ← periodStart checker blocks pindexPrev
      match start with
      | none => throw "Assert(pindexPrev)"
      | some pindexPrev =>
          match blocks pindexPrev with
          | none => throw "invalid pointer"
          | some entry => do
              let previousPeriodParent ← getAncestor blocks pindexPrev ((entry.nHeight : Int) - checker.period)
              let (pindexPrev, cache) ←
                sinceLoop checker blocks blockTime initialState (entry.nHeight + 1) cache pindexPrev previousPeriodParent
              match blocks pindexPrev with
              | none => throw "invalid pointer"
              | some entry => pure ((entry.nHeight : Int) + 1, cache)

/-! ## What BIP9 says -/

/-- How many of the `period` blocks ending at `pindexPrev` satisfy `Condition`. -/
def conditionCount (pindexPrev : Id) : Nat :=
  ((List.range checker.period).filterMap fun i => followPrev blocks i pindexPrev).countP checker.condition

/-- BIP9's transition at the end of a period, from the state of the period,
with the median time past of its last block, how many of its blocks signal,
and the height of the block after it. -/
def bip9Transition (state : ThresholdState) (medianTimePast : Int) (count nextHeight : Nat) : ThresholdState :=
  match state with
  | .DEFINED => if medianTimePast ≥ checker.beginTime then .STARTED else .DEFINED
  | .STARTED =>
      if count ≥ checker.threshold then .LOCKED_IN
      else if medianTimePast ≥ checker.endTime then .FAILED
      else .STARTED
  | .LOCKED_IN => if (nextHeight : Int) ≥ checker.minActivationHeight then .ACTIVE else .LOCKED_IN
  | .ACTIVE => .ACTIVE
  | .FAILED => .FAILED

/-- The state BIP9 gives the period after `boundary`, the last block of the
`k`-th period (height `k * period - 1`); `nullptr` comes before the first. -/
def periodState : Nat → Option Id → ThresholdState
  | 0, _ => .DEFINED
  | _ + 1, none => .DEFINED
  | k + 1, some boundary =>
      bip9Transition checker (periodState k (followPrev blocks checker.period boundary))
        (getMedianTimePast blocks blockTime boundary) (conditionCount checker blocks boundary)
        ((k + 1) * checker.period)

/-- The state BIP9 gives the block after `pindexPrev`: that of its period,
which follows from the last block of the period before. -/
def bip9State (pindexPrev : Option Id) : ThresholdState :=
  if checker.beginTime = ALWAYS_ACTIVE then .ACTIVE
  else if checker.beginTime = NEVER_ACTIVE then .FAILED
  else
    match pindexPrev with
    | none => .DEFINED
    | some p =>
        match blocks p with
        | none => .DEFINED
        | some entry =>
            periodState checker blocks blockTime ((entry.nHeight + 1) / checker.period)
              (followPrev blocks ((entry.nHeight + 1) % checker.period) p)

/-- Every state the cache holds is the one BIP9 gives the block after its key. -/
def CacheSound (cache : ThresholdConditionCache Id) : Prop :=
  ∀ pindexPrev state, cache pindexPrev = some state → state = bip9State checker blocks blockTime pindexPrev

/-- The pending blocks of the walk back, oldest first: each the last block of
a period, the first one a period above `pindexPrev`, each next one a period
above the one before, and `top` the last (`pindexPrev` when there are none). -/
inductive PeriodChain (period : Nat) : Option Id → List Id → Option Id → Prop
  | nil (pindexPrev : Option Id) : PeriodChain period pindexPrev [] pindexPrev
  | cons {pindexPrev top : Option Id} {boundary : Id} {entry : SkipEntry Id} {rest : List Id} :
      blocks boundary = some entry → (entry.nHeight + 1) % period = 0 →
      followPrev blocks period boundary = pindexPrev → PeriodChain period (some boundary) rest top →
      PeriodChain period pindexPrev (boundary :: rest) top

/-- `pindexPrev` is `nullptr` or the last block of a period, and `fuel` rounds
are enough for the walk back from it. -/
def Walkable (period fuel : Nat) : Option Id → Prop
  | none => 0 < fuel
  | some b => ∃ entry, blocks b = some entry ∧ (entry.nHeight + 1) % period = 0 ∧ (entry.nHeight + 1) / period < fuel

/-! ## The state of a period -/

section Periods

variable {checker blocks blockTime}

@[simp]
theorem periodState_none (k : Nat) : periodState checker blocks blockTime k none = .DEFINED := by
  cases k <;> rfl

theorem bip9State_always (always : checker.beginTime = ALWAYS_ACTIVE) (pindexPrev : Option Id) :
    bip9State checker blocks blockTime pindexPrev = .ACTIVE := by
  unfold bip9State
  rw [if_pos always]

theorem bip9State_never (never : checker.beginTime = NEVER_ACTIVE) (pindexPrev : Option Id) :
    bip9State checker blocks blockTime pindexPrev = .FAILED := by
  unfold bip9State
  rw [if_neg (by rw [never]; decide), if_pos never]

theorem bip9State_none (ordinary : checker.Ordinary) : bip9State checker blocks blockTime none = .DEFINED := by
  simp [bip9State, ordinary.1, ordinary.2]

theorem bip9State_some (ordinary : checker.Ordinary) {p : Id} {entry : SkipEntry Id} (found : blocks p = some entry) :
    bip9State checker blocks blockTime (some p) =
      periodState checker blocks blockTime ((entry.nHeight + 1) / checker.period)
        (followPrev blocks ((entry.nHeight + 1) % checker.period) p) := by
  simp [bip9State, ordinary.1, ordinary.2, found]

/-- A period that ends before the start time is `DEFINED`, and so is every
period before it, whose median time past is no later. -/
theorem periodState_of_lt_beginTime (rule : TimesAboveMedian blocks blockTime) :
    ∀ k {boundary : Id}, getMedianTimePast blocks blockTime boundary < checker.beginTime →
      periodState checker blocks blockTime k (some boundary) = .DEFINED := by
  intro k
  induction k with
  | zero => intro boundary early; rfl
  | succ k inductionHypothesis =>
      intro boundary early
      have before : periodState checker blocks blockTime k (followPrev blocks checker.period boundary) = .DEFINED := by
        cases reached : followPrev blocks checker.period boundary with
        | none => exact periodState_none k
        | some previous =>
            apply inductionHypothesis
            exact lt_of_le_of_lt (getMedianTimePast_le_of_isAncestor rule ⟨checker.period, reached⟩) early
      rw [periodState, before, bip9Transition, if_neg (not_le.mpr early)]

/-- The last block of the period before the block after `p` is at a multiple
of the period, less one. -/
theorem periodStart_height (tree : SkipTree blocks) (period : Nat) {p b : Id} {entry : SkipEntry Id}
    (found : blocks p = some entry) (reached : followPrev blocks ((entry.nHeight + 1) % period) p = some b) :
    ∃ boundaryEntry, blocks b = some boundaryEntry ∧
      boundaryEntry.nHeight + 1 = period * ((entry.nHeight + 1) / period) := by
  obtain ⟨below, boundaryEntry, boundaryFound, height⟩ := tree.followPrev_height found reached
  have decomposed := Nat.div_add_mod (entry.nHeight + 1) period
  exact ⟨boundaryEntry, boundaryFound, by omega⟩

/-- A period back from the last block of a period is the last block of the
period before. -/
theorem previousPeriod_height (tree : SkipTree blocks) {period : Nat} {b c : Id} {entry : SkipEntry Id}
    (found : blocks b = some entry) (boundary : (entry.nHeight + 1) % period = 0)
    (reached : followPrev blocks period b = some c) :
    ∃ previousEntry, blocks c = some previousEntry ∧
      previousEntry.nHeight + 1 = period * ((entry.nHeight + 1) / period - 1) := by
  obtain ⟨below, previousEntry, previousFound, previousHeight⟩ := tree.followPrev_height found reached
  have decomposed := Nat.div_add_mod (entry.nHeight + 1) period
  refine ⟨previousEntry, previousFound, ?_⟩
  rw [Nat.mul_sub_one]
  omega

variable (tree : SkipTree blocks) (ordinary : checker.Ordinary)
include tree ordinary

/-- The state of the block after `p` is that of the block after the last
block of the period before: every block of a period has one state. -/
theorem bip9State_periodStart {p : Id} {entry : SkipEntry Id} (found : blocks p = some entry) :
    bip9State checker blocks blockTime (some p) =
      bip9State checker blocks blockTime (followPrev blocks ((entry.nHeight + 1) % checker.period) p) := by
  rw [bip9State_some ordinary found]
  cases reached : followPrev blocks ((entry.nHeight + 1) % checker.period) p with
  | none => rw [periodState_none, bip9State_none ordinary]
  | some boundary =>
      obtain ⟨boundaryEntry, boundaryFound, multiple⟩ := periodStart_height tree checker.period found reached
      rw [bip9State_some ordinary boundaryFound, multiple, Nat.mul_div_cancel_left _ checker.period_pos,
        Nat.mul_mod_right, followPrev_zero]

/-- At the last block of a period, BIP9's state follows from the state at the
last block of the period before by one transition. -/
theorem bip9State_boundary {b : Id} {entry : SkipEntry Id} (found : blocks b = some entry)
    (boundary : (entry.nHeight + 1) % checker.period = 0) :
    bip9State checker blocks blockTime (some b) =
      bip9Transition checker (bip9State checker blocks blockTime (followPrev blocks checker.period b))
        (getMedianTimePast blocks blockTime b) (conditionCount checker blocks b) (entry.nHeight + 1) := by
  have decomposed := Nat.div_add_mod (entry.nHeight + 1) checker.period
  obtain ⟨k, periods⟩ : ∃ k, (entry.nHeight + 1) / checker.period = k + 1 :=
    Nat.exists_eq_succ_of_ne_zero fun none => by rw [none, boundary] at decomposed; omega
  have height : (k + 1) * checker.period = entry.nHeight + 1 := by
    rw [periods, boundary, Nat.add_zero] at decomposed
    rw [Nat.mul_comm, decomposed]
  rw [bip9State_some ordinary found, boundary, followPrev_zero, periods, periodState, height]
  congr 1
  cases reached : followPrev blocks checker.period b with
  | none => rw [periodState_none, bip9State_none ordinary]
  | some previous =>
      obtain ⟨previousEntry, previousFound, multiple⟩ := previousPeriod_height tree found boundary reached
      rw [bip9State_some ordinary previousFound, multiple, periods, Nat.add_sub_cancel,
        Nat.mul_div_cancel_left _ checker.period_pos, Nat.mul_mod_right, followPrev_zero]

end Periods

/-! ## The walks -/

section Walks

variable {checker blocks blockTime}

theorem filterMap_range_succ_followPrev (n : Nat) (b : Id) :
    (List.range (n + 1)).filterMap (fun i => followPrev blocks i b) =
      b :: (List.range n).filterMap (fun i => followPrev blocks (i + 1) b) := by
  rw [List.range_succ_eq_map, List.filterMap_cons, List.filterMap_map]
  rfl

theorem CacheSound.update {cache : ThresholdConditionCache Id} (sound : CacheSound checker blocks blockTime cache)
    [DecidableEq Id] {key : Option Id} {state : ThresholdState} (right : state = bip9State checker blocks blockTime key) :
    CacheSound checker blocks blockTime (Function.update cache key (some state)) := by
  intro pindexPrev held stored
  by_cases same : pindexPrev = key
  · subst same
    rw [Function.update_self, Option.some_inj] at stored
    rw [← stored, right]
  · rw [Function.update_of_ne same] at stored
    exact sound pindexPrev held stored

theorem period_le_of_boundary {entry : SkipEntry Id} (boundary : (entry.nHeight + 1) % checker.period = 0) :
    checker.period ≤ entry.nHeight + 1 :=
  Nat.le_of_dvd (Nat.succ_pos _) (Nat.dvd_of_mod_eq_zero boundary)

variable (tree : SkipTree blocks)
include tree

/-- The counting loop counts the blocks of the period that satisfy `Condition`,
as long as the chain below has them all. -/
theorem countLoop_eq : ∀ n {b : Id} {entry : SkipEntry Id}, blocks b = some entry → n ≤ entry.nHeight + 1 →
    ∀ count, countLoop checker blocks n (some b) count =
      .ok (count + ((List.range n).filterMap fun i => followPrev blocks i b).countP checker.condition) := by
  intro n
  induction n with
  | zero => intro b entry found enough count; rfl
  | succ n inductionHypothesis =>
      intro b entry found enough count
      simp only [countLoop, found]
      rw [filterMap_range_succ_followPrev, List.countP_cons]
      cases linked : entry.pprev with
      | none =>
          have bottom := tree.root found linked
          obtain rfl : n = 0 := by omega
          simp only [countLoop, List.range_zero, List.filterMap_nil, List.countP_nil]
          congr 1
          split <;> simp_all
      | some p =>
          obtain ⟨parent, parentFound, oneAbove⟩ := tree.parent found linked
          have shifted : (List.range n).filterMap (fun i => followPrev blocks (i + 1) b) =
              (List.range n).filterMap (fun i => followPrev blocks i p) := by
            congr 1
            funext i
            exact followPrev_succ i found linked
          rw [inductionHypothesis parentFound (by omega), shifted]
          congr 1
          cases checker.condition b <;> simp only [Bool.false_eq_true, ↓reduceIte] <;> omega

/-- One round of the walk forward is BIP9's transition. -/
theorem nextState_eq {b : Id} {entry : SkipEntry Id} (found : blocks b = some entry)
    (longEnough : checker.period ≤ entry.nHeight + 1) (state : ThresholdState) :
    nextState checker blocks blockTime state b entry =
      .ok (bip9Transition checker state (getMedianTimePast blocks blockTime b) (conditionCount checker blocks b)
        (entry.nHeight + 1)) := by
  cases state with
  | DEFINED => rfl
  | STARTED =>
      simp only [nextState]
      rw [countLoop_eq tree _ found longEnough, Nat.zero_add]
      rfl
  | LOCKED_IN =>
      simp only [nextState, bip9Transition]
      push_cast
      rfl
  | ACTIVE => rfl
  | FAILED => rfl

/-- From the last block of a period with rounds enough for the walk back, the
next one back is `nullptr` or the last block of the period before, with one
round less. -/
theorem walkable_followPrev {b : Id} {entry : SkipEntry Id} (found : blocks b = some entry)
    (boundary : (entry.nHeight + 1) % checker.period = 0) {fuel : Nat}
    (rounds : (entry.nHeight + 1) / checker.period < fuel + 1) :
    Walkable blocks checker.period fuel (followPrev blocks checker.period b) := by
  have longEnough : checker.period ≤ entry.nHeight + 1 := period_le_of_boundary boundary
  have periods : 1 ≤ (entry.nHeight + 1) / checker.period := (Nat.one_le_div_iff checker.period_pos).mpr longEnough
  cases reached : followPrev blocks checker.period b with
  | none => exact (show 0 < fuel by omega)
  | some previous =>
      obtain ⟨previousEntry, previousFound, multiple⟩ := previousPeriod_height tree found boundary reached
      refine ⟨previousEntry, previousFound, ?_, ?_⟩
      · rw [multiple, Nat.mul_mod_right]
      · rw [multiple, Nat.mul_div_cancel_left _ checker.period_pos]
        omega

/-- The walks of a call start at the last block of the period before, with
rounds enough. -/
theorem walkable_periodStart {p : Id} {entry : SkipEntry Id} (found : blocks p = some entry) :
    Walkable blocks checker.period (entry.nHeight + 2) (followPrev blocks ((entry.nHeight + 1) % checker.period) p) := by
  have fewer := Nat.div_le_self (entry.nHeight + 1) checker.period
  cases reached : followPrev blocks ((entry.nHeight + 1) % checker.period) p with
  | none => exact Nat.succ_pos _
  | some boundary =>
      obtain ⟨boundaryEntry, boundaryFound, multiple⟩ := periodStart_height tree checker.period found reached
      refine ⟨boundaryEntry, boundaryFound, ?_, ?_⟩
      · rw [multiple, Nat.mul_mod_right]
      · rw [multiple, Nat.mul_div_cancel_left _ checker.period_pos]
        omega

variable [DecidableEq Id] (ordinary : checker.Ordinary)
include ordinary

/-- The walk forward along the pending blocks computes BIP9's state at each,
caches it, and ends with the state at the last. -/
theorem walkForward_eq {pindexPrev top : Option Id} {pending : List Id}
    (chain : PeriodChain blocks checker.period pindexPrev pending top) :
    ∀ {cache}, CacheSound checker blocks blockTime cache →
      ∃ cache', walkForward checker blocks blockTime cache (bip9State checker blocks blockTime pindexPrev) pending =
        .ok (cache', bip9State checker blocks blockTime top) ∧ CacheSound checker blocks blockTime cache' := by
  induction chain with
  | nil pindexPrev =>
      intro cache sound
      exact ⟨cache, rfl, sound⟩
  | cons found boundary below rest inductionHypothesis =>
      intro cache sound
      subst below
      simp only [walkForward, found]
      rw [nextState_eq tree found (period_le_of_boundary boundary), ← bip9State_boundary tree ordinary found boundary]
      exact inductionHypothesis (sound.update rfl)

omit tree ordinary in
/-- A key the cache knows ends the walk back at once. -/
theorem walkBack_of_isSome {cache : ThresholdConditionCache Id} {pindexPrev : Option Id}
    (cached : (cache pindexPrev).isSome) (fuel : Nat) (pending : List Id) :
    walkBack checker blocks blockTime (fuel + 1) cache pindexPrev pending = pure (cache, pindexPrev, pending) := by
  cases pindexPrev <;> rw [walkBack, if_pos cached]

variable (rule : TimesAboveMedian blocks blockTime)
include rule

/-- The walk back ends where the cache holds BIP9's state, with the pending
blocks a chain of periods up to where it started. -/
theorem walkBack_eq : ∀ fuel {cache : ThresholdConditionCache Id} {pindexPrev top : Option Id} {pending : List Id},
    Walkable blocks checker.period fuel pindexPrev → PeriodChain blocks checker.period pindexPrev pending top →
    CacheSound checker blocks blockTime cache →
    ∃ cache' known pending', walkBack checker blocks blockTime fuel cache pindexPrev pending = .ok (cache', known, pending') ∧
      cache' known = some (bip9State checker blocks blockTime known) ∧
      PeriodChain blocks checker.period known pending' top ∧ CacheSound checker blocks blockTime cache' := by
  intro fuel
  induction fuel with
  | zero =>
      intro cache pindexPrev top pending walkable
      cases pindexPrev with
      | none => exact absurd walkable (Nat.lt_irrefl 0)
      | some b =>
          obtain ⟨entry, -, -, rounds⟩ := walkable
          exact absurd rounds (Nat.not_lt_zero _)
  | succ fuel inductionHypothesis =>
      intro cache pindexPrev top pending walkable chain sound
      by_cases cached : (cache pindexPrev).isSome
      · rw [walkBack_of_isSome cached]
        obtain ⟨state, held⟩ := Option.isSome_iff_exists.mp cached
        exact ⟨cache, pindexPrev, pending, rfl, by rw [held, sound pindexPrev state held], chain, sound⟩
      cases pindexPrev with
      | none =>
          rw [walkBack, if_neg cached]
          refine ⟨_, none, pending, rfl, ?_, chain, sound.update (bip9State_none ordinary).symm⟩
          rw [Function.update_self, bip9State_none ordinary]
      | some b =>
          obtain ⟨entry, found, boundary, rounds⟩ := walkable
          rw [walkBack, if_neg cached]
          simp only [found]
          by_cases early : getMedianTimePast blocks blockTime b < checker.beginTime
          · have defined : bip9State checker blocks blockTime (some b) = .DEFINED := by
              rw [bip9State_some ordinary found, boundary, followPrev_zero]
              exact periodState_of_lt_beginTime rule _ early
            rw [if_pos early]
            refine ⟨_, some b, pending, rfl, ?_, chain, sound.update defined.symm⟩
            rw [Function.update_self, defined]
          · rw [if_neg early, show ((entry.nHeight : Int) - checker.period) = (entry.nHeight : Int) - (checker.period : Nat)
              from rfl, tree.getAncestor_sub found]
            exact inductionHypothesis (walkable_followPrev tree found boundary rounds)
              (PeriodChain.cons found boundary rfl chain) sound

/-- Both walks from the last block of a period give BIP9's state after it and
leave the cache sound. -/
theorem walkBackAndForward_eq {fuel : Nat} {pindexPrev : Option Id}
    (walkable : Walkable blocks checker.period fuel pindexPrev) {cache : ThresholdConditionCache Id}
    (sound : CacheSound checker blocks blockTime cache) :
    ∃ cache', walkBackAndForward checker blocks blockTime cache pindexPrev fuel =
      .ok (bip9State checker blocks blockTime pindexPrev, cache') ∧ CacheSound checker blocks blockTime cache' := by
  obtain ⟨cache₁, known, pending, back, held, chain, sound₁⟩ :=
    walkBack_eq tree ordinary rule fuel walkable (PeriodChain.nil pindexPrev) sound
  obtain ⟨cache₂, forward, sound₂⟩ := walkForward_eq tree ordinary chain sound₁
  refine ⟨cache₂, ?_, sound₂⟩
  simp only [walkBackAndForward, back, bind, Except.bind, held]
  rw [forward]
  rfl

end Walks

variable {checker blocks blockTime}

/-- `GetStateFor` on `nullptr` or a block of the index, with a sound cache:
BIP9's state of the block after it, and the cache left sound. -/
theorem getStateFor_eq (tree : SkipTree blocks) (rule : TimesAboveMedian blocks blockTime) [DecidableEq Id]
    {cache : ThresholdConditionCache Id} (sound : CacheSound checker blocks blockTime cache) {pindexPrev : Option Id}
    (allocated : ∀ p ∈ pindexPrev, ∃ entry, blocks p = some entry) :
    ∃ cache', getStateFor checker blocks blockTime cache pindexPrev =
      .ok (bip9State checker blocks blockTime pindexPrev, cache') ∧ CacheSound checker blocks blockTime cache' := by
  by_cases always : checker.beginTime = ALWAYS_ACTIVE
  · refine ⟨cache, ?_, sound⟩
    rw [getStateFor, if_pos always, bip9State_always always]
    rfl
  by_cases never : checker.beginTime = NEVER_ACTIVE
  · refine ⟨cache, ?_, sound⟩
    rw [getStateFor, if_neg always, if_pos never, bip9State_never never]
    rfl
  have ordinary : checker.Ordinary := ⟨always, never⟩
  obtain ⟨start, rounds, started, walkable, samePeriod⟩ : ∃ start rounds,
      periodStart checker blocks pindexPrev = .ok (start, rounds) ∧ Walkable blocks checker.period rounds start ∧
        bip9State checker blocks blockTime pindexPrev = bip9State checker blocks blockTime start := by
    cases pindexPrev with
    | none => exact ⟨none, 1, rfl, Nat.one_pos, rfl⟩
    | some p =>
        obtain ⟨entry, found⟩ := allocated p rfl
        refine ⟨_, _, ?_, walkable_periodStart tree found, bip9State_periodStart tree ordinary found⟩
        simp only [periodStart, found]
        rw [tree.getAncestor_sub found]
        rfl
  obtain ⟨cache', walked, sound'⟩ := walkBackAndForward_eq tree ordinary rule walkable sound
  refine ⟨cache', ?_, sound'⟩
  rw [getStateFor, if_neg always, if_neg never, started, samePeriod]
  exact walked

/-- `GetStateFor` on a block of the index. -/
theorem getStateFor_some (tree : SkipTree blocks) (rule : TimesAboveMedian blocks blockTime) [DecidableEq Id]
    {cache : ThresholdConditionCache Id} (sound : CacheSound checker blocks blockTime cache) {p : Id}
    {entry : SkipEntry Id} (found : blocks p = some entry) :
    ∃ cache', getStateFor checker blocks blockTime cache (some p) =
      .ok (bip9State checker blocks blockTime (some p), cache') ∧ CacheSound checker blocks blockTime cache' :=
  getStateFor_eq tree rule sound fun _ member => ⟨entry, Option.mem_some_iff.mp member ▸ found⟩

/-! ## `GetStateSinceHeightFor` -/

section Since

variable (tree : SkipTree blocks) (rule : TimesAboveMedian blocks blockTime) [DecidableEq Id]
  (ordinary : checker.Ordinary)
include tree rule ordinary

/-- The loop of `GetStateSinceHeightFor`, from the last block of the `i`-th
period below `b`'s with every period up to `b`'s in one state: it stops at the
`j`-th, the earliest of a run of periods in that state. -/
theorem sinceLoop_eq {b : Id} {initialState : ThresholdState} (notDefined : initialState ≠ .DEFINED) :
    ∀ fuel i {current : Id} {entry : SkipEntry Id} {cache : ThresholdConditionCache Id},
      followPrev blocks (i * checker.period) b = some current → blocks current = some entry →
      (entry.nHeight + 1) % checker.period = 0 → (entry.nHeight + 1) / checker.period ≤ fuel →
      (∀ k ≤ i, bip9State checker blocks blockTime (followPrev blocks (k * checker.period) b) = initialState) →
      CacheSound checker blocks blockTime cache →
      ∃ j last cache', sinceLoop checker blocks blockTime initialState fuel cache current
          (followPrev blocks checker.period current) = .ok (last, cache') ∧
        followPrev blocks (j * checker.period) b = some last ∧
        (∀ k ≤ j, bip9State checker blocks blockTime (followPrev blocks (k * checker.period) b) = initialState) ∧
        bip9State checker blocks blockTime (followPrev blocks ((j + 1) * checker.period) b) ≠ initialState ∧
        CacheSound checker blocks blockTime cache' := by
  intro fuel
  induction fuel with
  | zero =>
      intro i current entry cache reached found boundary rounds
      have periods := (Nat.one_le_div_iff checker.period_pos).mpr (period_le_of_boundary boundary)
      omega
  | succ fuel inductionHypothesis =>
      intro i current entry cache reached found boundary rounds same sound
      have next : followPrev blocks ((i + 1) * checker.period) b = followPrev blocks checker.period current := by
        rw [Nat.succ_mul, Nat.add_comm, followPrev_add, reached]
        rfl
      have walkable : Walkable blocks checker.period (fuel + 1) (followPrev blocks checker.period current) :=
        walkable_followPrev tree found boundary (by omega)
      cases previous : followPrev blocks checker.period current with
      | none =>
          refine ⟨i, current, cache, rfl, reached, same, ?_, sound⟩
          rw [next, previous, bip9State_none ordinary]
          exact notDefined.symm
      | some parent =>
          rw [previous] at walkable
          obtain ⟨parentEntry, parentFound, parentBoundary, parentRounds⟩ := walkable
          obtain ⟨cache₁, called, sound₁⟩ := getStateFor_some tree rule sound parentFound
          rw [sinceLoop, called]
          simp only [bind, Except.bind]
          by_cases sameState : bip9State checker blocks blockTime (some parent) = initialState
          · rw [if_pos sameState]
            simp only [parentFound]
            rw [tree.getAncestor_sub parentFound]
            refine inductionHypothesis (i + 1) (by rw [next, previous]) parentFound parentBoundary (by omega)
              (fun k atMost => ?_) sound₁
            rcases Nat.lt_succ_iff_lt_or_eq.mp (Nat.lt_succ_of_le atMost) with before | now
            · exact same k (by omega)
            · rw [now, next, previous]
              exact sameState
          · rw [if_neg sameState]
            exact ⟨i, current, cache₁, rfl, reached, same, by rw [next, previous]; exact sameState, sound₁⟩

/-- `GetStateSinceHeightFor` on a block of the index, with a sound cache: `0`
for a `DEFINED` state; otherwise the first height of the earliest period of the
run of periods, back from the block's own, that have its state, the period
before that run having another (`nullptr`'s being `DEFINED`). -/
theorem getStateSinceHeightFor_eq {cache : ThresholdConditionCache Id} (sound : CacheSound checker blocks blockTime cache)
    {p : Id} {entry : SkipEntry Id} (found : blocks p = some entry) :
    ∃ since cache', getStateSinceHeightFor checker blocks blockTime cache (some p) = .ok (since, cache') ∧
      CacheSound checker blocks blockTime cache' ∧
      (bip9State checker blocks blockTime (some p) = .DEFINED → since = 0) ∧
      (bip9State checker blocks blockTime (some p) ≠ .DEFINED →
        ∃ j, since = ((entry.nHeight + 1 - (entry.nHeight + 1) % checker.period - j * checker.period : Nat) : Int) ∧
          (∀ k ≤ j, bip9State checker blocks blockTime
            (followPrev blocks (k * checker.period + (entry.nHeight + 1) % checker.period) p) =
              bip9State checker blocks blockTime (some p)) ∧
          bip9State checker blocks blockTime
            (followPrev blocks ((j + 1) * checker.period + (entry.nHeight + 1) % checker.period) p) ≠
              bip9State checker blocks blockTime (some p)) := by
  obtain ⟨cache₁, called, sound₁⟩ := getStateFor_some tree rule sound found
  rw [getStateSinceHeightFor, if_neg (not_or.mpr ordinary), called]
  simp only [bind, Except.bind]
  by_cases defined : bip9State checker blocks blockTime (some p) = .DEFINED
  · rw [if_pos defined]
    exact ⟨0, cache₁, rfl, sound₁, fun _ => rfl, fun notDefined => absurd defined notDefined⟩
  rw [if_neg defined]
  simp only [periodStart, found]
  rw [tree.getAncestor_sub found]
  simp only [bind, Except.bind, pure, Except.pure]
  have samePeriod : bip9State checker blocks blockTime (some p) =
      bip9State checker blocks blockTime (followPrev blocks ((entry.nHeight + 1) % checker.period) p) :=
    bip9State_periodStart tree ordinary found
  cases start : followPrev blocks ((entry.nHeight + 1) % checker.period) p with
  | none =>
      rw [start, bip9State_none ordinary] at samePeriod
      exact absurd samePeriod defined
  | some b =>
      rw [start] at samePeriod
      obtain ⟨startBelow, startEntry, startFound, startHeight⟩ := tree.followPrev_height found start
      have walkable : Walkable blocks checker.period (entry.nHeight + 2)
          (followPrev blocks ((entry.nHeight + 1) % checker.period) p) :=
        walkable_periodStart tree found
      rw [start] at walkable
      obtain ⟨startEntry', startFound', startBoundary, -⟩ := walkable
      rw [startFound, Option.some_inj] at startFound'
      subst startFound'
      simp only [startFound]
      rw [tree.getAncestor_sub startFound]
      obtain ⟨j, last, cache₂, looped, reachedLast, run, stopped, sound₂⟩ :=
        sinceLoop_eq tree rule ordinary defined (startEntry.nHeight + 1) 0 (by rw [Nat.zero_mul, followPrev_zero])
          startFound startBoundary (Nat.div_le_self _ _) (fun k atMost => by
            rw [Nat.le_zero.mp atMost, Nat.zero_mul, followPrev_zero]
            exact samePeriod.symm) sound₁
      obtain ⟨below, lastEntry, lastFound, lastHeight⟩ := tree.followPrev_height startFound reachedLast
      dsimp only
      rw [looped]
      simp only [lastFound]
      have shifted : ∀ k, followPrev blocks (k * checker.period + (entry.nHeight + 1) % checker.period) p =
          followPrev blocks (k * checker.period) b := by
        intro k
        rw [followPrev_add, start]
        rfl
      refine ⟨_, cache₂, rfl, sound₂, fun isDefined => absurd isDefined defined, fun _ => ⟨j, ?_, ?_, ?_⟩⟩
      · have height : lastEntry.nHeight + 1 =
            entry.nHeight + 1 - (entry.nHeight + 1) % checker.period - j * checker.period := by
          omega
        rw [← height]
        push_cast
        rfl
      · intro k atMost
        rw [shifted, run k atMost]
      · rw [shifted]
        exact stopped

end Since

theorem cacheSound_empty : CacheSound checker blocks blockTime fun _ => none := by
  intro pindexPrev state held
  cases held

/-- In every index of blocks above their parents' median time past, BIP9's
state is the recursion over periods (`ACTIVE` and `FAILED` everywhere for the
special start times, `DEFINED` before the genesis block, one transition at the
last block of each period) and one state for all blocks of a period;
`GetStateFor` returns it from every cache that only such calls filled, and
`GetStateSinceHeightFor` the first height of the earliest of the periods, back
from the block's own, that all have its state. -/
theorem versionBits_cacheIndependent [DecidableEq Id] (tree : SkipTree blocks)
    (rule : TimesAboveMedian blocks blockTime) :
    (checker.beginTime = ALWAYS_ACTIVE → ∀ pindexPrev, bip9State checker blocks blockTime pindexPrev = .ACTIVE) ∧
    (checker.beginTime = NEVER_ACTIVE → ∀ pindexPrev, bip9State checker blocks blockTime pindexPrev = .FAILED) ∧
    (checker.Ordinary → bip9State checker blocks blockTime none = .DEFINED) ∧
    (checker.Ordinary → ∀ b entry, blocks b = some entry → (entry.nHeight + 1) % checker.period = 0 →
      bip9State checker blocks blockTime (some b) =
        bip9Transition checker (bip9State checker blocks blockTime (followPrev blocks checker.period b))
          (getMedianTimePast blocks blockTime b) (conditionCount checker blocks b) (entry.nHeight + 1)) ∧
    (checker.Ordinary → ∀ p entry, blocks p = some entry →
      bip9State checker blocks blockTime (some p) =
        bip9State checker blocks blockTime (followPrev blocks ((entry.nHeight + 1) % checker.period) p)) ∧
    CacheSound checker blocks blockTime (fun _ => none) ∧
    (∀ cache, CacheSound checker blocks blockTime cache → ∀ pindexPrev, (∀ p ∈ pindexPrev, ∃ entry, blocks p = some entry) →
      ∃ cache', getStateFor checker blocks blockTime cache pindexPrev =
        .ok (bip9State checker blocks blockTime pindexPrev, cache') ∧ CacheSound checker blocks blockTime cache') ∧
    (checker.Ordinary → ∀ cache, CacheSound checker blocks blockTime cache → ∀ p entry, blocks p = some entry →
      ∃ since cache', getStateSinceHeightFor checker blocks blockTime cache (some p) = .ok (since, cache') ∧
        CacheSound checker blocks blockTime cache' ∧
        (bip9State checker blocks blockTime (some p) = .DEFINED → since = 0) ∧
        (bip9State checker blocks blockTime (some p) ≠ .DEFINED →
          ∃ j, since = ((entry.nHeight + 1 - (entry.nHeight + 1) % checker.period - j * checker.period : Nat) : Int) ∧
            (∀ k ≤ j, bip9State checker blocks blockTime
              (followPrev blocks (k * checker.period + (entry.nHeight + 1) % checker.period) p) =
                bip9State checker blocks blockTime (some p)) ∧
            bip9State checker blocks blockTime
              (followPrev blocks ((j + 1) * checker.period + (entry.nHeight + 1) % checker.period) p) ≠
                bip9State checker blocks blockTime (some p))) :=
  ⟨bip9State_always, bip9State_never, bip9State_none,
    fun ordinary _ _ found boundary => bip9State_boundary tree ordinary found boundary,
    fun ordinary _ _ found => bip9State_periodStart tree ordinary found,
    cacheSound_empty,
    fun _ sound _ allocated => getStateFor_eq tree rule sound allocated,
    fun ordinary _ sound _ _ found => getStateSinceHeightFor_eq tree rule ordinary sound found⟩

/-- A genesis block and its child, without skip pointers. -/
def genesisAndChildUnskipped : BlockMap Nat :=
  Function.update (Function.update (fun _ => none) 0 (some ⟨none, none, 0⟩)) 1 (some ⟨some 0, none, 1⟩)

/-- A deployment signalled by every block, started at time 0, with one-block
periods. -/
def signalledEveryBlock : ThresholdConditionChecker Nat :=
  ⟨fun _ => true, 0, 1, 0, 1, 1, Nat.one_pos⟩

theorem versionBits_cacheIndependent_twoBlocks :
    SkipTree genesisAndChildUnskipped ∧ TimesAboveMedian genesisAndChildUnskipped (fun b => (b : Int)) ∧
      ∃ cache', getStateFor signalledEveryBlock genesisAndChildUnskipped (fun b => (b : Int)) (fun _ => none) (some 1) =
        .ok (bip9State signalledEveryBlock genesisAndChildUnskipped (fun b => (b : Int)) (some 1), cache') := by
  have tree : SkipTree genesisAndChildUnskipped := by
    constructor
    · intro b entry found unlinked
      simp only [genesisAndChildUnskipped, Function.update_apply] at found
      split_ifs at found <;> cases found
      · cases unlinked
      · rfl
    · intro b entry p found linked
      simp only [genesisAndChildUnskipped, Function.update_apply] at found
      split_ifs at found <;> cases found <;> cases linked
      exact ⟨⟨none, none, 0⟩, rfl, rfl⟩
    · intro b entry s found skipped
      simp only [genesisAndChildUnskipped, Function.update_apply] at found
      split_ifs at found <;> cases found <;> cases skipped
  have rule : TimesAboveMedian genesisAndChildUnskipped (fun b => (b : Int)) := by
    intro b p entry found linked
    simp only [genesisAndChildUnskipped, Function.update_apply] at found
    split_ifs at found with child <;> cases found <;> cases linked
    subst child
    decide
  have allocated : ∀ p ∈ some 1, ∃ entry, genesisAndChildUnskipped p = some entry := by
    intro p member
    obtain rfl := Option.mem_some_iff.mp member
    exact ⟨⟨some 0, none, 1⟩, rfl⟩
  refine ⟨tree, rule, ?_⟩
  exact ((versionBits_cacheIndependent tree rule).2.2.2.2.2.2.1 _ cacheSound_empty _ allocated).imp
    fun _ called => called.1

end ThresholdConditionChecker

end Qbitcoin
