import Qbitcoin.Coins.Flush

/-!
# The stack of caches refines a plain map

The plain map of `SimulationTest` in `coins_tests.cpp`: `AddCoin` stores its
coin unless the output is unspendable, `SpendCoin` erases it, and no other
operation changes it.  A stack refines the map when it is coherent and its top
reports what the map holds.  Every operation the contract allows succeeds and
keeps the refinement, so a whole run does; a stack of empty caches over the
database refines the database's coins.
-/

namespace Qbitcoin

/-- The plain map of unspent coins. -/
abbrev UtxoMap := AList fun _ : COutPoint => Coin

namespace UtxoMap

/-- `AddCoin` on the map: an unspendable output is never stored. -/
def addCoin (m : UtxoMap) (outpoint : COutPoint) (coin : Coin) : UtxoMap :=
  if coin.out.scriptPubKey.isUnspendable then m else m.insert outpoint coin

/-- `SpendCoin` on the map. -/
def spendCoin (m : UtxoMap) (outpoint : COutPoint) : UtxoMap := m.erase outpoint

/-- What an operation on the stack does to the map. -/
def step (m : UtxoMap) : CoinsOp → UtxoMap
  | .addCoin outpoint coin _ => m.addCoin outpoint coin
  | .spendCoin outpoint => m.spendCoin outpoint
  | _ => m

def run (m : UtxoMap) (ops : List CoinsOp) : UtxoMap := ops.foldl step m

theorem lookup_addCoin (m : UtxoMap) (outpoint key : COutPoint) (coin : Coin) :
    (m.addCoin outpoint coin).lookup key =
      if coin.out.scriptPubKey.isUnspendable then m.lookup key
      else if key = outpoint then some coin else m.lookup key := by
  unfold addCoin
  split
  · rfl
  · rw [AList.lookup_insert_eq_ite]
    simp only [eq_comm]

theorem lookup_spendCoin (m : UtxoMap) (outpoint key : COutPoint) :
    (m.spendCoin outpoint).lookup key = if key = outpoint then none else m.lookup key := by
  rw [spendCoin, AList.lookup_erase_eq_ite]
  simp only [eq_comm]

end UtxoMap

namespace CoinsStack

/-- A stack refines a map when it is coherent and its top reports what the map
holds. -/
structure Refines (s : CoinsStack) (m : UtxoMap) : Prop where
  coherent : Coherent s.db s.layers
  reports : ∀ outpoint, s.reportTop outpoint = m.lookup outpoint

section

variable {s : CoinsStack} {m : UtxoMap} {db : CoinsDB} {layers : List CCoinsMap}

/-- A coherent stack that reports what a refining one reported refines the same
map. -/
theorem Refines.of_reports (refines : s.Refines m) (same : ∀ key, report db layers key = s.reportTop key)
    (coherent : Coherent db layers) : (⟨db, layers⟩ : CoinsStack).Refines m :=
  ⟨coherent, fun key => (same key).trans (refines.reports key)⟩

theorem Refines.of_lookup (refines : s.Refines m) {m' : UtxoMap} (same : ∀ key, m.lookup key = m'.lookup key) :
    s.Refines m' :=
  ⟨refines.coherent, fun key => (refines.reports key).trans (same key)⟩

/-- A map a stack refines holds no spent coin. -/
theorem Refines.isSpent_eq_false (refines : s.Refines m) {outpoint : COutPoint} {coin : Coin}
    (found : m.lookup outpoint = some coin) : coin.isSpent = false := by
  rw [← refines.reports outpoint] at found
  exact report_unspent found

/-- A stack of empty caches over the database refines the database's coins. -/
theorem refines_empty (db : CoinsDB) (depth : Nat) :
    (⟨db, List.replicate depth ∅⟩ : CoinsStack).Refines db.coins := by
  induction depth with
  | zero => exact ⟨trivial, fun _ => rfl⟩
  | succ depth inDepth =>
      refine ⟨coherent_empty_cons inDepth.coherent, fun key => ?_⟩
      rw [← inDepth.reports key]
      exact report_empty_cons key

/-- `Flush` or `Sync` of a cache at any depth keeps the refinement, and after
one at the top the rest of the stack refines the map too. -/
theorem writeBack_refines (refines : s.Refines m) (erase : Bool) {depth : Nat}
    (inRange : depth < s.layers.length) :
    ∃ db' layers', writeBack erase depth s.db s.layers = .ok (db', layers') ∧
      (⟨db', layers'⟩ : CoinsStack).Refines m ∧
      (depth = 0 → (⟨db', layers'.tail⟩ : CoinsStack).Refines m) := by
  obtain ⟨db', layers', back, reports, coherent', parentReports⟩ :=
    writeBack_spec refines.coherent erase inRange
  refine ⟨db', layers', back, refines.of_reports reports coherent', ?_⟩
  rintro rfl
  have popped : ∀ key, report db' layers'.tail key = s.reportTop key := by
    intro key
    rw [← List.drop_one, parentReports key, List.drop_zero]
    rfl
  refine refines.of_reports popped ?_
  cases layers' with
  | nil => trivial
  | cons top rest => exact coherent'.tail

/-- Every operation the contract allows succeeds, and the stack after it
refines the map after it. -/
theorem step_refines (refines : s.Refines m) {op : CoinsOp} (allowed : s.allowed op = true) :
    ∃ s', s.step op = .ok s' ∧ s'.Refines (m.step op) := by
  obtain ⟨db, layers⟩ := s
  cases op with
  | push =>
      exact ⟨⟨db, ∅ :: layers⟩, rfl,
        refines.of_reports (fun key => report_empty_cons key) (coherent_empty_cons refines.coherent)⟩
  | uncache depth outpoint =>
      obtain ⟨layers', uncached, reports, coherent'⟩ :=
        uncacheAt_spec refines.coherent outpoint (by simpa [CoinsStack.allowed] using allowed)
      exact ⟨⟨db, layers'⟩, by simp [step, uncached], refines.of_reports reports coherent'⟩
  | flush depth =>
      obtain ⟨db', layers', back, refines', -⟩ :=
        writeBack_refines refines true (by simpa [CoinsStack.allowed] using allowed)
      exact ⟨⟨db', layers'⟩, by simp [step, back], refines'⟩
  | sync depth =>
      obtain ⟨db', layers', back, refines', -⟩ :=
        writeBack_refines refines false (by simpa [CoinsStack.allowed] using allowed)
      exact ⟨⟨db', layers'⟩, by simp [step, back], refines'⟩
  | popFlush =>
      have nonempty : 0 < layers.length := List.length_pos_iff.mpr (by simpa [CoinsStack.allowed] using allowed)
      obtain ⟨db', layers', back, -, popped⟩ := writeBack_refines refines true nonempty
      exact ⟨⟨db', layers'.tail⟩, by simp [step, back], popped rfl⟩
  | popSync =>
      have nonempty : 0 < layers.length := List.length_pos_iff.mpr (by simpa [CoinsStack.allowed] using allowed)
      obtain ⟨db', layers', back, -, popped⟩ := writeBack_refines refines false nonempty
      exact ⟨⟨db', layers'.tail⟩, by simp [step, back], popped rfl⟩
  | accessCoin outpoint =>
      obtain ⟨cache, below, rfl⟩ := List.exists_cons_of_ne_nil (by simpa [CoinsStack.allowed] using allowed)
      rcases fetched : fetchCoin db cache below outpoint with ⟨entry, cache', below'⟩
      obtain ⟨-, -, reports, coherent'⟩ := fetchCoin_spec refines.coherent fetched
      exact ⟨⟨db, cache' :: below'⟩, by simp [step, topStep, accessCoin, fetched],
        refines.of_reports reports coherent'⟩
  | getCoin outpoint =>
      obtain ⟨cache, below, rfl⟩ := List.exists_cons_of_ne_nil (by simpa [CoinsStack.allowed] using allowed)
      obtain ⟨-, reports, coherent'⟩ := getCoinThrough_spec refines.coherent outpoint
      exact ⟨_, by simp [step, topStep], refines.of_reports reports coherent'⟩
  | haveCoin outpoint =>
      obtain ⟨cache, below, rfl⟩ := List.exists_cons_of_ne_nil (by simpa [CoinsStack.allowed] using allowed)
      rcases fetched : fetchCoin db cache below outpoint with ⟨entry, cache', below'⟩
      obtain ⟨-, -, reports, coherent'⟩ := fetchCoin_spec refines.coherent fetched
      exact ⟨⟨db, cache' :: below'⟩, by simp [step, topStep, haveCoin, fetched],
        refines.of_reports reports coherent'⟩
  | addCoin outpoint coin possible_overwrite =>
      simp only [CoinsStack.allowed, Bool.and_eq_true, Bool.not_eq_true', List.isEmpty_eq_false_iff,
        Bool.or_eq_true, Option.isNone_iff_eq_none] at allowed
      obtain ⟨⟨nonempty, unspentCoin⟩, overwrite⟩ := allowed
      obtain ⟨cache, below, rfl⟩ := List.exists_cons_of_ne_nil nonempty
      have contract : possible_overwrite = false → report db (cache :: below) outpoint = none := by
        rintro rfl
        exact overwrite.resolve_left Bool.false_ne_true
      obtain ⟨cache', added⟩ := addCoin_succeeds unspentCoin contract
      obtain ⟨reports, coherent'⟩ := addCoin_spec refines.coherent contract added
      refine ⟨⟨db, cache' :: below⟩, by simp [step, topStep, added], coherent', fun key => ?_⟩
      simp only [UtxoMap.step, UtxoMap.lookup_addCoin, ← refines.reports]
      exact reports key
  | spendCoin outpoint =>
      obtain ⟨cache, below, rfl⟩ := List.exists_cons_of_ne_nil (by simpa [CoinsStack.allowed] using allowed)
      rcases spent : spendCoin db cache below outpoint with ⟨found, moved, cache', below'⟩
      obtain ⟨reports, coherent'⟩ := spendCoin_spec refines.coherent spent
      refine ⟨⟨db, cache' :: below'⟩, by simp [step, topStep, spent], coherent', fun key => ?_⟩
      simp only [UtxoMap.step, UtxoMap.lookup_spendCoin, ← refines.reports]
      exact reports key

/-- A run from a stack that refines a map throws nothing, and when every
operation was allowed the stack after it refines the map after it. -/
theorem run_refines (refines : s.Refines m) (ops : List CoinsOp) :
    ∃ result, s.run ops = .ok result ∧ ∀ s', result = some s' → s'.Refines (m.run ops) := by
  induction ops generalizing s m with
  | nil => exact ⟨some s, rfl, fun s' reached => by cases reached; exact refines⟩
  | cons op ops inOps =>
      by_cases allowed : s.allowed op = true
      · obtain ⟨s₁, stepped, refines₁⟩ := step_refines refines allowed
        obtain ⟨result, ran, final⟩ := inOps refines₁
        exact ⟨result, by simp [run, allowed, stepped, ran], final⟩
      · exact ⟨none, by simp [run, allowed], fun s' reached => by cases reached⟩

end

/-- The layered cache refines a plain map: a stack of empty caches over the
database refines its coins; from any stack that refines a map, every sequence
of operations throws nothing and, when the contract allows each one, leaves a
stack whose top reports what the map reports after the same `AddCoin` and
`SpendCoin` calls; and `Flush` or `Sync` of any cache leaves its base reporting
what that cache reported. -/
theorem coinsCache_refines_map :
    (∀ (db : CoinsDB) depth, (⟨db, List.replicate depth ∅⟩ : CoinsStack).Refines db.coins) ∧
      (∀ (s : CoinsStack) (m : UtxoMap), s.Refines m → ∀ ops, ∃ result, s.run ops = .ok result ∧
        ∀ s', result = some s' → s'.Refines (m.run ops)) ∧
      (∀ (s : CoinsStack) (m : UtxoMap), s.Refines m → ∀ depth, depth < s.layers.length →
        ∀ op ∈ [CoinsOp.flush depth, CoinsOp.sync depth], ∃ s', s.step op = .ok s' ∧
          ∀ key, report s'.db (s'.layers.drop (depth + 1)) key = report s.db (s.layers.drop depth) key) := by
  refine ⟨refines_empty, fun s m refines ops => run_refines refines ops, ?_⟩
  intro s m refines depth inRange op listed
  have written : ∀ erase, ∃ db' layers', writeBack erase depth s.db s.layers = .ok (db', layers') ∧
      ∀ key, report db' (layers'.drop (depth + 1)) key = report s.db (s.layers.drop depth) key := by
    intro erase
    obtain ⟨db', layers', back, -, -, parentReports⟩ := writeBack_spec refines.coherent erase inRange
    exact ⟨db', layers', back, parentReports⟩
  simp only [List.mem_cons, List.not_mem_nil, or_false] at listed
  rcases listed with rfl | rfl
  · obtain ⟨db', layers', back, parentReports⟩ := written true
    exact ⟨⟨db', layers'⟩, by simp [step, back], parentReports⟩
  · obtain ⟨db', layers', back, parentReports⟩ := written false
    exact ⟨⟨db', layers'⟩, by simp [step, back], parentReports⟩

/-- The empty coins database. -/
def emptyCoinsDB : CoinsDB := ⟨∅, fun _ _ found => by simp at found⟩

/-- The outpoint and coin of `simulatedOps`. -/
def simulatedOutpoint : COutPoint := ⟨uint256.zero, 0⟩

def simulatedCoin : Coin := ⟨⟨0, [0x51]⟩, false, 1⟩

/-- A coin added in a pushed cache, synced into the cache below, spent, and the
pushed cache flushed and popped. -/
def simulatedOps : List CoinsOp :=
  [.push, .addCoin simulatedOutpoint simulatedCoin false, .sync 0, .spendCoin simulatedOutpoint, .popFlush,
    .haveCoin simulatedOutpoint]

theorem coinsCache_refines_map_simulated :
    ∃ s', (⟨emptyCoinsDB, [∅]⟩ : CoinsStack).run simulatedOps = .ok (some s') ∧
      s'.reportTop simulatedOutpoint = none := by
  obtain ⟨initial, runs, -⟩ := coinsCache_refines_map
  obtain ⟨result, ran, final⟩ := runs _ _ (initial emptyCoinsDB 1) simulatedOps
  have completes : ∃ s', (⟨emptyCoinsDB, [∅]⟩ : CoinsStack).run simulatedOps = .ok (some s') := ⟨_, rfl⟩
  obtain ⟨s', completed⟩ := completes
  have reached : result = some s' := Except.ok.inj (ran.symm.trans completed)
  refine ⟨s', completed, ?_⟩
  rw [(final s' reached).reports]
  rfl

end CoinsStack

end Qbitcoin
