import Qbitcoin.Coins.Refinement
import Qbitcoin.Lib.AListSum
import Mathlib.Tactic.Linarith

/-!
# The top cache as a view

`ConnectBlock` and `DisconnectBlock` work on one `CCoinsViewCache`, the top of a
stack, and use what its calls return: the coin `AccessCoin` returns,
`HaveCoin`'s answer, and the flag and the coin `SpendCoin` moves out.  The
calls here are those of `Qbitcoin.Coins.Cache` on the top cache with their
results kept.  On a stack that refines a map, each result is read off the map,
and the stack after the call refines the map after it.

The total value of a map, how `AddCoin` and `SpendCoin` change it, and what
the input and output loops of `UpdateCoins` do to the map and its value close
the module.
-/

namespace Qbitcoin

namespace CoinsStack

/-- A call on the top cache that returns a value. -/
def onTop {α : Type} (s : CoinsStack) (call : CCoinsMap → List CCoinsMap → α × CCoinsMap × List CCoinsMap) :
    Except String (α × CoinsStack) :=
  match s.layers with
  | [] => throw "no cache"
  | cache :: below =>
      let (a, cache', below') := call cache below
      pure (a, ⟨s.db, cache' :: below'⟩)

/-- `AccessCoin` on the top cache. -/
def accessCoinTop (s : CoinsStack) (outpoint : COutPoint) : Except String (Coin × CoinsStack) :=
  s.onTop fun cache below => accessCoin s.db cache below outpoint

/-- `HaveCoin` on the top cache. -/
def haveCoinTop (s : CoinsStack) (outpoint : COutPoint) : Except String (Bool × CoinsStack) :=
  s.onTop fun cache below => haveCoin s.db cache below outpoint

/-- `SpendCoin` on the top cache: whether it found an entry, and the coin it
moved out. -/
def spendCoinTop (s : CoinsStack) (outpoint : COutPoint) : Except String ((Bool × Option Coin) × CoinsStack) :=
  s.onTop fun cache below =>
    let (found, moved, cache', below') := spendCoin s.db cache below outpoint
    ((found, moved), cache', below')

section

variable {s : CoinsStack} {m : UtxoMap} {db : CoinsDB} {cache : CCoinsMap} {below : List CCoinsMap}

/-- The entry `FetchCoin` returns makes the cache report what the view did. -/
theorem fetchCoin_bind_unspent (coherent : Coherent db (cache :: below)) (outpoint : COutPoint) :
    (fetchCoin db cache below outpoint).1.bind CCoinsCacheEntry.unspent = report db (cache :: below) outpoint := by
  have gotten := (getCoinThrough_spec coherent outpoint).1
  rw [getCoinThrough_cons] at gotten
  exact gotten

/-- A read through the top cache finds the map's coin and leaves a stack that
refines the same map. -/
theorem fetchCoin_refines {entry : Option CCoinsCacheEntry} {cache' : CCoinsMap} {below' : List CCoinsMap}
    (refines : (⟨db, cache :: below⟩ : CoinsStack).Refines m)
    (fetched : fetchCoin db cache below outpoint = (entry, cache', below')) :
    entry.bind CCoinsCacheEntry.unspent = m.lookup outpoint ∧ (⟨db, cache' :: below'⟩ : CoinsStack).Refines m := by
  obtain ⟨-, -, reports, coherent'⟩ := fetchCoin_spec refines.coherent fetched
  have top : report db (cache :: below) outpoint = m.lookup outpoint := refines.reports outpoint
  refine ⟨?_, refines.of_reports reports coherent'⟩
  rw [← top, ← fetchCoin_bind_unspent refines.coherent outpoint, fetched]

/-- `AccessCoin` returns the map's coin, and a spent coin where the map has
none. -/
theorem accessCoinTop_spec (refines : s.Refines m) (nonempty : s.layers ≠ []) (outpoint : COutPoint) :
    ∃ coin s', s.accessCoinTop outpoint = .ok (coin, s') ∧ s'.Refines m ∧
      (∀ stored, m.lookup outpoint = some stored → coin = stored) ∧
      (m.lookup outpoint = none → coin.isSpent = true) := by
  obtain ⟨db, layers⟩ := s
  obtain ⟨cache, below, rfl⟩ := List.exists_cons_of_ne_nil nonempty
  rcases fetched : fetchCoin db cache below outpoint with ⟨entry, cache', below'⟩
  obtain ⟨reported, refines'⟩ := fetchCoin_refines refines fetched
  refine ⟨(entry.map (·.coin)).getD Coin.empty, ⟨db, cache' :: below'⟩,
    by simp [accessCoinTop, onTop, accessCoin, fetched], refines', ?_, ?_⟩
  · intro stored found
    rw [found] at reported
    obtain ⟨e, rfl, unspent⟩ := Option.bind_eq_some_iff.mp reported
    exact (CCoinsCacheEntry.unspent_eq_some unspent).1
  · intro missing
    rw [missing] at reported
    cases entry with
    | none => rfl
    | some e =>
        simp only [Option.bind_some, CCoinsCacheEntry.unspent] at reported
        simpa using reported

/-- `HaveCoin` answers whether the map has a coin. -/
theorem haveCoinTop_spec (refines : s.Refines m) (nonempty : s.layers ≠ []) (outpoint : COutPoint) :
    ∃ s', s.haveCoinTop outpoint = .ok ((m.lookup outpoint).isSome, s') ∧ s'.Refines m := by
  obtain ⟨db, layers⟩ := s
  obtain ⟨cache, below, rfl⟩ := List.exists_cons_of_ne_nil nonempty
  rcases fetched : fetchCoin db cache below outpoint with ⟨entry, cache', below'⟩
  obtain ⟨reported, refines'⟩ := fetchCoin_refines refines fetched
  have answer : (entry.any fun entry => !entry.coin.isSpent) = (m.lookup outpoint).isSome := by
    rw [← reported]
    cases entry with
    | none => rfl
    | some e => by_cases spent : e.coin.isSpent <;> simp [CCoinsCacheEntry.unspent, spent]
  exact ⟨⟨db, cache' :: below'⟩, by simp [haveCoinTop, onTop, haveCoin, fetched, answer], refines'⟩

/-- `SpendCoin` of a coin the map has finds it and moves it out; the stack
after refines the map without the outpoint. -/
theorem spendCoinTop_spec (refines : s.Refines m) (nonempty : s.layers ≠ []) (outpoint : COutPoint) :
    ∃ found moved s', s.spendCoinTop outpoint = .ok ((found, moved), s') ∧
      s'.Refines (m.spendCoin outpoint) ∧
      ∀ stored, m.lookup outpoint = some stored → found = true ∧ moved = some stored := by
  obtain ⟨db, layers⟩ := s
  obtain ⟨cache, below, rfl⟩ := List.exists_cons_of_ne_nil nonempty
  rcases spent : spendCoin db cache below outpoint with ⟨found, moved, cache', below'⟩
  obtain ⟨reports, coherent'⟩ := spendCoin_spec refines.coherent spent
  refine ⟨found, moved, ⟨db, cache' :: below'⟩, by simp [spendCoinTop, onTop, spent], ⟨coherent', fun key => ?_⟩,
    fun stored present => ?_⟩
  · rw [UtxoMap.lookup_spendCoin, ← refines.reports key]
    exact reports key
  rcases fetched : fetchCoin db cache below outpoint with ⟨entry, cache₁, below₁⟩
  obtain ⟨reported, -⟩ := fetchCoin_refines refines fetched
  rw [present] at reported
  obtain ⟨e, rfl, unspent⟩ := Option.bind_eq_some_iff.mp reported
  have returned : (spendCoin db cache below outpoint).1 = true ∧
      (spendCoin db cache below outpoint).2.1 = some e.coin := by
    simp only [spendCoin, fetched]
    split <;> exact ⟨rfl, rfl⟩
  rw [spent] at returned
  exact ⟨returned.1, by rw [← (CCoinsCacheEntry.unspent_eq_some unspent).1]; exact returned.2⟩

/-! The same calls read from their results: a call that returned has a cache to
run on. -/

theorem layers_ne_nil_of_onTop {α : Type} {call : CCoinsMap → List CCoinsMap → α × CCoinsMap × List CCoinsMap}
    {r : α × CoinsStack} (called : s.onTop call = .ok r) : s.layers ≠ [] := by
  intro empty
  simp [onTop, empty] at called

theorem accessCoinTop_eq_ok (refines : s.Refines m) {coin : Coin} {s' : CoinsStack}
    (accessed : s.accessCoinTop outpoint = .ok (coin, s')) :
    s'.Refines m ∧ (∀ stored, m.lookup outpoint = some stored → coin = stored) ∧
      (m.lookup outpoint = none → coin.isSpent = true) := by
  obtain ⟨coin₁, s₁, accessed₁, facts⟩ := accessCoinTop_spec refines (layers_ne_nil_of_onTop accessed) outpoint
  rw [accessed₁] at accessed
  cases accessed
  exact facts

theorem haveCoinTop_eq_ok (refines : s.Refines m) {unspent : Bool} {s' : CoinsStack}
    (answered : s.haveCoinTop outpoint = .ok (unspent, s')) :
    unspent = (m.lookup outpoint).isSome ∧ s'.Refines m := by
  obtain ⟨s₁, answered₁, refines₁⟩ := haveCoinTop_spec refines (layers_ne_nil_of_onTop answered) outpoint
  rw [answered₁] at answered
  cases answered
  exact ⟨rfl, refines₁⟩

theorem spendCoinTop_eq_ok (refines : s.Refines m) {found : Bool} {moved : Option Coin} {s' : CoinsStack}
    (spent : s.spendCoinTop outpoint = .ok ((found, moved), s')) :
    s'.Refines (m.spendCoin outpoint) ∧
      ∀ stored, m.lookup outpoint = some stored → found = true ∧ moved = some stored := by
  obtain ⟨found₁, moved₁, s₁, spent₁, facts⟩ := spendCoinTop_spec refines (layers_ne_nil_of_onTop spent) outpoint
  rw [spent₁] at spent
  cases spent
  exact facts

/-- An allowed operation that returned leaves a stack that refines the map
after it. -/
theorem step_eq_ok_refines (refines : s.Refines m) {op : CoinsOp} (allowed : s.allowed op = true)
    {s' : CoinsStack} (stepped : s.step op = .ok s') : s'.Refines (m.step op) := by
  obtain ⟨s₁, stepped₁, refines₁⟩ := step_refines refines allowed
  rw [stepped₁] at stepped
  cases stepped
  exact refines₁

theorem layers_ne_nil_after_onTop {α : Type} {call : CCoinsMap → List CCoinsMap → α × CCoinsMap × List CCoinsMap}
    {a : α} {s' : CoinsStack} (called : s.onTop call = .ok (a, s')) : s'.layers ≠ [] := by
  unfold onTop at called
  split at called
  · simp at called
  · simp only [Except.pure_eq_ok, Prod.mk.injEq] at called
    obtain ⟨-, rfl⟩ := called
    simp

theorem layers_ne_nil_after_step_addCoin {outpoint : COutPoint} {coin : Coin} {possible_overwrite : Bool}
    {s' : CoinsStack} (stepped : s.step (.addCoin outpoint coin possible_overwrite) = .ok s') : s'.layers ≠ [] := by
  simp only [step] at stepped
  split at stepped
  · simp at stepped
  · simp only [topStep, Except.bind_eq_ok, Except.pure_eq_ok] at stepped
    obtain ⟨_, ⟨cache', -, rfl⟩, rfl⟩ := stepped
    simp

end

end CoinsStack

/-! ## The value of the coins -/

/-- The values of a list of coins. -/
def coinValues (coins : List Coin) : List CAmount := coins.map (·.out.nValue)

/-- The outpoints `AddCoins` writes for `count` outputs from index `i`. -/
def outputPoints (txid : uint256) (i count : Nat) : List COutPoint :=
  (List.range' i count).map fun o => ⟨txid, UInt32.ofNat o⟩

namespace UtxoMap

/-- The total value of the coins in the map. -/
def totalValue (m : UtxoMap) : CAmount := AList.sumValues (fun coin : Coin => coin.out.nValue) m

/-- Every coin of the map has a value in the money range. -/
def InMoneyRange (m : UtxoMap) : Prop :=
  ∀ outpoint coin, m.lookup outpoint = some coin → moneyRange coin.out.nValue = true

/-- The coins a list of inputs spends, when the map has each. -/
def inputCoins (m : UtxoMap) : List CTxIn → Option (List Coin)
  | [] => some []
  | txin :: rest => do
      let coin ← m.lookup txin.prevout
      let coins ← m.inputCoins rest
      pure (coin :: coins)

/-- What the input loop of `UpdateCoins` does to the map. -/
def spendInputs (m : UtxoMap) : List CTxIn → UtxoMap
  | [] => m
  | txin :: rest => (m.spendCoin txin.prevout).spendInputs rest

/-- What the output loop of `AddCoins` does to the map, from index `i`. -/
def addOutputs (txid : uint256) (nHeight : Nat) (fCoinbase : Bool) : Nat → List CTxOut → UtxoMap → UtxoMap
  | _, [], m => m
  | i, txout :: rest, m =>
      addOutputs txid nHeight fCoinbase (i + 1) rest (m.addCoin ⟨txid, UInt32.ofNat i⟩ ⟨txout, fCoinbase, nHeight⟩)

/-- What `UpdateCoins` does to the map. -/
def updateCoins (m : UtxoMap) (hashes : Hashes) (tx : CTransaction) (nHeight : Nat) : UtxoMap :=
  addOutputs (tx.getHash hashes) nHeight tx.isCoinBase 0 tx.vout (if tx.isCoinBase then m else m.spendInputs tx.vin)

variable {m : UtxoMap} {outpoint : COutPoint} {coin : Coin}

theorem value_nonneg (inRange : m.InMoneyRange) (found : m.lookup outpoint = some coin) :
    0 ≤ coin.out.nValue := by
  have ranged := inRange outpoint coin found
  simp only [moneyRange, Bool.and_eq_true, decide_eq_true_eq] at ranged
  exact ranged.1

theorem totalValue_spendCoin_add (found : m.lookup outpoint = some coin) :
    (m.spendCoin outpoint).totalValue + coin.out.nValue = m.totalValue :=
  AList.sumValues_erase_add found

theorem totalValue_spendCoin_le (inRange : m.InMoneyRange) :
    (m.spendCoin outpoint).totalValue ≤ m.totalValue := by
  cases found : m.lookup outpoint with
  | none => exact (AList.sumValues_erase_of_lookup_none found).le
  | some coin =>
      have spent := totalValue_spendCoin_add found
      have nonneg := value_nonneg inRange found
      linarith

/-- `AddCoin` adds at most the coin's value: an unspendable output adds
nothing, and a coin it replaces takes its value away. -/
theorem totalValue_addCoin_le (inRange : m.InMoneyRange) (nonneg : 0 ≤ coin.out.nValue) :
    (m.addCoin outpoint coin).totalValue ≤ m.totalValue + coin.out.nValue := by
  unfold addCoin
  split
  · linarith
  · have inserted : totalValue (m.insert outpoint coin) = coin.out.nValue + (m.spendCoin outpoint).totalValue :=
      AList.sumValues_insert coin
    have erased : (m.spendCoin outpoint).totalValue ≤ m.totalValue := totalValue_spendCoin_le inRange
    linarith

theorem InMoneyRange.spendCoin (inRange : m.InMoneyRange) : (m.spendCoin outpoint).InMoneyRange := by
  intro key stored found
  rw [lookup_spendCoin] at found
  split at found
  · cases found
  · exact inRange key stored found

theorem InMoneyRange.addCoin (inRange : m.InMoneyRange) (ranged : moneyRange coin.out.nValue = true) :
    (m.addCoin outpoint coin).InMoneyRange := by
  intro key stored found
  rw [lookup_addCoin] at found
  split at found
  · exact inRange key stored found
  · split at found
    · cases found
      exact ranged
    · exact inRange key stored found

theorem lookup_spendInputs (vin : List CTxIn) (key : COutPoint) :
    (m.spendInputs vin).lookup key = if key ∈ vin.map (·.prevout) then none else m.lookup key := by
  induction vin generalizing m with
  | nil => simp [spendInputs]
  | cons txin rest ih =>
      rw [spendInputs, ih, lookup_spendCoin]
      by_cases spent : key = txin.prevout <;> simp [spent]

theorem lookup_spendInputs_of_none {vin : List CTxIn} {key : COutPoint} (absent : m.lookup key = none) :
    (m.spendInputs vin).lookup key = none := by
  rw [lookup_spendInputs]
  split
  · rfl
  · exact absent

theorem lookup_addOutputs_of_notMem {txid : uint256} {nHeight : Nat} {fCoinbase : Bool} {i : Nat}
    {outs : List CTxOut} {key : COutPoint} (untouched : key ∉ outputPoints txid i outs.length) :
    (addOutputs txid nHeight fCoinbase i outs m).lookup key = m.lookup key := by
  induction outs generalizing i m with
  | nil => rfl
  | cons txout rest ih =>
      simp only [outputPoints, List.length_cons, List.range'_succ, List.map_cons, List.mem_cons, not_or] at untouched
      rw [addOutputs, ih untouched.2, lookup_addCoin, if_neg untouched.1]
      split <;> rfl

theorem inputCoins_cons_eq_some {txin : CTxIn} {rest : List CTxIn} {coins : List Coin} :
    m.inputCoins (txin :: rest) = some coins ↔
      ∃ coin coinsRest, m.lookup txin.prevout = some coin ∧ m.inputCoins rest = some coinsRest ∧
        coins = coin :: coinsRest := by
  simp only [inputCoins, Option.bind_eq_bind, Option.bind_eq_some_iff, Option.pure_def, Option.some.injEq]
  constructor
  · rintro ⟨coin, present, coinsRest, foundRest, rfl⟩
    exact ⟨coin, coinsRest, present, foundRest, rfl⟩
  · rintro ⟨coin, coinsRest, present, foundRest, rfl⟩
    exact ⟨coin, present, coinsRest, foundRest, rfl⟩

theorem inputCoins_congr {m₁ m₂ : UtxoMap} {vin : List CTxIn}
    (same : ∀ txin ∈ vin, m₁.lookup txin.prevout = m₂.lookup txin.prevout) :
    m₁.inputCoins vin = m₂.inputCoins vin := by
  induction vin with
  | nil => rfl
  | cons txin rest ih =>
      simp only [inputCoins]
      rw [same txin List.mem_cons_self, ih fun other listed => same other (List.mem_cons_of_mem _ listed)]

/-- The later inputs of a transaction whose inputs are distinct see the map
without the first input's coin as they saw the map. -/
theorem inputCoins_spendCoin {txin : CTxIn} {rest : List CTxIn}
    (distinct : ((txin :: rest).map (·.prevout)).Nodup) :
    (m.spendCoin txin.prevout).inputCoins rest = m.inputCoins rest := by
  rw [List.map_cons, List.nodup_cons] at distinct
  apply inputCoins_congr
  intro other listed
  rw [lookup_spendCoin, if_neg]
  exact fun same => distinct.1 (same ▸ List.mem_map_of_mem listed)

/-- Spending distinct inputs that the map has takes their values away. -/
theorem lookup_of_mem_inputCoins {vin : List CTxIn} {coins : List Coin} (found : m.inputCoins vin = some coins)
    (listed : coin ∈ coins) : ∃ txin ∈ vin, m.lookup txin.prevout = some coin := by
  induction vin generalizing coins with
  | nil =>
      cases found
      cases listed
  | cons txin rest ih =>
      obtain ⟨first, coinsRest, present, foundRest, rfl⟩ := inputCoins_cons_eq_some.mp found
      rcases List.mem_cons.mp listed with rfl | later
      · exact ⟨txin, List.mem_cons_self, present⟩
      · obtain ⟨other, input, otherPresent⟩ := ih foundRest later
        exact ⟨other, List.mem_cons_of_mem _ input, otherPresent⟩

theorem length_of_inputCoins {vin : List CTxIn} {coins : List Coin} (found : m.inputCoins vin = some coins) :
    coins.length = vin.length := by
  induction vin generalizing coins with
  | nil =>
      cases found
      rfl
  | cons txin rest ih =>
      obtain ⟨first, coinsRest, -, foundRest, rfl⟩ := inputCoins_cons_eq_some.mp found
      simp [ih foundRest]

/-! What the output loop writes, and how it commutes with `SpendCoin`: the
lemmas by which a block's effect on the map is undone. -/

section

variable {m₁ m₂ : UtxoMap} {txid : uint256} {nHeight : Nat} {fCoinbase : Bool}

theorem lookup_addCoin_congr (same : ∀ key, m₁.lookup key = m₂.lookup key) (outpoint : COutPoint) (coin : Coin)
    (key : COutPoint) : (m₁.addCoin outpoint coin).lookup key = (m₂.addCoin outpoint coin).lookup key := by
  simp only [lookup_addCoin, same key]

theorem lookup_addOutputs_congr (same : ∀ key, m₁.lookup key = m₂.lookup key) (i : Nat) (outs : List CTxOut)
    (key : COutPoint) :
    (addOutputs txid nHeight fCoinbase i outs m₁).lookup key = (addOutputs txid nHeight fCoinbase i outs m₂).lookup key := by
  induction outs generalizing i m₁ m₂ with
  | nil => exact same key
  | cons txout rest ih => exact ih (lookup_addCoin_congr same _ _) (i + 1)

/-- Spending an outpoint the output loop does not write commutes with it. -/
theorem lookup_addOutputs_spendCoin {i : Nat} {outs : List CTxOut}
    (untouched : outpoint ∉ outputPoints txid i outs.length) (key : COutPoint) :
    ((addOutputs txid nHeight fCoinbase i outs m).spendCoin outpoint).lookup key =
      (addOutputs txid nHeight fCoinbase i outs (m.spendCoin outpoint)).lookup key := by
  induction outs generalizing i m with
  | nil => rfl
  | cons txout rest ih =>
      simp only [outputPoints, List.length_cons, List.range'_succ, List.map_cons, List.mem_cons, not_or]
        at untouched
      rw [addOutputs, addOutputs, ih untouched.2]
      apply lookup_addOutputs_congr
      intro other
      simp only [lookup_addCoin, lookup_spendCoin]
      by_cases spent : other = outpoint
      · subst spent
        simp [untouched.1]
      · simp [spent]

/-- Writing a coin where the map holds none and spending it leaves the map. -/
theorem lookup_addCoin_spendCoin_of_none (absent : m.lookup outpoint = none) (coin : Coin) (key : COutPoint) :
    ((m.addCoin outpoint coin).spendCoin outpoint).lookup key = m.lookup key := by
  rw [lookup_spendCoin, lookup_addCoin]
  by_cases here : key = outpoint
  · subst here
    simp [absent]
  · simp [here]

/-- Spending a coin the map holds and writing it back leaves the map, when its
script is spendable. -/
theorem lookup_spendCoin_addCoin_of_some (present : m.lookup outpoint = some coin)
    (spendable : coin.out.scriptPubKey.isUnspendable = false) (key : COutPoint) :
    ((m.spendCoin outpoint).addCoin outpoint coin).lookup key = m.lookup key := by
  rw [lookup_addCoin, lookup_spendCoin]
  by_cases here : key = outpoint
  · subst here
    simp [present, spendable]
  · simp [here]

/-- The first output the loop writes, when no later one writes over it. -/
theorem lookup_addOutputs_first {i : Nat} {txout : CTxOut} {rest : List CTxOut}
    (first : (⟨txid, UInt32.ofNat i⟩ : COutPoint) ∉ outputPoints txid (i + 1) rest.length) :
    (addOutputs txid nHeight fCoinbase i (txout :: rest) m).lookup ⟨txid, UInt32.ofNat i⟩ =
      if txout.scriptPubKey.isUnspendable then m.lookup ⟨txid, UInt32.ofNat i⟩
      else some ⟨txout, fCoinbase, nHeight⟩ := by
  rw [addOutputs, lookup_addOutputs_of_notMem first, lookup_addCoin]
  simp

end

theorem totalValue_spendInputs {vin : List CTxIn} {coins : List Coin}
    (distinct : (vin.map (·.prevout)).Nodup) (found : m.inputCoins vin = some coins) :
    (m.spendInputs vin).totalValue + (coinValues coins).sum = m.totalValue := by
  induction vin generalizing m coins with
  | nil =>
      cases found
      simp [spendInputs, coinValues]
  | cons txin rest ih =>
      obtain ⟨coin, coinsRest, present, foundRest, rfl⟩ := inputCoins_cons_eq_some.mp found
      have rest_total := ih (List.nodup_cons.mp distinct).2 ((inputCoins_spendCoin distinct).trans foundRest)
      have head := totalValue_spendCoin_add present
      rw [spendInputs, coinValues, List.map_cons, List.sum_cons]
      rw [coinValues] at rest_total
      linarith

theorem InMoneyRange.spendInputs (inRange : m.InMoneyRange) (vin : List CTxIn) : (m.spendInputs vin).InMoneyRange := by
  induction vin generalizing m with
  | nil => exact inRange
  | cons txin rest ih => exact ih inRange.spendCoin

/-- The outputs `AddCoins` writes add at most their values. -/
theorem totalValue_addOutputs_le (inRange : m.InMoneyRange) {txid : uint256} {nHeight : Nat} {fCoinbase : Bool}
    {i : Nat} {outs : List CTxOut} (ranged : ∀ txout ∈ outs, moneyRange txout.nValue = true) :
    (addOutputs txid nHeight fCoinbase i outs m).totalValue ≤ m.totalValue + (outs.map (·.nValue)).sum ∧
      (addOutputs txid nHeight fCoinbase i outs m).InMoneyRange := by
  induction outs generalizing i m with
  | nil => exact ⟨by simp [addOutputs], inRange⟩
  | cons txout rest ih =>
      have headRanged := ranged txout List.mem_cons_self
      have nonneg : 0 ≤ txout.nValue := by
        simp only [moneyRange, Bool.and_eq_true, decide_eq_true_eq] at headRanged
        exact headRanged.1
      have added : (m.addCoin ⟨txid, UInt32.ofNat i⟩ ⟨txout, fCoinbase, nHeight⟩).totalValue ≤
          m.totalValue + txout.nValue := totalValue_addCoin_le inRange nonneg
      have addedRange : (m.addCoin ⟨txid, UInt32.ofNat i⟩ ⟨txout, fCoinbase, nHeight⟩).InMoneyRange :=
        inRange.addCoin headRanged
      obtain ⟨later, laterRange⟩ := ih addedRange fun other listed => ranged other (List.mem_cons_of_mem _ listed)
      refine ⟨?_, laterRange⟩
      rw [addOutputs, List.map_cons, List.sum_cons]
      linarith

section

variable (hashes : Hashes) {tx : CTransaction} (nHeight : Nat)

theorem InMoneyRange.updateCoins (inRange : m.InMoneyRange)
    (ranged : ∀ txout ∈ tx.vout, moneyRange txout.nValue = true) : (m.updateCoins hashes tx nHeight).InMoneyRange := by
  have spentRange : (if tx.isCoinBase then m else m.spendInputs tx.vin).InMoneyRange := by
    split
    · exact inRange
    · exact inRange.spendInputs tx.vin
  exact (totalValue_addOutputs_le spentRange ranged).2

/-- A coinbase adds at most the value of its outputs. -/
theorem totalValue_updateCoins_of_isCoinBase (inRange : m.InMoneyRange)
    (ranged : ∀ txout ∈ tx.vout, moneyRange txout.nValue = true) (coinbase : tx.isCoinBase = true) :
    (m.updateCoins hashes tx nHeight).totalValue ≤ m.totalValue + (tx.vout.map (·.nValue)).sum := by
  rw [updateCoins, if_pos coinbase]
  exact (totalValue_addOutputs_le inRange ranged).1

/-- Any other transaction takes away the coins its distinct inputs spend and
adds at most the value of its outputs. -/
theorem totalValue_updateCoins_add (inRange : m.InMoneyRange)
    (ranged : ∀ txout ∈ tx.vout, moneyRange txout.nValue = true) (notCoinbase : tx.isCoinBase = false)
    (distinct : (tx.vin.map (·.prevout)).Nodup) {coins : List Coin} (found : m.inputCoins tx.vin = some coins) :
    (m.updateCoins hashes tx nHeight).totalValue + (coinValues coins).sum ≤
      m.totalValue + (tx.vout.map (·.nValue)).sum := by
  have spent := totalValue_spendInputs distinct found
  rw [updateCoins, if_neg (by simp [notCoinbase])]
  have added : (addOutputs (tx.getHash hashes) nHeight tx.isCoinBase 0 tx.vout (m.spendInputs tx.vin)).totalValue ≤
      (m.spendInputs tx.vin).totalValue + (tx.vout.map (·.nValue)).sum :=
    (totalValue_addOutputs_le (inRange.spendInputs tx.vin) ranged).1
  linarith

end

end UtxoMap

end Qbitcoin
