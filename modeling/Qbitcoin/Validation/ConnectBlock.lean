import Qbitcoin.Coins.View
import Qbitcoin.Validation.CheckBlock

/-!
# Connecting a block

`Chainstate::ConnectBlock` of `validation.cpp` on a view, the top cache of a
stack: `CheckBlock`, the genesis shortcut, the BIP30 check, and the transaction
loop with `Consensus::CheckTxInputs` of `consensus/tx_verify.cpp`, the fee
total and `UpdateCoins`, then the coinbase's limit `GetBlockSubsidy` plus the
fees.

A rejection is its reject reason as an error, and so is an exception or a
failed `assert`.  The checks of the loop that the value accounting does not
read (BIP68 sequence locks, the signature-operation cost, the scripts) read the
view without changing what it reports; they are the parameter `txChecks`.
-/

namespace Qbitcoin

variable {view : CoinsStack} {m : UtxoMap}

/-- `COINBASE_MATURITY`. -/
def COINBASE_MATURITY : Int := 100

/-- The output loop of `CTransaction::GetValueOut`, with the running total. -/
def getValueOutLoop : List CTxOut → CAmount → Except String CAmount
  | [], nValueOut => pure nValueOut
  | tx_out :: rest, nValueOut =>
      if !moneyRange tx_out.nValue || !moneyRange (nValueOut + tx_out.nValue) then
        throw "GetValueOut: value out of range"
      else getValueOutLoop rest (nValueOut + tx_out.nValue)

/-- `CTransaction::GetValueOut`. -/
def CTransaction.getValueOut (tx : CTransaction) : Except String CAmount := getValueOutLoop tx.vout 0

/-- Every running total of `amounts` from `start` is in the money range: the
total after the first `k`, for each `k`. -/
def RunningTotalsInRange (start : CAmount) (amounts : List CAmount) : Prop :=
  ∀ k ≤ amounts.length, moneyRange (start + (amounts.take k).sum) = true

namespace RunningTotalsInRange

variable {start a : CAmount} {amounts : List CAmount}

theorem nil (inRange : moneyRange start = true) : RunningTotalsInRange start [] := by
  intro k short
  simpa [Nat.le_zero.mp short] using inRange

theorem cons (inRange : moneyRange start = true) (rest : RunningTotalsInRange (start + a) amounts) :
    RunningTotalsInRange start (a :: amounts) := by
  intro k short
  cases k with
  | zero => simpa using inRange
  | succ k => simpa [add_assoc] using rest k (by simpa using short)

theorem total (totals : RunningTotalsInRange start amounts) : moneyRange (start + amounts.sum) = true := by
  simpa using totals amounts.length le_rfl

end RunningTotalsInRange

theorem getValueOutLoop_eq_ok {outs : List CTxOut} {nValueOut total : CAmount}
    (start : moneyRange nValueOut = true) (summed : getValueOutLoop outs nValueOut = .ok total) :
    total = nValueOut + (outs.map (·.nValue)).sum ∧ RunningTotalsInRange nValueOut (outs.map (·.nValue)) := by
  induction outs generalizing nValueOut with
  | nil =>
      cases summed
      exact ⟨by simp, .nil start⟩
  | cons txout rest ih =>
      simp only [getValueOutLoop] at summed
      split at summed
      · simp at summed
      · rename_i inRange
        simp only [Bool.or_eq_true, Bool.not_eq_true', not_or, Bool.not_eq_false] at inRange
        obtain ⟨total_eq, totals⟩ := ih inRange.2 summed
        exact ⟨by rw [total_eq, List.map_cons, List.sum_cons, add_assoc], .cons start totals⟩

theorem CTransaction.getValueOut_eq_ok {tx : CTransaction} {value_out : CAmount}
    (summed : tx.getValueOut = .ok value_out) :
    value_out = (tx.vout.map (·.nValue)).sum ∧ RunningTotalsInRange 0 (tx.vout.map (·.nValue)) := by
  obtain ⟨total_eq, totals⟩ := getValueOutLoop_eq_ok (by decide) summed
  exact ⟨by simpa using total_eq, totals⟩

/-- `GetBlockSubsidy`: fifty coins, halved every `nSubsidyHalvingInterval`
blocks, and nothing once the shift would pass 63. -/
def getBlockSubsidy (nHeight nSubsidyHalvingInterval : Nat) : CAmount :=
  let halvings := nHeight / nSubsidyHalvingInterval
  if halvings ≥ 64 then 0 else (50 * COIN) >>> halvings

theorem getBlockSubsidy_nonneg (nHeight nSubsidyHalvingInterval : Nat) :
    0 ≤ getBlockSubsidy nHeight nSubsidyHalvingInterval := by
  unfold getBlockSubsidy
  dsimp only
  split
  · exact le_rfl
  · rw [Int.shiftRight_eq_div_pow]
    exact Int.ediv_nonneg (by decide) (by positivity)

theorem getBlockSubsidy_le (nHeight nSubsidyHalvingInterval : Nat) :
    getBlockSubsidy nHeight nSubsidyHalvingInterval ≤ 50 * COIN := by
  unfold getBlockSubsidy
  dsimp only
  split
  · decide
  · rw [Int.shiftRight_eq_div_pow]
    exact Int.ediv_le_self _ (by decide)

/-- `CTxUndo`: the coins a transaction spent, in the order of its inputs. -/
abbrev CTxUndo := List Coin

/-- `CBlockUndo`: the records of the transactions after the coinbase. -/
abbrev CBlockUndo := List CTxUndo

/-! ## `CheckTxInputs` -/

/-- The loop of `CCoinsViewCache::HaveInputs`. -/
def haveInputsLoop : List CTxIn → CoinsStack → Except String (Bool × CoinsStack)
  | [], view => pure (true, view)
  | txin :: rest, view => do
      let (unspent, view) ← view.haveCoinTop txin.prevout
      if unspent then haveInputsLoop rest view else pure (false, view)

/-- `CCoinsViewCache::HaveInputs`. -/
def haveInputs (tx : CTransaction) (view : CoinsStack) : Except String (Bool × CoinsStack) :=
  if tx.isCoinBase then pure (true, view) else haveInputsLoop tx.vin view

/-- The input loop of `Consensus::CheckTxInputs`, with the running total
`nValueIn`: the sum is taken before its range is checked. -/
def inputValues (nSpendHeight : Int) : List CTxIn → CAmount → CoinsStack → Except String (CAmount × CoinsStack)
  | [], nValueIn, view => pure (nValueIn, view)
  | txin :: rest, nValueIn, view => do
      let (coin, view) ← view.accessCoinTop txin.prevout
      if coin.isSpent then throw "Assertion !coin.IsSpent() failed"
      if coin.fCoinBase && decide (nSpendHeight - coin.nHeight < COINBASE_MATURITY) then
        throw "bad-txns-premature-spend-of-coinbase"
      let nValueIn := nValueIn + coin.out.nValue
      if !moneyRange coin.out.nValue || !moneyRange nValueIn then throw "bad-txns-inputvalues-outofrange"
      inputValues nSpendHeight rest nValueIn view

/-- `Consensus::CheckTxInputs`: the fee. -/
def checkTxInputs (tx : CTransaction) (nSpendHeight : Int) (view : CoinsStack) :
    Except String (CAmount × CoinsStack) := do
  let (haveAll, view) ← haveInputs tx view
  if !haveAll then throw "bad-txns-inputs-missingorspent"
  let (nValueIn, view) ← inputValues nSpendHeight tx.vin 0 view
  let value_out ← tx.getValueOut
  if nValueIn < value_out then throw "bad-txns-in-belowout"
  let txfee_aux := nValueIn - value_out
  if !moneyRange txfee_aux then throw "bad-txns-fee-outofrange"
  pure (txfee_aux, view)

theorem inputValues_eq_ok (refines : view.Refines m) {nSpendHeight : Int} {vin : List CTxIn}
    {nValueIn total : CAmount} {view' : CoinsStack} (start : moneyRange nValueIn = true)
    (summed : inputValues nSpendHeight vin nValueIn view = .ok (total, view')) :
    view'.Refines m ∧ ∃ coins, m.inputCoins vin = some coins ∧
      total = nValueIn + (coinValues coins).sum ∧ RunningTotalsInRange nValueIn (coinValues coins) := by
  induction vin generalizing nValueIn view with
  | nil =>
      cases summed
      exact ⟨refines, [], rfl, by simp [coinValues], .nil start⟩
  | cons txin rest ih =>
      simp only [inputValues, Except.bind_eq_ok] at summed
      obtain ⟨⟨coin, view₁⟩, accessed, summed⟩ := summed
      obtain ⟨refines₁, stored, missing⟩ := CoinsStack.accessCoinTop_eq_ok refines accessed
      simp only [Except.ite_throw_eq_ok] at summed
      obtain ⟨unspent, -, inRange, summed⟩ := summed
      have present : m.lookup txin.prevout = some coin := by
        cases looked : m.lookup txin.prevout with
        | none => exact absurd (missing looked) unspent
        | some c => rw [stored c looked]
      simp only [Bool.or_eq_true, Bool.not_eq_true', not_or, Bool.not_eq_false] at inRange
      obtain ⟨refines', coins, found, total_eq, totals⟩ := ih refines₁ inRange.2 summed
      refine ⟨refines', coin :: coins, by simp [UtxoMap.inputCoins, present, found], ?_, .cons start totals⟩
      rw [total_eq, coinValues, coinValues, List.map_cons, List.sum_cons, add_assoc]

theorem haveInputsLoop_eq_ok (refines : view.Refines m) {vin : List CTxIn} {haveAll : Bool} {view' : CoinsStack}
    (answered : haveInputsLoop vin view = .ok (haveAll, view')) :
    haveAll = vin.all (fun txin => (m.lookup txin.prevout).isSome) ∧ view'.Refines m := by
  induction vin generalizing view with
  | nil =>
      cases answered
      exact ⟨rfl, refines⟩
  | cons txin rest ih =>
      simp only [haveInputsLoop, Except.bind_eq_ok] at answered
      obtain ⟨⟨unspent, view₁⟩, had, answered⟩ := answered
      obtain ⟨rfl, refines₁⟩ := CoinsStack.haveCoinTop_eq_ok refines had
      cases present : (m.lookup txin.prevout).isSome with
      | true =>
          simp only [present, if_true] at answered
          simpa [present] using ih refines₁ answered
      | false =>
          simp only [present, Bool.false_eq_true, if_false, Except.pure_eq_ok, Prod.mk.injEq] at answered
          obtain ⟨rfl, rfl⟩ := answered
          simp [present, refines₁]

theorem haveInputs_eq_ok (refines : view.Refines m) {tx : CTransaction} {haveAll : Bool} {view' : CoinsStack}
    (answered : haveInputs tx view = .ok (haveAll, view')) : view'.Refines m := by
  unfold haveInputs at answered
  split at answered
  · cases answered
    exact refines
  · exact (haveInputsLoop_eq_ok refines answered).2

theorem checkTxInputs_eq_ok (refines : view.Refines m) {tx : CTransaction} {nSpendHeight : Int}
    {txfee : CAmount} {view' : CoinsStack} (checked : checkTxInputs tx nSpendHeight view = .ok (txfee, view')) :
    view'.Refines m ∧ ∃ coins, m.inputCoins tx.vin = some coins ∧
      RunningTotalsInRange 0 (coinValues coins) ∧ RunningTotalsInRange 0 (tx.vout.map (·.nValue)) ∧
      txfee = (coinValues coins).sum - (tx.vout.map (·.nValue)).sum ∧ moneyRange txfee = true := by
  simp only [checkTxInputs, Except.bind_eq_ok] at checked
  obtain ⟨⟨haveAll, view₁⟩, had, checked⟩ := checked
  have refines₁ := haveInputs_eq_ok refines had
  simp only [Except.ite_throw_eq_ok, Except.bind_eq_ok] at checked
  obtain ⟨-, ⟨nValueIn, view₂⟩, summed, value_out, valued, -, feeRange, returned⟩ := checked
  simp only [Except.pure_eq_ok, Prod.mk.injEq] at returned
  obtain ⟨rfl, rfl⟩ := returned
  obtain ⟨refines₂, coins, found, total_eq, inTotals⟩ := inputValues_eq_ok refines₁ (by decide) summed
  obtain ⟨out_eq, outTotals⟩ := CTransaction.getValueOut_eq_ok valued
  refine ⟨refines₂, coins, found, inTotals, outTotals, by rw [total_eq, out_eq, zero_add], by simpa using feeRange⟩

/-! ## `UpdateCoins` -/

/-- The input loop of `UpdateCoins`: each input's coin is spent and moved into
the undo record. -/
def spendInputs : List CTxIn → CoinsStack → Except String (CTxUndo × CoinsStack)
  | [], view => pure ([], view)
  | txin :: rest, view => do
      let ((is_spent, moved), view) ← view.spendCoinTop txin.prevout
      if !is_spent then throw "Assertion is_spent failed"
      let (txundo, view) ← spendInputs rest view
      pure (moved.getD Coin.empty :: txundo, view)

/-- The output loop of `AddCoins` without `check_for_overwrite`: only a
coinbase's outputs may overwrite. -/
def addCoinsLoop (txid : uint256) (nHeight : Nat) (fCoinbase : Bool) :
    Nat → List CTxOut → CoinsStack → Except String CoinsStack
  | _, [], view => pure view
  | i, txout :: rest, view => do
      let view ← view.step (.addCoin ⟨txid, UInt32.ofNat i⟩ ⟨txout, fCoinbase, nHeight⟩ fCoinbase)
      addCoinsLoop txid nHeight fCoinbase (i + 1) rest view

/-- `AddCoins`. -/
def addCoins (hashes : Hashes) (tx : CTransaction) (nHeight : Nat) (view : CoinsStack) :
    Except String CoinsStack :=
  addCoinsLoop (tx.getHash hashes) nHeight tx.isCoinBase 0 tx.vout view

/-- `UpdateCoins`: the undo record and the view after. -/
def updateCoins (hashes : Hashes) (tx : CTransaction) (view : CoinsStack) (nHeight : Nat) :
    Except String (CTxUndo × CoinsStack) := do
  let (txundo, view) ← if tx.isCoinBase then pure ([], view) else spendInputs tx.vin view
  let view ← addCoins hashes tx nHeight view
  pure (txundo, view)

/-- An output in the money range is no spent coin. -/
theorem Coin.isSpent_of_moneyRange {txout : CTxOut} (ranged : moneyRange txout.nValue = true) (fCoinBase : Bool)
    (nHeight : Nat) : (⟨txout, fCoinBase, nHeight⟩ : Coin).isSpent = false := by
  simp only [moneyRange, Bool.and_eq_true, decide_eq_true_eq] at ranged
  simp only [Coin.isSpent, CTxOut.isNull, beq_eq_false_iff_ne]
  intro negative
  linarith [ranged.1]

/-- The first `AddCoin` of the output loop is allowed: a coinbase may
overwrite, and any other transaction writes where the map holds nothing. -/
theorem allowed_addCoin_output (refines : view.Refines m) (nonempty : view.layers ≠ []) {txid : uint256} {i : Nat}
    {txout : CTxOut} (ranged : moneyRange txout.nValue = true) {fCoinbase : Bool} (nHeight : Nat)
    (fresh : fCoinbase = true ∨ m.lookup ⟨txid, UInt32.ofNat i⟩ = none) :
    view.allowed (.addCoin ⟨txid, UInt32.ofNat i⟩ ⟨txout, fCoinbase, nHeight⟩ fCoinbase) = true := by
  simp only [CoinsStack.allowed, Coin.isSpent_of_moneyRange ranged, refines.reports, Bool.and_eq_true,
    Bool.not_eq_true', List.isEmpty_eq_false_iff, Bool.not_false, Bool.or_eq_true, Option.isNone_iff_eq_none]
  exact ⟨⟨nonempty, trivial⟩, fresh⟩

/-- The condition of the output loop, split at its first output: that output
may be written, and the condition holds of the rest on the map after it. -/
theorem addsFresh_cons {txid : uint256} {fCoinbase : Bool} {i : Nat} {rest : List CTxOut} (coin : Coin)
    (fresh : fCoinbase = true ∨ (outputPoints txid i (rest.length + 1)).Nodup ∧
      ∀ o ∈ outputPoints txid i (rest.length + 1), m.lookup o = none) :
    (fCoinbase = true ∨ m.lookup ⟨txid, UInt32.ofNat i⟩ = none) ∧
      (fCoinbase = true ∨ (outputPoints txid (i + 1) rest.length).Nodup ∧
        ∀ o ∈ outputPoints txid (i + 1) rest.length, (m.addCoin ⟨txid, UInt32.ofNat i⟩ coin).lookup o = none) := by
  simp only [outputPoints, List.range'_succ, List.map_cons, List.nodup_cons, List.mem_cons, forall_eq_or_imp]
    at fresh
  rcases fresh with coinbase | ⟨⟨first, distinct⟩, absent, absentLater⟩
  · exact ⟨.inl coinbase, .inl coinbase⟩
  refine ⟨.inr absent, .inr ⟨distinct, fun o listed => ?_⟩⟩
  have other : o ≠ ⟨txid, UInt32.ofNat i⟩ := fun same => first (same ▸ listed)
  rw [UtxoMap.lookup_addCoin, if_neg other]
  split <;> exact absentLater o listed

theorem spendInputs_eq_ok (refines : view.Refines m) {vin : List CTxIn} {undo : CTxUndo} {view' : CoinsStack}
    (spent : spendInputs vin view = .ok (undo, view')) :
    view'.Refines (m.spendInputs vin) ∧
      ∀ coins, (vin.map (·.prevout)).Nodup → m.inputCoins vin = some coins → undo = coins := by
  induction vin generalizing m view undo with
  | nil =>
      cases spent
      exact ⟨refines, fun coins _ found => by cases found; rfl⟩
  | cons txin rest ih =>
      simp only [spendInputs, Except.bind_eq_ok] at spent
      obtain ⟨⟨⟨is_spent, moved⟩, view₁⟩, spentTop, spent⟩ := spent
      obtain ⟨refines₁, movedOut⟩ := CoinsStack.spendCoinTop_eq_ok refines spentTop
      simp only [Except.ite_throw_eq_ok, Except.bind_eq_ok] at spent
      obtain ⟨-, ⟨txundo, view₂⟩, spentRest, returned⟩ := spent
      simp only [Except.pure_eq_ok, Prod.mk.injEq] at returned
      obtain ⟨rfl, rfl⟩ := returned
      obtain ⟨refines', undone⟩ := ih refines₁ spentRest
      refine ⟨refines', fun coins distinct found => ?_⟩
      obtain ⟨coin, coinsRest, present, foundRest, rfl⟩ := UtxoMap.inputCoins_cons_eq_some.mp found
      have restUndone := undone coinsRest (List.nodup_cons.mp distinct).2
        ((UtxoMap.inputCoins_spendCoin distinct).trans foundRest)
      rw [(movedOut coin present).2, restUndone]
      rfl

theorem spendInputs_spec (refines : view.Refines m) (nonempty : view.layers ≠ []) {vin : List CTxIn}
    {coins : List Coin} (distinct : (vin.map (·.prevout)).Nodup) (found : m.inputCoins vin = some coins) :
    ∃ view', spendInputs vin view = .ok (coins, view') ∧ view'.Refines (m.spendInputs vin) ∧ view'.layers ≠ [] := by
  induction vin generalizing m view coins with
  | nil =>
      cases found
      exact ⟨view, rfl, refines, nonempty⟩
  | cons txin rest ih =>
      obtain ⟨coin, coinsRest, present, foundRest, rfl⟩ := UtxoMap.inputCoins_cons_eq_some.mp found
      obtain ⟨isSpent, moved, view₁, spent, refines₁, movedOut⟩ :=
        CoinsStack.spendCoinTop_spec refines nonempty txin.prevout
      obtain ⟨rfl, rfl⟩ := movedOut coin present
      obtain ⟨view', spentRest, refines', nonempty'⟩ := ih refines₁ (CoinsStack.layers_ne_nil_after_onTop spent)
        (List.nodup_cons.mp distinct).2 ((UtxoMap.inputCoins_spendCoin distinct).trans foundRest)
      exact ⟨view', by simp [spendInputs, spent, spentRest], refines', nonempty'⟩

theorem addCoinsLoop_eq_ok (refines : view.Refines m) {txid : uint256} {nHeight : Nat} {fCoinbase : Bool}
    {i : Nat} {outs : List CTxOut} {view' : CoinsStack}
    (fresh : fCoinbase = true ∨
      (outputPoints txid i outs.length).Nodup ∧ ∀ o ∈ outputPoints txid i outs.length, m.lookup o = none)
    (ranged : ∀ txout ∈ outs, moneyRange txout.nValue = true)
    (added : addCoinsLoop txid nHeight fCoinbase i outs view = .ok view') :
    view'.Refines (UtxoMap.addOutputs txid nHeight fCoinbase i outs m) := by
  induction outs generalizing i m view with
  | nil =>
      cases added
      exact refines
  | cons txout rest ih =>
      simp only [addCoinsLoop, Except.bind_eq_ok] at added
      obtain ⟨view₁, stepped, added⟩ := added
      have nonempty : view.layers ≠ [] := by
        intro empty
        simp [CoinsStack.step, empty] at stepped
      obtain ⟨first, later⟩ := addsFresh_cons ⟨txout, fCoinbase, nHeight⟩ fresh
      have allowed := allowed_addCoin_output refines nonempty (ranged txout List.mem_cons_self) nHeight first
      exact ih (CoinsStack.step_eq_ok_refines refines allowed stepped) later
        (fun other listed => ranged other (List.mem_cons_of_mem _ listed)) added

theorem addCoinsLoop_spec (refines : view.Refines m) (nonempty : view.layers ≠ []) {txid : uint256} (nHeight : Nat)
    (fCoinbase : Bool) {i : Nat} {outs : List CTxOut}
    (fresh : fCoinbase = true ∨
      (outputPoints txid i outs.length).Nodup ∧ ∀ o ∈ outputPoints txid i outs.length, m.lookup o = none)
    (ranged : ∀ txout ∈ outs, moneyRange txout.nValue = true) :
    ∃ view', addCoinsLoop txid nHeight fCoinbase i outs view = .ok view' ∧
      view'.Refines (UtxoMap.addOutputs txid nHeight fCoinbase i outs m) ∧ view'.layers ≠ [] := by
  induction outs generalizing i m view with
  | nil => exact ⟨view, rfl, refines, nonempty⟩
  | cons txout rest ih =>
      obtain ⟨first, later⟩ := addsFresh_cons ⟨txout, fCoinbase, nHeight⟩ fresh
      have allowed := allowed_addCoin_output refines nonempty (ranged txout List.mem_cons_self) nHeight first
      obtain ⟨view₁, stepped, refines₁⟩ := CoinsStack.step_refines refines allowed
      obtain ⟨view', added, refines', nonempty'⟩ := ih refines₁ (CoinsStack.layers_ne_nil_after_step_addCoin stepped)
        later fun other listed => ranged other (List.mem_cons_of_mem _ listed)
      exact ⟨view', by simp [addCoinsLoop, stepped, added], refines', nonempty'⟩

theorem updateCoins_eq_ok (refines : view.Refines m) {hashes : Hashes} {tx : CTransaction} {nHeight : Nat}
    {txundo : CTxUndo} {view' : CoinsStack}
    (fresh : tx.isCoinBase = true ∨ (outputPoints (tx.getHash hashes) 0 tx.vout.length).Nodup ∧
      ∀ o ∈ outputPoints (tx.getHash hashes) 0 tx.vout.length, m.lookup o = none)
    (ranged : ∀ txout ∈ tx.vout, moneyRange txout.nValue = true)
    (updated : updateCoins hashes tx view nHeight = .ok (txundo, view')) :
    view'.Refines (m.updateCoins hashes tx nHeight) ∧
      (tx.isCoinBase = false → ∀ coins, (tx.vin.map (·.prevout)).Nodup → m.inputCoins tx.vin = some coins →
        txundo = coins) := by
  simp only [updateCoins, addCoins] at updated
  split at updated <;> simp only [Except.bind_eq_ok, Except.pure_eq_ok, Prod.exists, Prod.mk.injEq] at updated
  · rename_i coinbase
    obtain ⟨_, _, ⟨rfl, rfl⟩, view₂, added, rfl, rfl⟩ := updated
    have refinesAdded := addCoinsLoop_eq_ok refines (.inl coinbase) ranged added
    exact ⟨by simpa [UtxoMap.updateCoins, coinbase] using refinesAdded,
      fun notCoinbase => absurd coinbase (by simp [notCoinbase])⟩
  · rename_i notCoinbase
    obtain ⟨txundo₁, view₁, spent, view₂, added, rfl, rfl⟩ := updated
    obtain ⟨refines₁, undone⟩ := spendInputs_eq_ok refines spent
    have stillFresh : tx.isCoinBase = true ∨ (outputPoints (tx.getHash hashes) 0 tx.vout.length).Nodup ∧
        ∀ o ∈ outputPoints (tx.getHash hashes) 0 tx.vout.length, (m.spendInputs tx.vin).lookup o = none :=
      fresh.imp_right fun outputs =>
        ⟨outputs.1, fun o listed => UtxoMap.lookup_spendInputs_of_none (outputs.2 o listed)⟩
    have refinesAdded := addCoinsLoop_eq_ok refines₁ stillFresh ranged added
    exact ⟨by simpa [UtxoMap.updateCoins, notCoinbase] using refinesAdded, fun _ => undone⟩

theorem updateCoins_spec (refines : view.Refines m) (nonempty : view.layers ≠ []) {hashes : Hashes}
    {tx : CTransaction} (nHeight : Nat) (ranged : ∀ txout ∈ tx.vout, moneyRange txout.nValue = true)
    (distinctInputs : (tx.vin.map (·.prevout)).Nodup) {coins : List Coin}
    (spent : tx.isCoinBase = false → m.inputCoins tx.vin = some coins)
    (fresh : (outputPoints (tx.getHash hashes) 0 tx.vout.length).Nodup ∧
      ∀ o ∈ outputPoints (tx.getHash hashes) 0 tx.vout.length,
        (if tx.isCoinBase then m else m.spendInputs tx.vin).lookup o = none) :
    ∃ view', updateCoins hashes tx view nHeight = .ok (if tx.isCoinBase then [] else coins, view') ∧
      view'.Refines (m.updateCoins hashes tx nHeight) ∧ view'.layers ≠ [] := by
  cases coinbase : tx.isCoinBase with
  | true =>
      rw [if_pos coinbase] at fresh
      obtain ⟨view', added, refines', nonempty'⟩ :=
        addCoinsLoop_spec refines nonempty nHeight true (.inr fresh) ranged
      refine ⟨view', by simp [updateCoins, addCoins, coinbase, added], ?_, nonempty'⟩
      simpa [UtxoMap.updateCoins, coinbase] using refines'
  | false =>
      rw [if_neg (by simp [coinbase])] at fresh
      obtain ⟨view₁, spentInputs, refines₁, nonempty₁⟩ :=
        spendInputs_spec refines nonempty distinctInputs (spent coinbase)
      obtain ⟨view', added, refines', nonempty'⟩ :=
        addCoinsLoop_spec refines₁ nonempty₁ nHeight false (.inr fresh) ranged
      refine ⟨view', by simp [updateCoins, addCoins, coinbase, spentInputs, added], ?_, nonempty'⟩
      simpa [UtxoMap.updateCoins, coinbase] using refines'

/-! ## `ConnectBlock` -/

/-- What `ConnectBlock` reads besides the block and the view. -/
structure ConnectContext where
  hashes : Hashes
  checkSignetBlockSolution : CBlock → Bool
  params : ConsensusParams
  hashGenesisBlock : uint256
  nSubsidyHalvingInterval : Nat
  /-- `pindex->nHeight`. -/
  nHeight : Nat
  fJustCheck : Bool
  /-- `fEnforceBIP30 || pindex->nHeight >= BIP34_IMPLIES_BIP30_LIMIT`. -/
  fEnforceBIP30 : Bool
  /-- The checks of the loop that read the view without changing its reports. -/
  txChecks : CTransaction → CoinsStack → Except String Unit

/-- The outputs the BIP30 check asks `HaveCoin` about: whether one of them was
unspent. -/
def haveOutputs (txid : uint256) : List Nat → Bool → CoinsStack → Except String (Bool × CoinsStack)
  | [], found, view => pure (found, view)
  | o :: rest, found, view => do
      let (unspent, view) ← view.haveCoinTop ⟨txid, UInt32.ofNat o⟩
      haveOutputs txid rest (found || unspent) view



/-- The BIP30 loop over the block's transactions; it records a failure and
goes on reading. -/
def bip30Loop (hashes : Hashes) : List CTransaction → Bool → CoinsStack → Except String (Bool × CoinsStack)
  | [], found, view => pure (found, view)
  | tx :: rest, found, view => do
      let (found, view) ← haveOutputs (tx.getHash hashes) (List.range tx.vout.length) found view
      bip30Loop hashes rest found view

/-- The outpoints the outputs of a list of transactions are written to. -/
def createdOutpoints (hashes : Hashes) (txs : List CTransaction) : List COutPoint :=
  txs.flatMap fun tx => outputPoints (tx.getHash hashes) 0 tx.vout.length

theorem haveOutputs_eq_ok (refines : view.Refines m) {txid : uint256} {outputs : List Nat} {found found' : Bool}
    {view' : CoinsStack} (answered : haveOutputs txid outputs found view = .ok (found', view')) :
    found' = (found || outputs.any fun o => (m.lookup ⟨txid, UInt32.ofNat o⟩).isSome) ∧ view'.Refines m := by
  induction outputs generalizing found view with
  | nil =>
      cases answered
      simp [refines]
  | cons o rest ih =>
      simp only [haveOutputs, Except.bind_eq_ok] at answered
      obtain ⟨⟨unspent, view₁⟩, had, answered⟩ := answered
      obtain ⟨rfl, refines₁⟩ := CoinsStack.haveCoinTop_eq_ok refines had
      obtain ⟨rfl, refines'⟩ := ih refines₁ answered
      simp [Bool.or_assoc, refines']

/-- The BIP30 loop finds an unspent coin exactly where the block would write
over one. -/
theorem bip30Loop_eq_ok (refines : view.Refines m) {hashes : Hashes} {txs : List CTransaction} {found found' : Bool}
    {view' : CoinsStack} (answered : bip30Loop hashes txs found view = .ok (found', view')) :
    found' = (found || (createdOutpoints hashes txs).any fun o => (m.lookup o).isSome) ∧ view'.Refines m := by
  induction txs generalizing found view with
  | nil =>
      cases answered
      simp [createdOutpoints, refines]
  | cons tx rest ih =>
      simp only [bip30Loop, Except.bind_eq_ok] at answered
      obtain ⟨⟨found₁, view₁⟩, had, answered⟩ := answered
      obtain ⟨rfl, refines₁⟩ := haveOutputs_eq_ok refines had
      obtain ⟨rfl, refines'⟩ := ih refines₁ answered
      simp [createdOutpoints, outputPoints, List.range_eq_range', Bool.or_assoc, Function.comp_def, refines']

/-- The transaction loop of `ConnectBlock`, from the transaction at index `i`:
the fees so far, the undo records of the transactions after the first, and the
view. -/
def connectLoop (ctx : ConnectContext) :
    Nat → List CTransaction → CAmount → CBlockUndo → CoinsStack → Except String (CAmount × CBlockUndo × CoinsStack)
  | _, [], nFees, blockundo, view => pure (nFees, blockundo, view)
  | i, tx :: rest, nFees, blockundo, view => do
      let (nFees, view) ← if tx.isCoinBase then pure (nFees, view) else do
        let (txfee, view) ← checkTxInputs tx ctx.nHeight view
        let nFees := nFees + txfee
        if !moneyRange nFees then throw "bad-txns-accumulated-fee-outofrange"
        pure (nFees, view)
      ctx.txChecks tx view
      let (txundo, view) ← updateCoins ctx.hashes tx view ctx.nHeight
      let blockundo := if i > 0 then blockundo ++ [txundo] else blockundo
      connectLoop ctx (i + 1) rest nFees blockundo view

theorem connectLoop_cons_eq_ok {ctx : ConnectContext} {i : Nat} {tx : CTransaction} {rest : List CTransaction}
    {nFees : CAmount} {blockundo : CBlockUndo} {result : CAmount × CBlockUndo × CoinsStack}
    (connected : connectLoop ctx i (tx :: rest) nFees blockundo view = .ok result) :
    ∃ nFees₁ view₁ txundo view₂,
      ((tx.isCoinBase = true ∧ nFees₁ = nFees ∧ view₁ = view) ∨
        (tx.isCoinBase = false ∧ ∃ txfee, checkTxInputs tx ctx.nHeight view = .ok (txfee, view₁) ∧
          nFees₁ = nFees + txfee ∧ moneyRange nFees₁ = true)) ∧
      updateCoins ctx.hashes tx view₁ ctx.nHeight = .ok (txundo, view₂) ∧
      connectLoop ctx (i + 1) rest nFees₁ (if i > 0 then blockundo ++ [txundo] else blockundo) view₂ = .ok result := by
  simp only [connectLoop] at connected
  split at connected <;>
    simp only [Except.bind_eq_ok, Except.pure_eq_ok, Except.ite_throw_eq_ok, Prod.exists, Prod.mk.injEq] at connected
  · rename_i coinbase
    obtain ⟨_, _, ⟨rfl, rfl⟩, -, -, txundo, view₂, updated, connected⟩ := connected
    exact ⟨nFees, view, txundo, view₂, .inl ⟨coinbase, rfl, rfl⟩, updated, connected⟩
  · rename_i notCoinbase
    obtain ⟨txfee, view₁, checked, feesRanged, _, _, ⟨rfl, rfl⟩, -, -, txundo, view₂, updated, connected⟩ := connected
    exact ⟨nFees + txfee, view₁, txundo, view₂, .inr ⟨by simpa using notCoinbase, txfee, checked, rfl,
      by simpa using feesRanged⟩, updated, connected⟩

/-- `ConnectBlock`: the fees, the undo data and the view after the block. -/
def connectBlock (ctx : ConnectContext) (block : CBlock) (view : CoinsStack) :
    Except String (CAmount × CBlockUndo × CoinsStack) := do
  (checkBlock ctx.hashes ctx.checkSignetBlockSolution block ctx.params (!ctx.fJustCheck) (!ctx.fJustCheck)).mapError
    fun failure => failure.2
  if block.toCBlockHeader.getHash ctx.hashes == ctx.hashGenesisBlock then return (0, [], view)
  let view ← if ctx.fEnforceBIP30 then do
      let (found, view) ← bip30Loop ctx.hashes block.vtx false view
      if found then throw "bad-txns-BIP30"
      pure view
    else pure view
  let (nFees, blockundo, view) ← connectLoop ctx 0 block.vtx 0 [] view
  let blockReward := nFees + getBlockSubsidy ctx.nHeight ctx.nSubsidyHalvingInterval
  let coinbaseOut ← match block.vtx with
    | [] => throw "no coinbase"
    | coinbase :: _ => coinbase.getValueOut
  if coinbaseOut > blockReward then throw "bad-cb-amount"
  pure (nFees, blockundo, view)

/-- What `ConnectBlock` accepts: a block that passes `CheckBlock` and is the
genesis block, or one with no unspent coin where BIP30 looks, whose transaction
loop succeeds and whose coinbase pays at most the fees and the subsidy. -/
theorem connectBlock_eq_ok {ctx : ConnectContext} {block : CBlock} {nFees : CAmount} {blockundo : CBlockUndo}
    {view' : CoinsStack} (connected : connectBlock ctx block view = .ok (nFees, blockundo, view')) :
    checkBlock ctx.hashes ctx.checkSignetBlockSolution block ctx.params (!ctx.fJustCheck) (!ctx.fJustCheck) =
        .ok () ∧
      ((block.toCBlockHeader.getHash ctx.hashes = ctx.hashGenesisBlock ∧ nFees = 0 ∧ blockundo = [] ∧ view' = view) ∨
        ∃ view₁, (ctx.fEnforceBIP30 = false ∧ view₁ = view ∨
            ctx.fEnforceBIP30 = true ∧ bip30Loop ctx.hashes block.vtx false view = .ok (false, view₁)) ∧
          connectLoop ctx 0 block.vtx 0 [] view₁ = .ok (nFees, blockundo, view') ∧
          ∃ coinbase rest coinbaseOut, block.vtx = coinbase :: rest ∧ coinbase.getValueOut = .ok coinbaseOut ∧
            coinbaseOut ≤ nFees + getBlockSubsidy ctx.nHeight ctx.nSubsidyHalvingInterval) := by
  simp only [connectBlock, Except.bind_eq_ok] at connected
  obtain ⟨u, checked, connected⟩ := connected
  refine ⟨?_, ?_⟩
  · cases result : checkBlock ctx.hashes ctx.checkSignetBlockSolution block ctx.params (!ctx.fJustCheck)
      (!ctx.fJustCheck) with
    | error failure => simp [result, Except.mapError] at checked
    | ok v => rfl
  split at connected
  · rename_i genesis
    simp only [Except.pure_eq_ok, Prod.mk.injEq] at connected
    obtain ⟨rfl, rfl, rfl⟩ := connected
    exact .inl ⟨by simpa using genesis, rfl, rfl, rfl⟩
  refine .inr ?_
  split at connected
  on_goal 1 =>
    rename_i enforced
    simp only [Except.bind_eq_ok, Except.ite_throw_eq_ok, Except.pure_eq_ok, Prod.exists] at connected
    obtain ⟨found, view₁, looped, notFound, _, rfl, nFees₁, blockundo₁, view₂, connectedLoop, connected⟩ := connected
    have nothingFound : found = false := by simpa using notFound
    refine ⟨view₁, .inr ⟨enforced, nothingFound ▸ looped⟩, ?_⟩
  on_goal 2 =>
    rename_i notEnforced
    simp only [Except.bind_eq_ok, Except.pure_eq_ok, Prod.exists] at connected
    obtain ⟨_, rfl, nFees₁, blockundo₁, view₂, connectedLoop, connected⟩ := connected
    refine ⟨view, .inl ⟨by simpa using notEnforced, rfl⟩, ?_⟩
  all_goals
    split at connected
    · simp at connected
    · rename_i coinbase rest listed
      simp only [Except.bind_eq_ok, Except.ite_throw_eq_ok, Except.pure_eq_ok, Prod.mk.injEq] at connected
      obtain ⟨coinbaseOut, valued, withinReward, rfl, rfl, rfl⟩ := connected
      exact ⟨connectedLoop, coinbase, rest, coinbaseOut, listed, valued, not_lt.mp withinReward⟩

end Qbitcoin
