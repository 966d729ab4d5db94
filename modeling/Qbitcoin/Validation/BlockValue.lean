import Qbitcoin.Validation.ConnectBlock

/-!
# No inflation in `ConnectBlock`

A transaction of the loop takes the coins its inputs spend out of the map and
puts at most its outputs' value in; what it does not put back is its fee.  So
over the loop the map's value plus the fees grows at most by what coinbase
transactions pay out, and `ConnectBlock`, which runs `CheckBlock` (one
coinbase, in front) and limits that coinbase to the fees and the subsidy, adds
at most the subsidy to the value of the coins.

The loop alone gives no such bound: a second transaction shaped as a coinbase
passes `CheckTransaction` and the loop, and pays out what it likes
(`connectLoop_second_coinbase_mints`).  Outpoints are read through the hash
functions the model is given, which may collide, so the block's outpoints are
taken to be distinct, and fresh where BIP30 does not look.
-/

namespace Qbitcoin

variable {view : CoinsStack} {m : UtxoMap}

/-- The value the coinbase transactions of a list pay out. -/
def coinbaseValue (txs : List CTransaction) : CAmount :=
  (txs.map fun tx => if tx.isCoinBase then (tx.vout.map (·.nValue)).sum else 0).sum

theorem coinbaseValue_cons_of_isCoinBase {coinbase : CTransaction} {rest : List CTransaction}
    (first : coinbase.isCoinBase = true) (others : ∀ tx ∈ rest, tx.isCoinBase = false) :
    coinbaseValue (coinbase :: rest) = (coinbase.vout.map (·.nValue)).sum := by
  have restPaysNothing : coinbaseValue rest = 0 := by
    unfold coinbaseValue
    apply List.sum_eq_zero
    simp only [List.mem_map]
    rintro _ ⟨tx, listed, rfl⟩
    simp [others tx listed]
  simp only [coinbaseValue, List.map_cons, List.sum_cons, first, if_true] at restPaysNothing ⊢
  rw [restPaysNothing, add_zero]

/-- One transaction of the loop on the map: the stack after it refines the map
after `UpdateCoins`, whose coins stay in the money range, and the map's value
plus the fees grows at most by what a coinbase pays out. -/
theorem connectTx_value {ctx : ConnectContext} (refines : view.Refines m) (inRange : m.InMoneyRange)
    {tx : CTransaction} (checked : checkTransaction tx = .ok ())
    (fresh : (outputPoints (tx.getHash ctx.hashes) 0 tx.vout.length).Nodup ∧
      ∀ o ∈ outputPoints (tx.getHash ctx.hashes) 0 tx.vout.length, m.lookup o = none)
    {nFees nFees₁ : CAmount} {view₁ view₂ : CoinsStack} {txundo : CTxUndo}
    (fees : (tx.isCoinBase = true ∧ nFees₁ = nFees ∧ view₁ = view) ∨
      (tx.isCoinBase = false ∧ ∃ txfee, checkTxInputs tx ctx.nHeight view = .ok (txfee, view₁) ∧
        nFees₁ = nFees + txfee ∧ moneyRange nFees₁ = true))
    (updated : updateCoins ctx.hashes tx view₁ ctx.nHeight = .ok (txundo, view₂)) :
    view₂.Refines (m.updateCoins ctx.hashes tx ctx.nHeight) ∧
      (m.updateCoins ctx.hashes tx ctx.nHeight).InMoneyRange ∧
      (m.updateCoins ctx.hashes tx ctx.nHeight).totalValue + nFees₁ ≤
        m.totalValue + nFees + (if tx.isCoinBase then (tx.vout.map (·.nValue)).sum else 0) := by
  obtain ⟨ranged, distinctInputs⟩ := checkTransaction_eq_ok checked
  have updatedRange := UtxoMap.InMoneyRange.updateCoins ctx.hashes ctx.nHeight inRange ranged
  rcases fees with ⟨coinbase, rfl, rfl⟩ | ⟨notCoinbase, txfee, feeChecked, rfl, -⟩
  · obtain ⟨refines₂, -⟩ := updateCoins_eq_ok refines (.inl coinbase) ranged updated
    have added := UtxoMap.totalValue_updateCoins_of_isCoinBase ctx.hashes ctx.nHeight inRange ranged coinbase
    refine ⟨refines₂, updatedRange, ?_⟩
    rw [if_pos coinbase]
    linarith
  · obtain ⟨refines₁, coins, found, -, -, fee_eq, -⟩ := checkTxInputs_eq_ok refines feeChecked
    obtain ⟨refines₂, -⟩ := updateCoins_eq_ok refines₁ (.inr fresh) ranged updated
    have added :=
      UtxoMap.totalValue_updateCoins_add ctx.hashes ctx.nHeight inRange ranged notCoinbase distinctInputs found
    refine ⟨refines₂, updatedRange, ?_⟩
    rw [if_neg (by simp [notCoinbase])]
    linarith

/-- The loop from any transaction on: the map's value plus the fees grows at
most by what the coinbase transactions pay out, the coins stay in the money
range and so do the fees. -/
theorem connectLoop_value {ctx : ConnectContext} (refines : view.Refines m) (inRange : m.InMoneyRange)
    {i : Nat} {txs : List CTransaction} {nFees : CAmount} {blockundo : CBlockUndo}
    {nFees' : CAmount} {blockundo' : CBlockUndo} {view' : CoinsStack}
    (checked : ∀ tx ∈ txs, checkTransaction tx = .ok ())
    (distinct : (createdOutpoints ctx.hashes txs).Nodup)
    (fresh : ∀ o ∈ createdOutpoints ctx.hashes txs, m.lookup o = none)
    (feesRanged : moneyRange nFees = true)
    (connected : connectLoop ctx i txs nFees blockundo view = .ok (nFees', blockundo', view')) :
    ∃ m', view'.Refines m' ∧ m'.InMoneyRange ∧ moneyRange nFees' = true ∧
      m'.totalValue + nFees' ≤ m.totalValue + nFees + coinbaseValue txs := by
  induction txs generalizing i nFees blockundo view m with
  | nil =>
      cases connected
      exact ⟨m, refines, inRange, feesRanged, by simp [coinbaseValue]⟩
  | cons tx rest ih =>
      obtain ⟨nFees₁, view₁, txundo, view₂, fees, updated, connected⟩ := connectLoop_cons_eq_ok connected
      simp only [createdOutpoints, List.flatMap_cons, List.nodup_append, List.mem_append] at distinct fresh
      obtain ⟨distinctHere, distinctLater, apart⟩ := distinct
      obtain ⟨refines₂, range₂, value₂⟩ := connectTx_value refines inRange (checked tx List.mem_cons_self)
        ⟨distinctHere, fun o listed => fresh o (.inl listed)⟩ fees updated
      have fees₁ : moneyRange nFees₁ = true := by
        rcases fees with ⟨-, rfl, -⟩ | ⟨-, -, -, -, ranged⟩
        · exact feesRanged
        · exact ranged
      have freshLater : ∀ o ∈ createdOutpoints ctx.hashes rest,
          (m.updateCoins ctx.hashes tx ctx.nHeight).lookup o = none := by
        intro o listed
        have notHere : o ∉ outputPoints (tx.getHash ctx.hashes) 0 tx.vout.length :=
          fun here => apart o here o listed rfl
        rw [UtxoMap.updateCoins, UtxoMap.lookup_addOutputs_of_notMem notHere]
        split
        · exact fresh o (.inr listed)
        · exact UtxoMap.lookup_spendInputs_of_none (fresh o (.inr listed))
      obtain ⟨m', refines', range', fees', value'⟩ := ih refines₂ range₂
        (fun later listed => checked later (List.mem_cons_of_mem _ listed)) distinctLater freshLater fees₁ connected
      have paid : coinbaseValue (tx :: rest) =
          (if tx.isCoinBase then (tx.vout.map (·.nValue)).sum else 0) + coinbaseValue rest := by
        simp only [coinbaseValue, List.map_cons, List.sum_cons]
      refine ⟨m', refines', range', fees', ?_⟩
      linarith

/-- An accepted run of the loop is accepted on each of its prefixes, with the
fee total in the money range: the totals the loop checks as it adds each fee. -/
theorem connectLoop_take {ctx : ConnectContext} (txs : List CTransaction) :
    ∀ {i : Nat} {nFees : CAmount} {blockundo : CBlockUndo} {view : CoinsStack}
      {result : CAmount × CBlockUndo × CoinsStack}, moneyRange nFees = true →
      connectLoop ctx i txs nFees blockundo view = .ok result → ∀ k, ∃ nFeesK undoK viewK,
        connectLoop ctx i (txs.take k) nFees blockundo view = .ok (nFeesK, undoK, viewK) ∧ moneyRange nFeesK = true := by
  induction txs with
  | nil =>
      intro i nFees blockundo view result start _ k
      exact ⟨nFees, blockundo, view, by rw [List.take_nil]; rfl, start⟩
  | cons tx rest inductionHypothesis =>
      intro i nFees blockundo view result start connected k
      cases k with
      | zero => exact ⟨nFees, blockundo, view, rfl, start⟩
      | succ k =>
          rw [List.take_succ_cons]
          simp only [connectLoop] at connected ⊢
          split at connected <;>
            simp only [Except.bind_eq_ok, Except.pure_eq_ok, Except.ite_throw_eq_ok, Prod.exists, Prod.mk.injEq]
              at connected
          · rename_i coinbase
            obtain ⟨_, _, ⟨rfl, rfl⟩, u, checks, txundo, view₂, updated, connected⟩ := connected
            obtain ⟨nFeesK, undoK, viewK, initial, ranged⟩ := inductionHypothesis start connected k
            refine ⟨nFeesK, undoK, viewK, ?_, ranged⟩
            simp [coinbase, checks, updated, initial]
          · rename_i notCoinbase
            obtain ⟨txfee, view₁, checked, feesRanged, _, _, ⟨rfl, rfl⟩, u, checks, txundo, view₂, updated, connected⟩ :=
              connected
            have ranged₁ : moneyRange (nFees + txfee) = true := by simpa using feesRanged
            obtain ⟨nFeesK, undoK, viewK, initial, ranged⟩ := inductionHypothesis ranged₁ connected k
            refine ⟨nFeesK, undoK, viewK, ?_, ranged⟩
            simp [notCoinbase, checked, ranged₁, checks, updated, initial]

/-- The view the BIP30 phase of `ConnectBlock` leaves still refines `m`: it is
the view itself, or what the lookups of `bip30Loop` left. -/
theorem refines_of_bip30 {ctx : ConnectContext} {block : CBlock} {view₁ : CoinsStack} (refines : view.Refines m)
    (bip30 : ctx.fEnforceBIP30 = false ∧ view₁ = view ∨
      ctx.fEnforceBIP30 = true ∧ bip30Loop ctx.hashes block.vtx false view = .ok (false, view₁)) :
    view₁.Refines m := by
  rcases bip30 with ⟨-, rfl⟩ | ⟨-, answered⟩
  · exact refines
  · exact (bip30Loop_eq_ok refines answered).2

/-- The fee totals of an accepted block: from the view the BIP30 phase leaves,
which still refines `m`, the loop over the first `k` transactions is accepted
with a total in the money range, for every `k`. -/
theorem connectBlock_running_fees {ctx : ConnectContext} {block : CBlock} (refines : view.Refines m)
    {nFees : CAmount} {blockundo : CBlockUndo} {view' : CoinsStack}
    (connected : connectBlock ctx block view = .ok (nFees, blockundo, view')) :
    block.toCBlockHeader.getHash ctx.hashes = ctx.hashGenesisBlock ∨
      ∃ view₁, view₁.Refines m ∧ ∀ k, ∃ nFeesK undoK viewK,
        connectLoop ctx 0 (block.vtx.take k) 0 [] view₁ = .ok (nFeesK, undoK, viewK) ∧ moneyRange nFeesK = true := by
  obtain ⟨-, genesis | ⟨view₁, bip30, looped, -⟩⟩ := connectBlock_eq_ok connected
  · exact .inl genesis.1
  · exact .inr ⟨view₁, refines_of_bip30 refines bip30, connectLoop_take block.vtx (by decide) looped⟩

/-- A block `ConnectBlock` accepts adds at most the subsidy to the value of
the coins, when its outpoints are distinct and BIP30 is enforced or they were
fresh. -/
theorem connectBlock_value {ctx : ConnectContext} {block : CBlock} (refines : view.Refines m)
    (inRange : m.InMoneyRange) (distinct : (createdOutpoints ctx.hashes block.vtx).Nodup)
    (fresh : ctx.fEnforceBIP30 = true ∨ ∀ o ∈ createdOutpoints ctx.hashes block.vtx, m.lookup o = none)
    {nFees : CAmount} {blockundo : CBlockUndo} {view' : CoinsStack}
    (connected : connectBlock ctx block view = .ok (nFees, blockundo, view')) :
    ∃ m', view'.Refines m' ∧ m'.InMoneyRange ∧
      m'.totalValue ≤ m.totalValue + getBlockSubsidy ctx.nHeight ctx.nSubsidyHalvingInterval ∧
      moneyRange nFees = true := by
  have subsidy := getBlockSubsidy_nonneg ctx.nHeight ctx.nSubsidyHalvingInterval
  obtain ⟨checked, genesis | ⟨view₁, bip30, looped, coinbase, rest, coinbaseOut, listed, valued, withinReward⟩⟩ :=
    connectBlock_eq_ok connected
  · obtain ⟨-, rfl, rfl, rfl⟩ := genesis
    exact ⟨m, refines, inRange, by linarith, by decide⟩
  have refines₁ := refines_of_bip30 refines bip30
  have fresh₁ : ∀ o ∈ createdOutpoints ctx.hashes block.vtx, m.lookup o = none := by
    rcases bip30 with ⟨notEnforced, rfl⟩ | ⟨-, answered⟩
    · exact fresh.resolve_left (by simp [notEnforced])
    · simpa using (bip30Loop_eq_ok refines answered).1.symm
  obtain ⟨-, -, -, -, -, -, first, others, allChecked, -⟩ := checkBlock_eq_ok.mp checked
  rw [listed] at first others allChecked distinct fresh₁ looped
  obtain ⟨m', refines', range', fees', value'⟩ :=
    connectLoop_value refines₁ inRange allChecked distinct fresh₁ (by decide) looped
  have paid := coinbaseValue_cons_of_isCoinBase (by simpa using first) (by simpa using others)
  obtain ⟨out_eq, -⟩ := CTransaction.getValueOut_eq_ok valued
  refine ⟨m', refines', range', ?_, fees'⟩
  linarith

theorem connectBlock_no_inflation :
    (∀ (view : CoinsStack) (m : UtxoMap) (tx : CTransaction) (nSpendHeight : Int) (txfee : CAmount)
        (view' : CoinsStack), view.Refines m → checkTxInputs tx nSpendHeight view = .ok (txfee, view') →
      ∃ coins, m.inputCoins tx.vin = some coins ∧ RunningTotalsInRange 0 (coinValues coins) ∧
        RunningTotalsInRange 0 (tx.vout.map (·.nValue)) ∧
        txfee = (coinValues coins).sum - (tx.vout.map (·.nValue)).sum ∧ moneyRange txfee = true) ∧
    ∀ (ctx : ConnectContext) (block : CBlock) (view : CoinsStack) (m : UtxoMap) (nFees : CAmount)
        (blockundo : CBlockUndo) (view' : CoinsStack),
      view.Refines m → m.InMoneyRange → (createdOutpoints ctx.hashes block.vtx).Nodup →
      (ctx.fEnforceBIP30 = true ∨ ∀ o ∈ createdOutpoints ctx.hashes block.vtx, m.lookup o = none) →
      connectBlock ctx block view = .ok (nFees, blockundo, view') →
      ∃ m', view'.Refines m' ∧ m'.InMoneyRange ∧
        m'.totalValue ≤ m.totalValue + getBlockSubsidy ctx.nHeight ctx.nSubsidyHalvingInterval ∧
        moneyRange nFees = true ∧ 0 ≤ nFees + getBlockSubsidy ctx.nHeight ctx.nSubsidyHalvingInterval ∧
        nFees + getBlockSubsidy ctx.nHeight ctx.nSubsidyHalvingInterval ≤ MAX_MONEY + 50 * COIN ∧
        (block.toCBlockHeader.getHash ctx.hashes = ctx.hashGenesisBlock ∨
          ∃ view₁, view₁.Refines m ∧ ∀ k, ∃ nFeesK undoK viewK,
            connectLoop ctx 0 (block.vtx.take k) 0 [] view₁ = .ok (nFeesK, undoK, viewK) ∧
              moneyRange nFeesK = true) := by
  refine ⟨fun view m tx nSpendHeight txfee view' refines checked => (checkTxInputs_eq_ok refines checked).2, ?_⟩
  intro ctx block view m nFees blockundo view' refines inRange distinct fresh connected
  obtain ⟨m', refines', range', value', fees'⟩ := connectBlock_value refines inRange distinct fresh connected
  have subsidy := getBlockSubsidy_nonneg ctx.nHeight ctx.nSubsidyHalvingInterval
  have subsidyAtMost := getBlockSubsidy_le ctx.nHeight ctx.nSubsidyHalvingInterval
  have feesRange : 0 ≤ nFees ∧ nFees ≤ MAX_MONEY := by simpa [moneyRange] using fees'
  exact ⟨m', refines', range', value', fees', by linarith, by linarith, connectBlock_running_fees refines connected⟩

/-- A coinbase paying `value` to `OP_1`. -/
def mintingCoinbase (value : CAmount) : CTransaction :=
  ⟨[⟨⟨uint256.zero, 0xffffffff⟩, [OP_1, OP_0], SEQUENCE_FINAL, ⟨[]⟩⟩], [⟨value, [OP_1]⟩], 2, 0⟩

/-- Regtest at height 1, with no BIP30 check and no other checks of the loop. -/
def mintingContext : ConnectContext :=
  ⟨Hashes.zeros, fun _ => true, ConsensusParams.regtest, uint256.zero, 150, 1, false, false, fun _ _ => pure ()⟩

/-- The cache after the two coinbases: the second one's coin, dirty. -/
def mintedCache : CCoinsMap :=
  (∅ : CCoinsMap).insert ⟨uint256.zero, 0⟩ ⟨⟨⟨MAX_MONEY, [OP_1]⟩, true, 1⟩, true, false⟩

/-- From a view with no coins, the loop accepts two coinbase transactions that
pass `CheckTransaction`, the first paying nothing, so within the fees and the
subsidy; the second pays `MAX_MONEY`, which every map the view after refines
holds. -/
theorem connectLoop_second_coinbase_mints :
    (⟨CoinsStack.emptyCoinsDB, [∅]⟩ : CoinsStack).Refines ∅ ∧ (∅ : UtxoMap).InMoneyRange ∧
      (∀ tx ∈ [mintingCoinbase 0, mintingCoinbase MAX_MONEY], checkTransaction tx = .ok ()) ∧
      connectLoop mintingContext 0 [mintingCoinbase 0, mintingCoinbase MAX_MONEY] 0 []
          ⟨CoinsStack.emptyCoinsDB, [∅]⟩ = .ok (0, [[]], ⟨CoinsStack.emptyCoinsDB, [mintedCache]⟩) ∧
      (mintingCoinbase 0).getValueOut = .ok 0 ∧ (0 : CAmount) ≤ 0 + getBlockSubsidy 1 150 ∧
      ∀ m', (⟨CoinsStack.emptyCoinsDB, [mintedCache]⟩ : CoinsStack).Refines m' →
        (∅ : UtxoMap).totalValue + getBlockSubsidy 1 150 < m'.totalValue := by
  refine ⟨CoinsStack.refines_empty CoinsStack.emptyCoinsDB 1, fun _ _ found => by simp at found, by decide, rfl, rfl,
    by decide, fun m' refines => ?_⟩
  have same : ∀ o, m'.lookup o = ((∅ : UtxoMap).insert ⟨uint256.zero, 0⟩ ⟨⟨MAX_MONEY, [OP_1]⟩, true, 1⟩).lookup o := by
    intro o
    rw [← refines.reports o]
    by_cases here : o = ⟨uint256.zero, 0⟩
    · subst here
      rfl
    · simp only [CoinsStack.reportTop, report, mintedCache, AList.lookup_insert_ne here, AList.lookup_empty]
      rfl
  have equal : m'.totalValue =
      UtxoMap.totalValue ((∅ : UtxoMap).insert ⟨uint256.zero, 0⟩ ⟨⟨MAX_MONEY, [OP_1]⟩, true, 1⟩) :=
    AList.sumValues_eq_of_lookup_eq same
  rw [equal]
  decide

/-- Regtest at height 1, with BIP30 enforced. -/
def bip30Context : ConnectContext :=
  ⟨Hashes.zeros, fun _ => true, ConsensusParams.regtest, Vector.replicate 32 1, 150, 1, false, true,
    fun _ _ => pure ()⟩

/-- A block whose coinbase pays nothing, under the merkle root of that coinbase. -/
def emptyCoinbaseBlock : CBlock :=
  ⟨⟨4, uint256.zero, (mintingCoinbase 0).getHash Hashes.zeros, 1296688603, 0x207fffff, 0⟩, [mintingCoinbase 0]⟩

/-- The block passes `CheckBlock`; its signature operations, which `CheckBlock`
counts by well-founded recursion, are bounded rather than counted. -/
theorem checkBlock_emptyCoinbaseBlock :
    checkBlock Hashes.zeros (fun _ => true) emptyCoinbaseBlock ConsensusParams.regtest true true = .ok () := by
  have single : emptyCoinbaseBlock.vtx = [mintingCoinbase 0] := rfl
  have sigops : (emptyCoinbaseBlock.vtx.map getLegacySigOpCount).sum ≤ 60 := by
    have input := getSigOpCount_le [OP_1, OP_0] false
    have output := getSigOpCount_le [OP_1] false
    simp only [single, mintingCoinbase, getLegacySigOpCount, List.map_cons, List.map_nil, List.sum_cons,
      List.sum_nil, List.length_cons, List.length_nil] at input output ⊢
    omega
  have work : checkProofOfWork (emptyCoinbaseBlock.getHash Hashes.zeros) emptyCoinbaseBlock.nBits
      ConsensusParams.regtest = true := by decide
  have stripped : (emptyCoinbaseBlock.serialize false).length * WITNESS_SCALE_FACTOR ≤ MAX_BLOCK_WEIGHT := by
    rw [CBlock.serialize_length, single]
    decide
  have valid : ∀ tx ∈ emptyCoinbaseBlock.vtx, checkTransaction tx = .ok () := by
    rw [single]
    decide
  rw [checkBlock_eq_ok]
  refine ⟨fun _ => work, fun signet => absurd signet (by decide), fun _ => ?_, by simp [single], by decide,
    stripped, by rw [single]; decide, by simp [single], valid, ?_⟩
  · rw [blockMerkleRoot_singleton Hashes.zeros single]
    exact ⟨rfl, rfl⟩
  · unfold WITNESS_SCALE_FACTOR MAX_BLOCK_SIGOPS_COST
    omega

theorem connectBlock_no_inflation_regtest :
    ∃ nFees blockundo view',
      connectBlock bip30Context emptyCoinbaseBlock ⟨CoinsStack.emptyCoinsDB, [∅]⟩ = .ok (nFees, blockundo, view') ∧
      ∃ m', view'.Refines m' ∧ m'.totalValue ≤ (∅ : UtxoMap).totalValue + getBlockSubsidy 1 150 := by
  have connected : connectBlock bip30Context emptyCoinbaseBlock ⟨CoinsStack.emptyCoinsDB, [∅]⟩ =
      .ok (0, [], ⟨CoinsStack.emptyCoinsDB,
        [(∅ : CCoinsMap).insert ⟨uint256.zero, 0⟩ ⟨⟨⟨0, [OP_1]⟩, true, 1⟩, true, false⟩]⟩) := by
    have checked : checkBlock bip30Context.hashes bip30Context.checkSignetBlockSolution emptyCoinbaseBlock
        bip30Context.params (!bip30Context.fJustCheck) (!bip30Context.fJustCheck) = .ok () :=
      checkBlock_emptyCoinbaseBlock
    rw [connectBlock, checked]
    rfl
  obtain ⟨m', refines', -, value', -⟩ := connectBlock_no_inflation.2 bip30Context emptyCoinbaseBlock _ ∅ 0 [] _
    (CoinsStack.refines_empty CoinsStack.emptyCoinsDB 1) (fun _ _ found => by simp at found) (by decide) (.inl rfl)
    connected
  exact ⟨0, [], _, connected, m', refines', value'⟩

end Qbitcoin
