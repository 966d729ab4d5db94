import Qbitcoin.Validation.ConnectBlock

/-!
# Disconnecting a block

`Chainstate::DisconnectBlock` of `validation.cpp` with the undo data it read,
and `ApplyTxInUndo` with `AccessByTxid` of `coins.cpp`.  The transactions are
undone from the last to the first: the outputs of each are spent and compared
with the block, then the undo records of its inputs are added back from the
last input to the first.  `SetBestBlock` is not modelled.

On the connecting side, `updateBlockCoins` is the sequence of `UpdateCoins`
calls of `ConnectBlock`'s loop, which collects the undo records.

Connecting a block and disconnecting it with the records it left gives back
what the view reported, when the coinbase is the block's only coinbase and the
coins the block spends are ones `AddCoin` could have stored: a coin of height 0
is read by `ApplyTxInUndo` as one without metadata, and one with an
unspendable script is never written back.
-/

namespace Qbitcoin

/-- `DisconnectResult`. -/
inductive DisconnectResult
  | DISCONNECT_OK
  | DISCONNECT_UNCLEAN
  | DISCONNECT_FAILED
  deriving DecidableEq, Repr

/-- `MIN_TRANSACTION_OUTPUT_WEIGHT`: the weight of `CTxOut()`. -/
def MIN_TRANSACTION_OUTPUT_WEIGHT : Nat := WITNESS_SCALE_FACTOR * CTxOut.null.serialize.length

/-- `MAX_OUTPUTS_PER_BLOCK`. -/
def MAX_OUTPUTS_PER_BLOCK : Nat := MAX_BLOCK_WEIGHT / MIN_TRANSACTION_OUTPUT_WEIGHT

example : MAX_OUTPUTS_PER_BLOCK = 5111111 := by decide

/-- The loop of `AccessByTxid` from output `n`, with `fuel` outputs left below
`MAX_OUTPUTS_PER_BLOCK`. -/
def accessByTxidLoop (txid : uint256) : Nat → Nat → CoinsStack → Except String (Coin × CoinsStack)
  | 0, _, view => pure (Coin.empty, view)
  | fuel + 1, n, view => do
      let (alternate, view) ← view.accessCoinTop ⟨txid, UInt32.ofNat n⟩
      if !alternate.isSpent then pure (alternate, view) else accessByTxidLoop txid fuel (n + 1) view

/-- `AccessByTxid`: the first unspent output of the transaction, or a spent
coin. -/
def accessByTxid (view : CoinsStack) (txid : uint256) : Except String (Coin × CoinsStack) :=
  accessByTxidLoop txid MAX_OUTPUTS_PER_BLOCK 0 view

/-- The undo record `ApplyTxInUndo` adds: one of height 0 lacks its metadata
and takes the height and coinbase flag of another unspent output of its
transaction; none when there is no such output. -/
def undoMetadata (undo : Coin) (out : COutPoint) (view : CoinsStack) : Except String (Option Coin × CoinsStack) :=
  if undo.nHeight = 0 then do
    let (alternate, view) ← accessByTxid view out.hash
    if !alternate.isSpent then pure (some ⟨undo.out, alternate.fCoinBase, alternate.nHeight⟩, view)
    else pure (none, view)
  else pure (some undo, view)

/-- `ApplyTxInUndo`.  An unspent coin at the outpoint is overwritten, and the
result unclean. -/
def applyTxInUndo (undo : Coin) (view : CoinsStack) (out : COutPoint) :
    Except String (DisconnectResult × CoinsStack) := do
  let (unspent, view) ← view.haveCoinTop out
  let fClean := !unspent
  let (restored, view) ← undoMetadata undo out view
  match restored with
  | none => pure (.DISCONNECT_FAILED, view)
  | some undo =>
      let view ← view.step (.addCoin out undo !fClean)
      pure (if fClean then .DISCONNECT_OK else .DISCONNECT_UNCLEAN, view)

/-- The output loop of `DisconnectBlock` for one transaction, from output `o`:
each spendable output is spent, and one that is missing or differs from the
block's makes the result unclean, unless the transaction is a BIP30
exception.  `Coin coin;` keeps the empty coin when nothing was moved out. -/
def spendOutputs (txid : uint256) (nHeight : Nat) (is_coinbase is_bip30_exception : Bool) :
    Nat → List CTxOut → Bool → CoinsStack → Except String (Bool × CoinsStack)
  | _, [], fClean, view => pure (fClean, view)
  | o, txout :: rest, fClean, view =>
      if txout.scriptPubKey.isUnspendable then
        spendOutputs txid nHeight is_coinbase is_bip30_exception (o + 1) rest fClean view
      else do
        let ((is_spent, moved), view) ← view.spendCoinTop ⟨txid, UInt32.ofNat o⟩
        let coin := moved.getD Coin.empty
        let mismatch :=
          !is_spent || txout != coin.out || nHeight != coin.nHeight || is_coinbase != coin.fCoinBase
        spendOutputs txid nHeight is_coinbase is_bip30_exception (o + 1) rest
          (fClean && !(mismatch && !is_bip30_exception)) view

/-- The input loop of `DisconnectBlock` over the inputs and their undo records,
the last input first; none when an undo record fails. -/
def restoreInputs : List (COutPoint × Coin) → Bool → CoinsStack → Except String (Option Bool × CoinsStack)
  | [], fClean, view => pure (some fClean, view)
  | (out, undo) :: rest, fClean, view => do
      let (res, view) ← applyTxInUndo undo view out
      if res = .DISCONNECT_FAILED then pure (none, view)
      else restoreInputs rest (fClean && res != .DISCONNECT_UNCLEAN) view

/-- The transaction loop of `DisconnectBlock`, over the transactions with their
indices, the last first. -/
def disconnectLoop (hashes : Hashes) (blockUndo : CBlockUndo) (nHeight : Nat) (fEnforceBIP30 : Bool) :
    List (CTransaction × Nat) → Bool → CoinsStack → Except String (DisconnectResult × CoinsStack)
  | [], fClean, view => pure (if fClean then .DISCONNECT_OK else .DISCONNECT_UNCLEAN, view)
  | (tx, i) :: rest, fClean, view => do
      let is_coinbase := tx.isCoinBase
      let is_bip30_exception := is_coinbase && !fEnforceBIP30
      let (fClean, view) ←
        spendOutputs (tx.getHash hashes) nHeight is_coinbase is_bip30_exception 0 tx.vout fClean view
      if i > 0 then
        let txundo := blockUndo.getD (i - 1) []
        if txundo.length != tx.vin.length then return (.DISCONNECT_FAILED, view)
        let (restored, view) ← restoreInputs ((tx.vin.map (·.prevout)).zip txundo).reverse fClean view
        match restored with
        | none => pure (.DISCONNECT_FAILED, view)
        | some fClean => disconnectLoop hashes blockUndo nHeight fEnforceBIP30 rest fClean view
      else disconnectLoop hashes blockUndo nHeight fEnforceBIP30 rest fClean view

/-- `Chainstate::DisconnectBlock` once `ReadBlockUndo` has read `blockUndo`;
`fEnforceBIP30` is false only for the two blocks BIP30 exempts. -/
def disconnectBlock (hashes : Hashes) (block : CBlock) (blockUndo : CBlockUndo) (nHeight : Nat)
    (fEnforceBIP30 : Bool) (view : CoinsStack) : Except String (DisconnectResult × CoinsStack) :=
  if blockUndo.length + 1 != block.vtx.length then pure (.DISCONNECT_FAILED, view)
  else disconnectLoop hashes blockUndo nHeight fEnforceBIP30 block.vtx.zipIdx.reverse true view

/-- The `UpdateCoins` calls of the loop of `ConnectBlock` from the transaction
at index `i`, with the undo records it keeps for the transactions after the
first. -/
def updateBlockCoins (hashes : Hashes) (nHeight : Nat) :
    Nat → List CTransaction → CBlockUndo → CoinsStack → Except String (CBlockUndo × CoinsStack)
  | _, [], blockundo, view => pure (blockundo, view)
  | i, tx :: rest, blockundo, view => do
      let (txundo, view) ← updateCoins hashes tx view nHeight
      let blockundo := if i > 0 then blockundo ++ [txundo] else blockundo
      updateBlockCoins hashes nHeight (i + 1) rest blockundo view

/-! ## Undoing one transaction

On a stack that refines the map after a transaction's `UpdateCoins`, its
outputs are found as they were written and its undo record puts back the
coins it spent. -/

variable {view : CoinsStack} {m : UtxoMap}

/-- The output loop of `DisconnectBlock` from a stack that refines the map the
output loop of `AddCoins` left: every spendable output is found as written, so
the result stays as clean as it was, and the stack after refines the map
before the outputs. -/
theorem spendOutputs_spec {txid : uint256} {nHeight : Nat} {is_coinbase : Bool} {base : UtxoMap}
    {i : Nat} {outs : List CTxOut} (refines : view.Refines (UtxoMap.addOutputs txid nHeight is_coinbase i outs base))
    (nonempty : view.layers ≠ []) (distinct : (outputPoints txid i outs.length).Nodup)
    (fresh : ∀ o ∈ outputPoints txid i outs.length, base.lookup o = none) (is_bip30_exception fClean : Bool) :
    ∃ view', spendOutputs txid nHeight is_coinbase is_bip30_exception i outs fClean view = .ok (fClean, view') ∧
      view'.Refines base ∧ view'.layers ≠ [] := by
  induction outs generalizing i base view with
  | nil => exact ⟨view, rfl, refines, nonempty⟩
  | cons txout rest ih =>
      simp only [outputPoints, List.length_cons, List.range'_succ, List.map_cons, List.nodup_cons, List.mem_cons,
        forall_eq_or_imp] at distinct fresh
      obtain ⟨first, distinctLater⟩ := distinct
      obtain ⟨absent, freshLater⟩ := fresh
      by_cases unspendable : txout.scriptPubKey.isUnspendable = true
      · have unwritten : base.addCoin ⟨txid, UInt32.ofNat i⟩ ⟨txout, is_coinbase, nHeight⟩ = base := by
          simp [UtxoMap.addCoin, unspendable]
        rw [UtxoMap.addOutputs, unwritten] at refines
        obtain ⟨view', spent, refines', nonempty'⟩ := ih refines nonempty distinctLater freshLater
        exact ⟨view', by simp [spendOutputs, unspendable, spent], refines', nonempty'⟩
      · have written : (UtxoMap.addOutputs txid nHeight is_coinbase i (txout :: rest) base).lookup
            ⟨txid, UInt32.ofNat i⟩ = some ⟨txout, is_coinbase, nHeight⟩ := by
          rw [UtxoMap.lookup_addOutputs_first first, if_neg unspendable]
        obtain ⟨isSpent, moved, view₁, spentTop, refines₁, movedOut⟩ :=
          CoinsStack.spendCoinTop_spec refines nonempty ⟨txid, UInt32.ofNat i⟩
        obtain ⟨rfl, rfl⟩ := movedOut _ written
        have refinesLater : view₁.Refines (UtxoMap.addOutputs txid nHeight is_coinbase (i + 1) rest base) := by
          apply refines₁.of_lookup
          intro key
          rw [UtxoMap.addOutputs, UtxoMap.lookup_addOutputs_spendCoin first]
          exact UtxoMap.lookup_addOutputs_congr (UtxoMap.lookup_addCoin_spendCoin_of_none absent _) (i + 1) rest key
        obtain ⟨view', spent, refines', nonempty'⟩ :=
          ih refinesLater (CoinsStack.layers_ne_nil_after_onTop spentTop) distinctLater freshLater
        refine ⟨view', ?_, refines', nonempty'⟩
        simp [spendOutputs, unspendable, spentTop, spent]

/-- An undo record with its metadata, added where the map holds nothing, is
added cleanly. -/
theorem applyTxInUndo_spec {M : UtxoMap} (refines : view.Refines M) (nonempty : view.layers ≠ []) {out : COutPoint}
    (absent : M.lookup out = none) {undo : Coin} (height : undo.nHeight ≠ 0) (unspentCoin : undo.isSpent = false) :
    ∃ view', applyTxInUndo undo view out = .ok (.DISCONNECT_OK, view') ∧ view'.Refines (M.addCoin out undo) ∧
      view'.layers ≠ [] := by
  obtain ⟨view₁, answered, refines₁⟩ := CoinsStack.haveCoinTop_spec refines nonempty out
  have nonempty₁ := CoinsStack.layers_ne_nil_after_onTop answered
  rw [absent] at answered
  have allowed : view₁.allowed (.addCoin out undo false) = true := by
    simp [CoinsStack.allowed, unspentCoin, refines₁.reports, absent, nonempty₁]
  obtain ⟨view', stepped, refines'⟩ := CoinsStack.step_refines refines₁ allowed
  refine ⟨view', ?_, refines', CoinsStack.layers_ne_nil_after_step_addCoin stepped⟩
  simp [applyTxInUndo, answered, undoMetadata, height, stepped]

theorem restoreInputs_append_of_ok {first second : List (COutPoint × Coin)} {fClean fClean' : Bool}
    {view' : CoinsStack} (restored : restoreInputs first fClean view = .ok (some fClean', view')) :
    restoreInputs (first ++ second) fClean view = restoreInputs second fClean' view' := by
  induction first generalizing fClean view with
  | nil =>
      cases restored
      rfl
  | cons record rest ih =>
      obtain ⟨out, undo⟩ := record
      simp only [restoreInputs, Except.bind_eq_ok] at restored
      obtain ⟨⟨res, view₁⟩, applied, restored⟩ := restored
      split at restored
      · simp at restored
      · rename_i notFailed
        simp only [List.cons_append, restoreInputs, applied, Except.ok_bind, if_neg notFailed]
        exact ih restored

/-- The input loop of `DisconnectBlock` with the coins the inputs spent, from a
stack that refines the map after the spends: each coin goes back cleanly, and
the stack after refines the map before them. -/
theorem restoreInputs_spec {vin : List CTxIn} (refines : view.Refines (m.spendInputs vin)) (nonempty : view.layers ≠ [])
    (distinct : (vin.map (·.prevout)).Nodup) {coins : List Coin} (found : m.inputCoins vin = some coins)
    (restorable : ∀ coin ∈ coins, coin.nHeight ≠ 0 ∧ coin.isSpent = false ∧
      coin.out.scriptPubKey.isUnspendable = false) (fClean : Bool) :
    ∃ view', restoreInputs ((vin.map (·.prevout)).zip coins).reverse fClean view = .ok (some fClean, view') ∧
      view'.Refines m ∧ view'.layers ≠ [] := by
  induction vin generalizing m coins view with
  | nil =>
      cases found
      exact ⟨view, rfl, refines, nonempty⟩
  | cons txin rest ih =>
      obtain ⟨coin, coinsRest, present, foundRest, rfl⟩ := UtxoMap.inputCoins_cons_eq_some.mp found
      obtain ⟨view₁, restored, refines₁, nonempty₁⟩ := ih refines nonempty (List.nodup_cons.mp distinct).2
        ((UtxoMap.inputCoins_spendCoin distinct).trans foundRest)
        fun other listed => restorable other (List.mem_cons_of_mem _ listed)
      obtain ⟨height, unspentCoin, spendable⟩ := restorable coin List.mem_cons_self
      have absent : (m.spendCoin txin.prevout).lookup txin.prevout = none := by
        simp [UtxoMap.lookup_spendCoin]
      obtain ⟨view', applied, refines', nonempty'⟩ :=
        applyTxInUndo_spec refines₁ nonempty₁ absent height unspentCoin
      refine ⟨view', ?_, refines'.of_lookup (UtxoMap.lookup_spendCoin_addCoin_of_some present spendable),
        nonempty'⟩
      simp only [List.map_cons, List.zip_cons_cons, List.reverse_cons]
      rw [restoreInputs_append_of_ok restored]
      simp [restoreInputs, applied]

/-- An output serializes to at least nine bytes, so a transaction within the
size limit of `CheckTransaction` has fewer than 2^32 outputs. -/
theorem vout_length_lt_of_checkTransaction {tx : CTransaction} (checked : checkTransaction tx = .ok ()) :
    tx.vout.length < 2 ^ 32 := by
  simp only [checkTransaction, Except.bind_eq_ok] at checked
  obtain ⟨_, _, _, _, _, sized, _⟩ := checked
  simp only [Except.failIf_eq_ok, decide_eq_false_iff_not, not_lt] at sized
  have each : ∀ size ∈ tx.vout.map fun txout => txout.serialize.length, 9 ≤ size := by
    simp only [List.mem_map]
    rintro _ ⟨txout, -, rfl⟩
    have compact : 1 ≤ getSizeOfCompactSize txout.scriptPubKey.length := by
      unfold getSizeOfCompactSize
      split_ifs <;> omega
    rw [CTxOut.serialize_length]
    omega
  have outputs := List.card_nsmul_le_sum _ 9 each
  have serialized : (tx.vout.map fun txout => txout.serialize.length).sum ≤ (tx.serialize false).length := by
    simp only [CTransaction.serialize, List.length_append, serializeVector_length]
    omega
  simp only [List.length_map, nsmul_eq_mul, Nat.cast_id] at outputs
  unfold WITNESS_SCALE_FACTOR MAX_BLOCK_WEIGHT at sized
  omega

/-- The outpoints of a transaction `CheckTransaction` accepts are distinct. -/
theorem outputPoints_nodup_of_checkTransaction {tx : CTransaction} (checked : checkTransaction tx = .ok ())
    (txid : uint256) : (outputPoints txid 0 tx.vout.length).Nodup := by
  have few := vout_length_lt_of_checkTransaction checked
  apply List.Nodup.map_on _ List.nodup_range'
  intro a listedA b listedB same
  simp only [List.mem_range'_1] at listedA listedB
  have indices := congrArg (fun outpoint : COutPoint => outpoint.n.toNat) same
  simp only [UInt32.toNat_ofNat'] at indices
  omega

/-! ## Connecting and disconnecting a block -/

namespace UtxoMap

/-- The transactions of a block, from the map `m` on, spend only coins the map
holds at their turn and write their outputs only where the map, after their
spends, holds none. -/
def SpendsUnspent (hashes : Hashes) (nHeight : Nat) : UtxoMap → List CTransaction → Prop
  | _, [] => True
  | m, tx :: rest =>
      (tx.isCoinBase = false → (m.inputCoins tx.vin).isSome) ∧
      (∀ o ∈ outputPoints (tx.getHash hashes) 0 tx.vout.length,
        (if tx.isCoinBase then m else m.spendInputs tx.vin).lookup o = none) ∧
      SpendsUnspent hashes nHeight (m.updateCoins hashes tx nHeight) rest

/-- The coins the transactions spend carry their metadata, a nonzero height,
and a spendable script, as every coin `AddCoin` stores at a height above the
genesis block does. -/
def SpendsRestorable (hashes : Hashes) (nHeight : Nat) : UtxoMap → List CTransaction → Prop
  | _, [] => True
  | m, tx :: rest =>
      (tx.isCoinBase = false → ∀ coins, m.inputCoins tx.vin = some coins →
        ∀ coin ∈ coins, coin.nHeight ≠ 0 ∧ coin.out.scriptPubKey.isUnspendable = false) ∧
      SpendsRestorable hashes nHeight (m.updateCoins hashes tx nHeight) rest

end UtxoMap

/-- A run of the loop over a first part that does not fail goes on over the
second part with the cleanness it reached. -/
theorem disconnectLoop_append {hashes : Hashes} {blockUndo : CBlockUndo} {nHeight : Nat} {fEnforceBIP30 : Bool}
    {first second : List (CTransaction × Nat)} {fClean : Bool} {result : DisconnectResult} {view' : CoinsStack}
    (ran : disconnectLoop hashes blockUndo nHeight fEnforceBIP30 first fClean view = .ok (result, view'))
    (notFailed : result ≠ .DISCONNECT_FAILED) :
    disconnectLoop hashes blockUndo nHeight fEnforceBIP30 (first ++ second) fClean view =
      disconnectLoop hashes blockUndo nHeight fEnforceBIP30 second (result == .DISCONNECT_OK) view' := by
  induction first generalizing fClean view with
  | nil =>
      simp only [disconnectLoop, Except.pure_eq_ok, Prod.mk.injEq] at ran
      obtain ⟨rfl, rfl⟩ := ran
      cases fClean <;> rfl
  | cons entry rest ih =>
      obtain ⟨tx, i⟩ := entry
      rw [List.cons_append]
      simp only [disconnectLoop] at ran ⊢
      rcases spent : spendOutputs (tx.getHash hashes) nHeight tx.isCoinBase (tx.isCoinBase && !fEnforceBIP30) 0
        tx.vout fClean view with _ | ⟨fClean₁, view₁⟩
      · simp [spent] at ran
      simp only [spent, Except.ok_bind] at ran ⊢
      by_cases later : i > 0
      · rw [if_pos later] at ran ⊢
        by_cases mismatched : ((blockUndo.getD (i - 1) []).length != tx.vin.length) = true
        · simp only [if_pos mismatched, Except.pure_eq_ok, Prod.mk.injEq] at ran
          exact absurd ran.1.symm notFailed
        rw [if_neg mismatched] at ran ⊢
        simp only [Except.bind_eq_ok] at ran
        obtain ⟨⟨restoredClean, view₂⟩, restored, ran⟩ := ran
        rw [restored, Except.ok_bind]
        cases restoredClean with
        | none =>
            simp only [Except.pure_eq_ok, Prod.mk.injEq] at ran
            exact absurd ran.1.symm notFailed
        | some fClean₂ => exact ih ran
      · rw [if_neg later] at ran ⊢
        exact ih ran

/-- Undoing one transaction at index `i` from a stack that refines the map
after its `UpdateCoins`: its outputs are found as written, its undo record is
the coins it spent, and the stack after refines the map before it. -/
theorem disconnectTx_spec {hashes : Hashes} {blockUndo : CBlockUndo} {nHeight : Nat} (fEnforceBIP30 : Bool)
    {tx : CTransaction} {i : Nat} (refines : view.Refines (m.updateCoins hashes tx nHeight))
    (nonempty : view.layers ≠ []) (checked : checkTransaction tx = .ok ()) (coinbase : tx.isCoinBase = true ↔ i = 0)
    (fresh : ∀ o ∈ outputPoints (tx.getHash hashes) 0 tx.vout.length,
      (if tx.isCoinBase then m else m.spendInputs tx.vin).lookup o = none)
    (recorded : 0 < i → m.inputCoins tx.vin = some (blockUndo.getD (i - 1) []))
    (restorable : 0 < i → ∀ coin ∈ blockUndo.getD (i - 1) [],
      coin.nHeight ≠ 0 ∧ coin.isSpent = false ∧ coin.out.scriptPubKey.isUnspendable = false)
    (rest : List (CTransaction × Nat)) :
    ∃ view', view'.Refines m ∧ view'.layers ≠ [] ∧
      disconnectLoop hashes blockUndo nHeight fEnforceBIP30 ((tx, i) :: rest) true view =
        disconnectLoop hashes blockUndo nHeight fEnforceBIP30 rest true view' := by
  obtain ⟨-, distinctInputs⟩ := checkTransaction_eq_ok checked
  obtain ⟨view₁, spent, refines₁, nonempty₁⟩ := spendOutputs_spec refines nonempty
    (outputPoints_nodup_of_checkTransaction checked (tx.getHash hashes)) fresh (tx.isCoinBase && !fEnforceBIP30) true
  by_cases later : 0 < i
  · have notCoinbase : tx.isCoinBase = false := by
      cases isCoinbase : tx.isCoinBase with
      | false => rfl
      | true => exact absurd (coinbase.mp isCoinbase) (Nat.pos_iff_ne_zero.mp later)
    rw [if_neg (by simp [notCoinbase])] at refines₁
    have found := recorded later
    obtain ⟨view₂, restored, refines₂, nonempty₂⟩ :=
      restoreInputs_spec refines₁ nonempty₁ distinctInputs found (restorable later) true
    have lengths : (blockUndo.getD (i - 1) []).length = tx.vin.length := UtxoMap.length_of_inputCoins found
    refine ⟨view₂, refines₂, nonempty₂, ?_⟩
    simp only [disconnectLoop, spent, Except.ok_bind, if_pos later, lengths, bne_self_eq_false, Bool.false_eq_true,
      if_false, restored]
  · rw [if_pos (coinbase.mpr (by omega))] at refines₁
    exact ⟨view₁, refines₁, nonempty₁, by simp [disconnectLoop, spent, later]⟩

/-- The `UpdateCoins` calls of the connecting loop from index `i`, and the
disconnecting loop over the same transactions with the undo records they left:
every call succeeds, the records of the transactions after the first follow
`acc`, and undoing them leaves a stack that refines the map before them. -/
theorem updateBlockCoins_disconnect {hashes : Hashes} {nHeight : Nat} (fEnforceBIP30 : Bool)
    {txs : List CTransaction} {i : Nat} {acc : CBlockUndo} (refines : view.Refines m) (nonempty : view.layers ≠ [])
    (checked : ∀ tx ∈ txs, checkTransaction tx = .ok ())
    (coinbases : ∀ tx j, (tx, j) ∈ txs.zipIdx i → (tx.isCoinBase = true ↔ j = 0))
    (position : acc.length + 1 = i ∨ i = 0 ∧ acc = [])
    (unspent : m.SpendsUnspent hashes nHeight txs) (restorable : m.SpendsRestorable hashes nHeight txs) :
    ∃ blockUndo view₁, updateBlockCoins hashes nHeight i txs acc view = .ok (blockUndo, view₁) ∧
      acc <+: blockUndo ∧ ∃ view₂, view₂.Refines m ∧ view₂.layers ≠ [] ∧
        disconnectLoop hashes blockUndo nHeight fEnforceBIP30 (txs.zipIdx i).reverse true view₁ =
          .ok (.DISCONNECT_OK, view₂) := by
  induction txs generalizing i acc view m with
  | nil => exact ⟨acc, view, rfl, List.prefix_refl acc, view, refines, nonempty, rfl⟩
  | cons tx rest ih =>
      obtain ⟨spends, fresh, unspentLater⟩ := unspent
      obtain ⟨restorableHere, restorableLater⟩ := restorable
      have txChecked := checked tx List.mem_cons_self
      have isCoinbase := coinbases tx i (by simp [List.zipIdx_cons])
      obtain ⟨ranged, distinctInputs⟩ := checkTransaction_eq_ok txChecked
      have notCoinbase : 0 < i → tx.isCoinBase = false := by
        intro later
        cases flag : tx.isCoinBase
        · rfl
        · exact absurd (isCoinbase.mp flag) (Nat.pos_iff_ne_zero.mp later)
      obtain ⟨coins, found⟩ : ∃ coins, tx.isCoinBase = false → m.inputCoins tx.vin = some coins := by
        refine ⟨(m.inputCoins tx.vin).getD [], fun notCoinbase => ?_⟩
        obtain ⟨coins, present⟩ := Option.isSome_iff_exists.mp (spends notCoinbase)
        simp [present]
      obtain ⟨view₁, updated, refines₁, nonempty₁⟩ := updateCoins_spec refines nonempty nHeight ranged
        distinctInputs found ⟨outputPoints_nodup_of_checkTransaction txChecked _, fresh⟩
      have kept : acc <+: if i > 0 then acc ++ [if tx.isCoinBase then [] else coins] else acc := by
        split <;> simp
      have position' : (if i > 0 then acc ++ [if tx.isCoinBase then [] else coins] else acc).length + 1 = i + 1 := by
        rcases position with here | ⟨rfl, rfl⟩
        · by_cases later : i > 0 <;> simp [later] <;> omega
        · simp
      obtain ⟨blockUndo, view₂, updatedLater, extended, view₃, refines₃, nonempty₃, disconnectedLater⟩ :=
        ih refines₁ nonempty₁ (fun t listed => checked t (List.mem_cons_of_mem _ listed))
          (fun t j listed => coinbases t j (by rw [List.zipIdx_cons]; exact List.mem_cons_of_mem _ listed))
          (.inl position') unspentLater restorableLater
      have recorded : 0 < i → m.inputCoins tx.vin = some (blockUndo.getD (i - 1) []) := by
        intro later
        obtain ⟨more, rfl⟩ := extended
        have index : i - 1 = acc.length := by
          rcases position with here | ⟨rfl, -⟩ <;> omega
        simp [found (notCoinbase later), notCoinbase later, later, index]
      have restorable' : 0 < i → ∀ coin ∈ blockUndo.getD (i - 1) [],
          coin.nHeight ≠ 0 ∧ coin.isSpent = false ∧ coin.out.scriptPubKey.isUnspendable = false := by
        intro later coin listed
        obtain ⟨txin, -, lookedUp⟩ := UtxoMap.lookup_of_mem_inputCoins (recorded later) listed
        obtain ⟨height, spendable⟩ := restorableHere (notCoinbase later) _ (recorded later) coin listed
        exact ⟨height, refines.isSpent_eq_false lookedUp, spendable⟩
      obtain ⟨view₄, refines₄, nonempty₄, undone⟩ := disconnectTx_spec fEnforceBIP30 refines₃ nonempty₃ txChecked
        isCoinbase fresh recorded restorable' []
      refine ⟨blockUndo, view₂, ?_, kept.trans extended, view₄, refines₄, nonempty₄, ?_⟩
      · simp only [updateBlockCoins, updated, Except.ok_bind]
        exact updatedLater
      · rw [List.zipIdx_cons, List.reverse_cons, disconnectLoop_append disconnectedLater (by decide)]
        exact undone

/-- After the coinbase, each `UpdateCoins` call of the loop adds one record. -/
theorem length_of_updateBlockCoins {hashes : Hashes} {nHeight i : Nat} (later : 0 < i) {txs : List CTransaction}
    {acc blockUndo : CBlockUndo} {view' : CoinsStack}
    (updated : updateBlockCoins hashes nHeight i txs acc view = .ok (blockUndo, view')) :
    blockUndo.length = acc.length + txs.length := by
  induction txs generalizing i acc view with
  | nil =>
      simp only [updateBlockCoins, Except.pure_eq_ok, Prod.mk.injEq] at updated
      rw [← updated.1, List.length_nil, Nat.add_zero]
  | cons tx rest ih =>
      simp only [updateBlockCoins, Except.bind_eq_ok, if_pos later] at updated
      obtain ⟨⟨txundo, view₁⟩, -, updatedLater⟩ := updated
      rw [ih (Nat.succ_pos i) updatedLater, List.length_append, List.length_singleton, List.length_cons]
      omega

theorem disconnectBlock_restores_view (hashes : Hashes) (block : CBlock) (nHeight : Nat) (fEnforceBIP30 : Bool)
    (refines : view.Refines m) (nonempty : view.layers ≠ [])
    (checked : ∀ tx ∈ block.vtx, checkTransaction tx = .ok ())
    (coinbaseFirst : ∃ coinbase rest, block.vtx = coinbase :: rest ∧ coinbase.isCoinBase = true ∧
      ∀ tx ∈ rest, tx.isCoinBase = false)
    (unspent : m.SpendsUnspent hashes nHeight block.vtx) (restorable : m.SpendsRestorable hashes nHeight block.vtx) :
    ∃ blockUndo view₁ view₂, updateBlockCoins hashes nHeight 0 block.vtx [] view = .ok (blockUndo, view₁) ∧
      disconnectBlock hashes block blockUndo nHeight fEnforceBIP30 view₁ = .ok (.DISCONNECT_OK, view₂) ∧
      ∀ o, view₂.reportTop o = view.reportTop o := by
  obtain ⟨coinbase, rest, split, isCoinbase, notCoinbase⟩ := coinbaseFirst
  have coinbases : ∀ tx j, (tx, j) ∈ block.vtx.zipIdx 0 → (tx.isCoinBase = true ↔ j = 0) := by
    intro tx j listed
    rw [split, List.zipIdx_cons] at listed
    rcases List.mem_cons.mp listed with first | later
    · obtain ⟨rfl, rfl⟩ := Prod.mk.inj first
      simp [isCoinbase]
    · have positive := List.le_snd_of_mem_zipIdx later
      simp only [notCoinbase tx (List.fst_mem_of_mem_zipIdx later), Bool.false_eq_true, false_iff]
      omega
  obtain ⟨blockUndo, view₁, updated, -, view₂, refines₂, -, disconnected⟩ :=
    updateBlockCoins_disconnect fEnforceBIP30 refines nonempty checked coinbases (.inr ⟨rfl, rfl⟩) unspent
      restorable
  have lengths : blockUndo.length + 1 = block.vtx.length := by
    rw [split] at updated ⊢
    simp only [updateBlockCoins, Except.bind_eq_ok] at updated
    obtain ⟨⟨txundo, view₀⟩, -, updatedLater⟩ := updated
    rw [length_of_updateBlockCoins Nat.one_pos updatedLater]
    simp
  refine ⟨blockUndo, view₁, view₂, updated, ?_, fun o => (refines₂.reports o).trans (refines.reports o).symm⟩
  rw [disconnectBlock, if_neg (by simp [lengths])]
  exact disconnected

/-- A coinbase paying nothing to a spendable script. -/
def payingCoinbase : CTransaction :=
  ⟨[⟨⟨uint256.zero, 0xffffffff⟩, [OP_1, OP_0], SEQUENCE_FINAL, ⟨[]⟩⟩], [⟨0, [OP_1]⟩], 2, 0⟩

/-- A transaction spending output 0 of the transaction with hash zero. -/
def spendingTx : CTransaction :=
  ⟨[⟨⟨uint256.zero, 0⟩, [], SEQUENCE_FINAL, ⟨[]⟩⟩], [⟨0, [OP_1]⟩], 2, 0⟩

/-- A block whose second transaction spends the coinbase's output: under
`Hashes.zeros` every transaction hash is zero. -/
def spendingBlock : CBlock :=
  ⟨⟨4, uint256.zero, uint256.zero, 0, 0, 0⟩, [payingCoinbase, spendingTx]⟩

theorem disconnectBlock_restores_view_spending :
    ∃ blockUndo view₁ view₂,
      updateBlockCoins Hashes.zeros 1 0 spendingBlock.vtx [] ⟨CoinsStack.emptyCoinsDB, [∅]⟩ = .ok (blockUndo, view₁) ∧
      disconnectBlock Hashes.zeros spendingBlock blockUndo 1 true view₁ = .ok (.DISCONNECT_OK, view₂) ∧
      ∀ o, view₂.reportTop o = (⟨CoinsStack.emptyCoinsDB, [∅]⟩ : CoinsStack).reportTop o :=
  disconnectBlock_restores_view Hashes.zeros spendingBlock 1 true (CoinsStack.refines_empty CoinsStack.emptyCoinsDB 1)
    (by simp) (by decide) ⟨payingCoinbase, [spendingTx], rfl, rfl, by decide⟩
    (by simp only [spendingBlock, UtxoMap.SpendsUnspent]; decide)
    (by simp only [spendingBlock, UtxoMap.SpendsRestorable]; decide)

/-- A coinbase whose one output is provably unspendable, so that it writes no
coin. -/
def burningCoinbase : CTransaction :=
  ⟨[⟨⟨uint256.zero, 0xffffffff⟩, [OP_1, OP_0], SEQUENCE_FINAL, ⟨[]⟩⟩], [⟨0, [OP_RETURN]⟩], 2, 0⟩

/-- A block of two coinbases. -/
def twoCoinbaseBlock : CBlock :=
  ⟨⟨4, uint256.zero, uint256.zero, 0, 0, 0⟩, [burningCoinbase, burningCoinbase]⟩

/-- Both coinbases pass `CheckTransaction`, spend nothing and write nothing, yet
the second one's undo record is empty while it has an input: the loop of
`DisconnectBlock` fails. -/
theorem disconnectBlock_second_coinbase_fails :
    (⟨CoinsStack.emptyCoinsDB, [∅]⟩ : CoinsStack).Refines ∅ ∧
      (∀ tx ∈ twoCoinbaseBlock.vtx, checkTransaction tx = .ok ()) ∧
      (∅ : UtxoMap).SpendsUnspent Hashes.zeros 1 twoCoinbaseBlock.vtx ∧
      (∅ : UtxoMap).SpendsRestorable Hashes.zeros 1 twoCoinbaseBlock.vtx ∧
      updateBlockCoins Hashes.zeros 1 0 twoCoinbaseBlock.vtx [] ⟨CoinsStack.emptyCoinsDB, [∅]⟩ =
        .ok ([[]], ⟨CoinsStack.emptyCoinsDB, [∅]⟩) ∧
      disconnectBlock Hashes.zeros twoCoinbaseBlock [[]] 1 true ⟨CoinsStack.emptyCoinsDB, [∅]⟩ =
        .ok (.DISCONNECT_FAILED, ⟨CoinsStack.emptyCoinsDB, [∅]⟩) :=
  ⟨CoinsStack.refines_empty CoinsStack.emptyCoinsDB 1, by decide,
    by simp only [twoCoinbaseBlock, UtxoMap.SpendsUnspent]; decide,
    by simp only [twoCoinbaseBlock, UtxoMap.SpendsRestorable]; decide, rfl, rfl⟩

end Qbitcoin
