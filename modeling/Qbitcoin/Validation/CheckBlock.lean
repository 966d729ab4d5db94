import Qbitcoin.Consensus.Merkle
import Qbitcoin.Consensus.TxCheck
import Qbitcoin.Consensus.Pow

/-!
# Block validity

`CheckBlock` and `ContextualCheckBlock` of `validation.cpp`, with the checks
they call: `CheckBlockHeader`, `CheckMerkleRoot`, `CheckWitnessMalleation` and
`GetWitnessCommitmentIndex`.  A failure returns the `BlockValidationResult`
and the reject reason of `BlockValidationState::Invalid`.

`ContextualCheckBlock` reads the previous block index and the deployment
states of the chainstate manager; the model takes what it reads as a
`BlockContext`.  The caches `fChecked`, `m_checked_merkle_root` and
`m_checked_witness_commitment` only skip a check that passed before, and are
not modelled.  The signet solution check is a parameter.

The block size checks are the ones the fork scaled to Dilithium sizes:
`CheckBlock` bounds the stripped size by `MAX_BLOCK_WEIGHT / 4` and
`ContextualCheckBlock` the weight by `MAX_BLOCK_WEIGHT`, so an accepted block
is at most `MAX_BLOCK_WEIGHT` bytes long (`length_le_of_contextualCheckBlock`).
-/

namespace Qbitcoin

/-- `BlockValidationResult`, the kinds of failure the modelled checks report. -/
inductive BlockValidationResult where
  /-- `BLOCK_CONSENSUS`. -/
  | consensus
  /-- `BLOCK_INVALID_HEADER`. -/
  | invalidHeader
  /-- `BLOCK_MUTATED`. -/
  | mutated
  deriving DecidableEq, Repr

/-- The outcome of a block check: success, or the kind and reject reason. -/
abbrev BlockCheck := Except (BlockValidationResult × String) Unit

/-- `CheckBlockHeader`. -/
def checkBlockHeader (hashes : Hashes) (header : CBlockHeader) (params : ConsensusParams)
    (fCheckPOW : Bool) : BlockCheck :=
  Except.failIf (fCheckPOW && !checkProofOfWork (header.getHash hashes) header.nBits params)
    (.invalidHeader, "high-hash")

/-- `CheckMerkleRoot`.  Duplicated transactions (CVE-2012-2459) keep the root
but mark a mutation. -/
def checkMerkleRoot (hashes : Hashes) (block : CBlock) : BlockCheck := do
  let merkle := blockMerkleRoot hashes block
  Except.failIf (block.hashMerkleRoot != merkle.1) (.mutated, "bad-txnmrklroot")
  Except.failIf merkle.2 (.mutated, "bad-txns-duplicate")

/-- The `CheckTransaction` loop of `CheckBlock`. -/
def checkTransactions : List CTransaction → BlockCheck
  | [] => pure ()
  | tx :: rest => do
      (checkTransaction tx).mapError fun reason => (.consensus, reason)
      checkTransactions rest

/-- `CheckBlock`, with `CheckSignetBlockSolution` as `checkSignetBlockSolution`.
The legacy signature operation count misses witness and P2SH signature
operations. -/
def checkBlock (hashes : Hashes) (checkSignetBlockSolution : CBlock → Bool) (block : CBlock)
    (params : ConsensusParams) (fCheckPOW fCheckMerkleRoot : Bool) : BlockCheck := do
  checkBlockHeader hashes block.toCBlockHeader params fCheckPOW
  Except.failIf (params.signetBlocks && fCheckPOW && !checkSignetBlockSolution block)
    (.consensus, "bad-signet-blksig")
  (if fCheckMerkleRoot then checkMerkleRoot hashes block else pure ())
  Except.failIf (block.vtx.isEmpty ||
      decide (block.vtx.length * WITNESS_SCALE_FACTOR > MAX_BLOCK_WEIGHT) ||
      decide ((block.serialize false).length * WITNESS_SCALE_FACTOR > MAX_BLOCK_WEIGHT))
    (.consensus, "bad-blk-length")
  Except.failIf (!(block.vtx.head?.map CTransaction.isCoinBase).getD false) (.consensus, "bad-cb-missing")
  Except.failIf ((block.vtx.drop 1).any CTransaction.isCoinBase) (.consensus, "bad-cb-multiple")
  checkTransactions block.vtx
  let nSigOps := (block.vtx.map getLegacySigOpCount).sum
  Except.failIf (decide (nSigOps * WITNESS_SCALE_FACTOR > MAX_BLOCK_SIGOPS_COST))
    (.consensus, "bad-blk-sigops")

/-- `MINIMUM_WITNESS_COMMITMENT`. -/
def MINIMUM_WITNESS_COMMITMENT : Nat := 38

/-- The output test of `GetWitnessCommitmentIndex`: `OP_RETURN`, a 36-byte
push and the tag `aa21a9ed`. -/
def isWitnessCommitment (script : CScript) : Bool :=
  decide (script.length ≥ MINIMUM_WITNESS_COMMITMENT) && script.take 6 == [OP_RETURN, 0x24, 0xaa, 0x21, 0xa9, 0xed]

/-- The output loop of `GetWitnessCommitmentIndex`: the last commitment wins. -/
def commitmentScan : List CTxOut → Nat → Option Nat → Option Nat
  | [], _, commitpos => commitpos
  | vout :: rest, o, commitpos =>
      commitmentScan rest (o + 1) (if isWitnessCommitment vout.scriptPubKey then some o else commitpos)

/-- `GetWitnessCommitmentIndex`, with `none` for `NO_WITNESS_COMMITMENT`. -/
def getWitnessCommitmentIndex (block : CBlock) : Option Nat :=
  match block.vtx with
  | [] => none
  | coinbase :: _ => commitmentScan coinbase.vout 0 none

/-- The scriptSig of the coinbase input `vtx[0]->vin[0]`, which `CheckBlock`
guarantees. -/
def CBlock.coinbaseScriptSig (block : CBlock) : CScript :=
  ((block.vtx.head?.bind fun coinbase => coinbase.vin.head?).map fun txin => txin.scriptSig).getD []

/-- The witness-commitment branch of `CheckWitnessMalleation`. -/
def checkWitnessCommitment (hashes : Hashes) (block : CBlock) (commitpos : Nat) : BlockCheck := do
  let coinbase := block.vtx.head?
  let witnessStack :=
    ((coinbase.bind fun tx => tx.vin.head?).map fun txin => txin.scriptWitness.stack).getD []
  Except.failIf (witnessStack.length != 1 || (witnessStack.headD []).length != 32)
    (.mutated, "bad-witness-nonce-size")
  let hashWitness := hashes.hash256 ((blockWitnessMerkleRoot hashes block).toList ++ witnessStack.headD [])
  let commitment :=
    (((coinbase.bind fun tx => tx.vout[commitpos]?).map fun vout => vout.scriptPubKey).getD []).drop 6
  Except.failIf (hashWitness != commitment.take 32) (.mutated, "bad-witness-merkle-match")

/-- `CheckWitnessMalleation`: a committed witness root, or no witness at all. -/
def checkWitnessMalleation (hashes : Hashes) (block : CBlock) (expectWitnessCommitment : Bool) :
    BlockCheck :=
  match expectWitnessCommitment, getWitnessCommitmentIndex block with
  | true, some commitpos => checkWitnessCommitment hashes block commitpos
  | _, _ => Except.failIf (block.vtx.any CTransaction.hasWitness) (.mutated, "unexpected-witness")

/-- What `ContextualCheckBlock` reads from `pindexPrev` and `chainman`. -/
structure BlockContext where
  /-- `pindexPrev->nHeight + 1`, or 0 without a previous block. -/
  nHeight : Nat
  /-- `DeploymentActiveAfter(pindexPrev, chainman, DEPLOYMENT_CSV)`. -/
  csvActive : Bool
  /-- `DeploymentActiveAfter(pindexPrev, chainman, DEPLOYMENT_HEIGHTINCB)`. -/
  heightInCoinbaseActive : Bool
  /-- `DeploymentActiveAfter(pindexPrev, chainman, DEPLOYMENT_SEGWIT)`. -/
  segwitActive : Bool
  /-- `pindexPrev->GetMedianTimePast()`. -/
  medianTimePast : Int

/-- `ContextualCheckBlock`.  BIP113: lock times count from the median time past
once CSV is active. -/
def contextualCheckBlock (hashes : Hashes) (block : CBlock) (context : BlockContext) : BlockCheck := do
  let nLockTimeCutoff := if context.csvActive then context.medianTimePast else block.getBlockTime
  Except.failIf (block.vtx.any fun tx => !isFinalTx tx context.nHeight nLockTimeCutoff)
    (.consensus, "bad-txns-nonfinal")
  let expect := pushInt64 context.nHeight
  Except.failIf (context.heightInCoinbaseActive &&
      (decide (block.coinbaseScriptSig.length < expect.length) ||
        block.coinbaseScriptSig.take expect.length != expect))
    (.consensus, "bad-cb-height")
  checkWitnessMalleation hashes block context.segwitActive
  Except.failIf (decide (getBlockWeight block > MAX_BLOCK_WEIGHT)) (.consensus, "bad-blk-weight")

@[simp]
theorem checkTransactions_eq_ok {txs : List CTransaction} {u : Unit} :
    checkTransactions txs = .ok u ↔ ∀ tx ∈ txs, checkTransaction tx = .ok () := by
  induction txs with
  | nil => simp [checkTransactions, pure, Except.pure]
  | cons tx rest ih =>
      cases checked : checkTransaction tx <;>
        simp [checkTransactions, checked, ih, Except.mapError, bind, Except.bind]

/-- What `CheckBlock` accepts: a header with enough work, a signet solution
where one is required, the committed transaction list, the size limits, one
coinbase in front, valid transactions and few signature operations. -/
theorem checkBlock_eq_ok {hashes : Hashes} {checkSignetBlockSolution : CBlock → Bool} {block : CBlock}
    {params : ConsensusParams} {fCheckPOW fCheckMerkleRoot : Bool} :
    checkBlock hashes checkSignetBlockSolution block params fCheckPOW fCheckMerkleRoot = .ok () ↔
      (fCheckPOW = true → checkProofOfWork (block.getHash hashes) block.nBits params = true) ∧
      (params.signetBlocks = true → fCheckPOW = true → checkSignetBlockSolution block = true) ∧
      (fCheckMerkleRoot = true →
        block.hashMerkleRoot = (blockMerkleRoot hashes block).1 ∧ (blockMerkleRoot hashes block).2 = false) ∧
      block.vtx ≠ [] ∧ block.vtx.length * WITNESS_SCALE_FACTOR ≤ MAX_BLOCK_WEIGHT ∧
      (block.serialize false).length * WITNESS_SCALE_FACTOR ≤ MAX_BLOCK_WEIGHT ∧
      (block.vtx.head?.map CTransaction.isCoinBase).getD false = true ∧
      (∀ tx ∈ block.vtx.drop 1, tx.isCoinBase = false) ∧
      (∀ tx ∈ block.vtx, checkTransaction tx = .ok ()) ∧
      (block.vtx.map getLegacySigOpCount).sum * WITNESS_SCALE_FACTOR ≤ MAX_BLOCK_SIGOPS_COST := by
  cases fCheckMerkleRoot <;>
    simp [checkBlock, checkBlockHeader, checkMerkleRoot, CBlockHeader.getHash,
      pure, Except.pure, and_assoc]

/-- What `ContextualCheckBlock` accepts. -/
theorem contextualCheckBlock_eq_ok {hashes : Hashes} {block : CBlock} {context : BlockContext} :
    contextualCheckBlock hashes block context = .ok () ↔
      (∀ tx ∈ block.vtx, isFinalTx tx context.nHeight
        (if context.csvActive then context.medianTimePast else block.getBlockTime) = true) ∧
      (context.heightInCoinbaseActive = true →
        (pushInt64 context.nHeight).length ≤ block.coinbaseScriptSig.length ∧
          block.coinbaseScriptSig.take (pushInt64 context.nHeight).length = pushInt64 context.nHeight) ∧
      checkWitnessMalleation hashes block context.segwitActive = .ok () ∧
      getBlockWeight block ≤ MAX_BLOCK_WEIGHT := by
  simp [contextualCheckBlock]

/-- Without a commitment, `CheckWitnessMalleation` accepts exactly the blocks
without witness data. -/
theorem checkWitnessMalleation_of_no_commitment {hashes : Hashes} {block : CBlock}
    {expectWitnessCommitment : Bool} (uncommitted : getWitnessCommitmentIndex block = none) :
    checkWitnessMalleation hashes block expectWitnessCommitment = .ok () ↔
      ∀ tx ∈ block.vtx, tx.hasWitness = false := by
  cases expectWitnessCommitment <;> simp [checkWitnessMalleation, uncommitted]

/-- A block that passes `ContextualCheckBlock` takes at most
`MAX_BLOCK_WEIGHT` bytes with its witnesses. -/
theorem length_le_of_contextualCheckBlock {hashes : Hashes} {block : CBlock} {context : BlockContext}
    (accepted : contextualCheckBlock hashes block context = .ok ()) :
    (block.serialize true).length ≤ MAX_BLOCK_WEIGHT :=
  (length_le_blockWeight block).trans (contextualCheckBlock_eq_ok.mp accepted).2.2.2

end Qbitcoin
