import Qbitcoin.Validation.CheckBlock
import Qbitcoin.Node.BlockStorage

/-!
# Block size limits across the node

Block validation bounds a block by `MAX_BLOCK_WEIGHT`, which this fork raised
to 184,000,000 for Dilithium witnesses, so an accepted block may take up to
that many bytes (`length_le_of_contextualCheckBlock`).  The block files, the
raw block reader and the P2P framing kept the upstream limits:
`MAX_BLOCKFILE_SIZE` (128 MiB), `MAX_SIZE` (32 MiB) and
`MAX_PROTOCOL_MESSAGE_LENGTH` (4 MB).

Without witness data the stripped-size check alone admits 46,000,000 bytes.
A block whose coinbase pays to a 40,000,000-byte script of `OP_0`s passes
`CheckBlock` and `ContextualCheckBlock`; `WriteBlock` stores it, but
`ReadRawBlock` refuses to read it back and a peer that receives it as a
`block` message drops the connection (`zeroScriptBlock_accepted_unrelayable`).
-/

namespace Qbitcoin

/-- `NetMsgType::BLOCK`, the bytes of `"block"`. -/
def NetMsgType.BLOCK : List UInt8 := [0x62, 0x6c, 0x6f, 0x63, 0x6b]

/-- A coinbase transaction with the given scriptSig, paying nothing to a
script of `size` `OP_0`s. -/
def zeroScriptCoinbase (scriptSig : CScript) (size : Nat) : CTransaction :=
  ⟨[⟨⟨uint256.zero, 0xffffffff⟩, scriptSig, SEQUENCE_FINAL, ⟨[]⟩⟩], [⟨0, List.replicate size OP_0⟩], 2, 0⟩

/-- The block of that coinbase alone under the given header fields, with the
merkle root it commits to. -/
def zeroScriptBlock (hashes : Hashes) (header : CBlockHeader) (scriptSig : CScript) (size : Nat) : CBlock :=
  { header with
    hashMerkleRoot := (zeroScriptCoinbase scriptSig size).getHash hashes
    vtx := [zeroScriptCoinbase scriptSig size] }

theorem getSizeOfCompactSize_of_lt {nSize : Nat} (small : nSize < 253) : getSizeOfCompactSize nSize = 1 := by
  simp [getSizeOfCompactSize, small]

theorem zeroScriptCoinbase_hasWitness (scriptSig : CScript) (size : Nat) :
    (zeroScriptCoinbase scriptSig size).hasWitness = false := by
  simp [zeroScriptCoinbase, CTransaction.hasWitness, CScriptWitness.isNull]

theorem zeroScriptCoinbase_serialize_length {scriptSig : CScript} (short : scriptSig.length < 253)
    (size : Nat) (fAllowWitness : Bool) :
    ((zeroScriptCoinbase scriptSig size).serialize fAllowWitness).length =
      59 + scriptSig.length + getSizeOfCompactSize size + size := by
  have one : getSizeOfCompactSize 1 = 1 := rfl
  rw [CTransaction.serialize, zeroScriptCoinbase_hasWitness]
  simp [serializeVector_length, zeroScriptCoinbase, getSizeOfCompactSize_of_lt short, one]
  omega

theorem zeroScriptBlock_serialize_length (hashes : Hashes) (header : CBlockHeader) {scriptSig : CScript}
    (short : scriptSig.length < 253) (size : Nat) (fAllowWitness : Bool) :
    ((zeroScriptBlock hashes header scriptSig size).serialize fAllowWitness).length =
      140 + scriptSig.length + getSizeOfCompactSize size + size := by
  have one : getSizeOfCompactSize 1 = 1 := rfl
  rw [CBlock.serialize_length]
  simp [zeroScriptBlock, zeroScriptCoinbase_serialize_length short, one]
  omega

theorem zeroScriptBlock_noWitness (hashes : Hashes) (header : CBlockHeader) (scriptSig : CScript) (size : Nat) :
    ∀ tx ∈ (zeroScriptBlock hashes header scriptSig size).vtx, tx.hasWitness = false := by
  simp [zeroScriptBlock, zeroScriptCoinbase_hasWitness]

theorem zeroScriptBlock_blockWeight (hashes : Hashes) (header : CBlockHeader) {scriptSig : CScript}
    (short : scriptSig.length < 253) (size : Nat) :
    getBlockWeight (zeroScriptBlock hashes header scriptSig size) =
      WITNESS_SCALE_FACTOR * (140 + scriptSig.length + getSizeOfCompactSize size + size) := by
  rw [blockWeight_of_no_witness (zeroScriptBlock_noWitness hashes header scriptSig size),
    zeroScriptBlock_serialize_length hashes header short]

theorem zeroScriptCoinbase_isCoinBase (scriptSig : CScript) (size : Nat) :
    (zeroScriptCoinbase scriptSig size).isCoinBase = true := by
  simp [zeroScriptCoinbase, CTransaction.isCoinBase, COutPoint.isNull]

/-- The coinbase passes `CheckTransaction` when its scriptSig has 2 to 100
bytes and it fits the stripped-size limit. -/
theorem checkTransaction_zeroScriptCoinbase {scriptSig : CScript}
    (sized : 2 ≤ scriptSig.length ∧ scriptSig.length ≤ 100) {size : Nat}
    (stripped : ((zeroScriptCoinbase scriptSig size).serialize false).length * WITNESS_SCALE_FACTOR ≤
      MAX_BLOCK_WEIGHT) :
    checkTransaction (zeroScriptCoinbase scriptSig size) = .ok () := by
  simp [checkTransaction, checkOutputValues, checkDuplicateInputs, zeroScriptCoinbase, CTransaction.isCoinBase,
    COutPoint.isNull, moneyRange, MAX_MONEY, COIN]
  exact ⟨stripped, sized⟩

/-- Only the scriptSig charges signature operations: `OP_0`s charge none. -/
theorem getLegacySigOpCount_zeroScriptCoinbase (scriptSig : CScript) (size : Nat) :
    getLegacySigOpCount (zeroScriptCoinbase scriptSig size) ≤ 20 * scriptSig.length := by
  have output : CScript.getSigOpCount (List.replicate size OP_0) false = 0 :=
    sigOpLoop_replicate_zero false size _ 0
  have input := getSigOpCount_le scriptSig false
  simpa [getLegacySigOpCount, zeroScriptCoinbase, output] using input

/-- A script of `OP_0`s is no witness commitment, so the block commits to none. -/
theorem getWitnessCommitmentIndex_zeroScriptBlock (hashes : Hashes) (header : CBlockHeader)
    (scriptSig : CScript) (size : Nat) :
    getWitnessCommitmentIndex (zeroScriptBlock hashes header scriptSig size) = none := by
  have notCommitment : isWitnessCommitment (List.replicate size OP_0) = false := by
    cases size with
    | zero => rfl
    | succ count => simp [isWitnessCommitment, List.replicate_succ, OP_0, OP_RETURN]
  simp [getWitnessCommitmentIndex, zeroScriptBlock, zeroScriptCoinbase, commitmentScan, notCommitment]

theorem validMessageType_block : ValidMessageType NetMsgType.BLOCK :=
  ⟨by decide, by simp [NetMsgType.BLOCK]⟩

/-- The block passes `CheckBlock` whenever it is within the weight limit, its
header carries enough work and its coinbase scriptSig has a valid length. -/
theorem checkBlock_zeroScriptBlock {hashes : Hashes} {checkSignetBlockSolution : CBlock → Bool}
    {params : ConsensusParams} {header : CBlockHeader} {scriptSig : CScript} {size : Nat}
    (noSignet : params.signetBlocks = false)
    (work : checkProofOfWork ((zeroScriptBlock hashes header scriptSig size).getHash hashes)
      header.nBits params = true)
    (sized : 2 ≤ scriptSig.length ∧ scriptSig.length ≤ 100)
    (weight : getBlockWeight (zeroScriptBlock hashes header scriptSig size) ≤ MAX_BLOCK_WEIGHT) :
    checkBlock hashes checkSignetBlockSolution (zeroScriptBlock hashes header scriptSig size) params true true =
      .ok () := by
  have short : scriptSig.length < 253 := by omega
  have single : (zeroScriptBlock hashes header scriptSig size).vtx = [zeroScriptCoinbase scriptSig size] := rfl
  rw [zeroScriptBlock_blockWeight hashes header short] at weight
  have stripped : ((zeroScriptBlock hashes header scriptSig size).serialize false).length * WITNESS_SCALE_FACTOR ≤
      MAX_BLOCK_WEIGHT := by
    rw [zeroScriptBlock_serialize_length hashes header short, Nat.mul_comm]
    exact weight
  have txStripped : ((zeroScriptCoinbase scriptSig size).serialize false).length * WITNESS_SCALE_FACTOR ≤
      MAX_BLOCK_WEIGHT := by
    rw [zeroScriptCoinbase_serialize_length short]
    unfold WITNESS_SCALE_FACTOR at weight ⊢
    omega
  have sigops := getLegacySigOpCount_zeroScriptCoinbase scriptSig size
  rw [checkBlock_eq_ok]
  refine ⟨fun _ => work, by simp [noSignet], fun _ => ?_, by simp [single],
    by simp [single, WITNESS_SCALE_FACTOR, MAX_BLOCK_WEIGHT], stripped,
    by simp [single, zeroScriptCoinbase_isCoinBase], by simp [single],
    by simp [single, checkTransaction_zeroScriptCoinbase sized txStripped], ?_⟩
  · rw [blockMerkleRoot_singleton hashes single]
    exact ⟨rfl, rfl⟩
  · simp only [single, List.map_cons, List.map_nil, List.sum_cons, List.sum_nil]
    unfold WITNESS_SCALE_FACTOR MAX_BLOCK_SIGOPS_COST
    omega

/-- The block passes `ContextualCheckBlock` whenever it is within the weight
limit and its coinbase scriptSig starts with the height where that is enforced. -/
theorem contextualCheckBlock_zeroScriptBlock {hashes : Hashes} {context : BlockContext}
    {header : CBlockHeader} {scriptSig : CScript} {size : Nat}
    (heightPushed : context.heightInCoinbaseActive = true →
      scriptSig.take (pushInt64 context.nHeight).length = pushInt64 context.nHeight)
    (weight : getBlockWeight (zeroScriptBlock hashes header scriptSig size) ≤ MAX_BLOCK_WEIGHT) :
    contextualCheckBlock hashes (zeroScriptBlock hashes header scriptSig size) context = .ok () := by
  have coinbaseScriptSig : (zeroScriptBlock hashes header scriptSig size).coinbaseScriptSig = scriptSig := rfl
  have heightPrefix : context.heightInCoinbaseActive = true →
      (pushInt64 context.nHeight).length ≤ scriptSig.length ∧
        scriptSig.take (pushInt64 context.nHeight).length = pushInt64 context.nHeight := by
    intro active
    have pushed := heightPushed active
    have pushedLength := congrArg List.length pushed
    rw [List.length_take] at pushedLength
    exact ⟨by omega, pushed⟩
  have malleation : checkWitnessMalleation hashes (zeroScriptBlock hashes header scriptSig size)
      context.segwitActive = .ok () := (checkWitnessMalleation_of_no_commitment
    (getWitnessCommitmentIndex_zeroScriptBlock hashes header scriptSig size)).mpr
    (zeroScriptBlock_noWitness hashes header scriptSig size)
  rw [contextualCheckBlock_eq_ok, coinbaseScriptSig]
  exact ⟨by simp [zeroScriptBlock, isFinalTx, zeroScriptCoinbase], heightPrefix, malleation, weight⟩

/-- A block that passes both block checks but exceeds `MAX_SIZE` and
`MAX_PROTOCOL_MESSAGE_LENGTH`: stored, it cannot be read back, and sent, it
makes the receiving peer disconnect.  The header must carry enough work and
the coinbase scriptSig must be a valid coinbase script for the height. -/
theorem zeroScriptBlock_accepted_unrelayable (hashes : Hashes) (checkSignetBlockSolution : CBlock → Bool)
    (params : ConsensusParams) (context : BlockContext) (header : CBlockHeader) (scriptSig : CScript)
    (noSignet : params.signetBlocks = false)
    (work : checkProofOfWork ((zeroScriptBlock hashes header scriptSig 40000000).getHash hashes)
      header.nBits params = true)
    (sized : 2 ≤ scriptSig.length ∧ scriptSig.length ≤ 100)
    (heightPushed : context.heightInCoinbaseActive = true →
      scriptSig.take (pushInt64 context.nHeight).length = pushInt64 context.nHeight) :
    let block := zeroScriptBlock hashes header scriptSig 40000000
    checkBlock hashes checkSignetBlockSolution block params true true = .ok () ∧
      contextualCheckBlock hashes block context = .ok () ∧
      MAX_SIZE < (block.serialize true).length ∧
      MAX_PROTOCOL_MESSAGE_LENGTH < (block.serialize true).length ∧
      (∀ (store : BlockStore) messageStart nHeight pos store',
        store.writeBlock messageStart block nHeight = some (pos, store') →
          store'.readRawBlock messageStart pos = none) ∧
      ∀ magic previous, receiveMsgBytes hashes magic (V1Recv.reset previous)
        (wireBytes hashes magic NetMsgType.BLOCK (block.serialize true)) = none := by
  intro block
  have short : scriptSig.length < 253 := by omega
  have compactSize : getSizeOfCompactSize 40000000 = 5 := rfl
  have blockLength : (block.serialize true).length = 40000145 + scriptSig.length := by
    rw [zeroScriptBlock_serialize_length hashes header short, compactSize]
    omega
  have weight : getBlockWeight block ≤ MAX_BLOCK_WEIGHT := by
    rw [zeroScriptBlock_blockWeight hashes header short, compactSize]
    unfold WITNESS_SCALE_FACTOR MAX_BLOCK_WEIGHT
    omega
  have fits : (block.serialize true).length + STORAGE_HEADER_BYTES < 2 ^ 32 := by
    rw [blockLength]
    unfold STORAGE_HEADER_BYTES
    omega
  have tooLarge : MAX_SIZE < (block.serialize true).length := by
    rw [blockLength]
    unfold MAX_SIZE
    omega
  refine ⟨checkBlock_zeroScriptBlock noSignet work sized weight,
    contextualCheckBlock_zeroScriptBlock heightPushed weight, tooLarge, ?_,
    fun store messageStart nHeight pos store' written => ?_, fun magic previous => ?_⟩
  · rw [blockLength]
    unfold MAX_PROTOCOL_MESSAGE_LENGTH
    omega
  · rw [readRawBlock_of_recordAt (recordAt_writeBlock written fits) (by omega), if_neg (by omega)]
  · rw [receiveMsgBytes_wireBytes hashes magic validMessageType_block (by omega), if_neg (by omega)]

/-- The failing input on regtest at height 1 (`nBits` `0x207fffff`, all
deployments active), with the coinbase scriptSig `OP_1 OP_0`, for hash
functions under which the header meets its target. -/
theorem zeroScriptBlock_accepted_unrelayable_regtest :
    let header : CBlockHeader := ⟨4, uint256.zero, uint256.zero, 1296688603, 0x207fffff, 0⟩
    let block := zeroScriptBlock Hashes.zeros header [OP_1, OP_0] 40000000
    checkBlock Hashes.zeros (fun _ => true) block ConsensusParams.regtest true true = .ok () ∧
      contextualCheckBlock Hashes.zeros block ⟨1, true, true, true, 1296688602⟩ = .ok () ∧
      MAX_SIZE < (block.serialize true).length ∧
      MAX_PROTOCOL_MESSAGE_LENGTH < (block.serialize true).length ∧
      (∀ (store : BlockStore) messageStart nHeight pos store',
        store.writeBlock messageStart block nHeight = some (pos, store') →
          store'.readRawBlock messageStart pos = none) ∧
      ∀ magic previous, receiveMsgBytes Hashes.zeros magic (V1Recv.reset previous)
        (wireBytes Hashes.zeros magic NetMsgType.BLOCK (block.serialize true)) = none :=
  zeroScriptBlock_accepted_unrelayable Hashes.zeros (fun _ => true) ConsensusParams.regtest
    ⟨1, true, true, true, 1296688602⟩ ⟨4, uint256.zero, uint256.zero, 1296688603, 0x207fffff, 0⟩
    [OP_1, OP_0] rfl (by decide) (by decide) (fun _ => by decide)

end Qbitcoin
