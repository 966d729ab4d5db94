import Qbitcoin.Lib.FlatFile
import Qbitcoin.Primitives.Block
import Qbitcoin.Net.V1Transport

/-!
# Block files

How `BlockManager` (`node/blockstorage.cpp`) stores blocks: `FindNextBlockPos`
picks the first block file from the cursor on with room for the block and its
8-byte storage header, `WriteBlock` writes the network magic, the block size
and the block there, and `ReadRawBlock` reads them back.

The state is what these functions read and write: the `m_blockfile_info`
vector, the file number of the cursor, the contents of each `blk?????.dat` and
the `-fastprune` option.  Only the normal-chain cursor is modelled (no
assumeutxo snapshot); pre-allocation, flushing, pruning and the XOR
obfuscation of `AutoFile`, which is undone on every read, leave the bytes a
read returns unchanged and are not modelled.  `FindNextBlockPos` asserts that
a block fits in an empty file; a failed assertion stops the node, and the
model returns `none`.

A write goes at the recorded size of its file, after every block stored
before, so over any run of writes every block written stays stored
(`RecordAt`), and `ReadRawBlock` returns it exactly when its size is at most
`MAX_SIZE` (`readRawBlock_writeBlocks`).
-/

namespace Qbitcoin

open ByteCodec

/-- `STORAGE_HEADER_BYTES`: the magic and the size written before a block. -/
def STORAGE_HEADER_BYTES : Nat := 8
/-- `MAX_BLOCKFILE_SIZE`. -/
def MAX_BLOCKFILE_SIZE : Nat := 0x8000000

/-- `CBlockFileInfo`. -/
structure CBlockFileInfo where
  nBlocks : Nat
  nSize : Nat
  nHeightFirst : Nat
  nHeightLast : Nat
  nTimeFirst : Nat
  nTimeLast : Nat
  deriving Inhabited, Repr

/-- `CBlockFileInfo::AddBlock`: the statistics, not the size. -/
def CBlockFileInfo.addBlock (info : CBlockFileInfo) (nHeightIn nTimeIn : Nat) : CBlockFileInfo :=
  { info with
    nHeightFirst := if info.nBlocks = 0 ∨ info.nHeightFirst > nHeightIn then nHeightIn else info.nHeightFirst
    nTimeFirst := if info.nBlocks = 0 ∨ info.nTimeFirst > nTimeIn then nTimeIn else info.nTimeFirst
    nBlocks := info.nBlocks + 1
    nHeightLast := if nHeightIn > info.nHeightLast then nHeightIn else info.nHeightLast
    nTimeLast := if nTimeIn > info.nTimeLast then nTimeIn else info.nTimeLast }

/-- `FlatFilePos`. -/
structure FlatFilePos where
  nFile : Nat
  nPos : Nat
  deriving DecidableEq, Repr

/-- The block files of a `BlockManager`. -/
structure BlockStore where
  /-- `m_blockfile_info`; entries past its end read as the default a `resize` adds. -/
  blockfileInfo : List CBlockFileInfo
  /-- `m_blockfile_cursors[NORMAL]->file_num`, which is `MaxBlockfileNum()`. -/
  cursor : Nat
  /-- The bytes of each block file. -/
  files : Nat → List UInt8
  /-- `m_opts.fast_prune`. -/
  fastPrune : Bool

/-- The size of block file `nFile`. -/
def BlockStore.fileSize (store : BlockStore) (nFile : Nat) : Nat :=
  (store.blockfileInfo.getD nFile default).nSize

/-- `max_blockfile_size` in `FindNextBlockPos`: 64 KiB files under
`-fastprune`, grown to hold a larger block. -/
def maxBlockfileSize (fastPrune : Bool) (nAddSize : Nat) : Nat :=
  if fastPrune then (if nAddSize ≥ 0x10000 then nAddSize + 1 else 0x10000) else MAX_BLOCKFILE_SIZE

/-- The `while` loop of `FindNextBlockPos`: from `nFile` on, the first file with
room for `nAddSize` bytes.  It ends because a file past the vector is empty and
the block fits in an empty file. -/
def nextBlockfile (blockfileInfo : List CBlockFileInfo) (maxSize nAddSize : Nat)
    (fits : nAddSize < maxSize) (nFile : Nat) : Nat :=
  if (blockfileInfo.getD nFile default).nSize + nAddSize ≥ maxSize then
    nextBlockfile blockfileInfo maxSize nAddSize fits (nFile + 1)
  else nFile
termination_by blockfileInfo.length - nFile
decreasing_by
  rename_i full
  have emptyFile : (default : CBlockFileInfo).nSize = 0 := rfl
  have inside : nFile < blockfileInfo.length := by
    by_contra outside
    rw [List.getD_eq_getElem?_getD, List.getElem?_eq_none (by omega), Option.getD_none, emptyFile] at full
    omega
  omega

/-- `BlockManager::FindNextBlockPos`: the position for `nAddSize` bytes and the
updated file statistics, or `none` when its assertion fails. -/
def BlockStore.findNextBlockPos (store : BlockStore) (nAddSize nHeight nTime : Nat) :
    Option (FlatFilePos × BlockStore) :=
  let maxSize := maxBlockfileSize store.fastPrune nAddSize
  if fits : nAddSize < maxSize then
    let nFile := nextBlockfile store.blockfileInfo maxSize nAddSize fits store.cursor
    some (⟨nFile, store.fileSize nFile⟩,
      { store with
        blockfileInfo := store.blockfileInfo.modifyGrow nFile default fun info =>
          { info.addBlock nHeight nTime with nSize := info.nSize + nAddSize }
        cursor := nFile })
  else none

/-- The bytes `WriteBlock` stores: the magic, the size and the block. -/
def storedRecord (messageStart : MessageStartChars) (blockBytes : List UInt8) : List UInt8 :=
  messageStart.toList ++ leBytes 4 (blockBytes.length % 2 ^ 32) ++ blockBytes

/-- `BlockManager::WriteBlock`: the position of the block data.  `block_size`
and `nAddSize` are `unsigned int`. -/
def BlockStore.writeBlock (store : BlockStore) (messageStart : MessageStartChars) (block : CBlock)
    (nHeight : Nat) : Option (FlatFilePos × BlockStore) :=
  let blockBytes := block.serialize true
  let blockSize := blockBytes.length % 2 ^ 32
  match store.findNextBlockPos ((blockSize + STORAGE_HEADER_BYTES) % 2 ^ 32) nHeight block.nTime.toNat with
  | none => none
  | some (pos, store) =>
      some (⟨pos.nFile, pos.nPos + STORAGE_HEADER_BYTES⟩,
        { store with
          files := Function.update store.files pos.nFile
            ((store.files pos.nFile).writeAt pos.nPos 0 (storedRecord messageStart blockBytes)) })

/-- `BlockManager::ReadRawBlock`: the stored bytes of the block at `pos`, or
`none` where the C++ logs an error and returns `false`. -/
def BlockStore.readRawBlock (store : BlockStore) (messageStart : MessageStartChars) (pos : FlatFilePos) :
    Option (List UInt8) :=
  if pos.nPos < STORAGE_HEADER_BYTES then none
  else
    let file := store.files pos.nFile
    match file.readAt (pos.nPos - STORAGE_HEADER_BYTES) STORAGE_HEADER_BYTES with
    | none => none
    | some header =>
        if header.take 4 != messageStart.toList then none
        else
          let blkSize := readLE (header.drop 4)
          if blkSize > MAX_SIZE then none
          else file.readAt pos.nPos blkSize

/-- `WriteBlock` over a list of blocks with their heights. -/
def BlockStore.writeBlocks (store : BlockStore) (messageStart : MessageStartChars) :
    List (CBlock × Nat) → Option (List FlatFilePos × BlockStore)
  | [] => some ([], store)
  | (block, nHeight) :: rest =>
      match store.writeBlock messageStart block nHeight with
      | none => none
      | some (pos, store) =>
          (store.writeBlocks messageStart rest).map fun (positions, store) => (pos :: positions, store)

/-! ## One write -/

/-- `bytes` are stored as a block at `pos`: the storage header and the block
lie inside the recorded size of the file. -/
def BlockStore.RecordAt (store : BlockStore) (messageStart : MessageStartChars) (pos : FlatFilePos)
    (bytes : List UInt8) : Prop :=
  STORAGE_HEADER_BYTES ≤ pos.nPos ∧
    (store.files pos.nFile).readAt (pos.nPos - STORAGE_HEADER_BYTES)
      (STORAGE_HEADER_BYTES + bytes.length) = some (storedRecord messageStart bytes) ∧
    pos.nPos + bytes.length ≤ store.fileSize pos.nFile

/-- The file the loop picks has room for the block. -/
theorem nextBlockfile_room (blockfileInfo : List CBlockFileInfo) (maxSize nAddSize : Nat)
    (fits : nAddSize < maxSize) (nFile : Nat) :
    (blockfileInfo.getD (nextBlockfile blockfileInfo maxSize nAddSize fits nFile) default).nSize + nAddSize <
      maxSize := by
  fun_induction nextBlockfile blockfileInfo maxSize nAddSize fits nFile with
  | case1 nFile full ih => exact ih
  | case2 nFile room => omega

/-- What `FindNextBlockPos` does: it fails exactly when the assertion does, and
otherwise places the bytes at the end of the chosen file and grows that file. -/
theorem findNextBlockPos_eq_some {store : BlockStore} {nAddSize nHeight nTime : Nat}
    {pos : FlatFilePos} {store' : BlockStore}
    (found : store.findNextBlockPos nAddSize nHeight nTime = some (pos, store')) :
    pos.nPos = store.fileSize pos.nFile ∧
      store'.fileSize pos.nFile = pos.nPos + nAddSize ∧
      store'.fileSize pos.nFile < maxBlockfileSize store.fastPrune nAddSize ∧
      (∀ nFile, nFile ≠ pos.nFile → store'.fileSize nFile = store.fileSize nFile) ∧
      store'.files = store.files := by
  unfold BlockStore.findNextBlockPos at found
  dsimp only at found
  split_ifs at found with fits
  cases found
  have room := nextBlockfile_room store.blockfileInfo _ nAddSize fits store.cursor
  refine ⟨rfl, ?_, ?_, fun nFile other => ?_, rfl⟩
  · simp only [BlockStore.fileSize, List.getD_modifyGrow_self]
  · simpa only [BlockStore.fileSize, List.getD_modifyGrow_self] using room
  · simp only [BlockStore.fileSize, List.getD_modifyGrow_of_ne _ _ _ other]

theorem findNextBlockPos_eq_none {store : BlockStore} {nAddSize nHeight nTime : Nat} :
    store.findNextBlockPos nAddSize nHeight nTime = none ↔
      maxBlockfileSize store.fastPrune nAddSize ≤ nAddSize := by
  unfold BlockStore.findNextBlockPos
  dsimp only
  split_ifs with fits <;> simp <;> omega

/-- What `WriteBlock` does, from the position `FindNextBlockPos` gives. -/
theorem writeBlock_eq_some {store : BlockStore} {messageStart : MessageStartChars} {block : CBlock}
    {nHeight : Nat} {pos : FlatFilePos} {store' : BlockStore}
    (written : store.writeBlock messageStart block nHeight = some (pos, store')) :
    ∃ start allocated, store.findNextBlockPos
        (((block.serialize true).length % 2 ^ 32 + STORAGE_HEADER_BYTES) % 2 ^ 32) nHeight
        block.nTime.toNat = some (start, allocated) ∧
      pos = ⟨start.nFile, start.nPos + STORAGE_HEADER_BYTES⟩ ∧
      store' = { allocated with
        files := Function.update allocated.files start.nFile
          ((allocated.files start.nFile).writeAt start.nPos 0
            (storedRecord messageStart (block.serialize true))) } := by
  unfold BlockStore.writeBlock at written
  dsimp only at written
  split at written
  · cases written
  · rename_i start allocated found
    cases written
    exact ⟨start, allocated, found, rfl, rfl⟩

theorem storedRecord_length (messageStart : MessageStartChars) (bytes : List UInt8) :
    (storedRecord messageStart bytes).length = STORAGE_HEADER_BYTES + bytes.length := by
  simp [storedRecord, STORAGE_HEADER_BYTES]
  omega

/-- What `ReadRawBlock` returns for a stored block: the block, if its size is
at most `MAX_SIZE`. -/
theorem readRawBlock_of_recordAt {store : BlockStore} {messageStart : MessageStartChars}
    {pos : FlatFilePos} {bytes : List UInt8} (stored : store.RecordAt messageStart pos bytes)
    (fits : bytes.length < 2 ^ 32) :
    store.readRawBlock messageStart pos = if bytes.length ≤ MAX_SIZE then some bytes else none := by
  obtain ⟨afterHeader, read, -⟩ := stored
  have record : (store.files pos.nFile).readAt (pos.nPos - STORAGE_HEADER_BYTES)
      ((messageStart.toList ++ leBytes 4 bytes.length).length + bytes.length) =
        some ((messageStart.toList ++ leBytes 4 bytes.length) ++ bytes) := by
    have small : bytes.length < 4294967296 := fits
    simpa [storedRecord, Nat.mod_eq_of_lt small, STORAGE_HEADER_BYTES] using read
  obtain ⟨headerRead, blockRead⟩ := List.readAt_append record
  have headerBytes : (store.files pos.nFile).readAt (pos.nPos - STORAGE_HEADER_BYTES) STORAGE_HEADER_BYTES =
      some (messageStart.toList ++ leBytes 4 bytes.length) := by
    simpa [STORAGE_HEADER_BYTES] using headerRead
  have dataStart : pos.nPos - STORAGE_HEADER_BYTES + (messageStart.toList ++ leBytes 4 bytes.length).length =
      pos.nPos := by
    simp [STORAGE_HEADER_BYTES] at afterHeader ⊢
    omega
  have size : readLE (leBytes 4 bytes.length) = bytes.length := readLE_leBytes 4 _ fits
  rw [dataStart] at blockRead
  unfold BlockStore.readRawBlock
  rw [if_neg (by omega)]
  simp only [headerBytes]
  by_cases within : bytes.length ≤ MAX_SIZE
  · simp [size, blockRead, within, not_lt.mpr within]
  · simp [size, within, not_le.mp within]

theorem writeBlock_eq_none {store : BlockStore} {messageStart : MessageStartChars} {block : CBlock}
    {nHeight : Nat} :
    store.writeBlock messageStart block nHeight = none ↔
      maxBlockfileSize store.fastPrune (((block.serialize true).length % 2 ^ 32 + STORAGE_HEADER_BYTES) % 2 ^ 32) ≤
        ((block.serialize true).length % 2 ^ 32 + STORAGE_HEADER_BYTES) % 2 ^ 32 := by
  have failed : store.writeBlock messageStart block nHeight = none ↔
      store.findNextBlockPos (((block.serialize true).length % 2 ^ 32 + STORAGE_HEADER_BYTES) % 2 ^ 32) nHeight
        block.nTime.toNat = none := by
    unfold BlockStore.writeBlock
    dsimp only
    split <;> simp_all
  rw [failed, findNextBlockPos_eq_none]

/-- The block `WriteBlock` writes is stored at the position it returns. -/
theorem recordAt_writeBlock {store : BlockStore} {messageStart : MessageStartChars} {block : CBlock}
    {nHeight : Nat} {pos : FlatFilePos} {store' : BlockStore}
    (written : store.writeBlock messageStart block nHeight = some (pos, store'))
    (fits : (block.serialize true).length + STORAGE_HEADER_BYTES < 2 ^ 32) :
    store'.RecordAt messageStart pos (block.serialize true) := by
  obtain ⟨start, allocated, found, rfl, rfl⟩ := writeBlock_eq_some written
  obtain ⟨-, grown, -, -, -⟩ := findNextBlockPos_eq_some found
  have addSize : ((block.serialize true).length % 2 ^ 32 + STORAGE_HEADER_BYTES) % 2 ^ 32 =
      (block.serialize true).length + STORAGE_HEADER_BYTES := by
    rw [Nat.mod_eq_of_lt (by omega : (block.serialize true).length < 2 ^ 32), Nat.mod_eq_of_lt fits]
  have readBack := List.readAt_writeAt_self (allocated.files start.nFile) start.nPos 0
    (storedRecord messageStart (block.serialize true))
  rw [storedRecord_length] at readBack
  refine ⟨Nat.le_add_left _ _, ?_, ?_⟩
  · simpa [BlockStore.RecordAt, Function.update_self] using readBack
  · show start.nPos + STORAGE_HEADER_BYTES + (block.serialize true).length ≤ allocated.fileSize start.nFile
    rw [grown, addSize]
    omega

/-- A write leaves every block stored before it in place: it goes at the end
of its file, after every stored block, and grows only that file. -/
theorem recordAt_writeBlock_of_recordAt {store : BlockStore} {messageStart : MessageStartChars}
    {block : CBlock} {nHeight : Nat} {pos : FlatFilePos} {store' : BlockStore}
    (written : store.writeBlock messageStart block nHeight = some (pos, store'))
    {storedPos : FlatFilePos} {bytes : List UInt8} (stored : store.RecordAt messageStart storedPos bytes) :
    store'.RecordAt messageStart storedPos bytes := by
  obtain ⟨start, allocated, found, rfl, rfl⟩ := writeBlock_eq_some written
  obtain ⟨atEnd, grown, -, others, sameFiles⟩ := findNextBlockPos_eq_some found
  obtain ⟨afterHeader, read, inside⟩ := stored
  refine ⟨afterHeader, ?_, ?_⟩
  · by_cases sameFile : storedPos.nFile = start.nFile
    · have before : storedPos.nPos - STORAGE_HEADER_BYTES + (STORAGE_HEADER_BYTES + bytes.length) ≤ start.nPos := by
        rw [atEnd, ← sameFile]
        omega
      simp only [sameFile, Function.update_self, sameFiles]
      rw [sameFile] at read
      exact List.readAt_writeAt_of_le 0 _ read before
    · simpa [Function.update_of_ne sameFile, sameFiles] using read
  · show storedPos.nPos + bytes.length ≤ allocated.fileSize storedPos.nFile
    by_cases sameFile : storedPos.nFile = start.nFile
    · rw [sameFile, grown, atEnd, ← sameFile]
      omega
    · rw [others _ sameFile]
      exact inside

/-! ## Runs of writes -/

/-- Over a run of writes, blocks stored before stay stored. -/
theorem recordAt_writeBlocks_of_recordAt {store : BlockStore} {messageStart : MessageStartChars}
    {blocks : List (CBlock × Nat)} {positions : List FlatFilePos} {store' : BlockStore}
    (written : store.writeBlocks messageStart blocks = some (positions, store'))
    {storedPos : FlatFilePos} {bytes : List UInt8} (stored : store.RecordAt messageStart storedPos bytes) :
    store'.RecordAt messageStart storedPos bytes := by
  induction blocks generalizing store positions with
  | nil =>
      cases written
      exact stored
  | cons entry rest ih =>
      obtain ⟨block, nHeight⟩ := entry
      unfold BlockStore.writeBlocks at written
      split at written
      · cases written
      · rename_i pos next step
        obtain ⟨⟨positions', final⟩, run, produced⟩ := Option.map_eq_some_iff.mp written
        simp only [Prod.mk.injEq] at produced
        rw [produced.2] at run
        exact ih run (recordAt_writeBlock_of_recordAt step stored)

/-- Every block of a run of writes is stored at the position returned for it. -/
theorem recordAt_writeBlocks {store : BlockStore} {messageStart : MessageStartChars}
    {blocks : List (CBlock × Nat)} {positions : List FlatFilePos} {store' : BlockStore}
    (written : store.writeBlocks messageStart blocks = some (positions, store'))
    (fits : ∀ entry ∈ blocks, (entry.1.serialize true).length + STORAGE_HEADER_BYTES < 2 ^ 32) :
    List.Forall₂ (fun pos entry => store'.RecordAt messageStart pos (entry.1.serialize true)) positions blocks := by
  induction blocks generalizing store positions with
  | nil =>
      cases written
      exact List.Forall₂.nil
  | cons entry rest ih =>
      obtain ⟨block, nHeight⟩ := entry
      unfold BlockStore.writeBlocks at written
      split at written
      · cases written
      · rename_i pos next step
        obtain ⟨⟨positions', final⟩, run, produced⟩ := Option.map_eq_some_iff.mp written
        simp only [Prod.mk.injEq] at produced
        obtain ⟨rfl, rfl⟩ := produced
        have firstFits : (block.serialize true).length + STORAGE_HEADER_BYTES < 2 ^ 32 :=
          fits (block, nHeight) List.mem_cons_self
        have first := recordAt_writeBlock step firstFits
        exact List.Forall₂.cons (recordAt_writeBlocks_of_recordAt run first)
          (ih run fun entry member => fits entry (List.mem_cons_of_mem _ member))

/-- Storage round trip: after any run of `WriteBlock` calls, `ReadRawBlock` at
the position returned for a block gives the block back if it has at most
`MAX_SIZE` bytes, and fails otherwise. -/
theorem readRawBlock_writeBlocks {store : BlockStore} {messageStart : MessageStartChars}
    {blocks : List (CBlock × Nat)} {positions : List FlatFilePos} {store' : BlockStore}
    (written : store.writeBlocks messageStart blocks = some (positions, store'))
    (fits : ∀ entry ∈ blocks, (entry.1.serialize true).length + STORAGE_HEADER_BYTES < 2 ^ 32) :
    List.Forall₂ (fun pos entry => store'.readRawBlock messageStart pos =
        if (entry.1.serialize true).length ≤ MAX_SIZE then some (entry.1.serialize true) else none)
      positions blocks := by
  have stored := recordAt_writeBlocks written fits
  clear written
  induction stored with
  | nil => exact List.Forall₂.nil
  | cons record _ ih =>
      have sized := fits _ List.mem_cons_self
      exact List.Forall₂.cons (readRawBlock_of_recordAt record (by omega))
        (ih fun entry member => fits entry (List.mem_cons_of_mem _ member))

end Qbitcoin
