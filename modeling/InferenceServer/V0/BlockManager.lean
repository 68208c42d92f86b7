import InferenceServer.V0.BlockTable

/-!
# The block manager

`SelfAttnBlockSpaceManager` (`vllm/core/block_manager.py`) has a block table for each sequence, and one for
the encoder of each group that has an encoder. Before the scheduler allocates a group or appends to it, it
asks whether there is room: `can_allocate`, `can_append_slots`.

Two trackers belong to it (`prefix_caching_block.py`). One knows when a sequence was last accessed; the
time is entered for the blocks when the sequence is freed. The other has the hashes of the full blocks of
a sequence, and how many of its tokens were cached when this was last asked.

Times are integers. The watermark is given in blocks.
-/

namespace InferenceServer.V0

open Outcome

abbrev SeqId := Nat

/-- `SequenceStatus`; the kinds of being finished make no difference here. -/
inductive SequenceStatus where
  | waiting
  | running
  | swapped
  | finished
  deriving DecidableEq, Repr

/-- What the manager reads of a `Sequence`. -/
structure Sequence where
  seqId : SeqId
  tokenIds : List TokenId
  status : SequenceStatus
  /-- `get_num_computed_tokens`. -/
  numComputedTokens : Nat := 0
  isPrefill : Bool := true
  /-- `extra_hash`, of the adapter of the sequence. -/
  extraHash : Option Int := none
  deriving DecidableEq, Repr

/-- What the manager reads of a `SequenceGroup`. -/
structure SequenceGroup where
  requestId : ReqId
  seqs : List Sequence
  encoderSeq : Option Sequence := none
  nodup : (seqs.map Sequence.seqId).Nodup

/-- `get_seqs` with a status. -/
def SequenceGroup.getSeqs (g : SequenceGroup) (status : SequenceStatus) : List Sequence :=
  g.seqs.filter fun seq => seq.status = status

/-- What the manager is constructed with. -/
structure ManagerConfig extends BlockConfig where
  numGpuBlocks : Nat
  numCpuBlocks : Nat
  /-- `int(watermark * num_gpu_blocks)`. -/
  watermarkBlocks : Nat := 0
  slidingWindow : Option Nat := none

/-- `max_block_sliding_window`. -/
def ManagerConfig.maxBlockSlidingWindow (cfg : ManagerConfig) : Option Nat :=
  cfg.slidingWindow.map fun slidingWindow => slidingWindow / cfg.blockSize + 1 + 1

/-- `AllocStatus`. -/
inductive AllocStatus where
  | ok
  | later
  | never
  deriving DecidableEq, Repr

/-- `SelfAttnBlockSpaceManager` with its trackers. -/
structure BlockManager where
  blockAllocator : BlockSpace
  blockTables : Dict SeqId BlockTable := ∅
  crossBlockTables : Dict ReqId BlockTable := ∅
  /-- `_seq_id_to_blocks_hashes` of the tracker of computed blocks. -/
  seqIdToBlocksHashes : Dict SeqId (List Hash) := ∅
  /-- `_seq_id_to_num_tokens_computed`. -/
  seqIdToNumTokensComputed : Dict SeqId Nat := ∅
  /-- `_seq_last_access` of the tracker of accesses. -/
  seqLastAccess : Dict SeqId (Option Int) := ∅

/-! ## Construction -/

/-- A new allocator for the given ids. -/
def Allocator.create (blockIds : List BlockId) : Allocator where
  freeBlockIndices := blockIds
  allBlockIndices := blockIds
  refcounter := { refcounts := Dict.ofEntries (blockIds.map fun id => (id, 0)) }
  blockPool := { freeIds := List.range (blockIds.length * 4), poolSize := blockIds.length * 4 }
  blockTracker := Dict.ofEntries (blockIds.map fun id => (id, {}))

/-- `CpuGpuBlockAllocator.create`: the ids of the GPU come before those of the CPU. -/
def BlockSpace.create (cfg : ManagerConfig) : BlockSpace where
  allocators
    | .gpu => .create (List.range cfg.numGpuBlocks)
    | .cpu => .create (List.range' cfg.numGpuBlocks cfg.numCpuBlocks)

/-- A new manager. -/
def BlockManager.create (cfg : ManagerConfig) : BlockManager where
  blockAllocator := .create cfg

namespace BlockManager

variable (cfg : ManagerConfig)

/-! ## The trackers -/

/-- The hashes that `_update_seq_hashes` adds. -/
def hashLoop (extraHash : Option Int) : List (List TokenId) → Hash → List Hash
  | [], _ => []
  | blockTokenIds :: rest, prevBlockHash =>
    let h := cfg.hashFunction.hash (decide (prevBlockHash = cfg.hashFunction.noneHash))
      (some prevBlockHash) blockTokenIds extraHash
    h :: hashLoop extraHash rest h

/-- `_update_seq_hashes`: the hashes of the sequence from now on. -/
def updateSeqHashes (m : BlockManager) (seq : Sequence) : Except BlockError (List Hash) := do
  let recorded := m.seqIdToBlocksHashes.getD seq.seqId []
  require (recorded.length * cfg.blockSize ≤ seq.tokenIds.length)
    (.assertionError .computedBlocksTracker)
  let newBlocks := (List.range' recorded.length
    (seq.tokenIds.length / cfg.blockSize - recorded.length)).map fun i =>
      (seq.tokenIds.drop (i * cfg.blockSize)).take cfg.blockSize
  return recorded ++ hashLoop cfg seq.extraHash newBlocks
    (recorded.getLast?.getD cfg.hashFunction.noneHash)

/-- `get_num_cached_tokens`. -/
def getNumCachedTokens (m : BlockManager) (seq : Sequence) :
    Except BlockError (Nat × BlockManager) :=
  if cfg.enableCaching then do
    let hashes ← m.updateSeqHashes cfg seq
    let m := { m with seqIdToBlocksHashes := m.seqIdToBlocksHashes.set seq.seqId hashes }
    match m.seqIdToNumTokensComputed.get? seq.seqId, seq.isPrefill with
    | some n, true => return (n, m)
    | _, _ =>
      let n := (m.blockAllocator.findCachedBlocksPrefix cfg.toBlockConfig hashes).length *
        cfg.blockSize
      return (n, { m with seqIdToNumTokensComputed := m.seqIdToNumTokensComputed.set seq.seqId n })
  else .ok (0, m)

/-- `remove_seq` of the tracker of computed blocks. -/
def removeSeqFromComputedBlocksTracker (m : BlockManager) (seqId : SeqId) :
    Except BlockError BlockManager :=
  if cfg.enableCaching then do
    require (seqId ∈ m.seqIdToBlocksHashes) (.assertionError .computedBlocksTracker)
    require (seqId ∈ m.seqIdToNumTokensComputed) (.assertionError .computedBlocksTracker)
    return { m with
      seqIdToBlocksHashes := m.seqIdToBlocksHashes.erase seqId
      seqIdToNumTokensComputed := m.seqIdToNumTokensComputed.erase seqId }
  else .ok m

/-- `add_seq` of the tracker of accesses. -/
def addSeq (m : BlockManager) (seqId : SeqId) : Except BlockError BlockManager := do
  require (seqId ∉ m.seqLastAccess) (.assertionError .lastAccessTracker)
  return { m with seqLastAccess := m.seqLastAccess.set seqId none }

/-- `update_seq_blocks_last_access`. -/
def updateSeqBlocksLastAccess (m : BlockManager) (seqId : SeqId) (blockIds : List BlockId) :
    Except BlockError BlockManager :=
  match m.seqLastAccess.get? seqId with
  | none => .error (.assertionError .lastAccessTracker)
  | some none => .ok m
  | some (some ts) => do
    let s ← m.blockAllocator.markBlocksAsAccessed cfg.toBlockConfig blockIds ts
    return { m with blockAllocator := s }

/-! ## Admission -/

/-- `check_no_caching_or_swa_for_blockmgr_encdec`. -/
def checkNoCachingOrSwaForEncdec (g : SequenceGroup) : Except BlockError Unit :=
  require (g.encoderSeq.isSome → cfg.maxBlockSlidingWindow = none ∧ cfg.enableCaching = false)
    .notImplementedError

/-- The number of blocks that `can_allocate` takes to be required. -/
def numRequiredBlocks (g : SequenceGroup) (seq : Sequence) (numLookaheadSlots : Nat) : Int :=
  let num := BlockTable.getNumRequiredBlocks cfg.toBlockConfig seq.tokenIds numLookaheadSlots +
    (g.encoderSeq.map fun encoderSeq =>
      BlockTable.getNumRequiredBlocks cfg.toBlockConfig encoderSeq.tokenIds 0).getD 0
  match cfg.maxBlockSlidingWindow with
  | none => num
  | some maxBlockSlidingWindow => min num maxBlockSlidingWindow

/-- `can_allocate`. -/
def canAllocate (m : BlockManager) (g : SequenceGroup) (numLookaheadSlots : Nat) :
    Except BlockError AllocStatus := do
  checkNoCachingOrSwaForEncdec cfg g
  match g.getSeqs .waiting with
  | [] => .error .indexError
  | seq :: _ =>
    let numRequiredBlocks := numRequiredBlocks cfg g seq numLookaheadSlots
    let numFreeGpuBlocks := m.blockAllocator.getNumFreeBlocks cfg.toBlockConfig .gpu
    if cfg.numGpuBlocks - numRequiredBlocks < cfg.watermarkBlocks then return .never
    else if cfg.watermarkBlocks ≤ numFreeGpuBlocks - numRequiredBlocks then return .ok
    else return .later

/-- `_allocate_sequence`. -/
def allocateSequence (s : BlockSpace) (seq : Sequence) :
    Except BlockError (BlockTable × BlockSpace) :=
  if seq.tokenIds = [] then .ok ({}, s)
  else BlockTable.allocate cfg.toBlockConfig s seq.tokenIds seq.extraHash

/-- The loop of `allocate` over the waiting sequences but the first. -/
def allocateRest (blockTable : BlockTable) (m : BlockManager) (seq : Sequence) :
    Except BlockError BlockManager := do
  let (forked, s) ← blockTable.fork cfg.toBlockConfig m.blockAllocator
  addSeq { m with blockAllocator := s, blockTables := m.blockTables.set seq.seqId forked } seq.seqId

/-- `allocate`. -/
def allocate (m : BlockManager) (g : SequenceGroup) : Except BlockError BlockManager := do
  let waitingSeqs := g.getSeqs .waiting
  require (∀ seq ∈ waitingSeqs, seq.seqId ∉ m.blockTables) (.assertionError .blockManager)
  match waitingSeqs with
  | [] => .error .indexError
  | seq :: rest => do
    let (blockTable, s) ← allocateSequence cfg m.blockAllocator seq
    let m ← addSeq { m with
      blockAllocator := s, blockTables := m.blockTables.set seq.seqId blockTable } seq.seqId
    let m ← rest.foldlM (allocateRest cfg blockTable) m
    require (g.requestId ∉ m.crossBlockTables) (.assertionError .blockManager)
    checkNoCachingOrSwaForEncdec cfg g
    match g.encoderSeq with
    | none => return m
    | some encoderSeq => do
      let (blockTable, s) ← allocateSequence cfg m.blockAllocator encoderSeq
      return { m with
        blockAllocator := s, crossBlockTables := m.crossBlockTables.set g.requestId blockTable }

/-- The number of blocks that `can_append_slots` takes to be touched for a sequence. -/
def numTouchedBlocks (m : BlockManager) (numLookaheadSlots : Nat) (seq : Sequence) :
    Except BlockError Int :=
  match m.blockTables.get? seq.seqId with
  | none => .error .keyError
  | some blockTable => .ok (blockTable.getNumBlocksTouchedByAppendSlots cfg.toBlockConfig
      (blockTable.getUnseenTokenIds seq.tokenIds) numLookaheadSlots)

/-- `can_append_slots`. -/
def canAppendSlots (m : BlockManager) (g : SequenceGroup) (numLookaheadSlots : Nat) :
    Except BlockError Bool := do
  let touched ← (g.getSeqs .running).mapM (m.numTouchedBlocks cfg numLookaheadSlots)
  return touched.sum ≤ m.blockAllocator.getNumFreeBlocks cfg.toBlockConfig .gpu

/-- `append_slots`: also the new copies. -/
def appendSlots (m : BlockManager) (numLookaheadSlots : Nat) (seq : Sequence) :
    Except BlockError (List (BlockId × BlockId) × BlockManager) :=
  match m.blockTables.get? seq.seqId with
  | none => .error .keyError
  | some blockTable => do
    let (blockTable, s) ← blockTable.appendTokenIds cfg.toBlockConfig cfg.maxBlockSlidingWindow
      (blockTable.getUnseenTokenIds seq.tokenIds) numLookaheadSlots seq.numComputedTokens
      seq.extraHash m.blockAllocator
    let a := s.allocators .gpu
    return (a.copyOnWrites, { m with
      blockAllocator := s.setAllocator .gpu { a with copyOnWrites := [] }
      blockTables := m.blockTables.set seq.seqId blockTable })

/-! ## Giving back -/

/-- `free`. -/
def free (m : BlockManager) (seqId : SeqId) : Except BlockError BlockManager :=
  match m.blockTables.get? seqId with
  | none => .ok m
  | some blockTable => do
    let m ← m.updateSeqBlocksLastAccess cfg seqId blockTable.blockIds
    let m := { m with seqLastAccess := m.seqLastAccess.erase seqId }
    let m ← m.removeSeqFromComputedBlocksTracker cfg seqId
    let s ← blockTable.free cfg.toBlockConfig m.blockAllocator
    return { m with blockAllocator := s, blockTables := m.blockTables.erase seqId }

/-- `free_cross`. -/
def freeCross (m : BlockManager) (requestId : ReqId) : Except BlockError BlockManager :=
  match m.crossBlockTables.get? requestId with
  | none => .ok m
  | some blockTable => do
    let s ← blockTable.free cfg.toBlockConfig m.blockAllocator
    return { m with blockAllocator := s, crossBlockTables := m.crossBlockTables.erase requestId }

end BlockManager

end InferenceServer.V0
