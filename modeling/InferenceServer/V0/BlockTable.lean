import InferenceServer.Lib.Chunks
import InferenceServer.V0.Allocators

/-!
# Block tables

The block table of a sequence (`vllm/core/block/block_table.py`) has the block objects of the sequence, in
order, with a list of their ids beside them (`BlockList` of `common.py`). All blocks but the last ones are
full. Blocks at the end may be empty: they are room for tokens to come.

With a sliding window, a table gives up the blocks at its beginning and has the null block in their place.

`window` is the number of blocks that a sliding window needs, if there is one. All tables of a manager have
the same.
-/

namespace InferenceServer.V0

open Outcome

/-- `BlockTable`, with the ids of its `BlockList`. -/
structure BlockTable where
  blocks : List BlockRef := []
  blockIds : List BlockId := []
  numFullSlots : Nat := 0
  deriving DecidableEq, Repr

namespace BlockTable

variable (cfg : BlockConfig)

/-! ## The list of blocks -/

/-- `_add_block_id` for a list of blocks. -/
def idsOf (s : BlockSpace) (blocks : List BlockRef) : Except BlockError (List BlockId) :=
  blocks.mapM fun r =>
    match (s.block r).blockId with
    | none => .error (.assertionError .blockList)
    | some id => .ok id

/-- `BlockList.update`. -/
def update (t : BlockTable) (s : BlockSpace) (blocks : List BlockRef) :
    Except BlockError BlockTable := do
  let blockIds ← idsOf s blocks
  return { t with blocks, blockIds }

/-- `BlockList.append`. -/
def append (t : BlockTable) (s : BlockSpace) (r : BlockRef) : Except BlockError BlockTable :=
  match (s.block r).blockId with
  | none => .error (.assertionError .blockList)
  | some id => .ok { t with blocks := t.blocks ++ [r], blockIds := t.blockIds ++ [id] }

/-- `BlockList.__setitem__`. -/
def setItem (t : BlockTable) (s : BlockSpace) (idx : Nat) (r : BlockRef) :
    Except BlockError BlockTable := do
  require (idx < t.blocks.length) .indexError
  match (s.block r).blockId with
  | none => .error (.assertionError .blockList)
  | some id => do
    require (idx < t.blockIds.length) .indexError
    return { t with blocks := t.blocks.set idx r, blockIds := t.blockIds.set idx id }

/-- `BlockList.append_token_ids`: the id is refreshed if the append has changed it. -/
def appendToBlock (t : BlockTable) (idx : Nat) (tokenIds : List TokenId) (s : BlockSpace) :
    Except BlockError (BlockTable × BlockSpace) :=
  match t.blocks[idx]? with
  | none => .error .indexError
  | some r => do
    let prevBlockId := (s.block r).blockId
    let s ← s.appendTokenIds cfg r tokenIds
    if prevBlockId = (s.block r).blockId then return (t, s)
    else
      match (s.block r).blockId with
      | none => .error (.assertionError .blockList)
      | some id => do
        require (idx < t.blockIds.length) .indexError
        return ({ t with blockIds := t.blockIds.set idx id }, s)

/-! ## Allocation -/

/-- `get_num_required_blocks`. -/
def getNumRequiredBlocks (tokenIds : List TokenId) (numLookaheadSlots : Nat) : Int :=
  cdiv (tokenIds.length + numLookaheadSlots : Nat) cfg.blockSize

/-- `_allocate_blocks_for_token_ids`, on the GPU and without a block before. -/
def allocateBlocksForTokenIds (s : BlockSpace) (tokenIds : List TokenId) (extraHash : Option Int) :
    Except BlockError (List BlockRef × BlockSpace) := do
  let cs := chunks cfg.blockSize tokenIds
  let blockTokenIds := cs.filter fun c => c.length = cfg.blockSize
  let tailTokenIds := cs.filter fun c => c.length ≠ cfg.blockSize
  let (blocks, s) ← if blockTokenIds = [] then .ok ([], s)
    else s.allocateImmutableBlocks cfg .gpu none blockTokenIds extraHash
  match tailTokenIds with
  | [] => return (blocks, s)
  | [curTokenIds] => do
    let (r, s) ← s.allocateMutableBlock cfg .gpu blocks.getLast? extraHash
    let s ← s.appendTokenIds cfg r curTokenIds
    return (blocks ++ [r], s)
  | _ => .error (.assertionError .blockTable)

/-- `allocate` of a new table. -/
def allocate (s : BlockSpace) (tokenIds : List TokenId) (extraHash : Option Int) :
    Except BlockError (BlockTable × BlockSpace) := do
  require (tokenIds ≠ []) (.assertionError .blockTable)
  let (blocks, s) ← allocateBlocksForTokenIds cfg s tokenIds extraHash
  let t ← update {} s blocks
  return ({ t with numFullSlots := tokenIds.length }, s)

/-! ## Appending -/

/-- `_num_empty_slots`. -/
def numEmptySlots (t : BlockTable) : Int :=
  (t.blocks.length * cfg.blockSize : Nat) - (t.numFullSlots : Int)

/-- The loop of `ensure_num_empty_slots`. -/
def addBlocks (extraHash : Option Int) :
    Nat → BlockTable → BlockSpace → Except BlockError (BlockTable × BlockSpace)
  | 0, t, s => .ok (t, s)
  | n + 1, t, s => do
    require (t.blocks ≠ []) (.assertionError .blockTable)
    let (r, s) ← s.allocateMutableBlock cfg .gpu t.blocks.getLast? extraHash
    let t ← t.append s r
    addBlocks extraHash n t s

/-- `ensure_num_empty_slots`. -/
def ensureNumEmptySlots (t : BlockTable) (numEmptySlots : Nat) (extraHash : Option Int)
    (s : BlockSpace) : Except BlockError (BlockTable × BlockSpace) := do
  require (t.blocks ≠ []) (.assertionError .blockTable)
  if (numEmptySlots : Int) ≤ t.numEmptySlots cfg then return (t, s)
  else
    let blocksToAllocate := cdiv (numEmptySlots - t.numEmptySlots cfg) cfg.blockSize
    addBlocks cfg extraHash blocksToAllocate.toNat t s

/-- `_chunk_token_blocks_for_append`. -/
def chunkTokenBlocksForAppend (t : BlockTable) (tokenIds : List TokenId) : List (List TokenId) :=
  if tokenIds = [] then []
  else
    let firstChunkSize := cfg.blockSize - t.numFullSlots % cfg.blockSize
    tokenIds.take firstChunkSize :: chunks cfg.blockSize (tokenIds.drop firstChunkSize)

/-- The loop of `append_token_ids` over the blocks with new tokens. -/
def appendToBlocks : List (List TokenId) → Nat → BlockTable → BlockSpace →
    Except BlockError (BlockTable × BlockSpace)
  | [], _, t, s => .ok (t, s)
  | tokenBlock :: rest, idx, t, s => do
    let (t, s) ← t.appendToBlock cfg idx tokenBlock s
    appendToBlocks rest (idx + 1) t s

/-- The body of the loop that drops blocks because of the sliding window. -/
def dropBlock (idx : Nat) (p : BlockTable × BlockSpace) :
    Except BlockError (BlockTable × BlockSpace) :=
  match p.1.blocks[idx]? with
  | none => .error .indexError
  | some .null => .ok p
  | some b => do
    let s ← p.2.free cfg b
    let t ← p.1.setItem s idx .null
    return (t, s)

/-- The blocks before the sliding window are given up. -/
def dropBlocks (window : Option Nat) (t : BlockTable) (numComputedSlots : Nat) (s : BlockSpace) :
    Except BlockError (BlockTable × BlockSpace) :=
  match window with
  | none => .ok (t, s)
  | some maxBlockSlidingWindow => do
    let s ← s.allocateOrGetNullBlock cfg
    threadM (dropBlock cfg)
      (List.range (numComputedSlots / cfg.blockSize - maxBlockSlidingWindow)) (t, s)

/-- `append_token_ids`. -/
def appendTokenIds (window : Option Nat) (t : BlockTable) (tokenIds : List TokenId)
    (numLookaheadSlots numComputedSlots : Nat) (extraHash : Option Int) (s : BlockSpace) :
    Except BlockError (BlockTable × BlockSpace) := do
  require (t.blocks ≠ []) (.assertionError .blockTable)
  let (t, s) ← dropBlocks cfg window t numComputedSlots s
  let (t, s) ← t.ensureNumEmptySlots cfg (tokenIds.length + numLookaheadSlots) extraHash s
  let firstBlockIdx := t.numFullSlots / cfg.blockSize
  let (t, s) ← appendToBlocks cfg (t.chunkTokenBlocksForAppend cfg tokenIds) firstBlockIdx t s
  return ({ t with numFullSlots := t.numFullSlots + tokenIds.length }, s)

/-- `get_unseen_token_ids`. -/
def getUnseenTokenIds (t : BlockTable) (sequenceTokenIds : List TokenId) : List TokenId :=
  sequenceTokenIds.drop t.numFullSlots

/-- `get_num_blocks_touched_by_append_slots`. The quotient of the source is a float. -/
def getNumBlocksTouchedByAppendSlots (t : BlockTable) (tokenIds : List TokenId)
    (numLookaheadSlots : Nat) : Int :=
  let numTokenIds := tokenIds.length + numLookaheadSlots
  let firstChunkSize := cfg.blockSize - t.numFullSlots % cfg.blockSize
  1 + cdiv (numTokenIds - firstChunkSize) cfg.blockSize

/-! ## Sharing and giving back -/

/-- `fork`. -/
def fork (t : BlockTable) (s : BlockSpace) : Except BlockError (BlockTable × BlockSpace) :=
  match t.blocks.getLast? with
  | none => .error (.assertionError .blockTable)
  | some lastBlock => do
    let (forkedBlocks, s) ← s.forkBlocks cfg lastBlock
    let forked ← update {} s forkedBlocks
    return ({ forked with
      numFullSlots := (forkedBlocks.map fun r => (s.block r).tokenIds.length).sum }, s)

/-- `free`. -/
def free (t : BlockTable) (s : BlockSpace) : Except BlockError BlockSpace :=
  threadM (fun r s => s.free cfg r) t.blocks s

end BlockTable

end InferenceServer.V0
