import InferenceServer.KVCache.BlockPool

/-!
# Managers of one attention type

`SingleTypeKVCacheManager` and its subclasses (`vllm/v1/core/single_type_kv_cache_manager.py`): the
block tables of one KV cache group. The subclasses differ in the blocks they give up
(`removeSkippedBlocks`) and in the cache hits they look for (`findLongestCacheHit`).

The block pool is shared by all managers and is passed and returned. Reading a missing entry of
`req_to_blocks`, a `defaultdict`, gives the empty list.
-/

namespace InferenceServer

open Outcome

/-- The fields of `AttentionSpec` besides the block size. -/
structure AttentionFormat where
  numKvHeads : Nat
  headSize : Nat
  dtype : String
  useMla : Bool
deriving DecidableEq, Repr

/-- The KV cache format of a group (`vllm/v1/kv_cache_interface.py`). -/
inductive KVCacheSpec where
  | fullAttention (blockSize : Nat) (format : AttentionFormat)
      (slidingWindow attentionChunkSize : Option Nat)
  | slidingWindow (blockSize : Nat) (format : AttentionFormat) (slidingWindow : Nat)
  | chunkedLocalAttention (blockSize : Nat) (format : AttentionFormat) (attentionChunkSize : Nat)
  | mamba (blockSize : Nat) (shapes : List (List Nat)) (dtype : String)
      (pageSizePadded : Option Nat) (mambaType : String)
deriving DecidableEq, Repr

namespace KVCacheSpec

def blockSize : KVCacheSpec → Nat
  | fullAttention bs .. | slidingWindow bs .. | chunkedLocalAttention bs .. | mamba bs .. => bs

def isFullAttention : KVCacheSpec → Bool
  | fullAttention .. => true
  | _ => false

/-! ## Cache hits -/

/-- Append one block to the list of every group. -/
def appendEach (computed : List (List BlockId)) (row : List BlockId) : List (List BlockId) :=
  List.zipWith (fun l b => l ++ [b]) computed row

/-- Walk along block hashes until the first miss. -/
def prefixHits (p : BlockPool) (groupIds : List Nat) :
    List BlockHash → List (List BlockId) → List (List BlockId)
  | [], computed => computed
  | h :: l, computed =>
    match p.getCachedBlock h groupIds with
    | none | some [] => computed
    | some row => prefixHits p groupIds l (appendEach computed row)

/-- Drop the last hit if an EAGLE head needs its hidden states. -/
def dropLastForEagle (useEagle : Bool) (computed : List (List BlockId)) : List (List BlockId) :=
  if useEagle ∧ computed.head? ≠ some [] then computed.map List.dropLast else computed

/-- The search from right to left of the sliding window manager, for the blocks before index
`i`: the blocks found, the length of the run of hits and whether it is long enough. -/
def windowHits (p : BlockPool) (groupIds : List Nat) (hashes : List BlockHash) (needed : Int) :
    (i : Nat) → (run : Nat) → List (List BlockId) → Except PyError (List (List BlockId) × Nat × Bool)
  | 0, run, computed => .ok (computed, run, false)
  | i + 1, run, computed =>
    match hashes[i]? with
    | none => .error .indexError
    | some h =>
      match p.getCachedBlock h groupIds with
      | none | some [] => windowHits p groupIds hashes needed i 0 computed
      | some row =>
        let computed' := List.zipWith (fun l b => l.set i b) computed row
        if (run + 1 : Int) ≥ needed then
          .ok (computed'.map (List.take (i + (run + 1))), run + 1, true)
        else windowHits p groupIds hashes needed i (run + 1) computed'

/-- The hits of the chunked local attention manager from block `i` on, `n` blocks at most. -/
def chunkHits (p : BlockPool) (groupIds : List Nat) (hashes : List BlockHash) :
    (n i : Nat) → List (List BlockId) → Except PyError (List (List BlockId))
  | 0, _, computed => .ok computed
  | n + 1, i, computed =>
    match hashes[i]? with
    | none => .error .indexError
    | some h =>
      match p.getCachedBlock h groupIds with
      | none | some [] => .ok computed
      | some row => chunkHits p groupIds hashes n (i + 1) (appendEach computed row)

/-- `find_longest_cache_hit`, for the groups `groupIds` of the given spec. -/
def findLongestCacheHit (spec : KVCacheSpec) (hashes : List BlockHash) (maxLength : Int)
    (groupIds : List Nat) (p : BlockPool) (useEagle : Bool) :
    Except PyError (List (List BlockId)) :=
  let maxNumBlocks := maxLength / spec.blockSize
  let none? := groupIds.map fun _ => ([] : List BlockId)
  match spec with
  | fullAttention .. =>
    if maxNumBlocks < 0 then .error .valueError
    else .ok (dropLastForEagle useEagle
      (prefixHits p groupIds (hashes.take maxNumBlocks.toNat) none?))
  | slidingWindow bs _ window => do
    let needed := cdiv (window - 1) bs + if useEagle then 1 else 0
    let (computed, run, found) ← windowHits p groupIds hashes needed maxNumBlocks.toNat 0
      (groupIds.map fun _ => List.replicate maxNumBlocks.toNat p.nullBlock)
    return dropLastForEagle useEagle (if found then computed else computed.map (List.take run))
  | chunkedLocalAttention bs _ chunk => do
    require (useEagle = false) (.assertionError .findLongestCacheHit)
    let startIdx := if maxLength > 0 then maxLength / chunk * chunk else 0
    let startBlock := (startIdx / bs).toNat
    chunkHits p groupIds hashes (maxNumBlocks.toNat - startBlock) startBlock
      (groupIds.map fun _ => List.replicate startBlock p.nullBlock)
  | mamba .. => .ok none?

end KVCacheSpec

/-! ## Block tables -/

/-- The manager of one KV cache group. -/
structure SingleTypeKVCacheManager where
  kvCacheSpec : KVCacheSpec
  kvCacheGroupId : Nat
  reqToBlocks : Dict ReqId (List BlockId) := ∅
  numCachedBlock : Dict ReqId Int := ∅
deriving DecidableEq

namespace SingleTypeKVCacheManager

variable (m : SingleTypeKVCacheManager) (p : BlockPool)

def blockSize : Nat := m.kvCacheSpec.blockSize

/-- The block table of a request. -/
def blocksOf (rid : ReqId) : List BlockId := m.reqToBlocks.getD rid []

/-- `get_num_blocks_to_allocate`. -/
def getNumBlocksToAllocate (rid : ReqId) (numTokens : Int) (newComputedBlocks : List BlockId) :
    Int :=
  let numNewBlocks := cdiv numTokens m.blockSize - newComputedBlocks.length - (m.blocksOf rid).length
  let numEvictable := newComputedBlocks.countP fun b =>
    (p.block b).refCnt = 0 ∧ (p.block b).isNull = false
  numNewBlocks + numEvictable

/-- `save_new_computed_blocks`. -/
def saveNewComputedBlocks (rid : ReqId) (newComputedBlocks : List BlockId) :
    Except PyError SingleTypeKVCacheManager :=
  if rid ∈ m.numCachedBlock then do
    require (newComputedBlocks = []) (.assertionError .saveNewComputedBlocks)
    return m
  else do
    require (m.blocksOf rid = []) (.assertionError .saveNewComputedBlocks)
    return { m with
      reqToBlocks := m.reqToBlocks.set rid newComputedBlocks
      numCachedBlock := m.numCachedBlock.set rid newComputedBlocks.length }

/-- The assertion of the Mamba manager: exactly one block for a request. -/
def numBlocksOk (blocks : List BlockId) : Bool :=
  match m.kvCacheSpec with
  | .mamba .. => blocks.length = 1
  | _ => true

/-- `allocate_new_blocks`. -/
def allocateNewBlocks (rid : ReqId) (numTokens : Int) :
    Except PyError (List BlockId × SingleTypeKVCacheManager × BlockPool) :=
  let numNewBlocks := cdiv numTokens m.blockSize - (m.blocksOf rid).length
  if numNewBlocks ≤ 0 then do
    require (m.numBlocksOk (m.blocksOf rid)) (.assertionError .allocateNewBlocks)
    return ([], m, p)
  else do
    let (newBlocks, p') ← p.getNewBlocks numNewBlocks.toNat
    require (m.numBlocksOk (m.blocksOf rid ++ newBlocks)) (.assertionError .allocateNewBlocks)
    return (newBlocks,
      { m with reqToBlocks := m.reqToBlocks.set rid (m.blocksOf rid ++ newBlocks) }, p')

/-- `cache_blocks`. Returns the block hashes of the request as well. -/
def cacheBlocks (H : BlockHasher) (r : Request) (blockHashes : List BlockHash) (numTokens : Int) :
    Except PyError (SingleTypeKVCacheManager × BlockPool × List BlockHash) :=
  match m.numCachedBlock.get? r.requestId with
  | none => .error .keyError
  | some numCachedBlocks => do
    let numFullBlocks := numTokens / m.blockSize
    let (p', hashes) ← p.cacheFullBlocks H r (m.blocksOf r.requestId) blockHashes numCachedBlocks
      numFullBlocks m.blockSize m.kvCacheGroupId
    return ({ m with numCachedBlock := m.numCachedBlock.set r.requestId numFullBlocks }, p', hashes)

/-- `free`: the tail blocks are freed first. -/
def free (rid : ReqId) : Except PyError (SingleTypeKVCacheManager × BlockPool) := do
  let p' ← p.freeBlocks (m.blocksOf rid).reverse
  return ({ m with
    reqToBlocks := m.reqToBlocks.erase rid
    numCachedBlock := m.numCachedBlock.erase rid }, p')

/-- The loop of `remove_skipped_blocks` over the blocks before index `i`, from right to left: it
ends at the first null block. Returns the removed blocks and the block table. -/
def skipLoop (nullBlock : BlockId) :
    Nat → List BlockId → Except PyError (List BlockId × List BlockId)
  | 0, blocks => .ok ([], blocks)
  | i + 1, blocks =>
    match blocks[i]? with
    | none => .error .indexError
    | some b =>
      if b = nullBlock then .ok ([], blocks)
      else do
        let (removed, blocks') ← skipLoop nullBlock i (blocks.set i nullBlock)
        return (b :: removed, blocks')

/-- The number of leading blocks that the attention of the group no longer reads; `none` for the
managers that keep all blocks. -/
def numSkippedBlocks (rid : ReqId) (numComputedTokens : Int) : Option Int :=
  match m.kvCacheSpec with
  | .fullAttention .. | .mamba .. => none
  | .slidingWindow bs _ window => some ((numComputedTokens - window + 1) / bs)
  | .chunkedLocalAttention bs _ chunk =>
    let firstUseful := numComputedTokens / chunk * chunk / bs
    let numCached := m.numCachedBlock.getD rid 0
    -- the last cached block is kept: its hash is the parent of the next one
    some (if numCached > 0 then min firstUseful (numCached - 1) else firstUseful)

/-- `remove_skipped_blocks`. -/
def removeSkippedBlocks (rid : ReqId) (numComputedTokens : Int) :
    Except PyError (SingleTypeKVCacheManager × BlockPool) :=
  match m.numSkippedBlocks rid numComputedTokens with
  | none => .ok (m, p)
  | some n => do
    let (removed, blocks) ← skipLoop p.nullBlock n.toNat (m.blocksOf rid)
    let p' ← p.freeBlocks removed
    return ({ m with reqToBlocks := m.reqToBlocks.set rid blocks }, p')

/-- `get_num_common_prefix_blocks`. -/
def getNumCommonPrefixBlocks (rid : ReqId) (numRunningRequests : Nat) : Nat :=
  match m.kvCacheSpec with
  | .fullAttention .. =>
    ((m.blocksOf rid).takeWhile fun b => (p.block b).refCnt = numRunningRequests).length
  | _ => 0

end SingleTypeKVCacheManager

end InferenceServer
