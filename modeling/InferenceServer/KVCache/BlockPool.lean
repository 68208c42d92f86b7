import InferenceServer.KVCache.BlockHash
import InferenceServer.KVCache.FreeBlockQueue

/-!
# The block pool

`BlockPool` (`vllm/v1/core/block_pool.py`): the metadata of all KV cache blocks, the queue of the
free ones and the index from block hashes to cached blocks.

A block is its identifier; `BlockPool.block p b` is the metadata of block `b`, where an
identifier without an entry stands for a block as the constructor makes it. The value of
`cached_block_hash_to_block` at a hash is the list of the keys of the source's inner dictionary,
oldest first.
-/

namespace InferenceServer

open Outcome

/-- The metadata of a block; its links are in the free block queue. -/
structure KVCacheBlock where
  refCnt : Int := 0
  blockHash : Option BlockHashWithGroupId := none
  isNull : Bool := false
deriving DecidableEq, Repr

/-- An event for the consumers of the prefix cache (`vllm/distributed/kv_events.py`). -/
inductive KVCacheEvent where
  | blockStored (blockHashes : List Int) (parentBlockHash : Option Int) (tokenIds : List TokenId)
      (blockSize : Nat) (loraId : Option Int)
  | blockRemoved (blockHashes : List Int)
  | allBlocksCleared
deriving DecidableEq, Repr

/-- The pool of blocks. -/
structure BlockPool where
  numGpuBlocks : Nat
  enableCaching : Bool
  enableKVCacheEvents : Bool
  blocks : Dict BlockId KVCacheBlock
  freeBlockQueue : FreeKVCacheBlockQueue
  cachedBlockHashToBlock : Dict BlockHashWithGroupId (List BlockId)
  nullBlock : BlockId
  kvEventQueue : List KVCacheEvent
deriving DecidableEq

namespace BlockPool

/-- The metadata of a block. -/
def block (p : BlockPool) (b : BlockId) : KVCacheBlock := p.blocks.getD b {}

/-- Change the metadata of a block. -/
def modifyBlock (p : BlockPool) (b : BlockId) (f : KVCacheBlock → KVCacheBlock) : BlockPool :=
  { p with blocks := p.blocks.set b (f (p.block b)) }

theorem block_modifyBlock (p : BlockPool) (b : BlockId) (f : KVCacheBlock → KVCacheBlock)
    (c : BlockId) : (p.modifyBlock b f).block c = if c = b then f (p.block b) else p.block c := by
  exact Dict.getD_set ..

@[simp] theorem cached_modifyBlock (p : BlockPool) (b : BlockId)
    (f : KVCacheBlock → KVCacheBlock) :
    (p.modifyBlock b f).cachedBlockHashToBlock = p.cachedBlockHashToBlock := rfl

/-- The pool of `n` blocks, the first of which becomes the null block. -/
def init (n : Nat) (enableCaching enableKVCacheEvents : Bool) : Except PyError BlockPool := do
  let (nullBlock, queue) ← (FreeKVCacheBlockQueue.init (List.range n)).popleft
  return { numGpuBlocks := n
           enableCaching, enableKVCacheEvents
           blocks := (∅ : Dict BlockId KVCacheBlock).set nullBlock { isNull := true }
           freeBlockQueue := queue
           cachedBlockHashToBlock := ∅
           nullBlock
           kvEventQueue := [] }

/-- `get_num_free_blocks`. -/
def getNumFreeBlocks (p : BlockPool) : Int := p.freeBlockQueue.numFreeBlocks

/-- `get_cached_block`: the first cached block of every group, or `None` on a miss in any. -/
def getCachedBlock (p : BlockPool) (h : BlockHash) (groupIds : List Nat) :
    Option (List BlockId) :=
  groupIds.mapM fun g => (p.cachedBlockHashToBlock.getD ⟨h, g⟩ []).head?

/-! ## Caching full blocks -/

/-- The state of the loop of `cache_full_blocks`. -/
structure CacheLoop where
  pool : BlockPool
  /-- The block hashes of the request; the loop appends to them. -/
  blockHashes : List BlockHash
  prevBlockHashValue : Option Int
  newHashes : List Int

/-- The hash of block `blkIdx`, computed from the tokens of the request. Since such a block is
completed with generated tokens, only the last multi-modal input is considered. -/
def computeBlockHash (H : BlockHasher) (r : Request) (bs : Nat) (prev : Option Int)
    (blkIdx : Int) : Except PyError BlockHash := do
  let tokens := pySlice r.allTokenIds (blkIdx * bs) ((blkIdx + 1) * bs)
  require (tokens.length = bs) (.assertionError .cacheFullBlocks)
  let (extraKeys, _) ← generateBlockHashExtraKeys r (blkIdx * bs) ((blkIdx + 1) * bs) (-1)
  return hashBlockTokens H prev tokens extraKeys

/-- The hash for the `i`-th new block: the one computed before, or a new one, which is appended
to the block hashes of the request. -/
def nextBlockHash (H : BlockHasher) (r : Request) (bs : Nat) (numCachedBlocks : Int)
    (newBlockHashes : List BlockHash) (i : Nat) (s : CacheLoop) :
    Except PyError (BlockHash × List BlockHash) :=
  match newBlockHashes[i]? with
  | some h => .ok (h, s.blockHashes)
  | none => do
    let h ← computeBlockHash H r bs s.prevBlockHashValue (numCachedBlocks + i)
    return (h, s.blockHashes ++ [h])

/-- Give block `b` the hash `h` and enter it into the index. -/
def insertCached (p : BlockPool) (b : BlockId) (h : BlockHashWithGroupId) : BlockPool :=
  let ids := p.cachedBlockHashToBlock.getD h []
  { p.modifyBlock b (fun blk => { blk with blockHash := some h }) with
    cachedBlockHashToBlock := p.cachedBlockHashToBlock.set h (if b ∈ ids then ids else ids ++ [b]) }

/-- One iteration of the loop of `cache_full_blocks`. -/
def cacheOne (H : BlockHasher) (r : Request) (bs gid : Nat) (numCachedBlocks : Int)
    (newBlockHashes : List BlockHash) (i : Nat) (b : BlockId) (s : CacheLoop) :
    Except PyError CacheLoop := do
  require ((s.pool.block b).blockHash = none) (.assertionError .cacheFullBlocks)
  let (h, hashes) ← nextBlockHash H r bs numCachedBlocks newBlockHashes i s
  return { pool := s.pool.insertCached b ⟨h, gid⟩
           blockHashes := hashes
           prevBlockHashValue := some h.hashValue
           newHashes := s.newHashes ++ [h.hashValue] }

/-- The loop of `cache_full_blocks`. -/
def cacheLoop (H : BlockHasher) (r : Request) (bs gid : Nat) (numCachedBlocks : Int)
    (newBlockHashes : List BlockHash) : Nat → List BlockId → CacheLoop → Except PyError CacheLoop
  | _, [], s => .ok s
  | i, b :: l, s => do
    let t ← cacheOne H r bs gid numCachedBlocks newBlockHashes i b s
    cacheLoop H r bs gid numCachedBlocks newBlockHashes (i + 1) l t

/-- The hash value of the block before the new ones, read from the physical block. -/
def prevBlockHash (p : BlockPool) (blocks : List BlockId) (numCachedBlocks : Int) :
    Except PyError (Option Int) :=
  if numCachedBlocks = 0 then .ok none
  else
    match pyGet? blocks (numCachedBlocks - 1) with
    | none => .error .indexError
    | some b =>
      match (p.block b).blockHash with
      | none => .error (.assertionError .cacheFullBlocks)
      | some h => .ok (some h.getHashValue)

/-- The event at the end of `cache_full_blocks`. A LoRA request has no attribute `id`. -/
def storedEvent (p : BlockPool) (r : Request) (bs : Nat) (numCachedBlocks numFullBlocks : Int)
    (parent : Option Int) (newHashes : List Int) : Except PyError BlockPool :=
  if p.enableKVCacheEvents then
    match r.loraRequest with
    | some _ => .error .attributeError
    | none => .ok { p with kvEventQueue := p.kvEventQueue ++
        [.blockStored newHashes parent
          (pySlice r.allTokenIds (numCachedBlocks * bs) (numFullBlocks * bs)) bs none] }
  else .ok p

/-- `cache_full_blocks`: give the blocks from `num_cached_blocks` to `num_full_blocks` their
hashes. Returns the pool and the block hashes of the request. -/
def cacheFullBlocks (H : BlockHasher) (p : BlockPool) (r : Request) (blocks : List BlockId)
    (blockHashes : List BlockHash) (numCachedBlocks numFullBlocks : Int) (bs gid : Nat) :
    Except PyError (BlockPool × List BlockHash) :=
  if numCachedBlocks = numFullBlocks then .ok (p, blockHashes)
  else do
    require (numCachedBlocks ≤ blockHashes.length) (.assertionError .cacheFullBlocks)
    let prev ← p.prevBlockHash blocks numCachedBlocks
    let s ← cacheLoop H r bs gid numCachedBlocks
      (pySlice blockHashes numCachedBlocks blockHashes.length) 0
      (pySlice blocks numCachedBlocks numFullBlocks) ⟨p, blockHashes, prev, []⟩
    let p' ← s.pool.storedEvent r bs numCachedBlocks numFullBlocks prev s.newHashes
    return (p', s.blockHashes)

/-! ## Allocating and freeing -/

/-- `_maybe_evict_cached_block`. -/
def maybeEvictCachedBlock (p : BlockPool) (b : BlockId) : BlockPool :=
  match (p.block b).blockHash with
  | none => p
  | some h =>
    match p.cachedBlockHashToBlock.get? h with
    | none => p
    | some ids =>
      let p' := p.modifyBlock b fun blk => { blk with blockHash := none }
      { p' with
        cachedBlockHashToBlock :=
          if ids.erase b = [] then p.cachedBlockHashToBlock.erase h
          else p.cachedBlockHashToBlock.set h (ids.erase b)
        kvEventQueue := if p.enableKVCacheEvents
          then p.kvEventQueue ++ [.blockRemoved [h.getHashValue]] else p.kvEventQueue }

/-- Take a popped block into use. -/
def takeBlock (b : BlockId) (p : BlockPool) : Except PyError BlockPool :=
  let p' := if p.enableCaching then p.maybeEvictCachedBlock b else p
  if (p'.block b).refCnt = 0 then
    .ok (p'.modifyBlock b fun blk => { blk with refCnt := blk.refCnt + 1 })
  else .error (.assertionError .getNewBlocks)

/-- `get_new_blocks`. -/
def getNewBlocks (p : BlockPool) (n : Nat) : Except PyError (List BlockId × BlockPool) :=
  if (n : Int) > p.getNumFreeBlocks then .error .valueError
  else do
    let (ret, queue) ← p.freeBlockQueue.popleftN n
    let p' ← threadM takeBlock ret { p with freeBlockQueue := queue }
    return (ret, p')

/-- `touch`, for one block: a block without references leaves the free queue. -/
def touchBlock (b : BlockId) (p : BlockPool) : Except PyError BlockPool :=
  if (p.block b).refCnt = 0 ∧ (p.block b).isNull = false then do
    let queue ← p.freeBlockQueue.remove b
    return { p with freeBlockQueue := queue }.modifyBlock b
      fun blk => { blk with refCnt := blk.refCnt + 1 }
  else .ok (p.modifyBlock b fun blk => { blk with refCnt := blk.refCnt + 1 })

/-- `touch`. -/
def touch (p : BlockPool) (blocks : List (List BlockId)) : Except PyError BlockPool :=
  threadM touchBlock blocks.flatten p

/-- The first pass of `free_blocks`. -/
def decrementRefs (p : BlockPool) (blocks : List BlockId) : BlockPool :=
  blocks.foldl (fun p b => p.modifyBlock b fun blk => { blk with refCnt := blk.refCnt - 1 }) p

/-- `free_blocks`: the references are given back first, then the blocks without references join
the free queue. -/
def freeBlocks (p : BlockPool) (orderedBlocks : List BlockId) : Except PyError BlockPool := do
  let p' := p.decrementRefs orderedBlocks
  let queue ← p'.freeBlockQueue.appendN
    (orderedBlocks.filter fun b => (p'.block b).refCnt = 0 ∧ (p'.block b).isNull = false)
  return { p' with freeBlockQueue := queue }

/-- `reset_prefix_cache`. -/
def resetPrefixCache (p : BlockPool) : Bool × BlockPool :=
  if (p.numGpuBlocks : Int) - p.getNumFreeBlocks ≠ 1 then (false, p)
  else (true, { p with
    cachedBlockHashToBlock := ∅
    blocks := p.blocks.mapValues fun blk => { blk with blockHash := none }
    kvEventQueue := if p.enableKVCacheEvents
      then p.kvEventQueue ++ [.allBlocksCleared] else p.kvEventQueue })

/-- `take_events`. -/
def takeEvents (p : BlockPool) : List KVCacheEvent × BlockPool :=
  if p.enableKVCacheEvents then (p.kvEventQueue, { p with kvEventQueue := [] }) else ([], p)

end BlockPool

end InferenceServer
