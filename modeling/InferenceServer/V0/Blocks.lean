import InferenceServer.Basic
import InferenceServer.Lib.Dict
import InferenceServer.Lib.Heapq

/-!
# Block objects and block ids

The first version of the engine keeps block tables of *block objects* (`vllm/core/block`). An object has
its tokens, the id of a block of memory and a link to the object before it. Several objects may have the
same id; a reference counter counts them. The objects come from a pool and are initialised again when
they are used again (`common.py`).

An id that nobody refers to is in the free list of the naive allocator, or it is kept by the evictor of
the prefix-caching allocator (`vllm/core/evictor.py`), under the hash of its content. The evictor evicts
the id that was accessed longest ago. It has a table and a heap, and it does not remove the outdated
entries of the heap: an entry counts if the table has its id with its time.

The hash of Python is a function to the integers, `HashFunction`. There is one table of objects for the
pools of both devices, and one for the hashes that the objects have computed.
-/

namespace InferenceServer.V0

open Outcome

/-- The class whose `assert` failed. -/
inductive AllocSite where
  | refCounter
  | blockPool
  | block
  | copyOnWriteTracker
  | naiveAllocator
  | blockTracker
  | prefixCachingAllocator
  | cpuGpuAllocator
  | blockList
  | blockTable
  | blockManager
  | lastAccessTracker
  | computedBlocksTracker
  deriving DecidableEq, Repr

/-- What an operation on blocks may raise. -/
inductive BlockError where
  | noFreeBlocks
  | assertionError (site : AllocSite)
  | valueError
  | keyError
  | indexError
  | recursionError
  | notImplementedError
  deriving DecidableEq, Repr

inductive Device where
  | cpu
  | gpu
  deriving DecidableEq, Repr

/-- A value of Python's `hash`. -/
abbrev Hash := Int

/-- The hash of `(is_first_block, prev_block_hash, *token_ids, extra_hash)`, and `hash('None')`. -/
structure HashFunction where
  hash : Bool → Option Hash → List TokenId → Option Int → Hash
  noneHash : Hash

/-- The sizes that do not change. -/
structure BlockConfig where
  blockSize : Nat
  enableCaching : Bool
  hashFunction : HashFunction
  pos : 0 < blockSize

/-- A reference to a block object: an object of a pool, or the null block. -/
inductive BlockRef where
  | pooled (device : Device) (poolId : Nat)
  | null
  deriving DecidableEq, Repr

/-- `NaiveBlock` and `PrefixCachingBlock`. -/
structure Block where
  prevBlock : Option BlockRef := none
  tokenIds : List TokenId := []
  blockId : Option BlockId := none
  extraHash : Option Int := none
  computed : Bool := false
  numTokensTotal : Nat := 0
  deriving DecidableEq, Repr

/-- `num_empty_slots`. -/
def Block.numEmptySlots (b : Block) (blockSize : Nat) : Int := blockSize - b.tokenIds.length

/-- `is_full`. -/
def Block.isFull (b : Block) (blockSize : Nat) : Bool := b.numEmptySlots blockSize = 0

/-! ## The reference counter -/

/-- `RefCounter`. -/
structure RefCounter where
  refcounts : Dict BlockId Int := ∅

namespace RefCounter

/-- `get`. -/
def get (c : RefCounter) (id : BlockId) : Except BlockError Int :=
  match c.refcounts.get? id with
  | none => .error (.assertionError .refCounter)
  | some n => .ok n

/-- `incr`: the new count. -/
def incr (c : RefCounter) (id : BlockId) : Except BlockError (Int × RefCounter) := do
  let n ← c.get id
  require (0 ≤ n) (.assertionError .refCounter)
  return (n + 1, { refcounts := c.refcounts.set id (n + 1) })

/-- `decr`: the new count. -/
def decr (c : RefCounter) (id : BlockId) : Except BlockError (Int × RefCounter) := do
  let n ← c.get id
  require (0 < n) (.assertionError .refCounter)
  return (n - 1, { refcounts := c.refcounts.set id (n - 1) })

end RefCounter

/-! ## The evictor -/

/-- `BlockMetaData`. -/
structure BlockMetaData where
  contentHash : Hash
  numHashedTokens : Nat
  lastAccessed : Int
  deriving DecidableEq, Repr

/-- An entry of the heap: `(last_accessed, -num_hashed_tokens, block_id, content_hash)`. -/
structure EvictorEntry where
  lastAccessed : Int
  negNumHashedTokens : Int
  blockId : BlockId
  contentHash : Hash
  deriving DecidableEq, Repr

/-- Tuples are compared by their first components that differ. -/
def EvictorEntry.lt (a b : EvictorEntry) : Bool :=
  a.lastAccessed < b.lastAccessed ∨ a.lastAccessed = b.lastAccessed ∧
    (a.negNumHashedTokens < b.negNumHashedTokens ∨ a.negNumHashedTokens = b.negNumHashedTokens ∧
      (a.blockId < b.blockId ∨ a.blockId = b.blockId ∧ a.contentHash < b.contentHash))

/-- The comparison of the heap. It raises nothing. -/
def EvictorEntry.compare (a b : EvictorEntry) : Except BlockError Bool := .ok (a.lt b)

/-- The entry for an id and its data. -/
def BlockMetaData.entry (m : BlockMetaData) (id : BlockId) : EvictorEntry :=
  { lastAccessed := m.lastAccessed, negNumHashedTokens := -m.numHashedTokens, blockId := id
    contentHash := m.contentHash }

/-- `LRUEvictor`. -/
structure LRUEvictor where
  freeTable : Dict BlockId BlockMetaData := ∅
  priorityQueue : List EvictorEntry := []

namespace LRUEvictor

/-- `CLEANUP_THRESHOLD`. -/
def cleanupThreshold : Nat := 50

/-- `num_blocks`. -/
def numBlocks (e : LRUEvictor) : Nat := e.freeTable.keys.length

/-- The loop of `evict`: outdated entries are dropped. -/
def evictLoop (e : LRUEvictor) : Nat → Except BlockError ((BlockId × Hash) × LRUEvictor)
  | 0 => .error .valueError
  | fuel + 1 => do
    match ← Heapq.heappop EvictorEntry.compare e.priorityQueue with
    | none => .error .valueError
    | some (entry, priorityQueue) =>
      if (e.freeTable.get? entry.blockId).any fun m => m.lastAccessed = entry.lastAccessed then
        return ((entry.blockId, entry.contentHash),
          { freeTable := e.freeTable.erase entry.blockId, priorityQueue })
      else evictLoop { e with priorityQueue } fuel

/-- `evict`. Every turn of the loop takes an entry from the heap. -/
def evict (e : LRUEvictor) : Except BlockError ((BlockId × Hash) × LRUEvictor) :=
  if e.numBlocks = 0 then .error .valueError
  else e.evictLoop (e.priorityQueue.length + 1)

/-- `_cleanup`. -/
def cleanup (e : LRUEvictor) : Except BlockError LRUEvictor := do
  let priorityQueue ← Heapq.heapify EvictorEntry.compare
    (e.freeTable.entries.map fun p => p.2.entry p.1)
  return { e with priorityQueue }

/-- `_cleanup_if_necessary`. -/
def cleanupIfNecessary (e : LRUEvictor) : Except BlockError LRUEvictor :=
  if cleanupThreshold * e.numBlocks < e.priorityQueue.length then e.cleanup else .ok e

/-- `add`. -/
def add (e : LRUEvictor) (id : BlockId) (m : BlockMetaData) : Except BlockError LRUEvictor := do
  let priorityQueue ← Heapq.heappush EvictorEntry.compare e.priorityQueue (m.entry id)
  cleanupIfNecessary { freeTable := e.freeTable.set id m, priorityQueue }

/-- `update`. -/
def update (e : LRUEvictor) (id : BlockId) (lastAccessed : Int) : Except BlockError LRUEvictor :=
  match e.freeTable.get? id with
  | none => .error .keyError
  | some m => .ok { e with freeTable := e.freeTable.set id { m with lastAccessed } }

/-- `remove`. -/
def remove (e : LRUEvictor) (id : BlockId) : Except BlockError LRUEvictor :=
  if id ∈ e.freeTable then .ok { e with freeTable := e.freeTable.erase id }
  else .error .valueError

end LRUEvictor

/-! ## The trackers of the prefix-caching allocator -/

/-- `_DEFAULT_LAST_ACCESSED_TIME`. -/
def defaultLastAccessedTime : Int := -1

/-- `BlockTracker`. -/
structure BlockTracker where
  active : Bool := false
  lastAccessed : Int := defaultLastAccessedTime
  computed : Bool := false
  deriving DecidableEq, Repr

/-- `enable`. -/
def BlockTracker.enable (t : BlockTracker) : Except BlockError BlockTracker := do
  require (t.active = false) (.assertionError .blockTracker)
  return { active := true }

/-- `disable`. -/
def BlockTracker.disable (t : BlockTracker) : Except BlockError BlockTracker := do
  require (t.active = true) (.assertionError .blockTracker)
  return { active := false }

/-! ## The state -/

/-- `BlockPool`: the objects are in the table of all objects. -/
structure BlockPool where
  freeIds : List Nat
  poolSize : Nat

/-- `NaiveBlockAllocator` and, with its hashless allocator, `PrefixCachingBlockAllocator`. The two
share the pool and the reference counter; only one of them records copies. -/
structure Allocator where
  freeBlockIndices : List BlockId
  allBlockIndices : List BlockId
  refcounter : RefCounter
  copyOnWrites : List (BlockId × BlockId) := []
  blockPool : BlockPool
  cachedBlocks : Dict Hash BlockId := ∅
  touchedBlocks : List BlockId := []
  blockTracker : Dict BlockId BlockTracker := ∅
  evictor : LRUEvictor := {}

/-- `CpuGpuBlockAllocator`, with the block objects of both pools. -/
structure BlockSpace where
  allocators : Device → Allocator
  objects : BlockRef → Block := fun _ => {}
  /-- `_cached_content_hash` of the objects. -/
  contentHashes : BlockRef → Option Hash := fun _ => none
  /-- The object that the null block wraps. -/
  nullBlock : Option BlockRef := none
  swapMapping : Dict BlockId BlockId := ∅

namespace BlockSpace

/-- The object behind a reference; the null block passes on what its object has. -/
def block (s : BlockSpace) (r : BlockRef) : Block :=
  match r with
  | .null => s.objects (s.nullBlock.getD .null)
  | .pooled _ _ => s.objects r

/-- An object changes. -/
def setObject (s : BlockSpace) (r : BlockRef) (b : Block) : BlockSpace :=
  { s with objects := Function.update s.objects r b }

/-- An allocator changes. -/
def setAllocator (s : BlockSpace) (d : Device) (a : Allocator) : BlockSpace :=
  { s with allocators := Function.update s.allocators d a }

/-- `block.block_id = value`. The null block must not be modified. -/
def setBlockId (s : BlockSpace) (r : BlockRef) (id : Option BlockId) :
    Except BlockError BlockSpace :=
  match r with
  | .null => .error .valueError
  | .pooled _ _ => .ok (s.setObject r { s.objects r with blockId := id })

/-- `block.computed = value`. -/
def setComputed (s : BlockSpace) (r : BlockRef) (computed : Bool) : BlockSpace :=
  s.setObject r { s.objects r with computed }

/-- `increase_pool`. -/
def increasePool (p : BlockPool) : BlockPool :=
  { freeIds := p.freeIds ++ List.range' p.poolSize p.poolSize, poolSize := p.poolSize * 2 }

/-- `init_block` of the pool of a device. -/
def initBlock (cfg : BlockConfig) (s : BlockSpace) (d : Device) (prevBlock : Option BlockRef)
    (tokenIds : List TokenId) (blockId : Option BlockId) (extraHash : Option Int) :
    Except BlockError (BlockRef × BlockSpace) := do
  let a := s.allocators d
  let pool := if a.blockPool.freeIds = [] then increasePool a.blockPool else a.blockPool
  match pool.freeIds with
  | [] => .error (.assertionError .blockPool)
  | poolId :: freeIds => do
    require (poolId < pool.poolSize) .indexError
    require (tokenIds.length ≤ cfg.blockSize) (.assertionError .block)
    let r := BlockRef.pooled d poolId
    let prevTotal := (prevBlock.map fun p => (s.block p).numTokensTotal).getD 0
    let s := s.setAllocator d { a with blockPool := { pool with freeIds } }
    return (r, { s.setObject r
      { prevBlock, tokenIds, blockId, extraHash, numTokensTotal := prevTotal + tokenIds.length } with
      contentHashes := Function.update s.contentHashes r none })

/-- `free_block` of the pool of a device. The null block has no place in a pool. -/
def freeBlock (s : BlockSpace) (d : Device) (r : BlockRef) : Except BlockError BlockSpace :=
  match r with
  | .null => .error .valueError
  | .pooled _ poolId =>
    let a := s.allocators d
    .ok (s.setAllocator d
      { a with blockPool := { a.blockPool with freeIds := poolId :: a.blockPool.freeIds } })

/-- `content_hash`. The hash of an object needs those of the objects before it; `fuel` bounds how far
back the links are followed. -/
def contentHashLoop (cfg : BlockConfig) :
    Nat → BlockSpace → BlockRef → Except BlockError (Option Hash × BlockSpace)
  | 0, _, _ => .error .recursionError
  | fuel + 1, s, r =>
    match s.contentHashes r with
    | some h => .ok (some h, s)
    | none =>
      if (s.block r).isFull cfg.blockSize then do
        let isFirstBlock := (s.block r).prevBlock.isNone
        let (prevBlockHash, s) ← match (s.block r).prevBlock with
          | none => .ok (some cfg.hashFunction.noneHash, s)
          | some p => contentHashLoop cfg fuel s p
        if prevBlockHash = some cfg.hashFunction.noneHash ∧ isFirstBlock = false then
          return (none, s)
        else do
          let h := cfg.hashFunction.hash isFirstBlock prevBlockHash (s.block r).tokenIds
            (s.block r).extraHash
          return (some h, { s with contentHashes := Function.update s.contentHashes r (some h) })
      else .ok (none, s)

/-- `content_hash`. A chain of objects is not longer than the pools. A naive block has none. -/
def contentHash (cfg : BlockConfig) (s : BlockSpace) (r : BlockRef) :
    Except BlockError (Option Hash × BlockSpace) :=
  if cfg.enableCaching then
    contentHashLoop cfg ((s.allocators .gpu).blockPool.poolSize +
      (s.allocators .cpu).blockPool.poolSize + 1) s r
  else .ok (none, s)

end BlockSpace

end InferenceServer.V0
