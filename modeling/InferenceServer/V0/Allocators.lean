import InferenceServer.V0.Blocks

/-!
# The block allocators

`NaiveBlockAllocator` (`vllm/core/block/naive_block.py`) hands out ids from a free list.
`PrefixCachingBlockAllocator` (`prefix_caching_block.py`) has a naive allocator for the blocks without a
hash. When a block gets full it has a hash, and is *promoted*: its id is entered under the hash, or it is
given up for the id that is already there. A full block that nobody refers to goes to the evictor, and
its id is used again when the free list is empty.

An object is written to by `append_token_ids`. If other objects have its id, it gets an id of its own
first, and the copy is recorded.

The metrics are left out.
-/

namespace InferenceServer.V0

open Outcome

namespace BlockSpace

variable (cfg : BlockConfig)

/-! ## The naive allocator -/

/-- `NaiveBlockAllocator._allocate_block_id`. -/
def naiveAllocateBlockId (s : BlockSpace) (d : Device) :
    Except BlockError (BlockId × BlockSpace) :=
  let a := s.allocators d
  match a.freeBlockIndices with
  | [] => .error .noFreeBlocks
  | id :: freeBlockIndices => do
    let (_, refcounter) ← a.refcounter.incr id
    return (id, s.setAllocator d { a with freeBlockIndices, refcounter })

/-- The end of `NaiveBlockAllocator._free_block_id`. -/
def naiveFreeBlockId (s : BlockSpace) (d : Device) (id : BlockId) : Except BlockError BlockSpace := do
  let a := s.allocators d
  let (refcount, refcounter) ← a.refcounter.decr id
  let freeBlockIndices := if refcount = 0 then id :: a.freeBlockIndices else a.freeBlockIndices
  return s.setAllocator d { a with freeBlockIndices, refcounter }

/-- `NaiveBlockAllocator._free_block_id` of an object. -/
def naiveFreeBlock (s : BlockSpace) (d : Device) (r : BlockRef) : Except BlockError BlockSpace := do
  let blockId := (s.block r).blockId
  let s ← s.setBlockId r none
  match blockId with
  | none => .error (.assertionError .naiveAllocator)
  | some id => s.naiveFreeBlockId d id

/-- `NaiveBlockAllocator.allocate_mutable_block`. -/
def naiveAllocateMutableBlock (s : BlockSpace) (d : Device) (prevBlock : Option BlockRef) :
    Except BlockError (BlockRef × BlockSpace) := do
  let (id, s) ← s.naiveAllocateBlockId d
  initBlock cfg s d prevBlock [] (some id) none

/-! ## The ids of the prefix-caching allocator -/

/-- `_track_block_id`. -/
def trackBlockId (s : BlockSpace) (d : Device) (id : BlockId) (computed : Bool) :
    Except BlockError BlockSpace :=
  let a := s.allocators d
  match a.blockTracker.get? id with
  | none => .error .keyError
  | some t => do
    let t ← t.enable
    return s.setAllocator d { a with blockTracker := a.blockTracker.set id { t with computed } }

/-- `_untrack_block_id`. -/
def untrackBlockId (s : BlockSpace) (d : Device) (id : BlockId) : Except BlockError BlockSpace :=
  let a := s.allocators d
  match a.blockTracker.get? id with
  | none => .error .keyError
  | some t => do
    let t ← t.disable
    return s.setAllocator d { a with blockTracker := a.blockTracker.set id t }

/-- `_incr_refcount_cached_block`. -/
def incrRefcountCachedBlock (s : BlockSpace) (d : Device) (r : BlockRef) :
    Except BlockError BlockSpace := do
  let s := s.setComputed r true
  match (s.block r).blockId with
  | none => .error (.assertionError .prefixCachingAllocator)
  | some id => do
    let a := s.allocators d
    let (refcount, refcounter) ← a.refcounter.incr id
    let s := s.setAllocator d { a with refcounter }
    if refcount = 1 then do
      let evictor ← if id ∈ a.evictor.freeTable then a.evictor.remove id else .ok a.evictor
      let s := s.setAllocator d { s.allocators d with evictor }
      s.trackBlockId d id true
    else return s

/-- `_decr_refcount_cached_block`. -/
def decrRefcountCachedBlock (s : BlockSpace) (d : Device) (r : BlockRef) :
    Except BlockError BlockSpace := do
  let (contentHash, s) ← s.contentHash cfg r
  match contentHash, (s.block r).blockId with
  | some h, some id => do
    let a := s.allocators d
    let (refcount, refcounter) ← a.refcounter.decr id
    let s := s.setAllocator d { a with refcounter }
    if 0 < refcount then s.setBlockId r none
    else do
      require (refcount = 0) (.assertionError .prefixCachingAllocator)
      require (h ∈ a.cachedBlocks) (.assertionError .prefixCachingAllocator)
      match a.blockTracker.get? id with
      | none => .error .keyError
      | some t => do
        let evictor ← a.evictor.add id
          { contentHash := h, numHashedTokens := (s.block r).numTokensTotal
            lastAccessed := t.lastAccessed }
        let s := s.setAllocator d { s.allocators d with evictor }
        let s ← s.untrackBlockId d id
        s.setBlockId r none
  | _, _ => .error (.assertionError .prefixCachingAllocator)

/-- `_decr_refcount_hashless_block`. -/
def decrRefcountHashlessBlock (s : BlockSpace) (d : Device) (r : BlockRef) :
    Except BlockError BlockSpace :=
  match (s.block r).blockId with
  | none => .error (.assertionError .prefixCachingAllocator)
  | some id => do
    let refcount ← (s.allocators d).refcounter.get id
    let s ← if refcount = 1 then s.untrackBlockId d id else .ok s
    s.naiveFreeBlock d r

/-- `_maybe_allocate_hashless_block_id`. -/
def maybeAllocateHashlessBlockId (s : BlockSpace) (d : Device) :
    Except BlockError (Option BlockId × BlockSpace) :=
  match s.naiveAllocateMutableBlock cfg d none with
  | .error .noFreeBlocks => .ok (none, s)
  | .error e => .error e
  | .ok (r, s) =>
    match (s.block r).blockId with
    | none => .error (.assertionError .prefixCachingAllocator)
    | some id => do
      let s ← s.freeBlock d r
      let s ← s.trackBlockId d id false
      return (some id, s)

/-- `_maybe_allocate_evicted_block_id`. -/
def maybeAllocateEvictedBlockId (s : BlockSpace) (d : Device) :
    Except BlockError (Option BlockId × BlockSpace) :=
  let a := s.allocators d
  if a.evictor.numBlocks = 0 then .ok (none, s)
  else do
    let ((id, contentHashToEvict), evictor) ← a.evictor.evict
    match a.cachedBlocks.get? contentHashToEvict with
    | none => .error (.assertionError .prefixCachingAllocator)
    | some cachedId => do
      let refcount ← a.refcounter.get cachedId
      require (refcount = 0) (.assertionError .prefixCachingAllocator)
      require (cachedId = id) (.assertionError .prefixCachingAllocator)
      let (_, refcounter) ← a.refcounter.incr id
      let s := s.setAllocator d { a with
        evictor, refcounter, cachedBlocks := a.cachedBlocks.erase contentHashToEvict }
      let s ← s.trackBlockId d id false
      return (some id, s)

/-- `PrefixCachingBlockAllocator._allocate_block_id`. -/
def cachingAllocateBlockId (s : BlockSpace) (d : Device) :
    Except BlockError (BlockId × BlockSpace) := do
  let (hashlessBlockId, s) ← s.maybeAllocateHashlessBlockId cfg d
  match hashlessBlockId with
  | some id => return (id, s)
  | none => do
    let (evictedBlockId, s) ← s.maybeAllocateEvictedBlockId d
    match evictedBlockId with
    | some id => return (id, s)
    | none => .error .noFreeBlocks

/-- `_allocate_block_id`. -/
def allocateBlockId (s : BlockSpace) (d : Device) : Except BlockError (BlockId × BlockSpace) :=
  if cfg.enableCaching then s.cachingAllocateBlockId cfg d else s.naiveAllocateBlockId d

/-- `_free_block_id` of an object. -/
def freeBlockId (s : BlockSpace) (d : Device) (r : BlockRef) : Except BlockError BlockSpace :=
  if cfg.enableCaching then do
    require ((s.block r).blockId ≠ none) (.assertionError .prefixCachingAllocator)
    let (contentHash, s) ← s.contentHash cfg r
    match contentHash with
    | some _ => s.decrRefcountCachedBlock cfg d r
    | none => s.decrRefcountHashlessBlock d r
  else s.naiveFreeBlock d r

/-! ## Writing to a block -/

/-- `allocate_mutable_block`. -/
def allocateMutableBlock (s : BlockSpace) (d : Device) (prevBlock : Option BlockRef)
    (extraHash : Option Int) : Except BlockError (BlockRef × BlockSpace) :=
  if cfg.enableCaching then do
    let (id, s) ← s.cachingAllocateBlockId cfg d
    let (r, s) ← initBlock cfg s d prevBlock [] (some id) extraHash
    require ((s.block r).computed = false) (.assertionError .prefixCachingAllocator)
    let (contentHash, s) ← s.contentHash cfg r
    require (contentHash = none) (.assertionError .prefixCachingAllocator)
    return (r, s)
  else s.naiveAllocateMutableBlock cfg d prevBlock

/-- `cow_block_if_not_appendable`: the id to write to. The block that a prefix-caching block hands in
is the naive block inside it, which has no hash. -/
def cowBlockIfNotAppendable (s : BlockSpace) (d : Device) (r : BlockRef) :
    Except BlockError (BlockId × BlockSpace) :=
  match (s.block r).blockId with
  | none => .error (.assertionError .naiveAllocator)
  | some srcBlockId => do
    let refcount ← (s.allocators d).refcounter.get srcBlockId
    if refcount ≤ 1 then return (srcBlockId, s)
    else do
      let s ← if cfg.enableCaching then s.decrRefcountHashlessBlock d r else s.naiveFreeBlock d r
      let (trgBlockId, s) ← s.allocateBlockId cfg d
      let a := s.allocators d
      return (trgBlockId,
        s.setAllocator d { a with copyOnWrites := a.copyOnWrites ++ [(srcBlockId, trgBlockId)] })

/-- `NaiveBlock.append_token_ids`. -/
def naiveAppendTokenIds (s : BlockSpace) (d : Device) (r : BlockRef) (tokenIds : List TokenId) :
    Except BlockError BlockSpace := do
  require (tokenIds = [] ∨ (tokenIds.length : Int) ≤ (s.block r).numEmptySlots cfg.blockSize)
    (.assertionError .block)
  let b := s.objects r
  let s := s.setObject r { b with tokenIds := b.tokenIds ++ tokenIds }
  match (s.block r).blockId with
  | none => return s
  | some _ => do
    let (id, s) ← s.cowBlockIfNotAppendable cfg d r
    s.setBlockId r (some id)

/-- `promote_to_immutable_block`: the id under which the content is cached. -/
def promoteToImmutableBlock (s : BlockSpace) (d : Device) (r : BlockRef) :
    Except BlockError (BlockId × BlockSpace) := do
  let (contentHash, s) ← s.contentHash cfg r
  match contentHash, (s.block r).blockId with
  | some h, some id => do
    let a := s.allocators d
    let refcount ← a.refcounter.get id
    require (0 < refcount) (.assertionError .prefixCachingAllocator)
    match a.cachedBlocks.get? h with
    | none =>
      return (id, s.setAllocator d { a with
        cachedBlocks := a.cachedBlocks.set h id
        touchedBlocks := a.touchedBlocks.insert id })
    | some cachedId => do
      -- the content is cached already
      let s ← s.decrRefcountHashlessBlock d r
      let s ← s.setBlockId r (some cachedId)
      let s ← s.incrRefcountCachedBlock d r
      return (cachedId, s)
  | _, _ => .error (.assertionError .prefixCachingAllocator)

/-- `PrefixCachingBlock._update_num_tokens_total`. -/
def updateNumTokensTotal (s : BlockSpace) (r : BlockRef) : BlockSpace :=
  let b := s.objects r
  let prevTotal := (b.prevBlock.map fun p => (s.block p).numTokensTotal).getD 0
  s.setObject r { b with numTokensTotal := prevTotal + b.tokenIds.length }

/-- `PrefixCachingBlock.append_token_ids`. -/
def cachingAppendTokenIds (s : BlockSpace) (d : Device) (r : BlockRef) (tokenIds : List TokenId) :
    Except BlockError BlockSpace := do
  let (contentHash, s) ← s.contentHash cfg r
  require (contentHash = none) (.assertionError .block)
  require ((s.block r).computed = false) (.assertionError .block)
  if tokenIds = [] then return s
  else do
    let s ← s.naiveAppendTokenIds cfg d r tokenIds
    let s := s.updateNumTokensTotal r
    let (contentHash, s) ← s.contentHash cfg r
    match contentHash with
    | none => return s
    | some _ => do
      let (id, s) ← s.promoteToImmutableBlock cfg d r
      s.setBlockId r (some id)

/-- `append_token_ids`. An object belongs to the allocator of its pool; the null block must not be
modified. -/
def appendTokenIds (s : BlockSpace) (r : BlockRef) (tokenIds : List TokenId) :
    Except BlockError BlockSpace :=
  match r with
  | .null => .error .valueError
  | .pooled d _ =>
    if cfg.enableCaching then s.cachingAppendTokenIds cfg d r tokenIds
    else s.naiveAppendTokenIds cfg d r tokenIds

/-! ## Full blocks -/

/-- `PrefixCachingBlockAllocator.allocate_immutable_block`. -/
def cachingAllocateImmutableBlock (s : BlockSpace) (d : Device) (prevBlock : Option BlockRef)
    (tokenIds : List TokenId) (extraHash : Option Int) :
    Except BlockError (BlockRef × BlockSpace) := do
  let (r, s) ← initBlock cfg s d prevBlock tokenIds none extraHash
  let (contentHash, s) ← s.contentHash cfg r
  match contentHash with
  | none => .error (.assertionError .prefixCachingAllocator)
  | some h =>
    match (s.allocators d).cachedBlocks.get? h with
    | some cachedBlockId => do
      let s ← s.setBlockId r (some cachedBlockId)
      let s ← s.incrRefcountCachedBlock d r
      return (r, s)
    | none => do
      let s ← s.freeBlock d r
      let (r, s) ← s.allocateMutableBlock cfg d prevBlock extraHash
      let s ← s.appendTokenIds cfg r tokenIds
      return (r, s)

/-- The loop of `PrefixCachingBlockAllocator.allocate_immutable_blocks`. -/
def cachingAllocateImmutableBlocks (d : Device) (extraHash : Option Int) :
    List (List TokenId) → Option BlockRef → BlockSpace →
      Except BlockError (List BlockRef × BlockSpace)
  | [], _, s => .ok ([], s)
  | tokenIds :: rest, prevBlock, s => do
    let (r, s) ← s.cachingAllocateImmutableBlock cfg d prevBlock tokenIds extraHash
    let (rs, s) ← cachingAllocateImmutableBlocks d extraHash rest (some r) s
    return (r :: rs, s)

/-- The first loop of `NaiveBlockAllocator.allocate_immutable_blocks`: all ids come first. -/
def naiveAllocateBlockIds (d : Device) :
    Nat → BlockSpace → Except BlockError (List BlockId × BlockSpace)
  | 0, s => .ok ([], s)
  | n + 1, s => do
    let (id, s) ← s.naiveAllocateBlockId d
    let (ids, s) ← naiveAllocateBlockIds d n s
    return (id :: ids, s)

/-- The second loop of `NaiveBlockAllocator.allocate_immutable_blocks`. -/
def naiveInitBlocks (d : Device) : List (List TokenId × BlockId) → Option BlockRef → BlockSpace →
    Except BlockError (List BlockRef × BlockSpace)
  | [], _, s => .ok ([], s)
  | (tokenIds, id) :: rest, prevBlock, s => do
    let (r, s) ← initBlock cfg s d prevBlock tokenIds (some id) none
    let (rs, s) ← naiveInitBlocks d rest (some r) s
    return (r :: rs, s)

/-- `allocate_immutable_blocks`. -/
def allocateImmutableBlocks (s : BlockSpace) (d : Device) (prevBlock : Option BlockRef)
    (blockTokenIds : List (List TokenId)) (extraHash : Option Int) :
    Except BlockError (List BlockRef × BlockSpace) :=
  if cfg.enableCaching then
    cachingAllocateImmutableBlocks cfg d extraHash blockTokenIds prevBlock s
  else do
    let (ids, s) ← naiveAllocateBlockIds d blockTokenIds.length s
    naiveInitBlocks cfg d (blockTokenIds.zip ids) prevBlock s

/-! ## Sharing and giving back -/

/-- `free` of an allocator: the id and the object. -/
def freeBlockAndId (s : BlockSpace) (d : Device) (r : BlockRef) : Except BlockError BlockSpace := do
  let s ← s.freeBlockId cfg d r
  s.freeBlock d r

/-- `get_all_blocks_recursively`: the links are followed back to the first object. -/
def getAllBlocksLoop : Nat → BlockSpace → BlockRef → Except BlockError (List BlockRef)
  | 0, _, _ => .error .recursionError
  | fuel + 1, s, r =>
    match (s.block r).prevBlock with
    | none => .ok [r]
    | some p => do
      let rs ← getAllBlocksLoop fuel s p
      return rs ++ [r]

/-- `get_all_blocks_recursively`. A chain of objects is not longer than the pools. -/
def getAllBlocksRecursively (s : BlockSpace) (lastBlock : BlockRef) :
    Except BlockError (List BlockRef) :=
  getAllBlocksLoop ((s.allocators .gpu).blockPool.poolSize +
    (s.allocators .cpu).blockPool.poolSize + 1) s lastBlock

/-- The loop of `fork`. Only a prefix-caching block has an extra hash. -/
def forkLoop (d : Device) : List BlockRef → Option BlockRef → BlockSpace →
    Except BlockError (List BlockRef × BlockSpace)
  | [], _, s => .ok ([], s)
  | r :: rest, prevBlock, s =>
    match (s.block r).blockId with
    | none => .error (.assertionError .naiveAllocator)
    | some id => do
      let a := s.allocators d
      let (refcount, refcounter) ← a.refcounter.incr id
      require (refcount ≠ 1) (.assertionError .naiveAllocator)
      let s := s.setAllocator d { a with refcounter }
      let (forked, s) ← initBlock cfg s d prevBlock (s.block r).tokenIds (some id)
        (if cfg.enableCaching then (s.block r).extraHash else none)
      let (rs, s) ← forkLoop d rest (some forked) s
      return (forked :: rs, s)

/-- `fork` of an allocator. -/
def fork (s : BlockSpace) (d : Device) (lastBlock : BlockRef) :
    Except BlockError (List BlockRef × BlockSpace) := do
  let sourceBlocks ← s.getAllBlocksRecursively lastBlock
  forkLoop cfg d sourceBlocks none s

/-- `_block_ids_to_allocator`. -/
def deviceOf (s : BlockSpace) (id : BlockId) : Except BlockError Device :=
  if id ∈ (s.allocators .gpu).allBlockIndices then .ok .gpu
  else if id ∈ (s.allocators .cpu).allBlockIndices then .ok .cpu
  else .error .keyError

/-- `CpuGpuBlockAllocator.free`. The null block is never freed. -/
def free (s : BlockSpace) (r : BlockRef) : Except BlockError BlockSpace :=
  match r with
  | .null => .ok s
  | .pooled _ _ =>
    match (s.block r).blockId with
    | none => .error (.assertionError .cpuGpuAllocator)
    | some id => do
      let d ← s.deviceOf id
      s.freeBlockAndId cfg d r

/-- `CpuGpuBlockAllocator.fork`. -/
def forkBlocks (s : BlockSpace) (lastBlock : BlockRef) :
    Except BlockError (List BlockRef × BlockSpace) := do
  require (lastBlock ≠ .null) (.assertionError .cpuGpuAllocator)
  match (s.block lastBlock).blockId with
  | none => .error (.assertionError .cpuGpuAllocator)
  | some id => do
    let d ← s.deviceOf id
    s.fork cfg d lastBlock

/-- `allocate_or_get_null_block`. -/
def allocateOrGetNullBlock (s : BlockSpace) : Except BlockError BlockSpace :=
  match s.nullBlock with
  | some _ => .ok s
  | none => do
    let (r, s) ← s.allocateMutableBlock cfg .gpu none none
    return { s with nullBlock := some r }

/-- `get_num_free_blocks`. The evictor of a naive allocator is empty. -/
def getNumFreeBlocks (s : BlockSpace) (d : Device) : Nat :=
  (s.allocators d).freeBlockIndices.length +
    if cfg.enableCaching then (s.allocators d).evictor.numBlocks else 0

/-! ## Accesses -/

/-- The body of `mark_blocks_as_accessed`. -/
def markBlockAsAccessed (now : Int) (id : BlockId) (s : BlockSpace) :
    Except BlockError BlockSpace :=
  let a := s.allocators .gpu
  match a.blockTracker.get? id with
  | none => .error .keyError
  | some t =>
    if t.active then
      .ok (s.setAllocator .gpu { a with
        blockTracker := a.blockTracker.set id { t with lastAccessed := now } })
    else if id ∈ a.evictor.freeTable then do
      let evictor ← a.evictor.update id now
      return s.setAllocator .gpu { a with evictor }
    else .error .valueError

/-- `mark_blocks_as_accessed`, on the GPU. -/
def markBlocksAsAccessed (s : BlockSpace) (ids : List BlockId) (now : Int) :
    Except BlockError BlockSpace :=
  if cfg.enableCaching then threadM (markBlockAsAccessed now) ids s else .ok s

/-- `block_is_computed`. -/
def blockIsComputed (a : Allocator) (id : BlockId) : Bool :=
  let t := a.blockTracker.getD id {}
  if t.active then t.computed else decide (id ∈ a.evictor.freeTable)

/-- `_block_is_cached` of `find_cached_blocks_prefix`. -/
def blockIsCached (a : Allocator) (h : Hash) : Bool :=
  match a.cachedBlocks.get? h with
  | none => false
  | some id => blockIsComputed a id

/-- `bisect_left` for the first hash that is not cached. -/
def bisectLoop (a : Allocator) (blockHashes : List Hash) : Nat → Nat → Nat → Nat
  | 0, lo, _ => lo
  | fuel + 1, lo, hi =>
    if lo < hi then
      let mid := (lo + hi) / 2
      if (blockHashes[mid]?).any (blockIsCached a) then bisectLoop a blockHashes fuel (mid + 1) hi
      else bisectLoop a blockHashes fuel lo mid
    else lo

/-- `find_cached_blocks_prefix`, on the GPU. -/
def findCachedBlocksPrefix (s : BlockSpace) (blockHashes : List Hash) : List Hash :=
  if cfg.enableCaching then
    blockHashes.take
      (bisectLoop (s.allocators .gpu) blockHashes blockHashes.length 0 blockHashes.length)
  else []

end BlockSpace

end InferenceServer.V0
