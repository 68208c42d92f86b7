import InferenceServer.KVCache.SingleTypeManager

/-!
# The KV cache manager

`KVCacheManager` (`vllm/v1/core/kv_cache_manager.py`) over the coordinators
(`vllm/v1/core/kv_cache_coordinator.py`): the interface of the scheduler to the block tables of
all KV cache groups, the block pool and the block hashes of the requests.

The coordinator's methods are loops over the managers; the three coordinator classes differ only
in `find_longest_cache_hit`, which is chosen by `CoordinatorKind`.
-/

namespace InferenceServer

open Outcome

/-- The KV cache configuration of the scheduler: the number of blocks and the spec of every
group. -/
structure KVCacheConfig where
  numBlocks : Nat
  kvCacheGroups : List KVCacheSpec
  blockSize_pos : ∀ g ∈ kvCacheGroups, 0 < g.blockSize

/-- The coordinator class, with the groups as the hybrid coordinator splits them. -/
inductive CoordinatorKind where
  | noPrefixCache
  | unitary (spec : KVCacheSpec)
  | hybrid (fullAttentionGroupIds otherGroupIds : List Nat)
      (fullAttentionSpec otherSpec : KVCacheSpec) (fullAttnFirst : Bool)
deriving DecidableEq

/-- The KV cache manager. -/
structure KVCacheManager where
  maxModelLen : Nat
  enableCaching : Bool
  useEagle : Bool
  blockSize : Nat
  kind : CoordinatorKind
  blockPool : BlockPool
  singleTypeManagers : List SingleTypeKVCacheManager
  reqToBlockHashes : Dict ReqId (List BlockHash)
deriving DecidableEq

/-! ## Construction -/

/-- The indices of the groups whose spec satisfies `f`. -/
def groupIdsOf (groups : List KVCacheSpec) (f : KVCacheSpec → Bool) : List Nat :=
  (List.range groups.length).filter fun i => (groups[i]?.map f).getD false

/-- `verify_and_split_kv_cache_groups`. -/
def verifyAndSplitKVCacheGroups (groups : List KVCacheSpec) : Except PyError CoordinatorKind :=
  let fullIds := groupIdsOf groups KVCacheSpec.isFullAttention
  let otherIds := groupIdsOf groups fun g => !g.isFullAttention
  let full := groups.filter KVCacheSpec.isFullAttention
  let other := groups.filter fun g => !g.isFullAttention
  match full, other with
  | f :: fs, o :: os => do
    require ((∀ g ∈ fs, g = f) ∧ ∀ g ∈ os, g = o) (.assertionError .verifyAndSplitKVCacheGroups)
    require (o.blockSize % f.blockSize = 0) (.assertionError .verifyAndSplitKVCacheGroups)
    if ∀ i ∈ fullIds, ∀ j ∈ otherIds, i < j then return .hybrid fullIds otherIds f o true
    else if ∀ i ∈ fullIds, ∀ j ∈ otherIds, j < i then return .hybrid fullIds otherIds f o false
    else .error .valueError
  | _, _ => .error (.assertionError .verifyAndSplitKVCacheGroups)

/-- `get_kv_cache_coordinator`. -/
def getKVCacheCoordinator (groups : List KVCacheSpec) (enableCaching : Bool) :
    Except PyError CoordinatorKind :=
  if enableCaching = false then .ok .noPrefixCache
  else
    match groups with
    | [g] => .ok (.unitary g)
    | _ => verifyAndSplitKVCacheGroups groups

namespace KVCacheManager

/-- The managers of the groups. -/
def initManagers (groups : List KVCacheSpec) : List SingleTypeKVCacheManager :=
  groups.zipIdx.map fun (g, i) => { kvCacheSpec := g, kvCacheGroupId := i }

/-- The constructor. Prefix caching asks for one block size in all groups. -/
def init (config : KVCacheConfig) (maxModelLen : Nat) (enableCaching useEagle : Bool)
    (enableKVCacheEvents : Bool) : Except PyError KVCacheManager := do
  let enableCaching := enableCaching && !config.kvCacheGroups.isEmpty
  let blockSize := (config.kvCacheGroups.head?.map KVCacheSpec.blockSize).getD 0
  require (enableCaching = true → ∀ g ∈ config.kvCacheGroups, g.blockSize = blockSize)
    (.assertionError .verifyAndSplitKVCacheGroups)
  let kind ← getKVCacheCoordinator config.kvCacheGroups enableCaching
  let blockPool ← BlockPool.init config.numBlocks enableCaching enableKVCacheEvents
  return { maxModelLen, enableCaching, useEagle, blockSize, kind, blockPool
           singleTypeManagers := initManagers config.kvCacheGroups
           reqToBlockHashes := ∅ }

variable (k : KVCacheManager)

/-! ## The coordinator -/

/-- `find_longest_cache_hit` of the coordinator: the hit blocks of every group and the number of
tokens they hold. -/
def findLongestCacheHit (blockHashes : List BlockHash) (maxCacheHitLength : Int) :
    Except PyError (List (List BlockId) × Int) :=
  match k.kind with
  | .noPrefixCache => .ok (k.singleTypeManagers.map fun _ => [], 0)
  | .unitary spec => do
    let hit ← spec.findLongestCacheHit blockHashes maxCacheHitLength [0] k.blockPool k.useEagle
    return (hit, ((hit.headD []).length * spec.blockSize : Nat))
  | .hybrid fullIds otherIds fullSpec otherSpec fullFirst => do
    let hitFull ← fullSpec.findLongestCacheHit blockHashes maxCacheHitLength fullIds k.blockPool
      k.useEagle
    let hitLength := (hitFull.headD []).length * fullSpec.blockSize
    let hitOther ← otherSpec.findLongestCacheHit blockHashes hitLength otherIds k.blockPool
      k.useEagle
    let hitLength' := (hitOther.headD []).length * otherSpec.blockSize
    require (hitLength' % fullSpec.blockSize = 0) (.assertionError .findLongestCacheHit)
    let hitFull' := hitFull.map (List.take (hitLength' / fullSpec.blockSize))
    return (if fullFirst then hitFull' ++ hitOther else hitOther ++ hitFull', (hitLength' : Nat))

/-- `get_num_blocks_to_allocate` of the coordinator. -/
def getNumBlocksToAllocate (rid : ReqId) (numTokens : Int)
    (newComputedBlocks : List (List BlockId)) : Int :=
  (List.zipWith (fun m bs => SingleTypeKVCacheManager.getNumBlocksToAllocate m k.blockPool rid
    numTokens bs) k.singleTypeManagers newComputedBlocks).sum

/-- `save_new_computed_blocks` of the coordinator: the `i`-th manager gets the `i`-th list. -/
def saveNewComputedBlocks (rid : ReqId) (newComputedBlocks : List (List BlockId)) :
    Except PyError KVCacheManager := do
  let (ms, _) ← mapThreadM (fun (m : SingleTypeKVCacheManager × List BlockId) (_ : Unit) => do
      let m' ← m.1.saveNewComputedBlocks rid m.2
      return (m', ())) (k.singleTypeManagers.zip newComputedBlocks) ()
  return { k with singleTypeManagers := ms }

/-- Run an operation on every manager in turn, threading the block pool. -/
def forManagers {α : Type} (f : SingleTypeKVCacheManager → BlockPool →
    Except PyError (α × SingleTypeKVCacheManager × BlockPool)) :
    Except PyError (List α × KVCacheManager) := do
  let (out, p) ← mapThreadM (fun m p => do
    let (a, m', p') ← f m p
    return ((a, m'), p')) k.singleTypeManagers k.blockPool
  return (out.map Prod.fst, { k with singleTypeManagers := out.map Prod.snd, blockPool := p })

/-- `remove_skipped_blocks` of the coordinator. -/
def removeSkippedBlocks (rid : ReqId) (numComputedTokens : Int) :
    Except PyError KVCacheManager := do
  let (_, k') ← k.forManagers fun m p => do
    let (m', p') ← m.removeSkippedBlocks p rid numComputedTokens
    return ((), m', p')
  return k'

/-- `allocate_new_blocks` of the coordinator. -/
def allocateNewBlocks (rid : ReqId) (numTokens : Int) :
    Except PyError (List (List BlockId) × KVCacheManager) :=
  k.forManagers fun m p => m.allocateNewBlocks p rid numTokens

/-- `cache_blocks` of the coordinator: the block hashes of the request are shared by the
managers, and the first one that needs a hash appends it. -/
def coordinatorCacheBlocks (H : BlockHasher) (r : Request) (numTokens : Int) :
    Except PyError KVCacheManager := do
  let (ms, p, hashes) ← mapThreadM (fun (m : SingleTypeKVCacheManager) (s : BlockPool × _) => do
      let (m', p', hashes) ← m.cacheBlocks s.1 H r s.2 numTokens
      return (m', p', hashes)) k.singleTypeManagers
    (k.blockPool, k.reqToBlockHashes.getD r.requestId [])
  return { k with
    singleTypeManagers := ms
    blockPool := p
    reqToBlockHashes := k.reqToBlockHashes.set r.requestId hashes }

/-! ## The interface of the scheduler -/

/-- `create_empty_block_list`. -/
def createEmptyBlockList : List (List BlockId) := k.singleTypeManagers.map fun _ => []

/-- Prefix caching is skipped for a request that asks for prompt logprobs. -/
def skipsPrefixCache (r : Request) : Bool :=
  !k.enableCaching || (r.samplingParams.bind SamplingParams.promptLogprobs).isSome

/-- The block hashes of the request, computed from scratch if none are remembered. -/
def requestBlockHashes (H : BlockHasher) (r : Request) : Except PyError (List BlockHash) :=
  match k.reqToBlockHashes.getD r.requestId [] with
  | [] => hashRequestTokens H k.blockSize r
  | hashes => .ok hashes

/-- `get_computed_blocks`: the blocks of the longest cache hit, the number of their tokens, and
the manager, which remembers the block hashes of the request. -/
def getComputedBlocks (H : BlockHasher) (r : Request) :
    Except PyError (List (List BlockId) × Int × KVCacheManager) :=
  if k.skipsPrefixCache r then .ok (k.createEmptyBlockList, 0, k)
  else do
    let hashes ← k.requestBlockHashes H r
    let k' := { k with reqToBlockHashes := k.reqToBlockHashes.set r.requestId hashes }
    let (blocks, n) ← k'.findLongestCacheHit hashes (r.numTokens - 1)
    return (blocks, n, k')

/-- Touch the computed blocks; without prefix caching there are none. -/
def touchComputed (newComputedBlocks : List (List BlockId)) : Except PyError KVCacheManager :=
  if k.enableCaching then do
    let p ← k.blockPool.touch newComputedBlocks
    return { k with blockPool := p }
  else do
    require (∀ l ∈ newComputedBlocks, l = []) (.assertionError .allocateSlots)
    return k

/-- The end of `allocate_slots`, once it is known that the blocks fit. -/
def commitSlots (H : BlockHasher) (r : Request) (numComputedTokens numNewTokens needSlot : Int)
    (newComputedBlocks : List (List BlockId)) (delayCacheBlocks : Bool) :
    Except PyError (List (List BlockId) × KVCacheManager) := do
  let k₁ ← k.touchComputed newComputedBlocks
  let k₂ ← k₁.saveNewComputedBlocks r.requestId newComputedBlocks
  let (newBlocks, k₃) ← k₂.allocateNewBlocks r.requestId needSlot
  if k.enableCaching = false ∨ delayCacheBlocks then return (newBlocks, k₃)
  else do
    -- draft tokens that could be rejected are not cached
    let k₄ ← k₃.coordinatorCacheBlocks H r (min (numComputedTokens + numNewTokens) r.numTokens)
    return (newBlocks, k₄)

/-- `allocate_slots`: the new blocks of every group, or `None` if they do not fit. -/
def allocateSlots (H : BlockHasher) (r : Request) (numNewTokens : Int)
    (numNewComputedTokens : Int) (newComputedBlocks : List (List BlockId))
    (numLookaheadTokens : Nat) (delayCacheBlocks : Bool) :
    Except PyError (Option (List (List BlockId)) × KVCacheManager) :=
  if numNewTokens = 0 then .error .valueError
  else do
    let k₀ ← k.removeSkippedBlocks r.requestId r.numComputedTokens
    let numComputedTokens := r.numComputedTokens + numNewComputedTokens
    let needSlot := min (numComputedTokens + numNewTokens + numLookaheadTokens) k.maxModelLen
    if k₀.getNumBlocksToAllocate r.requestId needSlot newComputedBlocks >
        k₀.blockPool.getNumFreeBlocks then return (none, k₀)
    else do
      let (newBlocks, k') ← k₀.commitSlots H r numComputedTokens numNewTokens needSlot
        newComputedBlocks delayCacheBlocks
      return (some newBlocks, k')

/-- `free`: give back the blocks of a request. Its block hashes stay. -/
def free (rid : ReqId) : Except PyError KVCacheManager := do
  let (_, k') ← k.forManagers fun m p => do
    let (m', p') ← m.free p rid
    return ((), m', p')
  return k'

/-- `free_block_hashes`. -/
def freeBlockHashes (rid : ReqId) : KVCacheManager :=
  { k with reqToBlockHashes := k.reqToBlockHashes.erase rid }

/-- `cache_blocks`. -/
def cacheBlocks (H : BlockHasher) (r : Request) (numComputedTokens : Int) :
    Except PyError KVCacheManager :=
  if k.enableCaching then k.coordinatorCacheBlocks H r numComputedTokens else .ok k

/-- `reset_prefix_cache`. -/
def resetPrefixCache : Bool × KVCacheManager :=
  let (done, p) := k.blockPool.resetPrefixCache
  (done, { k with blockPool := p })

/-- `get_num_common_prefix_blocks`, for a running request. -/
def getNumCommonPrefixBlocks (r : Request) (numRunningRequests : Nat) :
    Except PyError (List Nat) := do
  require (r.status = .running) (.assertionError .getNumCommonPrefixBlocks)
  return k.singleTypeManagers.map fun m =>
    match k.kind with
    | .noPrefixCache => 0
    | _ => m.getNumCommonPrefixBlocks k.blockPool r.requestId numRunningRequests

/-- `get_block_ids`. -/
def getBlockIds (rid : ReqId) : List (List BlockId) :=
  k.singleTypeManagers.map fun m => m.blocksOf rid

/-- `take_events`. -/
def takeEvents : List KVCacheEvent × KVCacheManager :=
  let (events, p) := k.blockPool.takeEvents
  (events, { k with blockPool := p })

end KVCacheManager

end InferenceServer
