import InferenceServer.KVCache.SingleTypeManager
import InferenceServer.Lib.Chunks

/-!
# KV cache configurations

How the engine plans the KV cache before it starts (`vllm/v1/core/kv_cache_utils.py` and
`EngineCore._initialize_kv_caches`): from the specs of a worker's layers and its memory,
`get_kv_cache_config` makes groups of layers that share a block table and tensors that layers of
different groups share, and `unify_kv_cache_configs` makes the configurations of all workers agree.

The size of a data type is torch's and is a parameter. Log lines are left out, and so is the maximum
concurrency, which is computed for them.
-/

namespace InferenceServer

open Outcome

/-! ## Specs -/

/-- The parts of the configuration that the planning reads. -/
structure VllmConfig where
  maxModelLen : Nat
  maxNumBatchedTokens : Nat
  numGpuBlocksOverride : Option Int := none
  disableHybridKvCacheManager : Bool := false

/-- `AttentionSpec.page_size_bytes`. For MLA there is one latent vector instead of a key and a value. -/
def AttentionFormat.pageSizeBytes (dtypeSize : String → Nat) (f : AttentionFormat)
    (blockSize : Nat) : Nat :=
  (if f.useMla then 1 else 2) * blockSize * f.numKvHeads * f.headSize * dtypeSize f.dtype

namespace KVCacheSpec

variable (dtypeSize : String → Nat)

/-- `page_size_bytes`. -/
def pageSizeBytes : KVCacheSpec → Except PyError Nat
  | fullAttention bs f _ _ | slidingWindow bs f _ | chunkedLocalAttention bs f _ =>
    .ok (f.pageSizeBytes dtypeSize bs)
  | mamba _ shapes dtype padded _ =>
    let pageSize := (shapes.map List.prod).sum * dtypeSize dtype
    match padded with
    | none => .ok pageSize
    | some padded =>
      if pageSize ≤ padded then .ok padded else .error (.assertionError .pageSizeBytes)

/-- The tokens for which a request holds blocks at most, and the blocks it holds besides. -/
def maxTokens (V : VllmConfig) : KVCacheSpec → Int × Int
  | fullAttention .. => (V.maxModelLen, 0)
  | slidingWindow _ _ w => (min (w - 1 + V.maxNumBatchedTokens) V.maxModelLen, 1)
  | chunkedLocalAttention _ _ c => (min (c + V.maxNumBatchedTokens) V.maxModelLen, 0)
  | mamba .. => (0, 1)

/-- `max_memory_usage_bytes`. -/
def maxMemoryUsageBytes (V : VllmConfig) (s : KVCacheSpec) : Except PyError Int := do
  let pageSize ← s.pageSizeBytes dtypeSize
  match s with
  | mamba .. => return pageSize
  | _ => do
    require (0 < s.blockSize) PyError.zeroDivisionError
    let (numTokens, extra) := s.maxTokens V
    return (cdiv numTokens s.blockSize + extra) * pageSize

/-- The block size and the fields of `AttentionSpec`. -/
def attentionSpec : KVCacheSpec → Option (Nat × AttentionFormat)
  | fullAttention bs f _ _ | slidingWindow bs f _ | chunkedLocalAttention bs f _ => some (bs, f)
  | mamba .. => none

/-- The window sizes of a spec of full attention. -/
def windowSizes : KVCacheSpec → Option Nat × Option Nat
  | fullAttention _ _ w c => (w, c)
  | _ => (none, none)

/-- `merge_window_sizes`, of the window sizes that are not `None`. -/
def mergeWindowSizes (l : List (Option Nat)) : Except PyError (Option Nat) :=
  match (l.filterMap id).dedup with
  | [] => .ok none
  | [w] => .ok (some w)
  | _ => .error .valueError

/-- `merge`, of the class of the first spec. -/
def merge (specs : List KVCacheSpec) : Except PyError KVCacheSpec :=
  match specs with
  | [] => .error .indexError
  | .fullAttention bs f _ _ :: _ => do
    require (∀ s ∈ specs, s.isFullAttention) (PyError.assertionError .merge)
    let slidingWindow ← mergeWindowSizes (specs.map fun s => s.windowSizes.1)
    let attentionChunkSize ← mergeWindowSizes (specs.map fun s => s.windowSizes.2)
    require (∀ s ∈ specs, s.attentionSpec = some (bs, f)) (PyError.assertionError .merge)
    require (slidingWindow = none ∨ attentionChunkSize = none) (PyError.assertionError .merge)
    return .fullAttention bs f slidingWindow attentionChunkSize
  | s :: _ => do
    require (∀ s' ∈ specs, s' = s) (PyError.assertionError .merge)
    return s

end KVCacheSpec

/-! ## Configurations -/

/-- `KVCacheTensor`. -/
structure KVCacheTensor where
  size : Int
  sharedBy : List String
deriving DecidableEq, Repr

/-- `KVCacheGroupSpec`. -/
structure KVCacheGroupSpec where
  layerNames : List String
  kvCacheSpec : KVCacheSpec
deriving DecidableEq, Repr

/-- `KVCacheConfig`, as a worker gets it. The scheduler uses the number of blocks and the specs of the
groups, which are the `KVCacheConfig` of its manager. -/
structure WorkerKVCacheConfig where
  numBlocks : Int
  kvCacheTensors : List KVCacheTensor
  kvCacheGroups : List KVCacheGroupSpec
deriving DecidableEq, Repr

/-- The specs of the layers of a worker. -/
abbrev LayerSpecs := Dict String KVCacheSpec

namespace LayerSpecs

def values (d : LayerSpecs) : List KVCacheSpec := d.entries.map Prod.snd

end LayerSpecs

section Planning

variable (dtypeSize : String → Nat) (V : VllmConfig)

/-- `max_memory_usage_bytes`. -/
def maxMemoryUsageBytes (specs : List KVCacheSpec) : Except PyError Int := do
  let usages ← specs.mapM (KVCacheSpec.maxMemoryUsageBytes dtypeSize V)
  return usages.sum

/-- `check_enough_kv_cache_memory`. The longest length that fits is only computed for the message. -/
def checkEnoughKvCacheMemory (d : LayerSpecs) (availableMemory : Int) : Except PyError Unit :=
  if d.values = [] then .ok ()
  else do
    require (0 < availableMemory) PyError.valueError
    let needed ← maxMemoryUsageBytes dtypeSize V d.values
    require (needed ≤ availableMemory) PyError.valueError

/-- `is_kv_cache_type_uniform`. -/
def isKvCacheTypeUniform (d : LayerSpecs) : Except PyError Bool :=
  match KVCacheSpec.merge d.values with
  | .ok _ => .ok true
  | .error (.assertionError _) => .ok false
  | .error e => .error e

/-- A spec of windowed attention as one of full attention. -/
def KVCacheSpec.toFullAttention : KVCacheSpec → KVCacheSpec
  | .slidingWindow bs f w => .fullAttention bs f (some w) none
  | .chunkedLocalAttention bs f c => .fullAttention bs f none (some c)
  | s => s

/-- A spec of a sliding window or of local attention. -/
def KVCacheSpec.isWindowed : KVCacheSpec → Bool
  | .slidingWindow .. | .chunkedLocalAttention .. => true
  | _ => false

/-- `unify_hybrid_kv_cache_specs`. -/
def unifyHybridKvCacheSpecs (d : LayerSpecs) : Except PyError LayerSpecs := do
  if ← isKvCacheTypeUniform d then return d
  else do
    let d :=
      if d.values.any KVCacheSpec.isFullAttention ∧ d.values.any KVCacheSpec.isWindowed then
        d.mapValues KVCacheSpec.toFullAttention
      else d
    let uniform ← isKvCacheTypeUniform d
    require (uniform = true) PyError.valueError
    return d

/-- `get_num_blocks`. -/
def getNumBlocks (numLayers : Nat) (availableMemory : Int) (pageSize : Nat) :
    Except PyError Int := do
  require (0 < pageSize) PyError.zeroDivisionError
  require (0 < numLayers) PyError.zeroDivisionError
  return V.numGpuBlocksOverride.getD (max ((availableMemory.fdiv pageSize).fdiv numLayers) 0)

/-- The page sizes of the layers. -/
def pageSizes (d : LayerSpecs) : Except PyError (List Nat) := do
  let sizes ← d.values.mapM (KVCacheSpec.pageSizeBytes dtypeSize)
  return sizes.dedup

/-- `get_uniform_page_size`. -/
def getUniformPageSize (d : LayerSpecs) : Except PyError Nat := do
  match ← pageSizes dtypeSize d with
  | [pageSize] => return pageSize
  | _ => throw (.assertionError .getUniformPageSize)

/-- `create_kv_cache_group_specs`. -/
def createKvCacheGroupSpecs (d : LayerSpecs) (groupedLayerNames : List (List String)) :
    Except PyError (List KVCacheGroupSpec) :=
  groupedLayerNames.mapM fun layerNames => do
    let layerSpecs ← layerNames.mapM fun name =>
      match d.get? name with
      | some s => .ok s
      | none => .error PyError.keyError
    let kvCacheSpec ← KVCacheSpec.merge layerSpecs
    return { layerNames, kvCacheSpec }

/-- `_get_kv_cache_config_uniform_type`: one group, and a tensor for every layer. -/
def getKvCacheConfigUniformType (d : LayerSpecs) (availableMemory : Int) :
    Except PyError WorkerKVCacheConfig := do
  let pageSize ← getUniformPageSize dtypeSize d
  let numBlocks ← getNumBlocks V d.keys.length availableMemory pageSize
  let kvCacheGroups ← createKvCacheGroupSpecs d [d.keys]
  return {
    numBlocks
    kvCacheTensors := d.keys.map fun name => { size := pageSize * numBlocks, sharedBy := [name] }
    kvCacheGroups }

/-- The layers of every spec. -/
def sameTypeLayers (d : LayerSpecs) : Dict KVCacheSpec (List String) :=
  d.entries.foldl (fun layers e => layers.set e.2 (layers.getD e.2 [] ++ [e.1])) ∅

/-- The number of layers of a group: the least number of layers that a spec has. -/
def groupSize (d : LayerSpecs) : Nat :=
  (((sameTypeLayers d).entries.map fun e => e.2.length).min?).getD 0

/-- The layers of every group. -/
def groupedLayers (d : LayerSpecs) : List (List String) :=
  (sameTypeLayers d).entries.flatMap fun e => chunks (groupSize d) e.2

/-- `_get_kv_cache_config_uniform_page_size`: groups of the same number of layers, and tensors that
the `i`-th layers of all groups share. -/
def getKvCacheConfigUniformPageSize (d : LayerSpecs) (availableMemory : Int) :
    Except PyError WorkerKVCacheConfig := do
  let kvCacheGroups ← createKvCacheGroupSpecs d (groupedLayers d)
  let pageSize ← getUniformPageSize dtypeSize d
  let numBlocks ← getNumBlocks V (groupSize d) availableMemory pageSize
  return {
    numBlocks
    kvCacheTensors := (columns (groupSize d) (groupedLayers d)).map fun sharedBy =>
      { size := pageSize * numBlocks, sharedBy }
    kvCacheGroups }

/-- The specs from which the groups are made. -/
def plannedSpecs (d : LayerSpecs) : Except PyError LayerSpecs :=
  if V.disableHybridKvCacheManager then unifyHybridKvCacheSpecs d else .ok d

/-- `get_kv_cache_config`. -/
def getKvCacheConfig (d : LayerSpecs) (availableMemory : Int) :
    Except PyError WorkerKVCacheConfig := do
  checkEnoughKvCacheMemory dtypeSize V d availableMemory
  let d ← plannedSpecs V d
  if d.values = [] then return { numBlocks := 1, kvCacheTensors := [], kvCacheGroups := [] }
  else if ← isKvCacheTypeUniform d then getKvCacheConfigUniformType dtypeSize V d availableMemory
  else if (← pageSizes dtypeSize d).length = 1 then
    getKvCacheConfigUniformPageSize dtypeSize V d availableMemory
  else throw .notImplementedError

end Planning

/-! ## All workers -/

/-- A component of the key by which groups are sorted. -/
inductive SortKey where
  | int (n : Nat)
  | none
  | bool (b : Bool)
  | str (s : String)
  | dtype (s : String)
  | tuple (l : List (List Nat))
deriving DecidableEq

namespace SortKey

/-- `None` or an integer. -/
def ofOption (n : Option Nat) : SortKey := n.elim .none .int

/-- `<` between two different components; `none` if it raises a `TypeError`. -/
def lt? : SortKey → SortKey → Option Bool
  | .int m, .int n => some (m < n)
  | .bool b, .bool c => some (!b && c)
  | .str s, .str t => some (s < t)
  | .tuple l, .tuple k => some (l < k)
  | _, _ => Option.none

/-- `<` between two tuples. -/
def lexLt? : List SortKey → List SortKey → Option Bool
  | [], l => some (!l.isEmpty)
  | _ :: _, [] => some false
  | a :: l, b :: k => if a = b then lexLt? l k else lt? a b

end SortKey

/-- The name of the class, and the fields of the spec as `astuple` returns them. -/
def KVCacheSpec.sortKey : KVCacheSpec → List SortKey
  | .fullAttention bs f w c =>
    [.str "FullAttentionSpec", .int bs, .int f.numKvHeads, .int f.headSize, .dtype f.dtype,
      .bool f.useMla, .ofOption w, .ofOption c]
  | .slidingWindow bs f w =>
    [.str "SlidingWindowSpec", .int bs, .int f.numKvHeads, .int f.headSize, .dtype f.dtype,
      .bool f.useMla, .int w]
  | .chunkedLocalAttention bs f c =>
    [.str "ChunkedLocalAttentionSpec", .int bs, .int f.numKvHeads, .int f.headSize,
      .dtype f.dtype, .bool f.useMla, .int c]
  | .mamba bs shapes dtype padded type =>
    [.str "MambaSpec", .int bs, .tuple shapes, .dtype dtype, .ofOption padded, .str type]

/-- `kv_cache_groups.sort`. Sorting compares neighbours of the result, so that it raises exactly if
two of the keys cannot be compared. -/
def sortGroups (groups : List KVCacheGroupSpec) : Except PyError (List KVCacheGroupSpec) :=
  let lt? (g g' : KVCacheGroupSpec) := SortKey.lexLt? g.kvCacheSpec.sortKey g'.kvCacheSpec.sortKey
  if ∀ g ∈ groups, ∀ g' ∈ groups, (lt? g g').isSome then
    .ok (groups.insertionSort fun g g' => (lt? g' g).getD false = false)
  else .error .typeError

/-- The groups of every worker, sorted. -/
def sortConfigs (configs : List WorkerKVCacheConfig) : Except PyError (List WorkerKVCacheConfig) :=
  configs.mapM fun c => do
    let kvCacheGroups ← sortGroups c.kvCacheGroups
    return { c with kvCacheGroups }

/-- The groups of a worker are those of the first one, as far as both have them: `zip` ends with the
shorter list. -/
def WorkerKVCacheConfig.SameGroups (first c : WorkerKVCacheConfig) : Prop :=
  ∀ e ∈ first.kvCacheGroups.zip c.kvCacheGroups, e.1.kvCacheSpec = e.2.kvCacheSpec

instance (first c : WorkerKVCacheConfig) : Decidable (first.SameGroups c) := by
  unfold WorkerKVCacheConfig.SameGroups
  infer_instance

/-- `unify_kv_cache_configs`. -/
def unifyKvCacheConfigs (configs : List WorkerKVCacheConfig) :
    Except PyError (List WorkerKVCacheConfig) := do
  let configs ← sortConfigs configs
  require (∀ first ∈ configs.head?, ∀ c ∈ configs.tail, first.SameGroups c)
    (PyError.assertionError .unifyKvCacheConfigs)
  match (configs.map WorkerKVCacheConfig.numBlocks).min? with
  | none => throw .valueError
  | some minNumBlocks => return configs.map fun c => { c with numBlocks := minNumBlocks }

/-- `_initialize_kv_caches`, for the layers and the memory of the workers. -/
def initializeKvCaches (dtypeSize : String → Nat) (V : VllmConfig) (specs : List LayerSpecs)
    (availableMemory : List Int) : Except PyError (List WorkerKVCacheConfig) := do
  require (specs.length = availableMemory.length) (PyError.assertionError .initializeKvCaches)
  let configs ← (specs.zip availableMemory).mapM fun e => getKvCacheConfig dtypeSize V e.1 e.2
  let configs ← unifyKvCacheConfigs configs
  require (∀ c ∈ configs, ∀ c' ∈ configs, c.numBlocks = c'.numBlocks)
    (PyError.assertionError .initializeKvCaches)
  return configs

end InferenceServer
