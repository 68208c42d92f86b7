import InferenceServer.KVCache.ManagerOperations
import InferenceServer.Lib.Run

/-!
# Block accounting over whole runs

The calls that the scheduler makes on the KV cache manager, as a state machine. Besides the
manager, a state holds the blocks that the last call returned if it was `get_computed_blocks`,
since these are the only blocks that may be passed to `allocate_slots`.

`BlocksAccounted` says that the reference counts are the occurrences in the block tables and that
the free list, read from the fake head, holds the blocks without references. It holds in every
state reached without caching the null block. `cache_full_blocks` does not exclude the null
block, although a null block should never be cached: with a sliding window group in front of a
full attention group the null block passes its hash on to generated blocks, two positions of a
request get the same hash, and a later hit puts one block into a table twice.
-/

namespace InferenceServer

open Outcome

/-! ## The initial manager -/

section Init

variable {config : KVCacheConfig} {maxModelLen : Nat} {enableCaching useEagle events : Bool}
  {k : KVCacheManager} {P : ReqId → Nat → BlockHash → Prop}

theorem length_groupIdsOf (groups : List KVCacheSpec) (f : KVCacheSpec → Bool) :
    (groupIdsOf groups f).length + (groupIdsOf groups fun g => !f g).length = groups.length := by
  have hneg : groupIdsOf groups (fun g => !f g) = (List.range groups.length).filter
      fun i => !(groups[i]?.map f).getD false := by
    refine List.filter_congr fun i hi => ?_
    rw [List.getElem?_eq_getElem (List.mem_range.mp hi)]
    rfl
  rw [hneg, groupIdsOf, ← List.length_eq_length_filter_add, List.length_range]

theorem verifyAndSplitKVCacheGroups_ok {groups : List KVCacheSpec} {kind : CoordinatorKind}
    (h : verifyAndSplitKVCacheGroups groups = .ok kind) :
    ∃ full other b, kind = .hybrid (groupIdsOf groups KVCacheSpec.isFullAttention)
      (groupIdsOf groups fun g => !g.isFullAttention) full other b := by
  unfold verifyAndSplitKVCacheGroups at h
  dsimp only at h
  split at h
  · obtain ⟨_, -, h₁⟩ := bind_eq_ok.mp h
    obtain ⟨_, -, h₂⟩ := bind_eq_ok.mp h₁
    split_ifs at h₂
    · exact ⟨_, _, _, (pure_eq_ok.mp h₂).symm⟩
    · exact ⟨_, _, _, (pure_eq_ok.mp h₂).symm⟩
  · simp at h

variable (h : KVCacheManager.init config maxModelLen enableCaching useEagle events = .ok k)

include h

/-- The new manager has the invariant, whatever the hashes. -/
theorem KVCacheManager.fits_init : k.Fits P := by
  obtain ⟨_, h₁, h₂⟩ := bind_eq_ok.mp h
  obtain ⟨kind, h₃, h₄⟩ := bind_eq_ok.mp h₂
  obtain ⟨pool, h₅, h₆⟩ := bind_eq_ok.mp h₄
  cases h₆
  obtain ⟨free, hacc⟩ := BlockPool.accounts_init h₅
  obtain ⟨queue, free', hpool, hrange, -⟩ := BlockPool.init_ok h₅
  have hms : ∀ m ∈ initManagers config.kvCacheGroups,
      m.reqToBlocks = ∅ ∧ m.numCachedBlock = ∅ := by
    intro m hm
    obtain ⟨⟨g, i⟩, -, rfl⟩ := List.mem_map.mp hm
    exact ⟨rfl, rfl⟩
  have hocc : ∀ b, occurrences (initManagers config.kvCacheGroups) b = 0 := by
    intro b
    refine List.sum_eq_zero fun x hx => ?_
    obtain ⟨m, hm, rfl⟩ := List.mem_map.mp hx
    rw [SingleTypeKVCacheManager.tableCount, (hms m hm).1]
    rfl
  have hheld : ∀ r i b, ¬HeldAt (initManagers config.kvCacheGroups) r i b :=
    fun r i b hh => by
      have := hh.occurrences_pos
      rw [hocc b] at this
      exact absurd this (by omega)
  have hspecs : specs (initManagers config.kvCacheGroups) = config.kvCacheGroups := by
    simp [specs, initManagers, Function.comp_def]
  have hlen : (initManagers config.kvCacheGroups).length = config.kvCacheGroups.length := by
    simp [initManagers]
  exact
    { coherent :=
        { accounts := ⟨free, hacc.congr fun b _ => by simp [hocc]⟩
          indexed := BlockPool.indexed_init h₅
          unhashed := fun _ b => by
            rw [hpool]
            by_cases hb : b = 0 <;> simp [BlockPool.block, Dict.getD_set, hb]
          null_lt := by
            rw [hpool]
            exact List.mem_range.mp (hrange ▸ List.mem_cons_self)
          null_unhashed := by rw [hpool]; rfl
          position := fun r i _ _ b _ hh => absurd hh (hheld r i b)
          hashed := fun r i b _ hh => absurd hh (hheld r i b)
          shared := fun b _ _ => by rw [hocc]; omega
          numCachedBlock_nonneg := fun m hm r c hc => by
            rw [(hms m hm).2] at hc
            simp at hc }
      recorded := fun r i b hb => by simp at hb
      caching := by rw [hpool]
      groups := by
        unfold getKVCacheCoordinator at h₃
        unfold KVCacheManager.groupOrder
        split_ifs at h₃ with hc
        · cases h₃
          simp
        · split at h₃
          · rename_i g hg
            cases h₃
            change 1 = (initManagers config.kvCacheGroups).length
            rw [hlen, hg]
            rfl
          · obtain ⟨_, _, b, rfl⟩ := verifyAndSplitKVCacheGroups_ok h₃
            rw [hlen, ← length_groupIdsOf config.kvCacheGroups KVCacheSpec.isFullAttention]
            cases b with
            | true => simp
            | false => simp [Nat.add_comm]
      blockSizes := fun hc g hg => by
        rw [hspecs] at hg
        exact (require_eq_ok.mp h₁) hc g hg }

end Init

/-! ## The machine -/

/-- The manager, and the request and blocks of the last call if it was `get_computed_blocks`. -/
structure KVState where
  manager : KVCacheManager
  computed : Option (ReqId × List (List BlockId)) := none
deriving DecidableEq

/-- A call. `allocateSlots` passes the blocks just returned for its request if `useComputed` is
set, and `None` otherwise. -/
inductive KVOp where
  | getComputedBlocks (r : Request)
  | allocateSlots (r : Request) (numNewTokens numNewComputedTokens : Int) (useComputed : Bool)
      (numLookaheadTokens : Nat) (delayCacheBlocks : Bool)
  | cacheBlocks (r : Request) (numComputedTokens : Int)
  | free (r : ReqId)
  | freeBlockHashes (r : ReqId)
  | resetPrefixCache
deriving DecidableEq

/-- The blocks that may be passed to `allocate_slots` for a request. -/
def KVState.newComputedBlocks (s : KVState) (r : ReqId) (useComputed : Bool) :
    List (List BlockId) :=
  match s.computed with
  | some (r', blocks) =>
    if r' = r ∧ useComputed then blocks else s.manager.createEmptyBlockList
  | none => s.manager.createEmptyBlockList

/-- One call. -/
def KVOp.run (H : BlockHasher) (s : KVState) : KVOp → Except PyError KVState
  | .getComputedBlocks r => do
    let (blocks, _, k) ← s.manager.getComputedBlocks H r
    return ⟨k, some (r.requestId, blocks)⟩
  | .allocateSlots r n c useComputed lookahead delay => do
    let (_, k) ← s.manager.allocateSlots H r n c (s.newComputedBlocks r.requestId useComputed)
      lookahead delay
    return ⟨k, none⟩
  | .cacheBlocks r n => do
    let k ← s.manager.cacheBlocks H r n
    return ⟨k, none⟩
  | .free r => do
    let k ← s.manager.free r
    return ⟨k, none⟩
  | .freeBlockHashes r => return ⟨s.manager.freeBlockHashes r, none⟩
  | .resetPrefixCache => return ⟨s.manager.resetPrefixCache.2, none⟩

/-- The runs of a KV cache manager. -/
def kvMachine (H : BlockHasher) (k : KVCacheManager) : Machine KVState KVOp PyError where
  init := ⟨k, none⟩
  step s op := op.run H s

/-- **The call does not cache the null block**: with prefix caching on, no block that it is about to
cache is the null block, or is replaced by it in the same call, and the number of tokens is not
negative. -/
def CachesNoNull (s : KVState) : KVOp → Prop
  | .allocateSlots r n c _ _ delay =>
    s.manager.enableCaching = true → delay = false → s.manager.AllocateClean r n c
  | .cacheBlocks r n =>
    s.manager.enableCaching = true → 0 ≤ n ∧ ∀ m ∈ s.manager.singleTypeManagers,
      m.SkipClean s.manager.blockPool.nullBlock r.requestId 0 n
  | _ => True

instance (s : KVState) (op : KVOp) : Decidable (CachesNoNull s op) := by
  unfold CachesNoNull
  split <;> infer_instance

/-! ## Positions of hashes -/

/-- The hash is one of the `i`-th block of a chain. -/
def HasDepth (H : BlockHasher) (_ : ReqId) (i : Nat) (h : BlockHash) : Prop :=
  H.Depth h.hashValue (i + 1)

variable {H : BlockHasher}

theorem positional_hasDepth (hH : H.Lawful) : Positional (HasDepth H) :=
  fun _ _ _ _ _ h h' => Nat.succ.inj (h.unique hH h')

/-- A hash computed from the block before belongs to the next position. -/
theorem computes_hasDepth (hH : H.Lawful) (r : Request) (bs lo hi : Nat) :
    Computes (HasDepth H) H r bs lo hi := by
  intro i prev h _ _ hprev hc
  obtain ⟨-, keys, _, -, rfl⟩ := BlockPool.computeBlockHash_ok hc
  cases i with
  | zero =>
    obtain rfl : prev = none := hprev
    exact depth_hashBlockTokens_first H _ _
  | succ i =>
    obtain ⟨h', hd, rfl⟩ := hprev
    exact depth_hashBlockTokens_next hH hd _ _

theorem recorded_hasDepth (hH : H.Lawful) {r : Request} {bs : Nat} {hashes : List BlockHash}
    (h : hashRequestTokens H bs r = .ok hashes) : Recorded (HasDepth H) r.requestId hashes := by
  intro i b hb
  have hd := hashBlocksFrom_induction (P := fun j h => H.Depth h.hashValue (j + 1)) h
    (fun keys => depth_hashBlockTokens_first H _ _)
    (fun j b keys hd => depth_hashBlockTokens_next hH hd _ _) i b hb
  rwa [Nat.zero_add] at hd

/-! ## Runs -/

/-- The invariant of the runs: the manager has its invariant, and the blocks of the last call
still fit their request. -/
structure KVState.Fits (P : ReqId → Nat → BlockHash → Prop) (s : KVState) : Prop where
  manager : s.manager.Fits P
  computed : ∀ r blocks, s.computed = some (r, blocks) →
    blocks.length = s.manager.singleTypeManagers.length ∧
      ∀ l ∈ blocks, HitsFit P r s.manager.blockPool l

variable {P : ReqId → Nat → BlockHash → Prop} {s : KVState}

/-- The blocks passed to `allocate_slots` fit its request. -/
theorem KVState.Fits.newComputedBlocks (h : s.Fits P) (r : ReqId) (u : Bool) :
    (s.newComputedBlocks r u).length = s.manager.singleTypeManagers.length ∧
      ∀ l ∈ s.newComputedBlocks r u, HitsFit P r s.manager.blockPool l := by
  have hempty : s.manager.createEmptyBlockList.length = s.manager.singleTypeManagers.length ∧
      ∀ l ∈ s.manager.createEmptyBlockList, HitsFit P r s.manager.blockPool l := by
    refine ⟨by simp [KVCacheManager.createEmptyBlockList], fun l hl => ?_⟩
    obtain ⟨m, -, rfl⟩ := List.mem_map.mp hl
    exact hitsFit_nil
  unfold KVState.newComputedBlocks
  cases hc : s.computed with
  | none => exact hempty
  | some c =>
    obtain ⟨r', blocks⟩ := c
    dsimp only
    split_ifs with hr
    · exact hr.1 ▸ h.computed r' blocks hc
    · exact hempty

theorem KVState.Fits.mono {Q : ReqId → Nat → BlockHash → Prop} (h : s.Fits P)
    (hPQ : ∀ r i b, P r i b → Q r i b) : s.Fits Q where
  manager := h.manager.mono hPQ
  computed r blocks hc := by
    obtain ⟨hlen, hfit⟩ := h.computed r blocks hc
    refine ⟨hlen, fun l hl i b hi hb => ?_⟩
    obtain ⟨k, hk, hP⟩ := hfit l hl i b hi hb
    exact ⟨k, hk, hPQ _ _ _ hP⟩

/-- The hashes that a call computes fit its request. -/
def KVOp.Computes (P : ReqId → Nat → BlockHash → Prop) (H : BlockHasher) (k : KVCacheManager) :
    KVOp → Prop
  | .getComputedBlocks r => ∀ hashes, k.enableCaching = true →
      hashRequestTokens H k.blockSize r = .ok hashes → Recorded P r.requestId hashes
  | .allocateSlots r n c _ _ delay => k.enableCaching = true → delay = false →
      InferenceServer.Computes P H r k.blockSize (k.reqToBlockHashes.getD r.requestId []).length
        (k.numFullBlocks r n c)
  | .cacheBlocks r n => k.enableCaching = true →
      InferenceServer.Computes P H r k.blockSize (k.reqToBlockHashes.getD r.requestId []).length
        (n / k.blockSize).toNat
  | _ => True

/-- **One call keeps the invariant.** -/
theorem KVState.Fits.run {t : KVState} {op : KVOp}
    (hP : Positional P) (h : s.Fits P) (hcomp : op.Computes P H s.manager)
    (hok : CachesNoNull s op) (hrun : op.run H s = .ok t) :
    t.Fits P ∧ KVCacheManager.SameConfig s.manager t.manager := by
  cases op with
  | getComputedBlocks r =>
    obtain ⟨⟨blocks, n, k⟩, h₁, h₂⟩ := bind_eq_ok.mp hrun
    cases h₂
    obtain ⟨hf, hsc, hpool, hms, hlen, hfit⟩ := h.manager.getComputedBlocks hcomp h₁
    refine ⟨⟨hf, fun r' blocks' he => ?_⟩, hsc⟩
    obtain ⟨rfl, rfl⟩ : r.requestId = r' ∧ blocks = blocks' := by simpa using he
    exact ⟨hms ▸ hlen, fun l hl => hpool ▸ hfit l hl⟩
  | allocateSlots r n c u lookahead delay =>
    obtain ⟨⟨res, k⟩, h₁, h₂⟩ := bind_eq_ok.mp hrun
    cases h₂
    obtain ⟨hlen, hfit⟩ := h.newComputedBlocks r.requestId u
    obtain ⟨hf, hsc⟩ := h.manager.allocateSlots hP hfit hlen hcomp hok h₁
    exact ⟨⟨hf, fun _ _ he => by simp at he⟩, hsc⟩
  | cacheBlocks r n =>
    obtain ⟨k, h₁, h₂⟩ := bind_eq_ok.mp hrun
    cases h₂
    obtain ⟨hf, hsc⟩ := h.manager.cacheBlocks hcomp hok h₁
    exact ⟨⟨hf, fun _ _ he => by simp at he⟩, hsc⟩
  | free r =>
    obtain ⟨k, h₁, h₂⟩ := bind_eq_ok.mp hrun
    cases h₂
    obtain ⟨hf, hsc⟩ := h.manager.free h₁
    exact ⟨⟨hf, fun _ _ he => by simp at he⟩, hsc⟩
  | freeBlockHashes r =>
    cases hrun
    obtain ⟨hf, hsc⟩ := h.manager.freeBlockHashes r
    exact ⟨⟨hf, fun _ _ he => by simp at he⟩, hsc⟩
  | resetPrefixCache =>
    cases hrun
    obtain ⟨hf, hsc⟩ := h.manager.resetPrefixCache
    exact ⟨⟨hf, fun _ _ he => by simp at he⟩, hsc⟩

theorem KVOp.computes_hasDepth (hH : H.Lawful) (k : KVCacheManager) (op : KVOp) :
    op.Computes (HasDepth H) H k := by
  cases op with
  | getComputedBlocks r => exact fun _ _ => recorded_hasDepth hH
  | allocateSlots r n c u lookahead delay => exact fun _ _ => InferenceServer.computes_hasDepth hH r _ _ _
  | cacheBlocks r n => exact fun _ => InferenceServer.computes_hasDepth hH r _ _ _
  | free r => trivial
  | freeBlockHashes r => trivial
  | resetPrefixCache => trivial

/-! ## The accounting -/

/-- **The blocks are accounted for**: the free list read from the fake head has as many elements as the
counter says and not the null block, and every other block has as many references as occurrences in the
block tables, and is in the list once if it has none and not at all otherwise. -/
def BlocksAccounted (k : KVCacheManager) : Prop :=
  match k.blockPool.freeBlockQueue.getAllFreeBlocks (k.blockPool.numGpuBlocks + 1) with
  | none => False
  | some free =>
    k.blockPool.getNumFreeBlocks = free.length ∧
      DoublyLinked.Node.item k.blockPool.nullBlock ∉ free ∧
      ∀ b < k.blockPool.numGpuBlocks, b ≠ k.blockPool.nullBlock →
        (k.blockPool.block b).refCnt = occurrences k.singleTypeManagers b ∧
        free.count (.item b) = if (k.blockPool.block b).refCnt = 0 then 1 else 0

instance (k : KVCacheManager) : Decidable (BlocksAccounted k) := by
  unfold BlocksAccounted
  split <;> infer_instance

theorem KVCacheManager.Fits.blocksAccounted
    {k : KVCacheManager} (h : k.Fits P) : BlocksAccounted k := by
  obtain ⟨free, ha⟩ := h.coherent.accounts
  have hlen : free.length < k.blockPool.numGpuBlocks + 1 := by
    have hsub : free ⊆ List.range k.blockPool.numGpuBlocks := fun b hb =>
      List.mem_range.mpr ((ha.mem_free b).mp hb).1
    have hle := (ha.holds.nodup.subperm hsub).length_le
    rw [List.length_range] at hle
    omega
  have hinj : Function.Injective (DoublyLinked.Node.item : BlockId → _) := fun _ _ he =>
    DoublyLinked.Node.item.inj he
  unfold BlocksAccounted
  rw [ha.holds.getAllFreeBlocks hlen]
  refine ⟨by simpa [BlockPool.getNumFreeBlocks] using ha.holds.numFreeBlocks, ?_,
    fun b hb hne => ?_⟩
  · rw [List.mem_map_of_injective hinj]
    exact ha.null_notMem
  · have hrefs := ha.refCnt b hne
    simp only [List.count_nil, Nat.add_zero] at hrefs
    rw [hrefs, List.count_map_of_injective _ _ hinj]
    refine ⟨rfl, ?_⟩
    have hmem := ha.mem_free b
    simp only [List.count_nil, Nat.add_zero] at hmem
    split_ifs with h0
    · exact List.count_eq_one_of_mem ha.holds.nodup (hmem.mpr ⟨hb, hne, by exact_mod_cast h0⟩)
    · refine List.count_eq_zero_of_not_mem fun hm => h0 ?_
      exact_mod_cast (hmem.mp hm).2.2

/-- **Block accounting.** In every run over any configuration in which no call caches the null block,
the blocks are accounted for after every call. -/
theorem blocksAccounted_of_reach (hH : H.Lawful) {config : KVCacheConfig} {maxModelLen : Nat}
    {enableCaching useEagle events : Bool} {k : KVCacheManager}
    (hinit : KVCacheManager.init config maxModelLen enableCaching useEagle events = .ok k)
    {s : KVState} (hs : (kvMachine H k).Reach CachesNoNull s) : BlocksAccounted s.manager := by
  have hfits : s.Fits (HasDepth H) := hs.invariant (I := KVState.Fits (HasDepth H))
    ⟨KVCacheManager.fits_init hinit, fun _ _ he => by simp [kvMachine] at he⟩
    fun s op _ hI hok hrun =>
      (hI.run (positional_hasDepth hH) (op.computes_hasDepth hH s.manager) hok hrun).1
  exact hfits.manager.blocksAccounted

/-! ## A run that caches the null block -/

/-- A sliding window group in front of a full attention group. -/
def hybridConfig (window : Nat) : KVCacheConfig where
  numBlocks := 16
  kvCacheGroups := [.slidingWindow 1 ⟨1, 1, "float16", false⟩ window,
    .fullAttention 1 ⟨1, 1, "float16", false⟩ none none]
  blockSize_pos := by simp [KVCacheSpec.blockSize]

/-- The first request: its block is skipped before it is cached, so the null block gets the hash
of the first block. -/
def skippedRequest (output : List TokenId) (numComputedTokens : Int) : Request :=
  { requestId := 1, promptTokenIds := [7], outputTokenIds := output, numComputedTokens }

/-- The second request: its fourth block is hashed after the null block. -/
def repeatingRequest (output : List TokenId) (numComputedTokens : Int) : Request :=
  { requestId := 2, promptTokenIds := [7, 8, 9], outputTokenIds := output, numComputedTokens }

def nullCachedRun : List KVOp :=
  [.getComputedBlocks (skippedRequest [] 0),
   .allocateSlots (skippedRequest [] 0) 1 0 true 0 true,
   .allocateSlots (skippedRequest [5] 1) 1 0 false 0 false,
   .getComputedBlocks (repeatingRequest [] 0),
   .allocateSlots (repeatingRequest [] 0) 3 0 true 0 false,
   .allocateSlots (repeatingRequest [8] 3) 1 0 false 0 false,
   .free 2,
   .getComputedBlocks (repeatingRequest [8, 4] 0),
   .allocateSlots (repeatingRequest [8, 4] 0) 1 4 true 0 false,
   .free 2]

/-- The state after a list of calls on a new manager. -/
def runCalls (H : BlockHasher) (config : KVCacheConfig) (ok : KVState → KVOp → Prop)
    [∀ s op, Decidable (ok s op)] (ops : List KVOp) : Option KVState :=
  match KVCacheManager.init config 100 true false false with
  | .ok k => (kvMachine H k).execIf ok ops ⟨k, none⟩
  | .error _ => none

theorem reach_runCalls {config : KVCacheConfig} {ok : KVState → KVOp → Prop}
    [∀ s op, Decidable (ok s op)] {ops : List KVOp} (h : runCalls H config ok ops = some s) :
    ∃ k, KVCacheManager.init config 100 true false false = .ok k ∧
      (kvMachine H k).Reach ok s := by
  unfold runCalls at h
  cases hk : KVCacheManager.init config 100 true false false with
  | error e => simp [hk] at h
  | ok k =>
    simp only [hk] at h
    exact ⟨k, rfl, Machine.reach_execIf .start h⟩

/-- **Without the condition** block 7 is given back twice, and the free list loses a block that is
counted. -/
theorem not_blocksAccounted_of_null_cached :
    ∃ H : BlockHasher, H.Lawful ∧
      ∃ k, KVCacheManager.init (hybridConfig 1) 100 true false false = .ok k ∧
      ∃ s, (kvMachine H k).Reach (fun _ _ => True) s ∧ ¬BlocksAccounted s.manager := by
  have hrun : (runCalls BlockHasher.encoding (hybridConfig 1) (fun _ _ => True) nullCachedRun).any
      (fun s => !decide (BlocksAccounted s.manager)) = true := by decide +kernel
  obtain ⟨s, hs, hnot⟩ := Option.any_eq_true .. |>.mp hrun
  obtain ⟨k, hk, hreach⟩ := reach_runCalls hs
  exact ⟨_, BlockHasher.lawful_encoding, k, hk, s, hreach, by simpa using hnot⟩

/-- Calls with a prefix cache hit, blocks behind the window and generated tokens. -/
def cleanRun : List KVOp :=
  [.getComputedBlocks (repeatingRequest [] 0),
   .allocateSlots (repeatingRequest [] 0) 3 0 true 0 false,
   .allocateSlots (repeatingRequest [8] 3) 1 0 false 0 false,
   .getComputedBlocks (skippedRequest [8, 9] 0),
   .allocateSlots (skippedRequest [8, 9] 0) 1 2 true 0 false,
   .free 2]

/-- The theorem on a run with a hit and skipped blocks. -/
theorem blocksAccounted_cleanRun :
    ∃ s, runCalls BlockHasher.encoding (hybridConfig 2) CachesNoNull cleanRun = some s ∧
      BlocksAccounted s.manager := by
  have hrun : (runCalls BlockHasher.encoding (hybridConfig 2) CachesNoNull cleanRun).isSome = true := by
    decide +kernel
  obtain ⟨s, hs⟩ := Option.isSome_iff_exists.mp hrun
  obtain ⟨k, hk, hreach⟩ := reach_runCalls hs
  exact ⟨s, hs, blocksAccounted_of_reach BlockHasher.lawful_encoding hk hreach⟩

end InferenceServer
