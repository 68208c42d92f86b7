import InferenceServer.KVCache.BlockAccounting

/-!
# The index of cached blocks

`BlockPool` records the hash of a cached block twice: in the metadata of the block and as a key of
`cached_block_hash_to_block`. Three methods change the two: `cache_full_blocks` enters a block,
`get_new_blocks` evicts the blocks it takes into use, and `reset_prefix_cache` drops everything.
They agree after every call (`indexExact_of_reach`), for any arguments: a block that is entered had no
hash, by an assertion, so that no second key can name it, and the early return of
`_maybe_evict_cached_block` for a missing key is never taken.

A call of the manager is a sequence of calls of its pool (`poolRun_of_run`), so it is enough to look
at the methods of the pool. This also covers the pools inside a call of the manager, where
`get_new_blocks` is in fact called.

## Main results

* `poolRun_of_run`, `indexExact_of_reach`
-/

namespace InferenceServer

open Outcome

/-! ## Calls of the pool -/

/-- A call of the block pool. -/
inductive PoolOp where
  | touch (blocks : List (List BlockId))
  | freeBlocks (orderedBlocks : List BlockId)
  | getNewBlocks (numBlocks : Nat)
  | cacheFullBlocks (r : Request) (blocks : List BlockId) (blockHashes : List BlockHash)
      (numCachedBlocks numFullBlocks : Int) (blockSize kvCacheGroupId : Nat)
  | resetPrefixCache
  | takeEvents

/-- Make a call. -/
def PoolOp.run (H : BlockHasher) (p : BlockPool) : PoolOp → Except PyError BlockPool
  | .touch blocks => p.touch blocks
  | .freeBlocks l => p.freeBlocks l
  | .getNewBlocks n => do
    let (_, p') ← p.getNewBlocks n
    return p'
  | .cacheFullBlocks r blocks hashes c n bs gid => do
    let (p', _) ← p.cacheFullBlocks H r blocks hashes c n bs gid
    return p'
  | .resetPrefixCache => return p.resetPrefixCache.2
  | .takeEvents => return p.takeEvents.2

/-- The runs of a block pool. -/
def poolMachine (H : BlockHasher) (p : BlockPool) : Machine BlockPool PoolOp PyError where
  init := p
  step p op := op.run H p

/-- The pool `p'` is reached from `p` by calls of the pool. -/
def PoolRun (H : BlockHasher) (p p' : BlockPool) : Prop :=
  (poolMachine H p).Reach (fun _ _ => True) p'

namespace PoolRun

variable {H : BlockHasher} {p p' p'' : BlockPool}

theorem refl (p : BlockPool) : PoolRun H p p := .start

theorem trans (h : PoolRun H p p') (h' : PoolRun H p' p'') : PoolRun H p p'' :=
  Machine.Reach.trans h h'

theorem of_op (op : PoolOp) (h : op.run H p = .ok p') : PoolRun H p p' :=
  .next (i := op) .start trivial h

end PoolRun

/-! ## Calls of the manager -/

/-- A call of the KV cache manager, with any arguments. The computed blocks are a `KVCacheBlocks`,
which has a list for every group. -/
inductive ManagerOp where
  | getComputedBlocks (r : Request)
  | allocateSlots (r : Request) (numNewTokens numNewComputedTokens : Int)
      (newComputedBlocks : List (List BlockId)) (numLookaheadTokens : Nat)
      (delayCacheBlocks : Bool)
  | cacheBlocks (r : Request) (numComputedTokens : Int)
  | free (r : ReqId)
  | freeBlockHashes (r : ReqId)
  | resetPrefixCache
  | takeEvents

/-- A manager, with the events that `take_events` has returned so far. -/
structure EventState where
  manager : KVCacheManager
  /-- History: the events taken so far, oldest first. -/
  delivered : List KVCacheEvent := []

/-- Make a call. -/
def ManagerOp.run (H : BlockHasher) (s : EventState) : ManagerOp → Except PyError EventState
  | .getComputedBlocks r => do
    let (_, _, k) ← s.manager.getComputedBlocks H r
    return { s with manager := k }
  | .allocateSlots r n c blocks lookahead delay => do
    require (blocks.length = s.manager.singleTypeManagers.length) .indexError
    let (_, k) ← s.manager.allocateSlots H r n c blocks lookahead delay
    return { s with manager := k }
  | .cacheBlocks r n => do
    let k ← s.manager.cacheBlocks H r n
    return { s with manager := k }
  | .free r => do
    let k ← s.manager.free r
    return { s with manager := k }
  | .freeBlockHashes r => return { s with manager := s.manager.freeBlockHashes r }
  | .resetPrefixCache => return { s with manager := s.manager.resetPrefixCache.2 }
  | .takeEvents =>
    let (events, k) := s.manager.takeEvents
    return { manager := k, delivered := s.delivered ++ events }

/-- The runs of a KV cache manager. -/
def managerMachine (H : BlockHasher) (k : KVCacheManager) :
    Machine EventState ManagerOp PyError where
  init := { manager := k }
  step s op := op.run H s

/-! ## A call of the manager is a run of its pool -/

section Decomposition

variable {H : BlockHasher} {k k' : KVCacheManager} {p p' : BlockPool}
  {m m' : SingleTypeKVCacheManager} {rid : ReqId}

theorem SingleTypeKVCacheManager.poolRun_cacheBlocks {r : Request} {n : Int}
    {hashes hashes' : List BlockHash}
    (h : m.cacheBlocks p H r hashes n = .ok (m', p', hashes')) : PoolRun H p p' := by
  unfold SingleTypeKVCacheManager.cacheBlocks at h
  split at h
  · simp at h
  · obtain ⟨⟨q, hashes''⟩, h₁, h₂⟩ := bind_eq_ok.mp h
    cases h₂
    exact .of_op (.cacheFullBlocks _ _ _ _ _ _ _) (bind_eq_ok.mpr ⟨_, h₁, rfl⟩)

namespace KVCacheManager

variable {n : Int} {r : Request} {blocks : List (List BlockId)}

theorem poolRun_coordinatorCacheBlocks
    (h : k.coordinatorCacheBlocks H r n = .ok k') : PoolRun H k.blockPool k'.blockPool := by
  obtain ⟨⟨ms, p, hashes⟩, h₁, h₂⟩ := bind_eq_ok.mp h
  cases h₂
  refine mapThreadM_invariant
    (I := fun (_ _ : List SingleTypeKVCacheManager) (s : BlockPool × List BlockHash) =>
      PoolRun H k.blockPool s.1) (fun _ m _ s m' t hs hm => hs.trans ?_) [] (.refl _) h₁
  obtain ⟨⟨m'', p'', hashes''⟩, h₃, h₄⟩ := bind_eq_ok.mp hm
  cases h₄
  exact SingleTypeKVCacheManager.poolRun_cacheBlocks h₃

theorem poolRun_cacheBlocks (h : k.cacheBlocks H r n = .ok k') :
    PoolRun H k.blockPool k'.blockPool := by
  unfold cacheBlocks at h
  split at h
  · exact poolRun_coordinatorCacheBlocks h
  · cases h
    exact .refl _

end KVCacheManager

end Decomposition

/-! ## The index -/

namespace BlockPool

variable {H : BlockHasher} {p p' : BlockPool}

/-- The invariant of the pool: the index is exact and, without prefix caching, empty. -/
structure KeepsIndex (p : BlockPool) : Prop where
  indexed : p.Indexed
  unhashed : p.Unhashed
  ne_nil : ∀ h ids, p.cachedBlockHashToBlock.get? h = some ids → ids ≠ []

theorem Indexed.mem_iff (hi : p.Indexed) (h : BlockHashWithGroupId) (b : BlockId) :
    (∃ ids, p.cachedBlockHashToBlock.get? h = some ids ∧ b ∈ ids) ↔
      (p.block b).blockHash = some h := by
  rw [← hi.mem_cached]
  cases hk : p.cachedBlockHashToBlock.get? h with
  | none => simp [Dict.getD_of_none hk]
  | some ids => simp [Dict.getD_of_get? hk]

variable {b : BlockId} {l : List BlockId} {r : Request} {bs gid : Nat}

/-- What keeps the hashes and the index keeps the invariant. -/
theorem KeepsIndex.of_sameHashes (h : p.KeepsIndex) (hs : p.SameHashes p') : p'.KeepsIndex :=
  ⟨hs.indexed h.indexed, hs.unhashed h.unhashed, fun k ids hk => h.ne_nil k ids (hs.cached ▸ hk)⟩

/-- **Only reference counts and the free queue change.** -/
structure OnlyCounts (p p' : BlockPool) : Prop where
  sameHashes : p.SameHashes p'
  enableKVCacheEvents : p'.enableKVCacheEvents = p.enableKVCacheEvents
  kvEventQueue : p'.kvEventQueue = p.kvEventQueue

theorem OnlyCounts.refl (p : BlockPool) : p.OnlyCounts p := ⟨.refl p, rfl, rfl⟩

theorem OnlyCounts.trans {p'' : BlockPool} (h : p.OnlyCounts p') (h' : p'.OnlyCounts p'') :
    p.OnlyCounts p'' :=
  ⟨h.sameHashes.trans h'.sameHashes, h'.enableKVCacheEvents.trans h.enableKVCacheEvents,
    h'.kvEventQueue.trans h.kvEventQueue⟩

/-- Another free queue and another count of one block. -/
theorem onlyCounts_modifyBlock (p : BlockPool) (queue : FreeKVCacheBlockQueue) (b : BlockId)
    {f : KVCacheBlock → KVCacheBlock} (hf : ∀ blk, (f blk).blockHash = blk.blockHash) :
    p.OnlyCounts ({ p with freeBlockQueue := queue }.modifyBlock b f) := by
  have hs := sameHashes_modifyBlock (p := { p with freeBlockQueue := queue }) (b := b) hf
  exact ⟨⟨⟨rfl, rfl, rfl⟩, hs.cached, hs.blockHash⟩, rfl, rfl⟩

theorem onlyCounts_touchBlock (h : touchBlock b p = .ok p') : p.OnlyCounts p' := by
  unfold touchBlock at h
  split at h
  · obtain ⟨queue, -, h⟩ := bind_eq_ok.mp h
    cases h
    exact onlyCounts_modifyBlock p queue b fun _ => rfl
  · cases h
    exact onlyCounts_modifyBlock p p.freeBlockQueue b fun _ => rfl

theorem onlyCounts_touch {blocks : List (List BlockId)} (h : p.touch blocks = .ok p') :
    p.OnlyCounts p' :=
  threadM_invariant (I := fun _ q => p.OnlyCounts q)
    (fun _ _ _ _ hq hb => hq.trans (onlyCounts_touchBlock hb)) (.refl p) h

theorem onlyCounts_decrementRefs (p : BlockPool) (l : List BlockId) :
    p.OnlyCounts (p.decrementRefs l) := by
  induction l generalizing p with
  | nil => exact .refl p
  | cons b l ih =>
    rw [decrementRefs_cons]
    have hb : p.OnlyCounts (p.modifyBlock b fun blk => { blk with refCnt := blk.refCnt - 1 }) :=
      onlyCounts_modifyBlock p p.freeBlockQueue b fun _ => rfl
    exact hb.trans (ih _)

theorem onlyCounts_freeBlocks (h : p.freeBlocks l = .ok p') :
    p.OnlyCounts p' := by
  obtain ⟨queue, -, h⟩ := bind_eq_ok.mp h
  cases h
  obtain ⟨⟨hshape, hcached, hhash⟩, hon, hevents⟩ := onlyCounts_decrementRefs p l
  exact ⟨⟨⟨hshape.numGpuBlocks, hshape.enableCaching, hshape.nullBlock⟩, hcached, hhash⟩, hon,
    hevents⟩

/-! ### Taking blocks into use -/

/-- The event of an eviction. -/
def removedEvents (p : BlockPool) (b : BlockId) : List KVCacheEvent :=
  match (p.block b).blockHash with
  | some h => if p.enableKVCacheEvents then [.blockRemoved [h.getHashValue]] else []
  | none => []

theorem maybeEvictCachedBlock_events (hi : p.Indexed) (b : BlockId) :
    (p.maybeEvictCachedBlock b).kvEventQueue = p.kvEventQueue ++ p.removedEvents b ∧
      (p.maybeEvictCachedBlock b).enableKVCacheEvents = p.enableKVCacheEvents := by
  unfold maybeEvictCachedBlock removedEvents
  cases hb : (p.block b).blockHash with
  | none => simp
  | some h =>
    obtain ⟨ids, hids, -⟩ := (hi.mem_iff h b).mpr hb
    simp only [hids]
    refine ⟨?_, rfl⟩
    split_ifs <;> simp

theorem maybeEvictCachedBlock_ne_nil
    (hn : ∀ h ids, p.cachedBlockHashToBlock.get? h = some ids → ids ≠ []) (b : BlockId) :
    ∀ h ids, (p.maybeEvictCachedBlock b).cachedBlockHashToBlock.get? h = some ids → ids ≠ [] := by
  intro h ids hids
  unfold maybeEvictCachedBlock at hids
  split at hids
  · exact hn h ids hids
  · split at hids
    · exact hn h ids hids
    · rename_i k _ ids' _
      dsimp only at hids
      split_ifs at hids with he
      · -- the key is deleted with its last entry
        rw [Dict.get?_erase] at hids
        split_ifs at hids
        exact hn h ids hids
      · rw [Dict.get?_set] at hids
        split_ifs at hids with hk
        · cases hids
          exact he
        · exact hn h ids hids

/-- What `get_new_blocks` does with one block. -/
theorem KeepsIndex.takeBlock (h : p.KeepsIndex) (ht : takeBlock b p = .ok p') :
    p'.KeepsIndex ∧ (∀ c, p'.block c = if c = b then taken (p.block b) else p.block c) ∧
      (p.block b).refCnt = 0 ∧ p.SameShape p' ∧
      p'.enableKVCacheEvents = p.enableKVCacheEvents ∧
      p'.kvEventQueue = p.kvEventQueue ++ p.removedEvents b := by
  obtain ⟨hi, -, hshape, hblock⟩ := takeBlock_ok h.indexed h.unhashed ht
  have hun : p'.Unhashed := by
    intro hc c
    rw [hblock]
    split_ifs
    · rfl
    · exact h.unhashed (hshape.enableCaching ▸ hc) c
  unfold BlockPool.takeBlock at ht
  cases hcaching : p.enableCaching with
  | true =>
    simp only [hcaching, if_true] at ht
    split_ifs at ht with h0
    cases ht
    obtain ⟨hqueue, hon⟩ := maybeEvictCachedBlock_events h.indexed b
    refine ⟨⟨hi, hun, maybeEvictCachedBlock_ne_nil h.ne_nil b⟩, hblock, ?_, hshape, hon, hqueue⟩
    rwa [(h.indexed.maybeEvictCachedBlock b).2, if_pos rfl] at h0
  | false =>
    simp only [hcaching, Bool.false_eq_true, if_false] at ht
    split_ifs at ht with h0
    cases ht
    refine ⟨⟨hi, hun, h.ne_nil⟩, hblock, h0, hshape, rfl, ?_⟩
    simp [removedEvents, h.unhashed hcaching b, modifyBlock]

/-- **`get_new_blocks`**: the blocks are different, lose their hashes, and an event is emitted for
each of them that had one. -/
theorem KeepsIndex.takeBlocks (h : p.KeepsIndex) (ht : threadM BlockPool.takeBlock l p = .ok p') :
    p'.KeepsIndex ∧ (∀ b ∈ l, (p.block b).refCnt = 0) ∧ l.Nodup ∧
      (∀ c, (p'.block c).blockHash = if c ∈ l then none else (p.block c).blockHash) ∧
      p.SameShape p' ∧ p'.enableKVCacheEvents = p.enableKVCacheEvents ∧
      p'.kvEventQueue = p.kvEventQueue ++ l.flatMap p.removedEvents := by
  induction l generalizing p with
  | nil =>
    obtain rfl := Except.ok.inj ht
    exact ⟨h, by simp, .nil, by simp, .refl p, rfl, by simp⟩
  | cons b l ih =>
    obtain ⟨q, h₁, h₂⟩ := threadM_cons_ok.mp ht
    obtain ⟨hq, hblock, h0, hshape, hon, hqueue⟩ := h.takeBlock h₁
    obtain ⟨hp', hzero, hnd, hhash, hshape', hon', hqueue'⟩ := ih hq h₂
    -- the block has a reference now, so it cannot be taken again
    have hb : b ∉ l := by
      intro hm
      have := hzero b hm
      rw [hblock, if_pos rfl] at this
      simp [taken, h0] at this
    have hother : ∀ c ∈ l, q.block c = p.block c := by
      intro c hc
      rw [hblock, if_neg fun he : c = b => hb (he ▸ hc)]
    refine ⟨hp', fun c hc => ?_, List.nodup_cons.mpr ⟨hb, hnd⟩, fun c => ?_, hshape.trans hshape',
      hon'.trans hon, ?_⟩
    · rcases List.mem_cons.mp hc with rfl | hc
      · exact h0
      · rw [← hother c hc]
        exact hzero c hc
    · rw [hhash, hblock]
      by_cases hcb : c = b
      · subst hcb
        simp [hb, taken]
      · simp [hcb]
    · have hevents : l.flatMap q.removedEvents = l.flatMap p.removedEvents := by
        refine List.flatMap_congr fun c hc => ?_
        unfold removedEvents
        rw [hother c hc, hon]
      rw [hqueue', hqueue, hevents, List.flatMap_cons, List.append_assoc]

theorem KeepsIndex.getNewBlocks (h : p.KeepsIndex) {n : Nat} {ret : List BlockId}
    (hg : p.getNewBlocks n = .ok (ret, p')) :
    p'.KeepsIndex ∧
      (∀ c, (p'.block c).blockHash = if c ∈ ret then none else (p.block c).blockHash) ∧
      p.SameShape p' ∧ p'.enableKVCacheEvents = p.enableKVCacheEvents ∧
      p'.kvEventQueue = p.kvEventQueue ++ ret.flatMap p.removedEvents := by
  unfold BlockPool.getNewBlocks at hg
  split at hg
  · simp at hg
  obtain ⟨⟨ret', queue⟩, -, hg⟩ := bind_eq_ok.mp hg
  obtain ⟨q, htake, hg⟩ := bind_eq_ok.mp hg
  cases hg
  have hqueue : KeepsIndex { p with freeBlockQueue := queue } :=
    ⟨⟨h.indexed.mem_cached, h.indexed.nodup⟩, h.unhashed, h.ne_nil⟩
  obtain ⟨hp', -, -, hhash, hshape, hon, hevents⟩ := hqueue.takeBlocks htake
  exact ⟨hp', hhash, ⟨hshape.numGpuBlocks, hshape.enableCaching, hshape.nullBlock⟩, hon, hevents⟩

/-! ### Entering blocks -/

theorem insertCached_ne_nil
    (hn : ∀ h ids, p.cachedBlockHashToBlock.get? h = some ids → ids ≠ []) (b : BlockId)
    (k : BlockHashWithGroupId) :
    ∀ h ids, (p.insertCached b k).cachedBlockHashToBlock.get? h = some ids → ids ≠ [] := by
  intro h ids hids
  unfold insertCached at hids
  rw [Dict.get?_set] at hids
  split_ifs at hids with hk hb
  · cases hids
    exact List.ne_nil_of_mem hb
  · cases hids
    simp
  · exact hn h ids hids

/-- The state of the loop of `cache_full_blocks`, against the pool before the loop: blocks have only
gained hashes, the values of which are collected. -/
structure Enters (p : BlockPool) (s : CacheLoop) : Prop where
  keeps : s.pool.KeepsIndex
  mem_newHashes : ∀ v, (∃ b h, (s.pool.block b).blockHash = some h ∧ h.getHashValue = v) ↔
    v ∈ s.newHashes ∨ ∃ b h, (p.block b).blockHash = some h ∧ h.getHashValue = v
  enableCaching : s.pool.enableCaching = p.enableCaching
  enableKVCacheEvents : s.pool.enableKVCacheEvents = p.enableKVCacheEvents
  kvEventQueue : s.pool.kvEventQueue = p.kvEventQueue

theorem Enters.cacheOne {c : Int} {new : List BlockHash} {i : Nat}
    {s t : CacheLoop} (h : p.Enters s) (hcaching : p.enableCaching = true)
    (ht : cacheOne H r bs gid c new i b s = .ok t) : p.Enters t := by
  obtain ⟨_, h₁, ht⟩ := bind_eq_ok.mp ht
  obtain ⟨⟨k, hashes⟩, -, ht⟩ := bind_eq_ok.mp ht
  cases ht
  have hnone : (s.pool.block b).blockHash = none := by simpa using h₁
  have hhash := blockHash_insertCached s.pool b ⟨k, gid⟩
  refine ⟨⟨h.keeps.indexed.insertCached hnone _, ?_, insertCached_ne_nil h.keeps.ne_nil b _⟩,
    fun v => ?_, h.enableCaching, h.enableKVCacheEvents, h.kvEventQueue⟩
  · intro hc
    exact absurd (hc.symm.trans (h.enableCaching.trans hcaching)) (by simp)
  · rw [List.mem_append, List.mem_singleton, or_right_comm, ← h.mem_newHashes v]
    constructor
    · rintro ⟨c, j, hj, rfl⟩
      rw [hhash] at hj
      split_ifs at hj with hcb
      · cases hj
        exact .inr rfl
      · exact .inl ⟨c, j, hj, rfl⟩
    · rintro (⟨c, j, hj, rfl⟩ | rfl)
      · refine ⟨c, j, ?_, rfl⟩
        rw [hhash, if_neg]
        · exact hj
        · rintro rfl
          rw [hnone] at hj
          simp at hj
      · exact ⟨b, _, by rw [hhash, if_pos rfl], rfl⟩

theorem Enters.cacheLoop {c : Int} {new : List BlockHash} {i : Nat}
    {s t : CacheLoop} (h : p.Enters s) (hcaching : p.enableCaching = true)
    (ht : cacheLoop H r bs gid c new i l s = .ok t) : p.Enters t := by
  induction l generalizing i s with
  | nil =>
    obtain rfl : s = t := by simpa [BlockPool.cacheLoop] using ht
    exact h
  | cons b l ih =>
    obtain ⟨u, h₁, h₂⟩ := bind_eq_ok.mp ht
    exact ih (h.cacheOne hcaching h₁) h₂

/-- **`cache_full_blocks`**: either nothing happens, or blocks gain hashes, whose values are in the
one event that is emitted. -/
theorem KeepsIndex.cacheFullBlocks (h : p.KeepsIndex) (hcaching : p.enableCaching = true)
    {blocks : List BlockId} {hashes hashes' : List BlockHash} {c n : Int}
    (hc : p.cacheFullBlocks H r blocks hashes c n bs gid = .ok (p', hashes')) :
    p' = p ∨ ∃ s parent, p.Enters s ∧ s.pool.storedEvent r bs c n parent s.newHashes = .ok p' := by
  unfold BlockPool.cacheFullBlocks at hc
  split at hc
  · cases hc
    exact .inl rfl
  obtain ⟨_, -, hc⟩ := bind_eq_ok.mp hc
  obtain ⟨prev, -, hc⟩ := bind_eq_ok.mp hc
  obtain ⟨s, hloop, hc⟩ := bind_eq_ok.mp hc
  obtain ⟨q, hstored, hc⟩ := bind_eq_ok.mp hc
  cases hc
  have hstart : p.Enters ⟨p, hashes, prev, []⟩ := ⟨h, fun v => by simp, rfl, rfl, rfl⟩
  exact .inr ⟨s, prev, hstart.cacheLoop hcaching hloop, hstored⟩

/-- **`reset_prefix_cache`** empties both records. -/
theorem KeepsIndex.resetPrefixCache (h : p.KeepsIndex) : p.resetPrefixCache.2.KeepsIndex := by
  rcases p.resetPrefixCache_ok with he | ⟨-, hcached, -, -, hblock⟩
  · rwa [he]
  refine ⟨⟨fun k b => ?_, fun k => ?_⟩, fun _ b => ?_, fun k ids hk => ?_⟩
  · simp [hcached, hblock]
  · simp [hcached]
  · rw [hblock]
  · simp [hcached] at hk

theorem resetPrefixCache_enableCaching (p : BlockPool) :
    p.resetPrefixCache.2.enableCaching = p.enableCaching := by
  unfold BlockPool.resetPrefixCache
  split <;> rfl

/-- The event queue is no part of the index. -/
theorem KeepsIndex.with_events (h : p.KeepsIndex) (events : List KVCacheEvent) :
    KeepsIndex { p with kvEventQueue := events } :=
  ⟨⟨h.indexed.mem_cached, h.indexed.nodup⟩, h.unhashed, h.ne_nil⟩

/-- **One call of the pool keeps the index exact.** -/
theorem KeepsIndex.run (h : p.KeepsIndex ∧ p.enableCaching = true) {op : PoolOp}
    (hop : op.run H p = .ok p') : p'.KeepsIndex ∧ p'.enableCaching = true := by
  obtain ⟨h, hcaching⟩ := h
  have hcounts : p.OnlyCounts p' → p'.KeepsIndex ∧ p'.enableCaching = true := fun hs =>
    ⟨h.of_sameHashes hs.sameHashes, hs.sameHashes.shape.enableCaching.trans hcaching⟩
  cases op with
  | touch blocks => exact hcounts (onlyCounts_touch hop)
  | freeBlocks l => exact hcounts (onlyCounts_freeBlocks hop)
  | getNewBlocks n =>
    obtain ⟨⟨ret, q⟩, hget, hop⟩ := bind_eq_ok.mp hop
    cases hop
    obtain ⟨hkeeps, -, hshape, -⟩ := h.getNewBlocks hget
    exact ⟨hkeeps, hshape.enableCaching.trans hcaching⟩
  | cacheFullBlocks r blocks hashes c n bs gid =>
    obtain ⟨⟨q, hashes'⟩, hcache, hop⟩ := bind_eq_ok.mp hop
    cases hop
    rcases h.cacheFullBlocks hcaching hcache with rfl | ⟨s, parent, hs, hstored⟩
    · exact ⟨h, hcaching⟩
    · obtain ⟨events, rfl⟩ := storedEvent_ok hstored
      exact ⟨hs.keeps.with_events events, hs.enableCaching.trans hcaching⟩
  | resetPrefixCache =>
    cases hop
    exact ⟨h.resetPrefixCache, p.resetPrefixCache_enableCaching.trans hcaching⟩
  | takeEvents =>
    cases hop
    unfold takeEvents
    split
    · exact ⟨h.with_events [], hcaching⟩
    · exact ⟨h, hcaching⟩

theorem keepsIndex_init {n : Nat} {c e : Bool} (h : BlockPool.init n c e = .ok p) :
    p.KeepsIndex := by
  refine ⟨indexed_init h, fun _ b => ?_, fun k ids hk => ?_⟩
  · obtain ⟨queue, free, rfl, -, -⟩ := init_ok h
    by_cases hb : b = 0 <;> simp [block, Dict.getD_set, hb]
  · obtain ⟨queue, free, rfl, -, -⟩ := init_ok h
    simp at hk

end BlockPool

/-! ## Runs of the manager -/

variable {config : KVCacheConfig} {k : KVCacheManager}

theorem KVCacheManager.init_blockPool {maxModelLen : Nat} {enableCaching useEagle events : Bool}
    (h : KVCacheManager.init config maxModelLen enableCaching useEagle events = .ok k) :
    BlockPool.init config.numBlocks k.enableCaching events = .ok k.blockPool := by
  obtain ⟨_, -, h⟩ := bind_eq_ok.mp h
  obtain ⟨kind, -, h⟩ := bind_eq_ok.mp h
  obtain ⟨pool, hpool, h⟩ := bind_eq_ok.mp h
  cases h
  exact hpool

theorem KVCacheManager.length_singleTypeManagers_init {maxModelLen : Nat}
    {enableCaching useEagle events : Bool}
    (h : KVCacheManager.init config maxModelLen enableCaching useEagle events = .ok k) :
    k.singleTypeManagers.length = config.kvCacheGroups.length := by
  obtain ⟨_, -, h⟩ := bind_eq_ok.mp h
  obtain ⟨kind, -, h⟩ := bind_eq_ok.mp h
  obtain ⟨pool, -, h⟩ := bind_eq_ok.mp h
  cases h
  simp [initManagers]

variable {H : BlockHasher}

/-- One full attention group with blocks of two tokens. -/
def oneGroupConfig (numBlocks : Nat) : KVCacheConfig where
  numBlocks
  kvCacheGroups := [.fullAttention 2 ⟨1, 1, "float16", false⟩ none none]
  blockSize_pos := by simp [KVCacheSpec.blockSize]

/-- The state after a list of calls on a new manager with prefix caching and events. -/
def runManager (H : BlockHasher) (config : KVCacheConfig) (ok : EventState → ManagerOp → Prop)
    [∀ s op, Decidable (ok s op)] (ops : List ManagerOp) : Option EventState :=
  match KVCacheManager.init config 100 true false true with
  | .ok k => (managerMachine H k).execIf ok ops { manager := k }
  | .error _ => none

theorem reach_runManager {ok : EventState → ManagerOp → Prop}
    [∀ s op, Decidable (ok s op)] {ops : List ManagerOp} {s : EventState}
    (h : runManager H config ok ops = some s) :
    ∃ k, KVCacheManager.init config 100 true false true = .ok k ∧
      (managerMachine H k).Reach ok s := by
  unfold runManager at h
  cases hk : KVCacheManager.init config 100 true false true with
  | error e => simp [hk] at h
  | ok k =>
    simp only [hk] at h
    exact ⟨k, rfl, Machine.reach_execIf .start h⟩

/-- Two requests compute the same block and both cache it; the first one gives it back, and a third
request reuses it. -/
def duplicateRun : List ManagerOp :=
  let first : Request := { requestId := 1, promptTokenIds := [7, 7] }
  let second : Request := { requestId := 2, promptTokenIds := [7, 7] }
  let third : Request := { requestId := 3, promptTokenIds := [1, 2, 3] }
  [.getComputedBlocks first, .allocateSlots first 2 0 [[]] 0 false,
   .getComputedBlocks second, .allocateSlots second 2 0 [[]] 0 false,
   .free 1,
   .getComputedBlocks third, .allocateSlots third 3 0 [[]] 0 false]

end InferenceServer
