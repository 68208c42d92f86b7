import InferenceServer.KVCache.CachedIndex

/-!
# Events of the prefix cache

With KV cache events enabled, `cache_full_blocks` emits the hash values of the blocks it enters,
`_maybe_evict_cached_block` the hash value of the block it evicts, and `reset_prefix_cache` that
everything is gone. A consumer folds the events that `take_events` returns into a set of hash
values.

The consumer's set is the set of the values in `cached_block_hash_to_block` as long as the blocks
that carry one value are reused together (`replay_exact`). The event of an eviction is emitted for
the block, not for the key: when one of two blocks with the same hash is reused, the consumer is told
that the hash is gone, while the other block is still found under it (`replay_loses_duplicate`).
-/

namespace InferenceServer

open Outcome

/-! ## The consumer -/

/-- What an event tells the consumer. -/
def KVCacheEvent.apply (known : Finset Int) : KVCacheEvent → Finset Int
  | .blockStored blockHashes .. => known ∪ blockHashes.toFinset
  | .blockRemoved blockHashes => known \ blockHashes.toFinset
  | .allBlocksCleared => ∅

/-- The hash values that a consumer of the events believes to be cached. -/
def consume (events : List KVCacheEvent) : Finset Int := events.foldl KVCacheEvent.apply ∅

theorem consume_concat (events : List KVCacheEvent) (e : KVCacheEvent) :
    consume (events ++ [e]) = e.apply (consume events) := by
  simp [consume]

namespace BlockPool

variable {H : BlockHasher} {p p' : BlockPool} {delivered : List KVCacheEvent}

/-- The hash values under which the index has an entry. -/
def cachedValues (p : BlockPool) : Finset Int :=
  (p.cachedBlockHashToBlock.keys.map BlockHashWithGroupId.getHashValue).toFinset

/-- Some block carries the hash value. -/
def Carries (p : BlockPool) (v : Int) : Prop :=
  ∃ b h, (p.block b).blockHash = some h ∧ h.getHashValue = v

theorem KeepsIndex.mem_cachedValues (h : p.KeepsIndex) {v : Int} :
    v ∈ p.cachedValues ↔ p.Carries v := by
  unfold cachedValues Carries
  rw [List.mem_toFinset, List.mem_map]
  constructor
  · rintro ⟨k, hk, rfl⟩
    obtain ⟨ids, hids⟩ := Dict.mem_iff_get?.mp (Dict.mem_iff.mpr hk)
    obtain ⟨b, hb⟩ := List.exists_mem_of_ne_nil ids (h.ne_nil k ids hids)
    exact ⟨b, k, (h.indexed.mem_iff k b).mp ⟨ids, hids, hb⟩, rfl⟩
  · rintro ⟨b, k, hk, rfl⟩
    obtain ⟨ids, hids, -⟩ := (h.indexed.mem_iff k b).mpr hk
    exact ⟨k, Dict.mem_iff.mp (Dict.mem_of_get? hids), rfl⟩

/-- **The consumer knows the pool**: the events taken and those still queued tell it the hash values
that are carried. -/
def Mirrors (p : BlockPool) (delivered : List KVCacheEvent) : Prop :=
  ∀ v, v ∈ consume (delivered ++ p.kvEventQueue) ↔ p.Carries v

/-! ## The methods of the pool -/

theorem Mirrors.of_onlyCounts (h : p.Mirrors delivered) (hc : p.OnlyCounts p') :
    p'.Mirrors delivered := by
  intro v
  rw [hc.kvEventQueue, h v]
  simp only [Carries, hc.sameHashes.blockHash]

/-- The events of evicted blocks take their values away. -/
theorem mem_consume_removed (hon : p.enableKVCacheEvents = true) (events : List KVCacheEvent)
    (l : List BlockId) (v : Int) :
    v ∈ consume (events ++ l.flatMap p.removedEvents) ↔
      v ∈ consume events ∧
        ∀ b ∈ l, ∀ h, (p.block b).blockHash = some h → h.getHashValue ≠ v := by
  induction l generalizing events with
  | nil => simp
  | cons b l ih =>
    rw [List.flatMap_cons, ← List.append_assoc, ih, List.forall_mem_cons, ← and_assoc]
    refine and_congr_left fun _ => ?_
    unfold removedEvents
    cases hb : (p.block b).blockHash with
    | none => simp
    | some h =>
      simp only [hon, if_true, consume_concat, KVCacheEvent.apply]
      simp [eq_comm]

/-- The blocks of `l` are all that carry their hash values. -/
def Whole (p : BlockPool) (l : List BlockId) : Prop :=
  ∀ b ∈ l, ∀ c ∈ p.blocks.keys, c ∉ l → ∀ h ∈ (p.block b).blockHash, ∀ h' ∈ (p.block c).blockHash,
    h.getHashValue ≠ h'.getHashValue

instance (l : List BlockId) : Decidable (p.Whole l) := by
  unfold Whole
  infer_instance

theorem mem_keys_of_blockHash {b : BlockId} {h : BlockHashWithGroupId}
    (hb : (p.block b).blockHash = some h) : b ∈ p.blocks.keys := by
  rw [← Dict.mem_iff]
  by_contra hn
  rw [block, Dict.getD_of_none (Dict.get?_eq_none_iff.mpr hn)] at hb
  simp at hb

/-- **`get_new_blocks`** on blocks that are all that carry their values. -/
theorem Mirrors.getNewBlocks (h : p.Mirrors delivered) (hkeeps : p.KeepsIndex)
    (hon : p.enableKVCacheEvents = true) {n : Nat} {ret : List BlockId}
    (hget : p.getNewBlocks n = .ok (ret, p')) (hwhole : p.Whole ret) : p'.Mirrors delivered := by
  obtain ⟨-, hhash, -, -, hqueue⟩ := hkeeps.getNewBlocks hget
  intro v
  rw [hqueue, ← List.append_assoc, mem_consume_removed hon, h v]
  constructor
  · rintro ⟨⟨b, k, hk, rfl⟩, hne⟩
    -- the block that carries the value is not reused
    refine ⟨b, k, ?_, rfl⟩
    rw [hhash, if_neg fun hb => hne b hb k hk rfl, hk]
  · rintro ⟨b, k, hk, rfl⟩
    rw [hhash] at hk
    split_ifs at hk with hb
    refine ⟨⟨b, k, hk, rfl⟩, fun c hc k' hk' heq => ?_⟩
    exact hwhole c hc b (mem_keys_of_blockHash hk) hb k' hk' k hk heq

/-- **`cache_full_blocks`**: the values of the entered blocks are told. -/
theorem Mirrors.cacheFullBlocks (h : p.Mirrors delivered) (hkeeps : p.KeepsIndex)
    (hcaching : p.enableCaching = true) (hon : p.enableKVCacheEvents = true) {r : Request}
    {blocks : List BlockId} {hashes hashes' : List BlockHash} {c n : Int} {bs gid : Nat}
    (hc : p.cacheFullBlocks H r blocks hashes c n bs gid = .ok (p', hashes')) :
    p'.Mirrors delivered := by
  rcases hkeeps.cacheFullBlocks hcaching hc with rfl | ⟨s, parent, hs, hstored⟩
  · exact h
  unfold storedEvent at hstored
  rw [if_pos (hs.enableKVCacheEvents.trans hon)] at hstored
  cases hlora : r.loraRequest with
  | some lora => simp [hlora] at hstored
  | none =>
    simp only [hlora] at hstored
    cases hstored
    intro v
    change v ∈ consume (delivered ++ (s.pool.kvEventQueue ++ _)) ↔ s.pool.Carries v
    rw [hs.kvEventQueue, ← List.append_assoc, consume_concat]
    unfold Carries
    rw [hs.mem_newHashes v]
    change v ∈ consume (delivered ++ p.kvEventQueue) ∪ s.newHashes.toFinset ↔ _
    rw [Finset.mem_union, List.mem_toFinset, h v, or_comm]
    rfl

theorem resetPrefixCache_events (p : BlockPool) (hon : p.enableKVCacheEvents = true) :
    p.resetPrefixCache.2 = p ∨
      p.resetPrefixCache.2.kvEventQueue = p.kvEventQueue ++ [.allBlocksCleared] := by
  unfold BlockPool.resetPrefixCache
  rw [if_pos hon]
  split_ifs
  · exact .inl rfl
  · exact .inr rfl

/-- **`reset_prefix_cache`** tells the consumer that nothing is left. -/
theorem Mirrors.resetPrefixCache (h : p.Mirrors delivered) (hon : p.enableKVCacheEvents = true) :
    p.resetPrefixCache.2.Mirrors delivered := by
  rcases p.resetPrefixCache_ok with he | ⟨-, -, -, -, hblock⟩
  · rwa [he]
  rcases p.resetPrefixCache_events hon with he | hqueue
  · rwa [he]
  intro v
  rw [hqueue, ← List.append_assoc, consume_concat]
  simp [KVCacheEvent.apply, Carries, hblock]

theorem Mirrors.takeEvents (h : p.Mirrors delivered) (hon : p.enableKVCacheEvents = true) :
    p.takeEvents.2.Mirrors (delivered ++ p.takeEvents.1) ∧ p.takeEvents.2.kvEventQueue = [] := by
  unfold BlockPool.takeEvents
  rw [if_pos hon]
  refine ⟨fun v => ?_, rfl⟩
  rw [List.append_nil]
  exact h v

/-- A pool with an exact index and events, which the consumer knows. -/
structure Told (p : BlockPool) (caching : Bool) (delivered : List KVCacheEvent) : Prop where
  keeps : p.KeepsIndex
  enableCaching : p.enableCaching = caching
  events : p.enableKVCacheEvents = true
  mirrors : p.Mirrors delivered

variable {caching : Bool}

theorem Told.of_onlyCounts (h : p.Told caching delivered) (hc : p.OnlyCounts p') :
    p'.Told caching delivered :=
  ⟨h.keeps.of_sameHashes hc.sameHashes, hc.sameHashes.shape.enableCaching.trans h.enableCaching,
    hc.enableKVCacheEvents.trans h.events, h.mirrors.of_onlyCounts hc⟩

theorem Told.getNewBlocks (h : p.Told caching delivered) {n : Nat} {ret : List BlockId}
    (hget : p.getNewBlocks n = .ok (ret, p')) (hwhole : p.Whole ret) :
    p'.Told caching delivered := by
  obtain ⟨hkeeps, -, hshape, hon, -⟩ := h.keeps.getNewBlocks hget
  exact ⟨hkeeps, hshape.enableCaching.trans h.enableCaching, hon.trans h.events,
    h.mirrors.getNewBlocks h.keeps h.events hget hwhole⟩

theorem Told.cacheFullBlocks (h : p.Told true delivered) {r : Request} {blocks : List BlockId}
    {hashes hashes' : List BlockHash} {c n : Int} {bs gid : Nat}
    (hc : p.cacheFullBlocks H r blocks hashes c n bs gid = .ok (p', hashes')) :
    p'.Told true delivered := by
  have hrun : (PoolOp.cacheFullBlocks r blocks hashes c n bs gid).run H p = .ok p' :=
    bind_eq_ok.mpr ⟨_, hc, rfl⟩
  obtain ⟨hkeeps, hcaching⟩ := KeepsIndex.run ⟨h.keeps, h.enableCaching⟩ hrun
  refine ⟨hkeeps, hcaching, ?_, h.mirrors.cacheFullBlocks h.keeps h.enableCaching h.events hc⟩
  rcases h.keeps.cacheFullBlocks h.enableCaching hc with rfl | ⟨s, parent, hs, hstored⟩
  · exact h.events
  · obtain ⟨events, rfl⟩ := storedEvent_ok hstored
    exact hs.enableKVCacheEvents.trans h.events

theorem Told.resetPrefixCache (h : p.Told caching delivered) :
    p.resetPrefixCache.2.Told caching delivered := by
  refine ⟨h.keeps.resetPrefixCache, p.resetPrefixCache_enableCaching.trans h.enableCaching, ?_,
    h.mirrors.resetPrefixCache h.events⟩
  unfold BlockPool.resetPrefixCache
  split <;> exact h.events

theorem Told.takeEvents (h : p.Told caching delivered) :
    p.takeEvents.2.Told caching (delivered ++ p.takeEvents.1) ∧
      p.takeEvents.2.kvEventQueue = [] := by
  obtain ⟨hm, hq⟩ := h.mirrors.takeEvents h.events
  refine ⟨⟨?_, ?_, ?_, hm⟩, hq⟩
  all_goals
    unfold BlockPool.takeEvents
    rw [if_pos h.events]
  · exact h.keeps.with_events []
  · exact h.enableCaching
  · exact h.events

end BlockPool

/-! ## Managers with one group -/

namespace KVCacheManager

variable {H : BlockHasher} {k k' : KVCacheManager} {m m' : SingleTypeKVCacheManager}
  {p' : BlockPool} {rid : ReqId}

/-- A loop over one manager. -/
theorem forManagers_singleton {α : Type} {f : SingleTypeKVCacheManager → BlockPool →
      Except PyError (α × SingleTypeKVCacheManager × BlockPool)}
    {out : List α} (hk : k.singleTypeManagers = [m]) (h : k.forManagers f = .ok (out, k')) :
    ∃ a m' p', f m k.blockPool = .ok (a, m', p') ∧ out = [a] ∧
      k' = { k with singleTypeManagers := [m'], blockPool := p' } := by
  obtain ⟨⟨out', p⟩, hloop, h⟩ := bind_eq_ok.mp h
  rw [hk] at hloop
  obtain ⟨⟨a, m'⟩, p', rest, hf, hnil, rfl⟩ := mapThreadM_cons_ok.mp hloop
  obtain ⟨rfl, rfl⟩ := pair_of_ok hnil
  obtain ⟨⟨a', m'', p''⟩, hone, he⟩ := bind_eq_ok.mp hf
  obtain ⟨⟨rfl, rfl⟩, rfl⟩ : (a' = a ∧ m'' = m') ∧ p'' = p' := by simpa [pure_eq_ok] using he
  cases h
  exact ⟨a', m'', p'', hone, rfl, rfl⟩

/-- The manager has one group, and the consumer knows its pool. -/
structure Told (k : KVCacheManager) (delivered : List KVCacheEvent) : Prop where
  one : ∃ m, k.singleTypeManagers = [m]
  pool : k.blockPool.Told k.enableCaching delivered

variable {delivered : List KVCacheEvent}

theorem Told.of_onlyCounts (h : k.Told delivered) (hone : ∃ m, k'.singleTypeManagers = [m])
    (hcaching : k'.enableCaching = k.enableCaching) (hc : k.blockPool.OnlyCounts k'.blockPool) :
    k'.Told delivered :=
  ⟨hone, hcaching ▸ h.pool.of_onlyCounts hc⟩

theorem onlyCounts_free (h : m.free k.blockPool rid = .ok (m', p')) :
    k.blockPool.OnlyCounts p' := by
  obtain ⟨q, hfree, h⟩ := bind_eq_ok.mp h
  cases h
  exact BlockPool.onlyCounts_freeBlocks hfree

variable {n : Int} {blocks : List (List BlockId)} {r : Request}

theorem onlyCounts_removeSkippedBlocks
    (h : m.removeSkippedBlocks k.blockPool rid n = .ok (m', p')) :
    k.blockPool.OnlyCounts p' := by
  unfold SingleTypeKVCacheManager.removeSkippedBlocks at h
  split at h
  · cases h
    exact .refl _
  · obtain ⟨⟨removed, blocks⟩, -, h⟩ := bind_eq_ok.mp h
    obtain ⟨q, hfree, h⟩ := bind_eq_ok.mp h
    cases h
    exact BlockPool.onlyCounts_freeBlocks hfree

theorem Told.free (h : k.Told delivered) (hf : k.free rid = .ok k') : k'.Told delivered := by
  obtain ⟨m, hm⟩ := h.one
  obtain ⟨out, hloop⟩ := second_of_ok hf
  obtain ⟨_, m', p', hone, -, rfl⟩ := forManagers_singleton hm hloop
  have hfree := unit_of_ok hone
  exact h.of_onlyCounts ⟨_, rfl⟩ rfl (onlyCounts_free hfree)

theorem removeSkippedBlocks_singleton (hm : k.singleTypeManagers = [m])
    (h : k.removeSkippedBlocks rid n = .ok k') :
    ∃ m' p', k.blockPool.OnlyCounts p' ∧
      k' = { k with singleTypeManagers := [m'], blockPool := p' } := by
  obtain ⟨out, hloop⟩ := second_of_ok h
  obtain ⟨_, m', p', hone, -, rfl⟩ := forManagers_singleton hm hloop
  have hskip := unit_of_ok hone
  exact ⟨m', p', onlyCounts_removeSkippedBlocks hskip, rfl⟩

theorem onlyCounts_touchComputed (h : k.touchComputed blocks = .ok k') :
    ∃ p', k.blockPool.OnlyCounts p' ∧ k' = { k with blockPool := p' } := by
  unfold touchComputed at h
  split at h
  · obtain ⟨p, htouch, h⟩ := bind_eq_ok.mp h
    cases h
    exact ⟨p, BlockPool.onlyCounts_touch htouch, rfl⟩
  · obtain ⟨_, -, h⟩ := bind_eq_ok.mp h
    cases h
    exact ⟨_, .refl _, rfl⟩

theorem saveNewComputedBlocks_singleton (hm : k.singleTypeManagers = [m]) (hlen : blocks.length = 1)
    (h : k.saveNewComputedBlocks rid blocks = .ok k') :
    ∃ m', k' = { k with singleTypeManagers := [m'] } := by
  obtain ⟨⟨ms, u⟩, hloop, h⟩ := bind_eq_ok.mp h
  cases h
  have hms := length_of_mapThreadM hloop
  rw [hm, List.length_zip, hlen] at hms
  obtain ⟨m', rfl⟩ := List.length_eq_one_iff.mp (by simpa using hms)
  exact ⟨m', rfl⟩

/-- The new blocks of one group come from one call of `get_new_blocks`, if there are any. -/
theorem allocateNewBlocks_singleton {new : List (List BlockId)}
    (hm : k.singleTypeManagers = [m]) (h : k.allocateNewBlocks rid n = .ok (new, k')) :
    ∃ l m' p', new = [l] ∧ k' = { k with singleTypeManagers := [m'], blockPool := p' } ∧
      (l = [] ∧ p' = k.blockPool ∨ ∃ j, k.blockPool.getNewBlocks j = .ok (l, p')) := by
  obtain ⟨l, m', p', hone, rfl, rfl⟩ := forManagers_singleton hm h
  refine ⟨l, m', p', rfl, rfl, ?_⟩
  unfold SingleTypeKVCacheManager.allocateNewBlocks at hone
  dsimp only at hone
  split at hone
  · obtain ⟨_, -, hone⟩ := bind_eq_ok.mp hone
    cases hone
    exact .inl ⟨rfl, rfl⟩
  · obtain ⟨⟨l', q⟩, hget, hone⟩ := bind_eq_ok.mp hone
    obtain ⟨_, -, hone⟩ := bind_eq_ok.mp hone
    cases hone
    exact .inr ⟨_, hget⟩

theorem Told.coordinatorCacheBlocks (h : k.Told delivered) (hcaching : k.enableCaching = true)
    (hc : k.coordinatorCacheBlocks H r n = .ok k') : k'.Told delivered := by
  obtain ⟨m, hm⟩ := h.one
  obtain ⟨⟨ms, p, hashes⟩, hloop, hc⟩ := bind_eq_ok.mp hc
  cases hc
  rw [hm] at hloop
  obtain ⟨m', ⟨p', hashes'⟩, rest, hone, hnil, rfl⟩ := mapThreadM_cons_ok.mp hloop
  obtain ⟨rfl, rfl, rfl⟩ := triple_of_ok hnil
  obtain ⟨⟨m'', p'', hashes''⟩, hcache, he⟩ := bind_eq_ok.mp hone
  obtain ⟨-, rfl, -⟩ := triple_of_ok he
  refine ⟨⟨m', rfl⟩, ?_⟩
  have hpool := h.pool
  rw [hcaching] at hpool
  unfold SingleTypeKVCacheManager.cacheBlocks at hcache
  split at hcache
  · simp at hcache
  · obtain ⟨⟨q, l⟩, hfull, hcache⟩ := bind_eq_ok.mp hcache
    obtain ⟨-, rfl, -⟩ := triple_of_ok hcache
    change q.Told k.enableCaching delivered
    rw [hcaching]
    exact hpool.cacheFullBlocks hfull

/-- **`allocate_slots`**, if the blocks it hands out are all that carry their values. -/
theorem Told.allocateSlots (h : k.Told delivered) {c : Int} {lookahead : Nat} {delay : Bool}
    {new : Option (List (List BlockId))} (hlen : blocks.length = k.singleTypeManagers.length)
    (ha : k.allocateSlots H r n c blocks lookahead delay = .ok (new, k'))
    (hwhole : ∀ l, new = some l → k.blockPool.Whole l.flatten) : k'.Told delivered := by
  obtain ⟨m, hm⟩ := h.one
  unfold KVCacheManager.allocateSlots at ha
  split at ha
  · simp at ha
  obtain ⟨k₀, hskip, ha⟩ := bind_eq_ok.mp ha
  obtain ⟨m₀, p₀, hc₀, rfl⟩ := removeSkippedBlocks_singleton hm hskip
  have h₀ : k.blockPool.Told k.enableCaching delivered := h.pool
  dsimp only at ha
  split at ha
  · cases ha
    exact ⟨⟨_, rfl⟩, h₀.of_onlyCounts hc₀⟩
  obtain ⟨⟨l, k₁⟩, hcommit, ha⟩ := bind_eq_ok.mp ha
  cases ha
  obtain ⟨k₂, htouch, hcommit⟩ := bind_eq_ok.mp hcommit
  obtain ⟨p₂, hc₂, rfl⟩ := onlyCounts_touchComputed htouch
  obtain ⟨k₃, hsave, hcommit⟩ := bind_eq_ok.mp hcommit
  rw [hm] at hlen
  obtain ⟨m₃, rfl⟩ := saveNewComputedBlocks_singleton rfl hlen hsave
  obtain ⟨⟨l', k₄⟩, halloc, hcommit⟩ := bind_eq_ok.mp hcommit
  obtain ⟨l₄, m₄, p₄, rfl, rfl, hnew⟩ := allocateNewBlocks_singleton rfl halloc
  -- the pool in which the blocks are taken has the hashes of the pool before the call
  have hc : k.blockPool.OnlyCounts p₂ := hc₀.trans hc₂
  have h₄ : l = [l₄] → p₄.Told k.enableCaching delivered := by
    rintro rfl
    rcases hnew with ⟨rfl, rfl⟩ | ⟨j, hget⟩
    · exact h₀.of_onlyCounts hc
    · have hw := hwhole _ rfl
      simp only [List.flatten_cons, List.flatten_nil, List.append_nil] at hw
      refine (h₀.of_onlyCounts hc).getNewBlocks hget fun b hb d _ hd j hj j' hj' => ?_
      rw [hc.sameHashes.blockHash] at hj hj'
      exact hw b hb d (BlockPool.mem_keys_of_blockHash hj') hd j hj j' hj'
  dsimp only at hcommit
  split at hcommit
  · cases hcommit
    exact ⟨⟨_, rfl⟩, h₄ rfl⟩
  · rename_i hcache
    obtain ⟨k₅, hcached, hcommit⟩ := bind_eq_ok.mp hcommit
    cases hcommit
    refine Told.coordinatorCacheBlocks ⟨⟨_, rfl⟩, h₄ rfl⟩ ?_ hcached
    simpa using (not_or.mp hcache).1

theorem Told.cacheBlocks (h : k.Told delivered)
    (hc : k.cacheBlocks H r n = .ok k') : k'.Told delivered := by
  unfold KVCacheManager.cacheBlocks at hc
  split at hc
  · exact h.coordinatorCacheBlocks ‹_› hc
  · cases hc
    exact h

end KVCacheManager

/-! ## Runs -/

/-- **Blocks that carry one hash value are reused together**: the blocks that `allocate_slots` takes
from the free queue include every block with the hash value of one of them. -/
def ReusesWhole (H : BlockHasher) (s : EventState) : ManagerOp → Prop
  | .allocateSlots r n c blocks lookahead delay =>
    match s.manager.allocateSlots H r n c blocks lookahead delay with
    | .ok (some newBlocks, _) => s.manager.blockPool.Whole newBlocks.flatten
    | _ => True
  | _ => True

instance (H : BlockHasher) (s : EventState) (op : ManagerOp) : Decidable (ReusesWhole H s op) := by
  unfold ReusesWhole
  split
  · split <;> infer_instance
  · infer_instance

variable {H : BlockHasher}

/-- One call keeps the consumer informed. -/
theorem EventState.told_run {s t : EventState} {op : ManagerOp}
    (h : s.manager.Told s.delivered) (hwhole : ReusesWhole H s op) (hrun : op.run H s = .ok t) :
    t.manager.Told t.delivered := by
  cases op with
  | getComputedBlocks r =>
    obtain ⟨⟨blocks, n, k⟩, hget, hrun⟩ := bind_eq_ok.mp hrun
    cases hrun
    unfold KVCacheManager.getComputedBlocks at hget
    split at hget
    · cases hget
      exact h
    · obtain ⟨hashes, -, hget⟩ := bind_eq_ok.mp hget
      obtain ⟨⟨blocks', n'⟩, -, hget⟩ := bind_eq_ok.mp hget
      cases hget
      exact ⟨h.one, h.pool⟩
  | allocateSlots r n c blocks lookahead delay =>
    obtain ⟨_, hlen, hrun⟩ := bind_eq_ok.mp hrun
    obtain ⟨⟨new, k⟩, halloc, hrun⟩ := bind_eq_ok.mp hrun
    cases hrun
    refine h.allocateSlots (require_eq_ok.mp hlen) halloc fun l hl => ?_
    subst hl
    simp only [ReusesWhole, halloc] at hwhole
    exact hwhole
  | cacheBlocks r n =>
    obtain ⟨k, hcache, hrun⟩ := bind_eq_ok.mp hrun
    cases hrun
    exact h.cacheBlocks hcache
  | free r =>
    obtain ⟨k, hfree, hrun⟩ := bind_eq_ok.mp hrun
    cases hrun
    exact h.free hfree
  | freeBlockHashes r =>
    cases hrun
    exact ⟨h.one, h.pool⟩
  | resetPrefixCache =>
    cases hrun
    exact ⟨h.one, h.pool.resetPrefixCache⟩
  | takeEvents =>
    cases hrun
    exact ⟨h.one, h.pool.takeEvents.1⟩

/-- **The replay of the events is exact.** In every run of a manager with one group and events enabled
in which blocks that carry one hash value are only reused together, a consumer of all events holds after
each `take_events` the hash values of the index. -/
theorem replay_exact {config : KVCacheConfig} {g : KVCacheSpec}
    (hone : config.kvCacheGroups = [g]) {maxModelLen : Nat} {enableCaching useEagle : Bool}
    {k : KVCacheManager}
    (hinit : KVCacheManager.init config maxModelLen enableCaching useEagle true = .ok k)
    {s t : EventState} (hs : (managerMachine H k).Reach (ReusesWhole H) s)
    (ht : ManagerOp.takeEvents.run H s = .ok t) :
    consume t.delivered = t.manager.blockPool.cachedValues := by
  have hpool := KVCacheManager.init_blockPool hinit
  have htold : k.Told [] := by
    refine ⟨?_, BlockPool.keepsIndex_init hpool, ?_, ?_, fun v => ?_⟩
    · have hlen : k.singleTypeManagers.length = 1 := by
        have := KVCacheManager.length_singleTypeManagers_init hinit
        rw [this, hone]
        rfl
      exact List.length_eq_one_iff.mp hlen
    all_goals obtain ⟨queue, free, heq, -, -⟩ := BlockPool.init_ok hpool
    · rw [heq]
    · rw [heq]
    · rw [heq]
      constructor
      · intro hv
        simp [consume] at hv
      · rintro ⟨b, h, hb, -⟩
        by_cases hb0 : b = 0 <;> simp [BlockPool.block, Dict.getD_set, hb0] at hb
  have hI : s.manager.Told s.delivered := hs.invariant
    (I := fun s => s.manager.Told s.delivered) htold
    fun _ _ _ h hwhole hrun => EventState.told_run h hwhole hrun
  have hqueue : t.manager.blockPool.kvEventQueue = [] := by
    obtain rfl := pure_eq_ok.mp ht
    exact hI.pool.takeEvents.2
  obtain ⟨-, hkeeps, -, -, hmirrors⟩ := EventState.told_run hI (show ReusesWhole H s .takeEvents from trivial) ht
  ext v
  rw [hkeeps.mem_cachedValues, ← hmirrors v, hqueue, List.append_nil]

/-- Two requests with different prompts; the first one gives its block back, and a third request
reuses it. -/
def distinctRun : List ManagerOp :=
  let first : Request := { requestId := 1, promptTokenIds := [7, 7] }
  let second : Request := { requestId := 2, promptTokenIds := [8, 8] }
  let third : Request := { requestId := 3, promptTokenIds := [1, 2, 3] }
  [.getComputedBlocks first, .allocateSlots first 2 0 [[]] 0 false,
   .getComputedBlocks second, .allocateSlots second 2 0 [[]] 0 false,
   .takeEvents, .free 1,
   .getComputedBlocks third, .allocateSlots third 3 0 [[]] 0 false]

theorem replay_exact_distinctRun :
    ∃ s t, runManager .encoding (oneGroupConfig 4) (ReusesWhole .encoding) distinctRun = some s ∧
      ManagerOp.takeEvents.run .encoding s = .ok t ∧
      consume t.delivered = t.manager.blockPool.cachedValues := by
  have hrun : (runManager .encoding (oneGroupConfig 4) (ReusesWhole .encoding)
      distinctRun).isSome = true := by decide +kernel
  obtain ⟨s, hs⟩ := Option.isSome_iff_exists.mp hrun
  obtain ⟨k, hk, hreach⟩ := reach_runManager hs
  exact ⟨s, _, hs, rfl, replay_exact rfl hk hreach rfl⟩

/-- **Without the condition the consumer loses a hash**: it is told that the hash of the reused block is
gone, while another block is still found under it. -/
theorem replay_loses_duplicate :
    ∃ k, KVCacheManager.init (oneGroupConfig 4) 100 true false true = .ok k ∧
      ∃ s t, (managerMachine .encoding k).Reach (fun _ _ => True) s ∧
        ManagerOp.takeEvents.run .encoding s = .ok t ∧
        consume t.delivered ≠ t.manager.blockPool.cachedValues := by
  have hrun : (runManager .encoding (oneGroupConfig 4) (fun _ _ => True) duplicateRun).any (fun s =>
      decide (consume (s.delivered ++ s.manager.takeEvents.1) ≠
        s.manager.takeEvents.2.blockPool.cachedValues)) = true := by decide +kernel
  obtain ⟨s, hs, hne⟩ := Option.any_eq_true .. |>.mp hrun
  obtain ⟨k, hk, hreach⟩ := reach_runManager hs
  exact ⟨k, hk, s, _, hreach, rfl, of_decide_eq_true hne⟩

end InferenceServer
