import InferenceServer.KVCache.BlockPool

/-!
# Block accounting in the pool

The reference count of a block, the free list and its counter are written by different methods
of `BlockPool`. `Accounts p refs free` says that they agree on who holds what: `refs` is the
number of references to every block, and `free` lists the blocks without references. Every
method of the pool keeps this relation and acts on `refs` by counting the blocks it is given.

The null block is outside the relation: it carries a count that nobody maintains and is never in
the free list.

`Indexed p` is the other relation of the pool: the index of cached blocks and the hashes of the
blocks are inverse to each other. Taking a block into use keeps it because the eviction erases
both sides.

## Main results

* `Accounts.getNewBlocks`, `Accounts.touch`, `Accounts.freeBlocks`: the references after an
  operation
* `Indexed.insertCached`, `Indexed.takeBlocks`
-/

namespace InferenceServer

open Outcome

namespace BlockPool

variable {p p' p'' : BlockPool} {refs : BlockId → Nat} {free : List BlockId}

/-- The data of the pool that no method changes. -/
structure SameShape (p p' : BlockPool) : Prop where
  numGpuBlocks : p'.numGpuBlocks = p.numGpuBlocks
  enableCaching : p'.enableCaching = p.enableCaching
  nullBlock : p'.nullBlock = p.nullBlock

theorem SameShape.refl (p : BlockPool) : SameShape p p := ⟨rfl, rfl, rfl⟩

theorem SameShape.trans (h : SameShape p p') (h' : SameShape p' p'') : SameShape p p'' :=
  ⟨h'.numGpuBlocks.trans h.numGpuBlocks, h'.enableCaching.trans h.enableCaching,
    h'.nullBlock.trans h.nullBlock⟩

theorem sameShape_modifyBlock (p : BlockPool) (b : BlockId) (f : KVCacheBlock → KVCacheBlock) :
    SameShape p (p.modifyBlock b f) := ⟨rfl, rfl, rfl⟩

/-- **The pool accounts for the references `refs`**: the counts of the blocks are these, and the
blocks without references are in the free list. -/
structure Accounts (p : BlockPool) (refs : BlockId → Nat) (free : List BlockId) : Prop where
  holds : p.freeBlockQueue.Holds free
  mem_free : ∀ b, b ∈ free ↔ b < p.numGpuBlocks ∧ b ≠ p.nullBlock ∧ refs b = 0
  refCnt : ∀ b, b ≠ p.nullBlock → (p.block b).refCnt = refs b
  isNull : ∀ b, (p.block b).isNull = decide (b = p.nullBlock)
  lt_of_refs : ∀ b, b ≠ p.nullBlock → refs b ≠ 0 → b < p.numGpuBlocks

/-- **The index of cached blocks** has a block under a hash exactly if the block has this hash. -/
structure Indexed (p : BlockPool) : Prop where
  mem_cached : ∀ h b, b ∈ p.cachedBlockHashToBlock.getD h [] ↔ (p.block b).blockHash = some h
  nodup : ∀ h, (p.cachedBlockHashToBlock.getD h []).Nodup

/-- Only the references of blocks other than the null block matter. -/
theorem Accounts.congr {refs' : BlockId → Nat} (h : Accounts p refs free)
    (he : ∀ b, b ≠ p.nullBlock → refs' b = refs b) : Accounts p refs' free where
  holds := h.holds
  mem_free b := by
    rw [h.mem_free b]
    constructor
    · rintro ⟨h₁, h₂, h₃⟩
      exact ⟨h₁, h₂, by rw [he b h₂, h₃]⟩
    · rintro ⟨h₁, h₂, h₃⟩
      exact ⟨h₁, h₂, by rw [← he b h₂, h₃]⟩
  refCnt b hb := by rw [h.refCnt b hb, he b hb]
  isNull := h.isNull
  lt_of_refs b hb hr := h.lt_of_refs b hb (by rwa [← he b hb])

theorem Accounts.null_notMem (h : Accounts p refs free) : p.nullBlock ∉ free :=
  fun hm => ((h.mem_free _).mp hm).2.1 rfl

/-! ## The initial pool -/

variable {n : Nat} {c e : Bool} {b : BlockId} {l : List BlockId}

variable (h : BlockPool.init n c e = .ok p)

include h

theorem init_ok :
    ∃ queue free, p = { numGpuBlocks := n, enableCaching := c, enableKVCacheEvents := e,
                        blocks := (∅ : Dict BlockId KVCacheBlock).set 0 { isNull := true },
                        freeBlockQueue := queue, cachedBlockHashToBlock := ∅,
                        nullBlock := 0, kvEventQueue := [] } ∧
      0 :: free = List.range n ∧ queue.Holds free := by
  obtain ⟨⟨b, queue⟩, h₁, h₂⟩ := bind_eq_ok.mp h
  cases hn : List.range n with
  | nil =>
    rw [hn] at h₁
    simp [FreeKVCacheBlockQueue.popleft, FreeKVCacheBlockQueue.init, DoublyLinked.nodes,
      DoublyLinked.Links.linkAll, DoublyLinked.Links.link] at h₁
  | cons a free =>
    obtain rfl : a = 0 := by
      cases n with
      | zero => simp at hn
      | succ n =>
        rw [List.range_succ_eq_map] at hn
        simpa using (List.cons.inj hn).1.symm
    have hq := FreeKVCacheBlockQueue.holds_init (List.range n) List.nodup_range
    rw [hn] at hq h₁
    obtain ⟨q', hpop, hq'⟩ := hq.popleft
    obtain ⟨rfl, rfl⟩ : 0 = b ∧ q' = queue := by simpa [hpop] using h₁
    exact ⟨q', free, by simpa [pure_eq_ok] using (pure_eq_ok.mp h₂).symm, rfl, hq'⟩

/-- The new pool accounts for no references. -/
theorem accounts_init : ∃ free, Accounts p (fun _ => 0) free := by
  obtain ⟨queue, free, rfl, hfree, hq⟩ := init_ok h
  refine ⟨free, hq, fun b => ?_, fun b hb => ?_, fun b => ?_, fun b _ hr => absurd rfl hr⟩
  · have hnd : (0 :: free).Nodup := hfree ▸ List.nodup_range
    have hmem : b ∈ 0 :: free ↔ b < n := by rw [hfree, List.mem_range]
    constructor
    · intro hb
      refine ⟨hmem.mp (List.mem_cons_of_mem _ hb), fun h0 => ?_, rfl⟩
      obtain rfl : b = 0 := h0
      exact (List.nodup_cons.mp hnd).1 hb
    · rintro ⟨hlt, hne, -⟩
      exact (List.mem_cons.mp (hmem.mpr hlt)).resolve_left hne
  · have hb' : b ≠ 0 := hb
    simp [block, Dict.getD_set, hb']
  · by_cases hb : b = 0 <;> simp [block, Dict.getD_set, hb]

theorem indexed_init : Indexed p := by
  obtain ⟨queue, free, rfl, -, -⟩ := init_ok h
  refine ⟨fun k b => ?_, fun k => by simp⟩
  by_cases hb : b = 0 <;> simp [block, Dict.getD_set, hb]

omit h

/-! ## Taking blocks into use -/

/-- The hash of a block after an eviction: the index is kept on both sides. -/
theorem Indexed.maybeEvictCachedBlock (h : Indexed p) (b : BlockId) :
    Indexed (p.maybeEvictCachedBlock b) ∧ ∀ c, (p.maybeEvictCachedBlock b).block c =
      if c = b then { p.block b with blockHash := none } else p.block c := by
  cases hb : (p.block b).blockHash with
  | none =>
    rw [show p.maybeEvictCachedBlock b = p by simp [BlockPool.maybeEvictCachedBlock, hb]]
    refine ⟨h, fun c => ?_⟩
    split_ifs with hc
    · rw [hc, ← hb]
    · rfl
  | some k =>
    have hmem : b ∈ p.cachedBlockHashToBlock.getD k [] := (h.mem_cached k b).mpr hb
    cases hk : p.cachedBlockHashToBlock.get? k with
    | none => simp [Dict.getD_of_none hk] at hmem
    | some ids =>
      have hids : p.cachedBlockHashToBlock.getD k [] = ids := Dict.getD_of_get? hk
      have hnd : ids.Nodup := hids ▸ h.nodup k
      -- the entry of `k` loses `b`, whether or not the entry itself is deleted
      have hget : ∀ j, (if ids.erase b = [] then p.cachedBlockHashToBlock.erase k
          else p.cachedBlockHashToBlock.set k (ids.erase b)).getD j [] =
          if j = k then ids.erase b else p.cachedBlockHashToBlock.getD j [] := by
        intro j
        split_ifs with he hj hj
        · rw [he, Dict.getD_erase, if_pos hj]
        · rw [Dict.getD_erase, if_neg hj]
        · rw [Dict.getD_set, if_pos hj]
        · rw [Dict.getD_set, if_neg hj]
      have hblock : ∀ c, (p.modifyBlock b fun blk => { blk with blockHash := none }).block c =
          if c = b then { p.block b with blockHash := none } else p.block c :=
        block_modifyBlock p b _
      have hevict : (p.maybeEvictCachedBlock b).cachedBlockHashToBlock =
          (if ids.erase b = [] then p.cachedBlockHashToBlock.erase k
            else p.cachedBlockHashToBlock.set k (ids.erase b)) ∧
          (p.maybeEvictCachedBlock b).block =
            (p.modifyBlock b fun blk => { blk with blockHash := none }).block := by
        unfold BlockPool.maybeEvictCachedBlock
        simp only [hb, hk, true_and]
        rfl
      refine ⟨⟨fun j c => ?_, fun j => ?_⟩, fun c => by rw [hevict.2, hblock]⟩
      · rw [hevict.1, hevict.2, hget, hblock]
        by_cases hc : c = b
        · subst hc
          rw [if_pos rfl]
          split_ifs with hj
          · simp [hnd.not_mem_erase]
          · simp [h.mem_cached, hb, Ne.symm hj]
        · rw [if_neg hc, ← h.mem_cached]
          split_ifs with hj
          · rw [hj, hids, List.mem_erase_of_ne hc]
          · rfl
      · rw [hevict.1, hget]
        split_ifs with hj
        · exact hnd.erase b
        · exact h.nodup j

theorem maybeEvictCachedBlock_frame (p : BlockPool) (b : BlockId) :
    (p.maybeEvictCachedBlock b).freeBlockQueue = p.freeBlockQueue ∧
      SameShape p (p.maybeEvictCachedBlock b) := by
  unfold maybeEvictCachedBlock
  split
  · exact ⟨rfl, .refl p⟩
  · split
    · exact ⟨rfl, .refl p⟩
    · exact ⟨rfl, rfl, rfl, rfl⟩

/-- The metadata of a block that has just been taken into use. -/
def taken (blk : KVCacheBlock) : KVCacheBlock :=
  { blk with refCnt := blk.refCnt + 1, blockHash := none }

/-- Without prefix caching no block has a hash. -/
def Unhashed (p : BlockPool) : Prop :=
  p.enableCaching = false → ∀ b, (p.block b).blockHash = none

theorem takeBlock_ok (h : Indexed p) (hu : p.Unhashed) (ht : takeBlock b p = .ok p') :
    Indexed p' ∧ p'.freeBlockQueue = p.freeBlockQueue ∧ SameShape p p' ∧
      ∀ c, p'.block c = if c = b then taken (p.block b) else p.block c := by
  unfold takeBlock at ht
  obtain ⟨q, hq, hqi, hqf, hqs, hqb⟩ : ∃ q, (if p.enableCaching then p.maybeEvictCachedBlock b
      else p) = q ∧ Indexed q ∧ q.freeBlockQueue = p.freeBlockQueue ∧ SameShape p q ∧
      ∀ c, q.block c = if c = b then { p.block b with blockHash := none } else p.block c := by
    cases hc : p.enableCaching with
    | true =>
      exact ⟨_, rfl, (h.maybeEvictCachedBlock b).1, (maybeEvictCachedBlock_frame p b).1,
        (maybeEvictCachedBlock_frame p b).2, (h.maybeEvictCachedBlock b).2⟩
    | false =>
      refine ⟨p, rfl, h, rfl, .refl p, fun c => ?_⟩
      split_ifs with hcb
      · rw [hcb, ← hu hc b]
      · rfl
  simp only [hq] at ht
  split_ifs at ht with h0
  cases ht
  have hblock := block_modifyBlock q b fun blk => { blk with refCnt := blk.refCnt + 1 }
  refine ⟨⟨fun j c => ?_, hqi.nodup⟩, hqf, hqs.trans (sameShape_modifyBlock _ _ _), fun c => ?_⟩
  · rw [hblock, cached_modifyBlock, hqi.mem_cached]
    split_ifs with hc
    · rw [hc]
    · rfl
  · rw [hblock, hqb b, if_pos rfl]
    split_ifs with hc
    · rfl
    · rw [hqb c, if_neg hc]

/-- The loop of `get_new_blocks` over different blocks. -/
theorem Indexed.takeBlocks (h : Indexed p) (hu : p.Unhashed) (hl : l.Nodup)
    (ht : threadM takeBlock l p = .ok p') :
    Indexed p' ∧ p'.freeBlockQueue = p.freeBlockQueue ∧ SameShape p p' ∧
      ∀ c, p'.block c = if c ∈ l then taken (p.block c) else p.block c := by
  induction l generalizing p with
  | nil =>
    obtain rfl := Except.ok.inj ht
    exact ⟨h, rfl, .refl p, fun c => by simp⟩
  | cons b l ih =>
    obtain ⟨q, h₁, h₂⟩ := threadM_cons_ok.mp ht
    obtain ⟨hqi, hqf, hqs, hqb⟩ := takeBlock_ok h hu h₁
    have hqu : q.Unhashed := by
      intro hc c
      rw [hqb]
      split_ifs
      · rfl
      · exact hu (hqs.enableCaching ▸ hc) c
    obtain ⟨hi, hf, hs, hb⟩ := ih hqi hqu (List.nodup_cons.mp hl).2 h₂
    refine ⟨hi, hf.trans hqf, hqs.trans hs, fun c => ?_⟩
    rw [hb, hqb]
    by_cases hc : c = b
    · subst hc
      simp [(List.nodup_cons.mp hl).1]
    · simp [hc]

/-- **`get_new_blocks`**: the returned blocks had no references and have one now. -/
theorem Accounts.getNewBlocks (ha : Accounts p refs free) (hi : Indexed p) (hu : p.Unhashed)
    {ret : List BlockId} (h : p.getNewBlocks n = .ok (ret, p')) :
    ∃ rest, free = ret ++ rest ∧ ret.length = n ∧
      Accounts p' (fun b => refs b + ret.count b) rest ∧ Indexed p' ∧ SameShape p p' ∧
      ∀ c, (p'.block c).blockHash = if c ∈ ret then none else (p.block c).blockHash := by
  unfold BlockPool.getNewBlocks at h
  split_ifs at h with hn
  obtain ⟨⟨ret', queue⟩, h₁, h₂⟩ := bind_eq_ok.mp h
  obtain ⟨q, h₃, h₄⟩ := bind_eq_ok.mp h₂
  obtain ⟨rfl, rfl⟩ := pair_of_ok h₄
  obtain ⟨rest, rfl, hlen, hq⟩ := ha.holds.popleftN h₁
  have hnd : (ret' ++ rest).Nodup := ha.holds.nodup
  obtain ⟨hi', hf, hs, hb⟩ := Indexed.takeBlocks (p := { p with freeBlockQueue := queue })
    ⟨hi.mem_cached, hi.nodup⟩ hu (List.nodup_append.mp hnd).1 h₃
  have hs' : SameShape p q := ⟨hs.numGpuBlocks, hs.enableCaching, hs.nullBlock⟩
  have hb' : ∀ c, q.block c = if c ∈ ret' then taken (p.block c) else p.block c := hb
  refine ⟨rest, rfl, hlen, ⟨by rw [hf]; exact hq, fun b => ?_, fun b hne => ?_, fun b => ?_,
    fun b hne hr => ?_⟩, hi', hs', fun c => ?_⟩
  · -- a block left in the list was not popped
    have hm := ha.mem_free b
    rw [List.mem_append] at hm
    rw [hs'.numGpuBlocks, hs'.nullBlock, Nat.add_eq_zero_iff, List.count_eq_zero]
    constructor
    · intro hbr
      obtain ⟨h₁, h₂, h₃⟩ := hm.mp (.inr hbr)
      exact ⟨h₁, h₂, h₃, fun hbl => (List.nodup_append.mp hnd).2.2 b hbl b hbr rfl⟩
    · rintro ⟨h₁, h₂, h₃, h₄⟩
      exact (hm.mpr ⟨h₁, h₂, h₃⟩).resolve_left h₄
  · rw [hs'.nullBlock] at hne
    rw [hb']
    split_ifs with hm
    · rw [List.count_eq_one_of_mem (List.nodup_append.mp hnd).1 hm]
      simp [taken, ha.refCnt b hne]
    · rw [List.count_eq_zero_of_not_mem hm]
      exact ha.refCnt b hne
  · rw [hb', hs'.nullBlock, ← ha.isNull b]
    split_ifs <;> rfl
  · rw [hs'.nullBlock] at hne
    rw [hs'.numGpuBlocks]
    by_cases hm : b ∈ ret'
    · exact ((ha.mem_free b).mp (List.mem_append_left _ hm)).1
    · rw [List.count_eq_zero_of_not_mem hm] at hr
      exact ha.lt_of_refs b hne hr
  · rw [hb']
    split_ifs <;> rfl

/-! ## References to cached blocks -/

/-- The parts of the metadata that counting references leaves alone. -/
structure SameHashes (p p' : BlockPool) : Prop where
  shape : SameShape p p'
  cached : p'.cachedBlockHashToBlock = p.cachedBlockHashToBlock
  blockHash : ∀ b, (p'.block b).blockHash = (p.block b).blockHash

theorem SameHashes.refl (p : BlockPool) : SameHashes p p := ⟨.refl p, rfl, fun _ => rfl⟩

theorem SameHashes.trans (h : SameHashes p p') (h' : SameHashes p' p'') : SameHashes p p'' :=
  ⟨h.shape.trans h'.shape, h'.cached.trans h.cached,
    fun b => (h'.blockHash b).trans (h.blockHash b)⟩

theorem SameHashes.indexed (h : SameHashes p p') (hi : Indexed p) : Indexed p' :=
  ⟨fun j b => by rw [h.cached, h.blockHash, hi.mem_cached], fun j => by rw [h.cached]; exact hi.nodup j⟩

theorem SameHashes.unhashed (h : SameHashes p p') (hu : p.Unhashed) : p'.Unhashed :=
  fun hc b => by rw [h.blockHash, hu (h.shape.enableCaching ▸ hc)]

theorem sameHashes_modifyBlock {f : KVCacheBlock → KVCacheBlock}
    (hf : ∀ blk, (f blk).blockHash = blk.blockHash) : SameHashes p (p.modifyBlock b f) := by
  refine ⟨sameShape_modifyBlock p b f, rfl, fun c => ?_⟩
  rw [block_modifyBlock]
  split_ifs with hc
  · rw [hf, hc]
  · rfl

/-- One reference more: the metadata after the count of `b` is raised. -/
theorem Accounts.incr {queue : FreeKVCacheBlockQueue} {free' : List BlockId}
    (ha : Accounts p refs free) (hq : queue.Holds free')
    (hmem : ∀ c, c ∈ free' ↔ c ∈ free ∧ c ≠ b) (hb : b ≠ p.nullBlock → b < p.numGpuBlocks) :
    Accounts ({ p with freeBlockQueue := queue }.modifyBlock b
      fun blk => { blk with refCnt := blk.refCnt + 1 }) (fun c => refs c + [b].count c) free' := by
  have hblock := block_modifyBlock { p with freeBlockQueue := queue } b
    fun blk => { blk with refCnt := blk.refCnt + 1 }
  refine ⟨hq, fun c => ?_, fun c hc => ?_, fun c => ?_, fun c hc hr => ?_⟩
  · rw [hmem, ha.mem_free, Nat.add_eq_zero_iff, List.count_eq_zero, List.mem_singleton]
    tauto
  · rw [hblock]
    split_ifs with hcb
    · subst hcb
      have := ha.refCnt c hc
      simp only [List.count_singleton_self]
      push_cast
      rw [← this]
      rfl
    · rw [List.count_eq_zero_of_not_mem (by simpa using hcb)]
      exact ha.refCnt c hc
  · rw [hblock]
    split_ifs with hcb
    · rw [hcb]
      exact ha.isNull b
    · exact ha.isNull c
  · by_cases hcb : c = b
    · subst hcb
      exact hb hc
    · rw [List.count_eq_zero_of_not_mem (by simpa using hcb)] at hr
      exact ha.lt_of_refs c hc hr

theorem touchBlock_ok (ha : Accounts p refs free) (h : touchBlock b p = .ok p') :
    ∃ free', Accounts p' (fun c => refs c + [b].count c) free' ∧ SameHashes p p' := by
  unfold touchBlock at h
  split_ifs at h with h0
  · obtain ⟨queue, h₁, h₂⟩ := bind_eq_ok.mp h
    cases h₂
    obtain ⟨hb, hq⟩ := ha.holds.remove h₁
    refine ⟨_, ha.incr hq (fun c => ?_) fun _ => ((ha.mem_free b).mp hb).1, ?_⟩
    · rw [ha.holds.nodup.mem_erase_iff, and_comm]
    · have hs := sameHashes_modifyBlock (p := { p with freeBlockQueue := queue }) (b := b)
        (f := fun blk => { blk with refCnt := blk.refCnt + 1 }) fun _ => rfl
      exact ⟨⟨rfl, rfl, rfl⟩, hs.cached, hs.blockHash⟩
  · cases h
    refine ⟨free, ha.incr ha.holds (fun c => ?_) fun hb => ?_,
      sameHashes_modifyBlock fun _ => rfl⟩
    · -- a block that stays where it is was not in the list
      refine (and_iff_left_of_imp fun hc hcb => ?_).symm
      subst hcb
      obtain ⟨-, h₂, h₃⟩ := (ha.mem_free c).mp hc
      exact h0 ⟨by rw [ha.refCnt c h₂, h₃]; rfl, by rw [ha.isNull]; simpa using h₂⟩
    · refine ha.lt_of_refs b hb fun hr => h0 ⟨by rw [ha.refCnt b hb, hr]; rfl, ?_⟩
      rw [ha.isNull]
      simpa using hb

/-- **`touch`** adds a reference for every occurrence. -/
theorem Accounts.touchBlocks (ha : Accounts p refs free) (h : threadM touchBlock l p = .ok p') :
    ∃ free', Accounts p' (fun c => refs c + l.count c) free' ∧ SameHashes p p' := by
  induction l generalizing p refs free with
  | nil =>
    obtain rfl := Except.ok.inj h
    exact ⟨free, by simpa using ha, .refl p⟩
  | cons b l ih =>
    obtain ⟨q, h₁, h₂⟩ := threadM_cons_ok.mp h
    obtain ⟨free₁, ha₁, hs₁⟩ := touchBlock_ok ha h₁
    obtain ⟨free₂, ha₂, hs₂⟩ := ih ha₁ h₂
    refine ⟨free₂, ha₂.congr fun c _ => ?_, hs₁.trans hs₂⟩
    rw [show b :: l = [b] ++ l from rfl, List.count_append]
    omega

/-! ## Giving blocks back -/

theorem decrementRefs_cons (p : BlockPool) (b : BlockId) (l : List BlockId) :
    p.decrementRefs (b :: l) = (p.modifyBlock b
      fun blk => { blk with refCnt := blk.refCnt - 1 }).decrementRefs l := rfl

/-- The first pass lowers the count of a block by its occurrences. -/
theorem block_decrementRefs (p : BlockPool) (l : List BlockId) (c : BlockId) :
    (p.decrementRefs l).block c =
      { p.block c with refCnt := (p.block c).refCnt - (l.count c : Nat) } := by
  induction l generalizing p with
  | nil => simp [decrementRefs]
  | cons b l ih =>
    rw [decrementRefs_cons, ih, block_modifyBlock]
    by_cases hc : c = b
    · subst hc
      simp only [if_true, List.count_cons_self]
      push_cast
      congr 1
      ring
    · simp [hc, List.count_cons_of_ne (Ne.symm hc)]

theorem decrementRefs_frame (p : BlockPool) (l : List BlockId) :
    (p.decrementRefs l).freeBlockQueue = p.freeBlockQueue ∧ SameHashes p (p.decrementRefs l) := by
  induction l generalizing p with
  | nil => exact ⟨rfl, .refl p⟩
  | cons b l ih =>
    rw [decrementRefs_cons]
    have hs : SameHashes p (p.modifyBlock b fun blk => { blk with refCnt := blk.refCnt - 1 }) :=
      sameHashes_modifyBlock fun _ => rfl
    exact ⟨(ih _).1, hs.trans (ih _).2⟩

/-- **`free_blocks`**, for blocks that occur at most as often as they are referenced: those whose
last reference is given back join the free list. -/
theorem Accounts.freeBlocks (ha : Accounts p refs free)
    (hle : ∀ b, b ≠ p.nullBlock → l.count b ≤ refs b)
    (hnd : (l.filter fun b => b ≠ p.nullBlock).Nodup) (h : p.freeBlocks l = .ok p') :
    ∃ free', Accounts p' (fun b => refs b - l.count b) free' ∧ SameHashes p p' := by
  obtain ⟨queue, h₁, h₂⟩ := bind_eq_ok.mp h
  cases h₂
  obtain ⟨hf, hs⟩ := decrementRefs_frame p l
  have hblock := block_decrementRefs p l
  have hcnt : ∀ b, b ≠ p.nullBlock →
      ((p.decrementRefs l).block b).refCnt = ((refs b - l.count b : Nat) : Int) := by
    intro b hb
    rw [hblock, Nat.cast_sub (hle b hb), ← ha.refCnt b hb]
  have hnull : ∀ b, ((p.decrementRefs l).block b).isNull = decide (b = p.nullBlock) := by
    intro b
    rw [hblock]
    exact ha.isNull b
  set back := l.filter fun b => ((p.decrementRefs l).block b).refCnt = 0 ∧
    ((p.decrementRefs l).block b).isNull = false with hback
  have hmem : ∀ b, b ∈ back ↔ b ∈ l ∧ b ≠ p.nullBlock ∧ refs b - l.count b = 0 := by
    intro b
    rw [hback, List.mem_filter, hnull]
    by_cases hb : b = p.nullBlock
    · simp [hb]
    · simp [hb, hcnt b hb]
  have hback_nd : back.Nodup := by
    have : back = (l.filter fun b => b ≠ p.nullBlock).filter fun b =>
        ((p.decrementRefs l).block b).refCnt = 0 ∧
          ((p.decrementRefs l).block b).isNull = false := by
      rw [List.filter_filter, hback]
      refine List.filter_congr fun b _ => ?_
      rw [hnull]
      by_cases hb : b = p.nullBlock <;> simp [hb]
    rw [this]
    exact hnd.filter _
  have hfree : ∀ b ∈ back, b ∉ free := by
    intro b hb hbf
    obtain ⟨h₁, h₂, -⟩ := (hmem b).mp hb
    have := hle b h₂
    have := List.count_pos_iff.mpr h₁
    have := ((ha.mem_free b).mp hbf).2.2
    omega
  obtain ⟨queue', hq', hholds⟩ := ha.holds.appendN hback_nd hfree
  obtain rfl : queue' = queue := by
    rw [hf, hq'] at h₁
    simpa using h₁
  refine ⟨free ++ back, ⟨hholds, fun b => ?_, fun b hb => ?_, fun b => ?_, fun b hb hr => ?_⟩,
    ⟨hs.shape.numGpuBlocks, hs.shape.enableCaching, hs.shape.nullBlock⟩, hs.cached, hs.blockHash⟩
  · change _ ↔ b < (p.decrementRefs l).numGpuBlocks ∧ b ≠ (p.decrementRefs l).nullBlock ∧ _
    rw [hs.shape.numGpuBlocks, hs.shape.nullBlock, List.mem_append, hmem, ha.mem_free]
    constructor
    · rintro (⟨h₁, h₂, h₃⟩ | ⟨h₁, h₂, h₃⟩)
      · exact ⟨h₁, h₂, by omega⟩
      · have := List.count_pos_iff.mpr h₁
        exact ⟨ha.lt_of_refs b h₂ (by have := hle b h₂; omega), h₂, h₃⟩
    · rintro ⟨h₁, h₂, h₃⟩
      by_cases hbl : b ∈ l
      · exact .inr ⟨hbl, h₂, h₃⟩
      · rw [List.count_eq_zero_of_not_mem hbl] at h₃
        exact .inl ⟨h₁, h₂, by omega⟩
  · exact hcnt b (hs.shape.nullBlock ▸ hb)
  · exact (hnull b).trans (by rw [← hs.shape.nullBlock])
  · have hb' : b ≠ p.nullBlock := hs.shape.nullBlock ▸ hb
    exact hs.shape.numGpuBlocks ▸ ha.lt_of_refs b hb' (by omega)

/-! ## The index of cached blocks -/

theorem block_insertCached (p : BlockPool) (b : BlockId) (k : BlockHashWithGroupId)
    (c : BlockId) : (p.insertCached b k).block c =
      if c = b then { p.block b with blockHash := some k } else p.block c :=
  block_modifyBlock p b (fun blk => { blk with blockHash := some k }) c

/-- **Entering a block without a hash** keeps the index. -/
theorem Indexed.insertCached (h : Indexed p) (hb : (p.block b).blockHash = none)
    (k : BlockHashWithGroupId) : Indexed (p.insertCached b k) := by
  have hblock := block_insertCached p b k
  have hnot : b ∉ p.cachedBlockHashToBlock.getD k [] := by
    rw [h.mem_cached, hb]
    simp
  have hget : ∀ j, (p.insertCached b k).cachedBlockHashToBlock.getD j [] =
      if j = k then p.cachedBlockHashToBlock.getD k [] ++ [b]
      else p.cachedBlockHashToBlock.getD j [] := by
    intro j
    simp only [BlockPool.insertCached, if_neg hnot]
    exact Dict.getD_set ..
  refine ⟨fun j c => ?_, fun j => ?_⟩
  · rw [hget, hblock]
    by_cases hc : c = b
    · subst hc
      by_cases hj : j = k
      · simp [hj]
      · simp [hj, Ne.symm hj, h.mem_cached, hb]
    · rw [if_neg hc, ← h.mem_cached]
      split_ifs with hj
      · simp [hj, hc]
      · rfl
  · rw [hget]
    split_ifs with hj
    · exact List.nodup_append.mpr ⟨h.nodup k, by simp, by
        intro a ha c hc
        obtain rfl := List.mem_singleton.mp hc
        exact fun hac => hnot (hac ▸ ha)⟩
    · exact h.nodup j

/-- Entering a block into the index changes no reference. -/
theorem Accounts.insertCached (ha : Accounts p refs free) (b : BlockId)
    (k : BlockHashWithGroupId) : Accounts (p.insertCached b k) refs free := by
  have hblock := block_insertCached p b k
  refine ⟨ha.holds, ha.mem_free, fun c hc => ?_, fun c => ?_, ha.lt_of_refs⟩
  · rw [hblock]
    split_ifs with hcb
    · rw [← ha.refCnt c hc, hcb]
    · exact ha.refCnt c hc
  · rw [hblock]
    split_ifs with hcb
    · rw [hcb]
      exact ha.isNull b
    · exact ha.isNull c

theorem blockHash_insertCached (p : BlockPool) (b : BlockId) (k : BlockHashWithGroupId)
    (c : BlockId) : ((p.insertCached b k).block c).blockHash =
      if c = b then some k else (p.block c).blockHash := by
  rw [block_insertCached]
  split_ifs <;> rfl

end BlockPool

end InferenceServer
