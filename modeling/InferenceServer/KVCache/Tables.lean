import InferenceServer.KVCache.CachedIndex

/-!
# An operation on one request

`Coherent` needs an injective hash and tables without a null block among the blocks to be cached.
Two things hold in every run, without either: an operation on one request leaves the block tables of
the others alone, and the reference count of a block other than the null block is the number of its
occurrences in the tables. The second one is enough to know that `get_new_blocks` hands out nothing
that a table holds: it asserts that the count is zero.

## Main results

* `actsOn_allocateSlots`, `actsOn_free`, `actsOn_cacheBlocks` and the like
* `allocateSlots_new`
-/

namespace InferenceServer

open Outcome
open List (count_nil map_cons)

/-! ## Counts of the pool -/

namespace BlockPool

variable {H : BlockHasher} {p p' p'' : BlockPool}

/-- Hashes, events and the free queue may change; the counts do not. -/
structure SameCounts (p p' : BlockPool) : Prop where
  shape : p.SameShape p'
  refCnt : ∀ b, (p'.block b).refCnt = (p.block b).refCnt

theorem SameCounts.refl (p : BlockPool) : p.SameCounts p := ⟨.refl p, fun _ => rfl⟩

theorem SameCounts.trans (h : p.SameCounts p') (h' : p'.SameCounts p'') : p.SameCounts p'' :=
  ⟨h.shape.trans h'.shape, fun b => (h'.refCnt b).trans (h.refCnt b)⟩

theorem sameCounts_insertCached (p : BlockPool) (b : BlockId) (h : BlockHashWithGroupId) :
    p.SameCounts (p.insertCached b h) := by
  refine ⟨⟨rfl, rfl, rfl⟩, fun c => ?_⟩
  rw [block_insertCached]
  split_ifs with hc
  · rw [hc]
  · rfl

variable {l : List BlockId}

theorem sameCounts_cacheLoop {r : Request} {bs gid : Nat} {c : Int} {new : List BlockHash} {i : Nat}
    {s t : CacheLoop} (h : cacheLoop H r bs gid c new i l s = .ok t) :
    s.pool.SameCounts t.pool := by
  induction l generalizing i s with
  | nil =>
    obtain rfl : s = t := by simpa [cacheLoop] using h
    exact .refl _
  | cons b l ih =>
    obtain ⟨u, h₁, h₂⟩ := bind_eq_ok.mp h
    obtain ⟨_, -, h₁⟩ := bind_eq_ok.mp h₁
    obtain ⟨⟨k, hashes⟩, -, h₁⟩ := bind_eq_ok.mp h₁
    cases h₁
    exact (sameCounts_insertCached _ b _).trans (ih h₂)

/-- `cache_full_blocks` counts nothing. -/
theorem sameCounts_cacheFullBlocks {r : Request} {blocks : List BlockId}
    {hashes hashes' : List BlockHash} {c n : Int} {bs gid : Nat}
    (h : p.cacheFullBlocks H r blocks hashes c n bs gid = .ok (p', hashes')) :
    p.SameCounts p' := by
  unfold cacheFullBlocks at h
  split at h
  · cases h
    exact .refl p
  obtain ⟨_, -, h⟩ := bind_eq_ok.mp h
  obtain ⟨prev, -, h⟩ := bind_eq_ok.mp h
  obtain ⟨s, hloop, h⟩ := bind_eq_ok.mp h
  obtain ⟨q, hstored, h⟩ := bind_eq_ok.mp h
  cases h
  have hs := sameCounts_cacheLoop hloop
  obtain ⟨events, rfl⟩ := storedEvent_ok hstored
  exact ⟨⟨hs.shape.numGpuBlocks, hs.shape.enableCaching, hs.shape.nullBlock⟩, hs.refCnt⟩

theorem sameCounts_maybeEvictCachedBlock (p : BlockPool) (b : BlockId) :
    p.SameCounts (p.maybeEvictCachedBlock b) := by
  refine ⟨(maybeEvictCachedBlock_frame p b).2, fun c => ?_⟩
  unfold maybeEvictCachedBlock
  split
  · rfl
  split
  · rfl
  · have hb := block_modifyBlock p b (fun blk => { blk with blockHash := none }) c
    refine (congrArg KVCacheBlock.refCnt hb).trans ?_
    split_ifs with hc
    · rw [hc]
    · rfl

/-- The loop of `get_new_blocks`: the blocks had no references, so that none of them comes up
twice. -/
theorem takeBlocks_counts (h : threadM takeBlock l p = .ok p') :
    p.SameShape p' ∧ l.Nodup ∧ (∀ b ∈ l, (p.block b).refCnt = 0) ∧
      ∀ b, (p'.block b).refCnt = (p.block b).refCnt + (l.count b : Nat) := by
  induction l generalizing p with
  | nil =>
    obtain rfl := Except.ok.inj h
    exact ⟨.refl p, .nil, by simp, by simp⟩
  | cons b l ih =>
    obtain ⟨q, h₁, h₂⟩ := threadM_cons_ok.mp h
    obtain ⟨hshape, hzero, hq⟩ : p.SameShape q ∧ (p.block b).refCnt = 0 ∧
        ∀ c, (q.block c).refCnt = (p.block c).refCnt + if c = b then 1 else 0 := by
      obtain ⟨e, he, hsame⟩ : ∃ e, (if p.enableCaching then p.maybeEvictCachedBlock b else p) = e ∧
          p.SameCounts e := by
        split
        · exact ⟨_, rfl, sameCounts_maybeEvictCachedBlock p b⟩
        · exact ⟨_, rfl, .refl p⟩
      unfold takeBlock at h₁
      simp only [he] at h₁
      split at h₁
      next h0 =>
        obtain rfl := Except.ok.inj h₁
        refine ⟨hsame.shape.trans (sameShape_modifyBlock _ _ _), (hsame.refCnt b).symm.trans h0,
          fun c => ?_⟩
        rw [block_modifyBlock]
        split_ifs with hc
        · rw [hc, hsame.refCnt]
        · rw [hsame.refCnt, add_zero]
      next => simp at h₁
    obtain ⟨hshape', hnd, hz, hcount⟩ := ih h₂
    have hb : b ∉ l := fun hm => by
      have := hz b hm
      rw [hq, hzero, if_pos rfl] at this
      omega
    refine ⟨hshape.trans hshape', List.nodup_cons.mpr ⟨hb, hnd⟩, fun c hc => ?_, fun c => ?_⟩
    · rcases List.mem_cons.mp hc with rfl | hc
      · exact hzero
      · have := hz c hc
        rw [hq, if_neg (fun he : c = b => hb (he ▸ hc)), add_zero] at this
        exact this
    · rw [hcount, hq, List.count_cons]
      by_cases hc : c = b
      · simp [hc, add_assoc, add_comm]
      · simp [hc, Ne.symm hc]

/-- **`get_new_blocks`** hands out blocks without references. -/
theorem getNewBlocks_counts {n : Nat} {new : List BlockId}
    (h : p.getNewBlocks n = .ok (new, p')) :
    p.SameShape p' ∧ new.Nodup ∧ (∀ b ∈ new, (p.block b).refCnt = 0) ∧
      ∀ b, (p'.block b).refCnt = (p.block b).refCnt + (new.count b : Nat) := by
  unfold getNewBlocks at h
  split at h
  · simp at h
  obtain ⟨⟨ret, queue⟩, -, h⟩ := bind_eq_ok.mp h
  obtain ⟨q, htake, h⟩ := bind_eq_ok.mp h
  cases h
  obtain ⟨hshape, hnd, hz, hcount⟩ := takeBlocks_counts htake
  exact ⟨⟨hshape.numGpuBlocks, hshape.enableCaching, hshape.nullBlock⟩, hnd, hz, hcount⟩

theorem touchBlock_counts {b : BlockId} (h : touchBlock b p = .ok p') (c : BlockId) :
    (p'.block c).refCnt = (p.block c).refCnt + if c = b then 1 else 0 := by
  have hmod : ∀ queue : FreeKVCacheBlockQueue, (({ p with freeBlockQueue := queue }.modifyBlock b
      fun blk => { blk with refCnt := blk.refCnt + 1 }).block c).refCnt =
        (p.block c).refCnt + if c = b then 1 else 0 := fun queue => by
    rw [block_modifyBlock]
    split_ifs with hc
    · rw [hc]
      rfl
    · rw [add_zero]
      rfl
  unfold touchBlock at h
  split at h
  · obtain ⟨queue, -, h⟩ := bind_eq_ok.mp h
    cases h
    exact hmod queue
  · cases h
    exact hmod p.freeBlockQueue

theorem touch_counts (h : threadM touchBlock l p = .ok p') (c : BlockId) :
    (p'.block c).refCnt = (p.block c).refCnt + (l.count c : Nat) := by
  induction l generalizing p with
  | nil =>
    cases h
    simp
  | cons b l ih =>
    obtain ⟨q, h₁, h₂⟩ := threadM_cons_ok.mp h
    rw [ih h₂, touchBlock_counts h₁, List.count_cons]
    by_cases hc : c = b
    · simp [hc, add_assoc, add_comm]
    · simp [hc, Ne.symm hc]

theorem freeBlocks_counts (h : p.freeBlocks l = .ok p') (c : BlockId) :
    (p'.block c).refCnt = (p.block c).refCnt - (l.count c : Nat) := by
  obtain ⟨queue, -, h⟩ := bind_eq_ok.mp h
  cases h
  exact congrArg KVCacheBlock.refCnt (block_decrementRefs p l c)

end BlockPool

/-! ## Counts and tables -/

/-- **The counts of the pool are the occurrences in the tables** of the managers `ms`, and in
`pending`, which holds blocks that have been touched and are not yet in a table. -/
def Counts (p : BlockPool) (ms : List SingleTypeKVCacheManager) (pending : List BlockId) : Prop :=
  ∀ b, b ≠ p.nullBlock → (p.block b).refCnt = (occurrences ms b + pending.count b : Nat)

section Counts

variable {H : BlockHasher} {p p' : BlockPool} {pre post ms : List SingleTypeKVCacheManager}
  {m m' : SingleTypeKVCacheManager} {pending : List BlockId} {rid : ReqId} {l : List BlockId}

theorem Counts.of_sameCounts (h : Counts p ms pending) (hs : p.SameCounts p') :
    Counts p' ms pending := by
  intro b hb
  rw [hs.refCnt]
  exact h b (hs.shape.nullBlock ▸ hb)

/-- The tables may change as long as the occurrences do not. -/
theorem Counts.congr {ms' : List SingleTypeKVCacheManager} (h : Counts p ms pending)
    (hocc : ∀ b, occurrences ms' b = occurrences ms b) : Counts p ms' pending := by
  intro b hb
  rw [h b hb, hocc]

/-- Entries of a table are given up, and their blocks are given back. -/
theorem Counts.giveBack (h : Counts p (pre ++ m :: post) pending) (hm : m.Retable rid l m')
    {removed : List BlockId}
    (hcount : ∀ b, b ≠ p.nullBlock → (m.blocksOf rid).count b = l.count b + removed.count b)
    (hf : p.freeBlocks removed = .ok p') : Counts p' (pre ++ m' :: post) pending := by
  intro b hb
  rw [(BlockPool.onlyCounts_freeBlocks hf).sameHashes.shape.nullBlock] at hb
  have hocc := occurrences_retable pre post hm b
  have hc := hcount b hb
  rw [BlockPool.freeBlocks_counts hf, h b hb]
  omega

end Counts

/-! ## One manager -/

namespace SingleTypeKVCacheManager

variable {H : BlockHasher} {m m' m'' : SingleTypeKVCacheManager} {p p' p'' : BlockPool}
  {rid : ReqId}

/-- **The other requests are spared**: their tables are the same. -/
structure Spares (rid : ReqId) (m m' : SingleTypeKVCacheManager) : Prop where
  kvCacheSpec : m'.kvCacheSpec = m.kvCacheSpec
  kvCacheGroupId : m'.kvCacheGroupId = m.kvCacheGroupId
  blocksOf : ∀ id, id ≠ rid → m'.blocksOf id = m.blocksOf id

theorem Spares.refl (rid : ReqId) (m : SingleTypeKVCacheManager) : Spares rid m m :=
  ⟨rfl, rfl, fun _ _ => rfl⟩

theorem Spares.trans (h : Spares rid m m') (h' : Spares rid m' m'') : Spares rid m m'' :=
  ⟨h'.kvCacheSpec.trans h.kvCacheSpec, h'.kvCacheGroupId.trans h.kvCacheGroupId,
    fun id hid => (h'.blocksOf id hid).trans (h.blocksOf id hid)⟩

/-- **A method of one manager on behalf of a request.** -/
structure ActsOn (rid : ReqId) (m : SingleTypeKVCacheManager) (p : BlockPool)
    (m' : SingleTypeKVCacheManager) (p' : BlockPool) : Prop where
  spares : Spares rid m m'
  shape : p.SameShape p'
  counts : ∀ pre post, Counts p (pre ++ m :: post) [] → Counts p' (pre ++ m' :: post) []

theorem blocksOf_congr (h : m'.reqToBlocks = m.reqToBlocks) (id : ReqId) :
    m'.blocksOf id = m.blocksOf id := by
  rw [blocksOf, h]
  rfl

theorem actsOn_free (h : m.free p rid = .ok (m', p')) : ActsOn rid m p m' p' := by
  obtain ⟨q, hf, h⟩ := bind_eq_ok.mp h
  cases h
  have hm := retable_erase m rid (m.numCachedBlock.erase rid)
  exact ⟨⟨rfl, rfl, hm.blocksOf_ne⟩, (BlockPool.onlyCounts_freeBlocks hf).sameHashes.shape,
    fun pre post hc => hc.giveBack hm (by simp [List.count_reverse]) hf⟩

variable {n : Int}

theorem actsOn_removeSkippedBlocks (h : m.removeSkippedBlocks p rid n = .ok (m', p')) :
    ActsOn rid m p m' p' := by
  rcases removeSkippedBlocks_ok h with ⟨rfl, rfl, -⟩ | ⟨s, removed, blocks, -, hskip, hf, rfl⟩
  · exact ⟨.refl rid m', .refl _, fun _ _ hc => hc⟩
  · have hm := retable_set m rid blocks m.numCachedBlock
    exact ⟨⟨rfl, rfl, hm.blocksOf_ne⟩, (BlockPool.onlyCounts_freeBlocks hf).sameHashes.shape,
      fun pre post hc => hc.giveBack hm (skipLoop_ok hskip).2.2.1 hf⟩

theorem length_blocksOf_removeSkippedBlocks (h : m.removeSkippedBlocks p rid n = .ok (m', p')) :
    (m'.blocksOf rid).length = (m.blocksOf rid).length := by
  rcases removeSkippedBlocks_ok h with ⟨rfl, -, -⟩ | ⟨s, removed, blocks, -, hskip, -, rfl⟩
  · rfl
  · rw [(retable_set m rid blocks m.numCachedBlock).blocksOf_self]
    exact (skipLoop_ok hskip).1

/-- **`allocate_new_blocks`**: the table is extended by blocks that no table holds. -/
theorem actsOn_allocateNewBlocks {new : List BlockId}
    (h : m.allocateNewBlocks p rid n = .ok (new, m', p')) :
    ActsOn rid m p m' p' ∧ m'.blocksOf rid = m.blocksOf rid ++ new ∧
      ∀ ms, Counts p ms [] → ∀ b ∈ new, b ≠ p.nullBlock → occurrences ms b = 0 := by
  rcases allocateNewBlocks_ok h with ⟨rfl, rfl, rfl, -⟩ | ⟨hget, -, rfl⟩
  · exact ⟨⟨.refl rid m', .refl _, fun _ _ hc => hc⟩, by simp, by simp⟩
  · have hm := retable_set m rid (m.blocksOf rid ++ new) m.numCachedBlock
    obtain ⟨hshape, -, hzero, hcount⟩ := BlockPool.getNewBlocks_counts hget
    refine ⟨⟨⟨rfl, rfl, hm.blocksOf_ne⟩, hshape, fun pre post hc b hb => ?_⟩, hm.blocksOf_self,
      fun ms hc b hb hne => ?_⟩
    · have hocc := occurrences_retable pre post hm b
      rw [List.count_append] at hocc
      rw [hcount, hc b (hshape.nullBlock ▸ hb)]
      simp only [count_nil, Nat.add_zero]
      omega
    · have h₁ := hc b hne
      rw [hzero b hb] at h₁
      simp only [count_nil, Nat.add_zero] at h₁
      omega

/-- `save_new_computed_blocks` moves the touched blocks into the table. -/
theorem spares_saveNewComputedBlocks {hits : List BlockId}
    (h : m.saveNewComputedBlocks rid hits = .ok m') :
    Spares rid m m' ∧ m'.blocksOf rid = m.blocksOf rid ++ hits ∧
      ∀ (p : BlockPool) (pre post : List SingleTypeKVCacheManager) (pending : List BlockId),
        Counts p (pre ++ m :: post) (hits ++ pending) → Counts p (pre ++ m' :: post) pending := by
  rcases saveNewComputedBlocks_ok h with ⟨-, rfl, rfl⟩ | ⟨-, hnil, rfl⟩
  · exact ⟨.refl rid m', by simp, fun _ _ _ _ hc => hc⟩
  · have hm := retable_set m rid hits (m.numCachedBlock.set rid hits.length)
    refine ⟨⟨rfl, rfl, hm.blocksOf_ne⟩, by rw [hm.blocksOf_self, hnil]; simp,
      fun p pre post pending hc b hb => ?_⟩
    have hocc := occurrences_retable pre post hm b
    rw [hnil, count_nil] at hocc
    rw [hc b hb, List.count_append]
    omega

theorem actsOn_cacheBlocks {r : Request} {hashes hashes' : List BlockHash}
    (h : m.cacheBlocks p H r hashes n = .ok (m', p', hashes')) :
    m'.kvCacheSpec = m.kvCacheSpec ∧ m'.kvCacheGroupId = m.kvCacheGroupId ∧
      m'.reqToBlocks = m.reqToBlocks ∧ p.SameCounts p' := by
  unfold cacheBlocks at h
  split at h
  · simp at h
  · obtain ⟨⟨q, hs⟩, hcache, h⟩ := bind_eq_ok.mp h
    cases h
    exact ⟨rfl, rfl, rfl, BlockPool.sameCounts_cacheFullBlocks hcache⟩

end SingleTypeKVCacheManager

/-! ## The manager -/

namespace KVCacheManager

open SingleTypeKVCacheManager (Spares)

variable {H : BlockHasher} {k k' k'' : KVCacheManager} {rid id : ReqId} {r : Request}

/-- **The counts of the pool are the occurrences in the tables.** -/
def Counted (k : KVCacheManager) : Prop := Counts k.blockPool k.singleTypeManagers []

/-- **An operation on one request.** -/
structure ActsOn (rid : ReqId) (k k' : KVCacheManager) : Prop where
  config : SameConfig k k'
  managers : List.Forall₂ (Spares rid) k.singleTypeManagers k'.singleTypeManagers
  counted : k.Counted → k'.Counted

variable {ms ms' : List SingleTypeKVCacheManager} {n c : Int}
  {new hits blocks : List (List BlockId)} {lookahead : Nat} {delay : Bool}

theorem forall₂_spares_trans {ms'' : List SingleTypeKVCacheManager}
    (h : List.Forall₂ (Spares rid) ms ms') (h' : List.Forall₂ (Spares rid) ms' ms'') :
    List.Forall₂ (Spares rid) ms ms'' := by
  induction h generalizing ms'' with
  | nil => exact h'
  | cons hm _ ih =>
    obtain _ | ⟨hm', h'⟩ := h'
    exact .cons (hm.trans hm') (ih h')

theorem specs_of_spares (h : List.Forall₂ (Spares rid) ms ms') : specs ms' = specs ms := by
  induction h with
  | nil => rfl
  | cons hm _ ih => rw [specs, specs, map_cons, map_cons, hm.kvCacheSpec] at *; rw [ih]

theorem ActsOn.refl (rid : ReqId) (k : KVCacheManager) : ActsOn rid k k :=
  ⟨.refl k, List.forall₂_same.mpr fun m _ => .refl rid m, fun h => h⟩

theorem ActsOn.trans (h : ActsOn rid k k') (h' : ActsOn rid k' k'') : ActsOn rid k k'' :=
  ⟨h.config.trans h'.config, forall₂_spares_trans h.managers h'.managers,
    fun hc => h'.counted (h.counted hc)⟩

/-- The tables of the other requests are the same. -/
theorem ActsOn.getBlockIds (h : ActsOn rid k k') (hid : id ≠ rid) :
    k'.getBlockIds id = k.getBlockIds id := by
  have hm := h.managers
  unfold KVCacheManager.getBlockIds
  generalize k.singleTypeManagers = ms, k'.singleTypeManagers = ms' at hm
  induction hm with
  | nil => rfl
  | cons hm _ ih => rw [map_cons, map_cons, hm.blocksOf id hid, ih]

/-- What changes neither the tables nor the pool. -/
theorem actsOn_of_eq (hconfig : SameConfig k k')
    (hms : k'.singleTypeManagers = k.singleTypeManagers)
    (hpool : k.blockPool.SameCounts k'.blockPool) : ActsOn rid k k' := by
  refine ⟨hconfig, by rw [hms]; exact List.forall₂_same.mpr fun m _ => .refl rid m, fun h => ?_⟩
  unfold Counted
  rw [hms]
  exact Counts.of_sameCounts h hpool

/-- **A loop over the managers** that acts on the request in each of them. -/
theorem actsOn_forManagers {α : Type} {f : SingleTypeKVCacheManager → BlockPool →
      Except PyError (α × SingleTypeKVCacheManager × BlockPool)} {out : List α}
    (hf : ∀ m p a m' p', f m p = .ok (a, m', p') →
      SingleTypeKVCacheManager.ActsOn rid m p m' p')
    (h : k.forManagers f = .ok (out, k')) : ActsOn rid k k' := by
  obtain ⟨hcounts, -⟩ := forManagers_ok
    (I := fun done rest p => k.blockPool.SameShape p ∧
      (k.Counted → Counts p (done ++ rest) [])) h ⟨.refl _, fun hc => hc⟩ (by
      rintro done m rest p a m' p' ⟨hshape, hc⟩ hm
      have ha := hf _ _ _ _ _ hm
      refine ⟨hshape.trans ha.shape, fun hk => ?_⟩
      rw [List.append_assoc]
      exact ha.counts done rest (hc hk))
  obtain ⟨⟨out', p⟩, h₁, h₂⟩ := bind_eq_ok.mp h
  cases h₂
  have hall := mapThreadM_forall₂
    (R := fun m (b : α × SingleTypeKVCacheManager) => Spares rid m b.2)
    (fun m p b p' hm => by
      obtain ⟨⟨a, m', p''⟩, h₃, h₄⟩ := bind_eq_ok.mp hm
      cases h₄
      exact (hf _ _ _ _ _ h₃).spares) h₁
  have hms := List.forall₂_map_right_iff.mpr hall
  refine ⟨⟨rfl, rfl, rfl, rfl, rfl, specs_of_spares hms, hcounts.1⟩, hms, fun hk => ?_⟩
  simpa [Counted] using hcounts.2 hk

theorem actsOn_free (h : k.free rid = .ok k') : ActsOn rid k k' := by
  obtain ⟨out, h₁⟩ := second_of_ok h
  refine actsOn_forManagers (fun m p a m' p' hm => ?_) h₁
  have h₃ := unit_of_ok hm
  exact SingleTypeKVCacheManager.actsOn_free h₃

theorem actsOn_removeSkippedBlocks (h : k.removeSkippedBlocks rid n = .ok k') :
    ActsOn rid k k' := by
  obtain ⟨out, h₁⟩ := second_of_ok h
  refine actsOn_forManagers (fun m p a m' p' hm => ?_) h₁
  have h₃ := unit_of_ok hm
  exact SingleTypeKVCacheManager.actsOn_removeSkippedBlocks h₃

theorem actsOn_allocateNewBlocks
    (h : k.allocateNewBlocks rid n = .ok (new, k')) : ActsOn rid k k' :=
  actsOn_forManagers (fun _ _ _ _ _ hm =>
    (SingleTypeKVCacheManager.actsOn_allocateNewBlocks hm).1) h

/-- **New blocks occur in no table.** -/
theorem allocateNewBlocks_new (hc : k.Counted) (h : k.allocateNewBlocks rid n = .ok (new, k')) :
    ∀ b ∈ new.flatten, b ≠ k.blockPool.nullBlock → occurrences k.singleTypeManagers b = 0 := by
  obtain ⟨⟨out, p⟩, h₁, h₂⟩ := bind_eq_ok.mp h
  cases h₂
  -- in the course of the loop the occurrences only grow
  have hI := mapThreadM_invariant
    (I := fun (done : List (List BlockId × SingleTypeKVCacheManager)) rest p =>
      k.blockPool.SameShape p ∧ Counts p (done.map Prod.snd ++ rest) [] ∧
      (∀ b, occurrences k.singleTypeManagers b ≤ occurrences (done.map Prod.snd ++ rest) b) ∧
      ∀ l ∈ done.map Prod.fst, ∀ b ∈ l, b ≠ k.blockPool.nullBlock →
        occurrences k.singleTypeManagers b = 0) ?_ [] ?_ h₁
  · intro b hb hne
    obtain ⟨l, hl, hb⟩ := List.mem_flatten.mp hb
    exact hI.2.2.2 l (by simpa using hl) b hb hne
  · rintro done m rest p ⟨l, m'⟩ p' ⟨hshape, hcounts, hmono, hnew⟩ hm
    obtain ⟨⟨l', m₁, p₁⟩, h₃, h₄⟩ := bind_eq_ok.mp hm
    obtain ⟨⟨rfl, rfl⟩, rfl⟩ : (l' = l ∧ m₁ = m') ∧ p₁ = p' := by simpa [pure_eq_ok] using h₄
    obtain ⟨hacts, htable, hfresh⟩ := SingleTypeKVCacheManager.actsOn_allocateNewBlocks h₃
    have hret : m.Retable rid (m.blocksOf rid ++ l') m₁ := by
      rcases SingleTypeKVCacheManager.allocateNewBlocks_ok h₃ with
        ⟨rfl, rfl, -, -⟩ | ⟨-, -, rfl⟩
      · simpa using SingleTypeKVCacheManager.retable_self m₁ rid
      · exact SingleTypeKVCacheManager.retable_set m rid _ m.numCachedBlock
    simp only [List.map_append, map_cons, List.map_nil, List.append_assoc, List.cons_append,
      List.nil_append]
    refine ⟨hshape.trans hacts.shape, hacts.counts _ rest hcounts, fun b => (hmono b).trans ?_,
      fun l hl b hb hne => ?_⟩
    · have := occurrences_retable (done.map Prod.snd) rest hret b
      rw [List.count_append] at this
      omega
    · rcases List.mem_append.mp hl with hl | hl
      · exact hnew l hl b hb hne
      · obtain rfl := List.mem_singleton.mp hl
        have := hfresh _ hcounts b hb (hshape.nullBlock ▸ hne)
        exact Nat.eq_zero_of_le_zero (this ▸ hmono b)
  · exact ⟨.refl _, hc, fun _ => le_rfl, by simp⟩

/-- Touching the computed blocks and entering them into the tables. -/
theorem actsOn_touchAndSave {k₁ : KVCacheManager}
    (hlen : hits.length = k.singleTypeManagers.length) (ht : k.touchComputed hits = .ok k₁)
    (hs : k₁.saveNewComputedBlocks rid hits = .ok k') : ActsOn rid k k' := by
  obtain ⟨q, rfl, hshape, hcounts⟩ : ∃ q, k₁ = { k with blockPool := q } ∧
      k.blockPool.SameShape q ∧ (k.Counted → Counts q k.singleTypeManagers hits.flatten) := by
    unfold touchComputed at ht
    split at ht
    · obtain ⟨q, h₁, h₂⟩ := bind_eq_ok.mp ht
      cases h₂
      have hshape := (BlockPool.onlyCounts_touch h₁).sameHashes.shape
      refine ⟨q, rfl, hshape, fun hc b hb => ?_⟩
      rw [BlockPool.touch_counts h₁, hc b (hshape.nullBlock ▸ hb)]
      simp
    · obtain ⟨_, h₁, h₂⟩ := bind_eq_ok.mp ht
      cases h₂
      have hnil : hits.flatten = [] := List.flatten_eq_nil_iff.mpr (by simpa using h₁)
      exact ⟨k.blockPool, rfl, .refl _, fun hc => by rw [hnil]; exact hc⟩
  obtain ⟨⟨ms, _⟩, h₁, h₂⟩ := bind_eq_ok.mp hs
  cases h₂
  have hspares : List.Forall₂ (Spares rid) k.singleTypeManagers ms := by
    have hall := mapThreadM_forall₂
      (R := fun (m : SingleTypeKVCacheManager × List BlockId) m' => Spares rid m.1 m')
      (fun m _ m' _ hm => by
        obtain ⟨m₁, h₃, h₄⟩ := bind_eq_ok.mp hm
        obtain rfl : m₁ = m' := by simpa [pure_eq_ok] using h₄
        exact (SingleTypeKVCacheManager.spares_saveNewComputedBlocks h₃).1) h₁
    have hmap := List.forall₂_map_left_iff.mpr hall
    rwa [List.map_fst_zip hlen.ge] at hmap
  refine ⟨⟨rfl, rfl, rfl, rfl, rfl, specs_of_spares hspares, hshape⟩, hspares, fun hc => ?_⟩
  have hI := mapThreadM_invariant
    (I := fun (done : List SingleTypeKVCacheManager) rest (_ : Unit) =>
      Counts q (done ++ rest.map Prod.fst) (rest.map Prod.snd).flatten) ?_ [] ?_ h₁
  · simpa [Counted] using hI
  · rintro done ⟨m, l⟩ rest _ m' _ hc hm
    obtain ⟨m₁, h₃, h₄⟩ := bind_eq_ok.mp hm
    obtain rfl : m₁ = m' := by simpa [pure_eq_ok] using h₄
    rw [List.append_assoc]
    exact (SingleTypeKVCacheManager.spares_saveNewComputedBlocks h₃).2.2 q done _ _ hc
  · rw [List.map_fst_zip hlen.ge, List.map_snd_zip hlen.le]
    exact hcounts hc

/-- Managers with the same tables. -/
theorem tables_of_reqToBlocks
    (h : List.Forall₂ (fun m m' : SingleTypeKVCacheManager => m'.reqToBlocks = m.reqToBlocks)
      ms ms') :
    (∀ b, occurrences ms' b = occurrences ms b) ∧
      ∀ id, (ms'.map fun m => m.blocksOf id) = ms.map fun m => m.blocksOf id := by
  induction h with
  | nil => exact ⟨fun _ => rfl, fun _ => rfl⟩
  | @cons m m' _ _ hm _ ih =>
    refine ⟨fun b => ?_, fun id => ?_⟩
    · rw [occurrences_cons, occurrences_cons, ih.1, SingleTypeKVCacheManager.tableCount, hm]
      rfl
    · rw [map_cons, map_cons, ih.2, SingleTypeKVCacheManager.blocksOf_congr hm]

/-- Caching changes no table. -/
theorem actsOn_coordinatorCacheBlocks (rid : ReqId) (h : k.coordinatorCacheBlocks H r n = .ok k') :
    ActsOn rid k k' ∧ ∀ id, k'.getBlockIds id = k.getBlockIds id := by
  obtain ⟨⟨ms, p, hashes⟩, h₁, h₂⟩ := bind_eq_ok.mp h
  cases h₂
  have hall := mapThreadM_forall₂ (R := fun (m m' : SingleTypeKVCacheManager) =>
      m'.kvCacheSpec = m.kvCacheSpec ∧ m'.kvCacheGroupId = m.kvCacheGroupId ∧
        m'.reqToBlocks = m.reqToBlocks)
    (fun m s m' t hm => by
      obtain ⟨⟨m₁, p₁, hs₁⟩, h₃, h₄⟩ := bind_eq_ok.mp hm
      cases h₄
      obtain ⟨h₅, h₆, h₇, -⟩ := SingleTypeKVCacheManager.actsOn_cacheBlocks h₃
      exact ⟨h₅, h₆, h₇⟩) h₁
  have hpool : k.blockPool.SameCounts p := by
    refine mapThreadM_invariant
      (I := fun (_ _ : List SingleTypeKVCacheManager) (s : BlockPool × List BlockHash) =>
        k.blockPool.SameCounts s.1) (fun _ m _ s m' t hs hm => hs.trans ?_) [] (.refl _) h₁
    obtain ⟨⟨m₁, p₁, hs₁⟩, h₃, h₄⟩ := bind_eq_ok.mp hm
    cases h₄
    exact (SingleTypeKVCacheManager.actsOn_cacheBlocks h₃).2.2.2
  obtain ⟨hocc, htables⟩ := tables_of_reqToBlocks (hall.imp fun m m' hm => hm.2.2)
  have hspares : List.Forall₂ (Spares rid) k.singleTypeManagers ms :=
    hall.imp fun m m' hm => ⟨hm.1, hm.2.1, fun id _ =>
      SingleTypeKVCacheManager.blocksOf_congr hm.2.2 id⟩
  exact ⟨⟨⟨rfl, rfl, rfl, rfl, rfl, specs_of_spares hspares, hpool.shape⟩, hspares, fun hc =>
    Counts.congr (Counts.of_sameCounts hc hpool) hocc⟩, htables⟩

theorem actsOn_cacheBlocks (rid : ReqId) (h : k.cacheBlocks H r n = .ok k') :
    ActsOn rid k k' ∧ ∀ id, k'.getBlockIds id = k.getBlockIds id := by
  unfold cacheBlocks at h
  split at h
  · exact actsOn_coordinatorCacheBlocks rid h
  · cases h
    exact ⟨.refl rid k, fun _ => rfl⟩

/-- Looking up computed blocks changes the recorded hashes only. -/
theorem getComputedBlocks_eq (h : k.getComputedBlocks H r = .ok (blocks, n, k')) :
    ∃ hashes, k' = { k with reqToBlockHashes := hashes } := by
  unfold getComputedBlocks at h
  split at h
  · cases h
    exact ⟨_, rfl⟩
  · obtain ⟨hashes, -, h⟩ := bind_eq_ok.mp h
    obtain ⟨⟨blocks', n'⟩, -, h⟩ := bind_eq_ok.mp h
    cases h
    exact ⟨_, rfl⟩

/-- There is a list of hits for every group. -/
theorem length_getComputedBlocks (hgroups : k.groupOrder.length = k.singleTypeManagers.length)
    (h : k.getComputedBlocks H r = .ok (blocks, n, k')) :
    blocks.length = k.singleTypeManagers.length := by
  unfold getComputedBlocks at h
  split at h
  · cases h
    exact List.length_map _
  · obtain ⟨hashes, -, h⟩ := bind_eq_ok.mp h
    obtain ⟨⟨blocks', n'⟩, hfind, h⟩ := bind_eq_ok.mp h
    cases h
    exact (findLongestCacheHit_ok hfind).length_eq.symm.trans hgroups

theorem actsOn_getComputedBlocks
    (h : k.getComputedBlocks H r = .ok (blocks, n, k')) : ActsOn rid k k' := by
  obtain ⟨hashes, rfl⟩ := getComputedBlocks_eq h
  exact actsOn_of_eq ⟨rfl, rfl, rfl, rfl, rfl, rfl, .refl _⟩ rfl (.refl _)

theorem actsOn_freeBlockHashes (k : KVCacheManager) (id rid : ReqId) :
    ActsOn rid k (k.freeBlockHashes id) :=
  actsOn_of_eq ⟨rfl, rfl, rfl, rfl, rfl, rfl, .refl _⟩ rfl (.refl _)

theorem actsOn_takeEvents (k : KVCacheManager) (rid : ReqId) : ActsOn rid k k.takeEvents.2 := by
  have hpool : k.blockPool.SameCounts k.blockPool.takeEvents.2 := by
    unfold BlockPool.takeEvents
    split
    · exact ⟨⟨rfl, rfl, rfl⟩, fun _ => rfl⟩
    · exact .refl _
  exact actsOn_of_eq ⟨rfl, rfl, rfl, rfl, rfl, rfl, hpool.shape⟩ rfl hpool

/-- **What `allocate_slots` consists of**, once the blocks fit: blocks that are not needed any more
are removed, the computed blocks are entered, new ones are allocated, and full blocks are cached. -/
theorem allocateSlots_ok (h : k.allocateSlots H r n c hits lookahead delay = .ok (some new, k')) :
    ∃ k₀ k₁ k₂ k₃, k.removeSkippedBlocks r.requestId r.numComputedTokens = .ok k₀ ∧
      k₀.touchComputed hits = .ok k₁ ∧ k₁.saveNewComputedBlocks r.requestId hits = .ok k₂ ∧
      k₂.allocateNewBlocks r.requestId
        (min (r.numComputedTokens + c + n + lookahead) k.maxModelLen) = .ok (new, k₃) ∧
      (k₀.enableCaching = false ∨ delay = true → k' = k₃) ∧
      (k₀.enableCaching = true → delay = false →
        k₃.coordinatorCacheBlocks H r (min (r.numComputedTokens + c + n) r.numTokens) = .ok k') := by
  unfold allocateSlots at h
  split at h
  · simp at h
  obtain ⟨k₀, h₀, h⟩ := bind_eq_ok.mp h
  dsimp only at h
  split at h
  · simp [pure_eq_ok] at h
  obtain ⟨⟨new', k₄⟩, hcommit, h⟩ := bind_eq_ok.mp h
  obtain ⟨rfl, rfl⟩ : new' = new ∧ k₄ = k' := by simpa [pure_eq_ok] using h
  obtain ⟨k₁, h₁, hcommit⟩ := bind_eq_ok.mp hcommit
  obtain ⟨k₂, h₂, hcommit⟩ := bind_eq_ok.mp hcommit
  obtain ⟨⟨new'', k₃⟩, h₃, hcommit⟩ := bind_eq_ok.mp hcommit
  dsimp only at hcommit
  split at hcommit
  next hskip =>
    obtain ⟨rfl, rfl⟩ := Prod.mk.inj (pure_eq_ok.mp hcommit)
    refine ⟨k₀, k₁, k₂, k₃, h₀, h₁, h₂, h₃, fun _ => rfl, fun hc hd => ?_⟩
    simp [hc, hd] at hskip
  next hskip =>
    obtain ⟨k₅, h₄, hcommit⟩ := bind_eq_ok.mp hcommit
    obtain ⟨rfl, rfl⟩ := Prod.mk.inj (pure_eq_ok.mp hcommit)
    exact ⟨k₀, k₁, k₂, k₃, h₀, h₁, h₂, h₃, fun hc => absurd hc hskip, fun _ _ => h₄⟩

/-- If the blocks do not fit, those that are not needed any more are removed nevertheless. -/
theorem allocateSlots_none (h : k.allocateSlots H r n c hits lookahead delay = .ok (none, k')) :
    k.removeSkippedBlocks r.requestId r.numComputedTokens = .ok k' := by
  unfold allocateSlots at h
  split at h
  · simp at h
  obtain ⟨k₀, h₀, h⟩ := bind_eq_ok.mp h
  dsimp only at h
  split at h
  · cases h
    exact h₀
  · obtain ⟨⟨new, k₁⟩, -, h⟩ := bind_eq_ok.mp h
    simp [pure_eq_ok] at h

theorem ActsOn.length_managers (h : ActsOn rid k k') :
    k'.singleTypeManagers.length = k.singleTypeManagers.length :=
  length_eq_of_specs h.config.specs

/-- **`allocate_slots`** acts on its request. -/
theorem actsOn_allocateSlots {new : Option (List (List BlockId))}
    (hlen : hits.length = k.singleTypeManagers.length)
    (h : k.allocateSlots H r n c hits lookahead delay = .ok (new, k')) :
    ActsOn r.requestId k k' := by
  cases new with
  | none => exact actsOn_removeSkippedBlocks (allocateSlots_none h)
  | some new =>
    obtain ⟨k₀, k₁, k₂, k₃, h₀, h₁, h₂, h₃, hskip, hcache⟩ := allocateSlots_ok h
    have ha₀ := actsOn_removeSkippedBlocks h₀
    have ha₂ := actsOn_touchAndSave (hlen.trans ha₀.length_managers.symm) h₁ h₂
    have ha₃ := (ha₀.trans ha₂).trans (actsOn_allocateNewBlocks h₃)
    by_cases hc : k₀.enableCaching = false ∨ delay = true
    · rw [hskip hc]
      exact ha₃
    · rw [not_or, Bool.not_eq_false, Bool.not_eq_true] at hc
      exact ha₃.trans (actsOn_coordinatorCacheBlocks _ (hcache hc.1 hc.2)).1

theorem notMem_of_occurrences {b : BlockId} (h : occurrences k.singleTypeManagers b = 0) :
    ∀ l ∈ k.getBlockIds id, b ∉ l := by
  intro l hl hb
  obtain ⟨m, hm, rfl⟩ := List.mem_map.mp hl
  have := (List.count_pos_iff.mpr hb).trans_le (count_blocksOf_le_occurrences hm id b)
  omega

/-- **New blocks are in no table of another request.** -/
theorem allocateSlots_new (hc : k.Counted) (hlen : hits.length = k.singleTypeManagers.length)
    (h : k.allocateSlots H r n c hits lookahead delay = .ok (some new, k'))
    (hid : id ≠ r.requestId) :
    ∀ b ∈ new.flatten, b ≠ k.blockPool.nullBlock → ∀ l ∈ k.getBlockIds id, b ∉ l := by
  obtain ⟨k₀, k₁, k₂, k₃, h₀, h₁, h₂, h₃, -, -⟩ := allocateSlots_ok h
  have ha₀ := actsOn_removeSkippedBlocks h₀
  have ha₂ := ha₀.trans (actsOn_touchAndSave (hlen.trans ha₀.length_managers.symm) h₁ h₂)
  intro b hb hne
  rw [← ha₂.getBlockIds hid]
  exact notMem_of_occurrences (allocateNewBlocks_new (ha₂.counted hc) h₃ b hb
    (ha₂.config.shape.nullBlock ▸ hne))

end KVCacheManager

end InferenceServer
