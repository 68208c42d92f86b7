import InferenceServer.KVCache.Accounting
import InferenceServer.KVCache.SingleTypeManager

/-!
# Coherence of the block tables with the pool

The pool counts references; the managers hold block tables. `Coherent P p ms pending` ties the
two together: the references the pool accounts for are the occurrences in the tables of the
managers `ms`, plus the blocks `pending` that have been touched and not yet entered into a table.

Counting alone is not an invariant. Giving back a table puts every block of it whose count
drops to zero into the free list, so a block that occurred twice in one table would be linked
twice. What rules this out is `position`: all occurrences of a block are at one position. A block
gets its second occurrence as a prefix cache hit, and a hit at position `i` has the hash of the
`i`-th block of some request. So the hashes have to know their position, and the relation
carries a predicate `P r i h` for the hashes `h` that block `i` of request `r` may have. The
hash of a new block is computed from the hash of the physical block before it, and this is
where the predicate is passed on.

## Main results

* `Coherent.retable`, `Coherent.insertCached`, `Coherent.resetPrefixCache`
-/

namespace InferenceServer

open Outcome
open List (count mem_append mem_cons mem_range range)

namespace SingleTypeKVCacheManager

variable {m m' : SingleTypeKVCacheManager} {r : ReqId} {l : List BlockId}

/-- How often a block occurs in the tables of one group. -/
def tableCount (m : SingleTypeKVCacheManager) (b : BlockId) : Nat :=
  m.reqToBlocks.total (List.count b)

/-- `m'` is the manager `m` with the table of request `r` replaced by `l`. -/
structure Retable (m : SingleTypeKVCacheManager) (r : ReqId) (l : List BlockId)
    (m' : SingleTypeKVCacheManager) : Prop where
  blocksOf_self : m'.blocksOf r = l
  blocksOf_ne : ∀ s, s ≠ r → m'.blocksOf s = m.blocksOf s
  tableCount : ∀ b, m'.tableCount b + (m.blocksOf r).count b = m.tableCount b + l.count b

variable (m)

theorem count_blocksOf (r : ReqId) (b : BlockId) :
    (m.blocksOf r).count b = ((m.reqToBlocks.get? r).map (count b)).getD 0 := by
  unfold blocksOf Dict.getD
  cases m.reqToBlocks.get? r <;> rfl

theorem retable_set (r : ReqId) (l : List BlockId) (c : Dict ReqId Int) :
    Retable m r l { m with reqToBlocks := m.reqToBlocks.set r l, numCachedBlock := c } where
  blocksOf_self := Dict.getD_set_self
  blocksOf_ne _ hs := Dict.getD_set_ne hs
  tableCount b := by
    rw [count_blocksOf]
    exact Dict.total_set (count b) m.reqToBlocks r l

theorem retable_erase (r : ReqId) (c : Dict ReqId Int) :
    Retable m r [] { m with reqToBlocks := m.reqToBlocks.erase r, numCachedBlock := c } where
  blocksOf_self := by simp [blocksOf, Dict.getD_erase]
  blocksOf_ne _ hs := by simp [blocksOf, Dict.getD_erase, hs]
  tableCount b := by
    rw [count_blocksOf]
    exact Dict.total_erase (count b) m.reqToBlocks r

theorem retable_self (r : ReqId) : Retable m r (m.blocksOf r) m :=
  ⟨rfl, fun _ _ => rfl, fun _ => rfl⟩

/-- A table holds at most all occurrences. -/
theorem count_blocksOf_le (r : ReqId) (b : BlockId) : (m.blocksOf r).count b ≤ m.tableCount b := by
  have h := (retable_erase m r ∅).tableCount b
  simp only [List.count_nil, Nat.add_zero] at h
  omega

/-- Two tables of one group hold at most all occurrences. -/
theorem count_blocksOf_add_le {r s : ReqId} (hrs : s ≠ r)
    (b : BlockId) : (m.blocksOf r).count b + (m.blocksOf s).count b ≤ m.tableCount b := by
  have h := (retable_erase m r ∅).tableCount b
  have h' := count_blocksOf_le
    { m with reqToBlocks := m.reqToBlocks.erase r, numCachedBlock := ∅ } s b
  rw [(retable_erase m r ∅).blocksOf_ne s hrs] at h'
  simp only [List.count_nil, Nat.add_zero] at h
  omega

end SingleTypeKVCacheManager

open SingleTypeKVCacheManager (Retable)

/-! ## Occurrences -/

/-- How often a block occurs in the block tables of all managers. -/
def occurrences (ms : List SingleTypeKVCacheManager) (b : BlockId) : Nat :=
  (ms.map fun m => m.tableCount b).sum

/-- Block `b` is at position `i` of a block table of request `r`. -/
def HeldAt (ms : List SingleTypeKVCacheManager) (r : ReqId) (i : Nat) (b : BlockId) : Prop :=
  ∃ m ∈ ms, (m.blocksOf r)[i]? = some b

section Occurrences

variable {pre post ms : List SingleTypeKVCacheManager} {m m' : SingleTypeKVCacheManager}
  {r s : ReqId} {l : List BlockId} {b : BlockId} {i j : Nat}

theorem occurrences_append (b : BlockId) :
    occurrences (pre ++ post) b = occurrences pre b + occurrences post b := by
  simp [occurrences]

theorem occurrences_cons (b : BlockId) :
    occurrences (m :: post) b = m.tableCount b + occurrences post b := by
  simp [occurrences]

theorem occurrences_retable (pre post : List SingleTypeKVCacheManager) (h : Retable m r l m')
    (b : BlockId) :
    occurrences (pre ++ m' :: post) b + (m.blocksOf r).count b =
      occurrences (pre ++ m :: post) b + l.count b := by
  have hb := h.tableCount b
  simp only [occurrences_append, occurrences_cons]
  omega

theorem count_blocksOf_le_occurrences (hm : m ∈ ms) (r : ReqId) (b : BlockId) :
    (m.blocksOf r).count b ≤ occurrences ms b := by
  obtain ⟨pre, post, rfl⟩ := List.append_of_mem hm
  have h := m.count_blocksOf_le r b
  rw [occurrences_append, occurrences_cons]
  omega

theorem HeldAt.occurrences_pos (h : HeldAt ms r i b) : 0 < occurrences ms b := by
  obtain ⟨m, hm, hi⟩ := h
  have hc := List.count_pos_iff.mpr (List.mem_of_getElem? hi)
  exact hc.trans_le (count_blocksOf_le_occurrences hm r b)

theorem exists_heldAt (h : occurrences ms b ≠ 0) : ∃ r i, HeldAt ms r i b := by
  by_contra hn
  refine h (List.sum_eq_zero fun x hx => ?_)
  obtain ⟨m, hm, rfl⟩ := List.mem_map.mp hx
  refine List.sum_eq_zero fun y hy => ?_
  obtain ⟨⟨r, l⟩, he, rfl⟩ := List.mem_map.mp hy
  refine List.count_eq_zero_of_not_mem fun hb => hn ?_
  obtain ⟨i, hi⟩ := List.mem_iff_getElem?.mp hb
  exact ⟨r, i, m, hm, by
    rw [SingleTypeKVCacheManager.blocksOf, Dict.getD_of_get? (Dict.get?_eq_some_iff.mpr he), hi]⟩

/-- A block that occurs once is held by one request. -/
theorem HeldAt.unique (h : HeldAt ms r i b) (h' : HeldAt ms s j b)
    (h1 : occurrences ms b ≤ 1) : r = s := by
  by_contra hrs
  obtain ⟨m, hm, hi⟩ := h
  obtain ⟨m', hm', hj⟩ := h'
  have hc := List.count_pos_iff.mpr (List.mem_of_getElem? hi)
  have hc' := List.count_pos_iff.mpr (List.mem_of_getElem? hj)
  obtain ⟨pre, post, rfl⟩ := List.append_of_mem hm
  have hle := m.count_blocksOf_le r b
  rw [occurrences_append, occurrences_cons] at h1
  simp only [mem_append, mem_cons] at hm'
  rcases hm' with hm' | rfl | hm'
  · have := count_blocksOf_le_occurrences hm' s b
    omega
  · have := m'.count_blocksOf_add_le (Ne.symm hrs) b
    omega
  · have := count_blocksOf_le_occurrences hm' s b
    omega

theorem heldAt_append : HeldAt (pre ++ post) r i b ↔ HeldAt pre r i b ∨ HeldAt post r i b := by
  simp only [HeldAt, mem_append, or_and_right, exists_or]

theorem heldAt_cons :
    HeldAt (m :: post) r i b ↔ (m.blocksOf r)[i]? = some b ∨ HeldAt post r i b := by
  simp [HeldAt]

/-- The holders after a table is replaced. -/
theorem HeldAt.of_retable (hm : Retable m r l m') (h : HeldAt (pre ++ m' :: post) s i b) :
    HeldAt (pre ++ m :: post) s i b ∨ s = r ∧ l[i]? = some b := by
  rw [heldAt_append, heldAt_cons] at h ⊢
  by_cases hs : s = r
  · subst hs
    rw [hm.blocksOf_self] at h
    tauto
  · rw [hm.blocksOf_ne s hs] at h
    tauto

end Occurrences

/-! ## The relation -/

/-- **The block tables and the pool agree.** `P r i h` says which hashes block `i` of request
`r` may have. -/
structure Coherent (P : ReqId → Nat → BlockHash → Prop) (p : BlockPool)
    (ms : List SingleTypeKVCacheManager) (pending : List BlockId) : Prop where
  accounts : ∃ free, p.Accounts (fun b => occurrences ms b + pending.count b) free
  indexed : p.Indexed
  unhashed : p.Unhashed
  null_lt : p.nullBlock < p.numGpuBlocks
  /-- The null block is never cached. -/
  null_unhashed : (p.block p.nullBlock).blockHash = none
  /-- All occurrences of a block are at one position. -/
  position : ∀ r i s j b, b ≠ p.nullBlock → HeldAt ms r i b → HeldAt ms s j b → i = j
  /-- The hash of a block fits the requests that hold it. -/
  hashed : ∀ r i b h, HeldAt ms r i b → (p.block b).blockHash = some h → P r i h.blockHash
  /-- A block without a hash is not shared. -/
  shared : ∀ b, b ≠ p.nullBlock → (p.block b).blockHash = none → occurrences ms b ≤ 1
  numCachedBlock_nonneg : ∀ m ∈ ms, ∀ r c, m.numCachedBlock.get? r = some c → 0 ≤ c

variable {P Q : ReqId → Nat → BlockHash → Prop} {p p' : BlockPool}
  {pre post ms : List SingleTypeKVCacheManager} {m m' : SingleTypeKVCacheManager}
  {pending pending' : List BlockId} {r : ReqId} {l : List BlockId}

theorem Coherent.mono (h : Coherent P p ms pending) (hPQ : ∀ r i b, P r i b → Q r i b) :
    Coherent Q p ms pending where
  accounts := h.accounts
  indexed := h.indexed
  unhashed := h.unhashed
  null_lt := h.null_lt
  null_unhashed := h.null_unhashed
  position := h.position
  hashed r i b k hb hk := hPQ _ _ _ (h.hashed r i b k hb hk)
  shared := h.shared
  numCachedBlock_nonneg := h.numCachedBlock_nonneg

/-- A list in which every element but `z` has one position has no other element twice. -/
theorem nodup_filter_ne {l : List BlockId} {z : BlockId}
    (h : ∀ (i j : Nat) (b : BlockId), b ≠ z → l[i]? = some b → l[j]? = some b → i = j) :
    (l.filter fun b => b ≠ z).Nodup := by
  refine List.pairwise_filter.mpr (List.pairwise_iff_getElem.mpr ?_)
  intro i j hi hj hij hz _ heq
  have hb : l[i] ≠ z := by simpa using hz
  have := h i j l[i] hb (List.getElem?_eq_getElem hi) (by rw [heq, List.getElem?_eq_getElem hj])
  omega

/-- A block table has no block twice. -/
theorem Coherent.nodup_blocksOf (h : Coherent P p ms pending) (hm : m ∈ ms) (r : ReqId) :
    ((m.blocksOf r).filter fun b => b ≠ p.nullBlock).Nodup :=
  nodup_filter_ne fun i j b hb hi hj => h.position r i r j b hb ⟨m, hm, hi⟩ ⟨m, hm, hj⟩

/-- **Replacing one table.** The entries of the new table are at the only position of their
block, and their hashes fit the request. -/
theorem Coherent.retable (h : Coherent P p (pre ++ m :: post) pending) (hm : Retable m r l m')
    (hacc : ∃ free, p'.Accounts
      (fun b => occurrences (pre ++ m' :: post) b + pending'.count b) free)
    (hidx : p'.Indexed) (hun : p'.Unhashed) (hshape : p.SameShape p')
    (hframe : ∀ s i b, HeldAt (pre ++ m :: post) s i b →
      (p'.block b).blockHash = (p.block b).blockHash)
    (hnull : (p'.block p'.nullBlock).blockHash = none)
    (hpos : ∀ i b, l[i]? = some b → b ≠ p.nullBlock →
      (∀ s j, HeldAt (pre ++ m :: post) s j b → j = i) ∧ ∀ j, l[j]? = some b → j = i)
    (hhash : ∀ i b k, l[i]? = some b → b ≠ p.nullBlock → (p'.block b).blockHash = some k →
      P r i k.blockHash)
    (hshared : ∀ b, b ≠ p.nullBlock → (p'.block b).blockHash = none →
      occurrences (pre ++ m' :: post) b ≤ 1)
    (hcached : ∀ s c, m'.numCachedBlock.get? s = some c → 0 ≤ c) :
    Coherent P p' (pre ++ m' :: post) pending' where
  accounts := hacc
  indexed := hidx
  unhashed := hun
  null_lt := by rw [hshape.nullBlock, hshape.numGpuBlocks]; exact h.null_lt
  null_unhashed := hnull
  position s i t j b hb hi hj := by
    rw [hshape.nullBlock] at hb
    rcases hi.of_retable hm with hi | ⟨rfl, hi⟩
    · rcases hj.of_retable hm with hj | ⟨rfl, hj⟩
      · exact h.position s i t j b hb hi hj
      · exact (hpos j b hj hb).1 s i hi
    · rcases hj.of_retable hm with hj | ⟨-, hj⟩
      · exact ((hpos i b hi hb).1 t j hj).symm
      · exact (hpos j b hj hb).2 i hi
  hashed s i b k hi hk := by
    have hb : b ≠ p.nullBlock := by
      rintro rfl
      rw [← hshape.nullBlock, hnull] at hk
      simp at hk
    rcases hi.of_retable hm with hi | ⟨rfl, hi⟩
    · exact h.hashed s i b k hi (by rw [← hframe s i b hi, hk])
    · exact hhash i b k hi hb hk
  shared b hb := hshared b (hshape.nullBlock ▸ hb)
  numCachedBlock_nonneg n hn := by
    simp only [mem_append, mem_cons] at hn
    rcases hn with hn | rfl | hn
    · exact h.numCachedBlock_nonneg n (by simp [hn])
    · exact hcached
    · exact h.numCachedBlock_nonneg n (by simp [hn])

/-- Changing only what the relation does not read of a manager. -/
theorem Coherent.congr_manager (h : Coherent P p (pre ++ m :: post) pending)
    (hm : m'.reqToBlocks = m.reqToBlocks)
    (hc : ∀ r c, m'.numCachedBlock.get? r = some c → 0 ≤ c) :
    Coherent P p (pre ++ m' :: post) pending := by
  have hblocks : ∀ r, m'.blocksOf r = m.blocksOf r := fun r => by
    rw [SingleTypeKVCacheManager.blocksOf, hm]
    rfl
  have hocc : ∀ b, occurrences (pre ++ m' :: post) b = occurrences (pre ++ m :: post) b := by
    intro b
    rw [occurrences_append, occurrences_append, occurrences_cons, occurrences_cons,
      SingleTypeKVCacheManager.tableCount, hm]
    rfl
  have hheld : ∀ s i b, HeldAt (pre ++ m' :: post) s i b ↔ HeldAt (pre ++ m :: post) s i b := by
    intro s i b
    rw [heldAt_append, heldAt_append, heldAt_cons, heldAt_cons, hblocks]
  exact
    { accounts := by
        obtain ⟨free, hf⟩ := h.accounts
        exact ⟨free, hf.congr fun b _ => by rw [hocc]⟩
      indexed := h.indexed
      unhashed := h.unhashed
      null_lt := h.null_lt
      null_unhashed := h.null_unhashed
      position := fun s i t j b hb hi hj =>
        h.position s i t j b hb ((hheld s i b).mp hi) ((hheld t j b).mp hj)
      hashed := fun s i b k hi hk => h.hashed s i b k ((hheld s i b).mp hi) hk
      shared := fun b hb hk => by rw [hocc]; exact h.shared b hb hk
      numCachedBlock_nonneg := fun n hn => by
        simp only [mem_append, mem_cons] at hn
        rcases hn with hn | rfl | hn
        · exact h.numCachedBlock_nonneg n (by simp [hn])
        · exact hc
        · exact h.numCachedBlock_nonneg n (by simp [hn]) }

/-- **Giving a block its hash**: it had none, so only one request holds it. -/
theorem Coherent.insertCached (h : Coherent P p ms pending) (hcache : p.enableCaching = true)
    {i : Nat} {b : BlockId} (hb : b ≠ p.nullBlock) (hheld : HeldAt ms r i b)
    (hnone : (p.block b).blockHash = none) {k : BlockHashWithGroupId} (hP : P r i k.blockHash) :
    Coherent P (p.insertCached b k) ms pending where
  accounts := by
    obtain ⟨free, hf⟩ := h.accounts
    exact ⟨free, hf.insertCached b k⟩
  indexed := h.indexed.insertCached hnone k
  unhashed hc := by
    rw [show (p.insertCached b k).enableCaching = p.enableCaching from rfl, hcache] at hc
    simp at hc
  null_lt := h.null_lt
  null_unhashed := by
    rw [BlockPool.blockHash_insertCached]
    exact (if_neg (Ne.symm hb)).trans h.null_unhashed
  position := h.position
  hashed s j c k' hc hk := by
    rw [BlockPool.blockHash_insertCached] at hk
    split_ifs at hk with hcb
    · obtain rfl : k = k' := by simpa using hk
      subst hcb
      obtain rfl := hheld.unique hc (h.shared c hb hnone)
      obtain rfl := h.position r i r j c hb hheld hc
      exact hP
    · exact h.hashed s j c k' hc hk
  shared c hc hk := by
    rw [BlockPool.blockHash_insertCached] at hk
    split_ifs at hk
    exact h.shared c hc hk
  numCachedBlock_nonneg := h.numCachedBlock_nonneg

/-- If all blocks but the null block are free, no block is referenced. -/
theorem BlockPool.Accounts.refs_eq_zero {refs : BlockId → Nat} {free : List BlockId}
    (h : p.Accounts refs free) (hlt : p.nullBlock < p.numGpuBlocks)
    (hnum : (p.numGpuBlocks : Int) - p.getNumFreeBlocks = 1) {b : BlockId}
    (hb : b ≠ p.nullBlock) : refs b = 0 := by
  by_contra hr
  have hsub : free ⊆ ((range p.numGpuBlocks).erase p.nullBlock).erase b := by
    intro c hc
    obtain ⟨h₁, h₂, h₃⟩ := (h.mem_free c).mp hc
    have hcb : c ≠ b := fun hcb => hr (hcb ▸ h₃)
    rw [List.mem_erase_of_ne hcb, List.mem_erase_of_ne h₂]
    exact mem_range.mpr h₁
  have hle := (h.holds.nodup.subperm hsub).length_le
  have hbm : b ∈ (range p.numGpuBlocks).erase p.nullBlock :=
    (List.mem_erase_of_ne hb).mpr (mem_range.mpr (h.lt_of_refs b hb hr))
  rw [List.length_erase_of_mem hbm, List.length_erase_of_mem (mem_range.mpr hlt),
    List.length_range] at hle
  have hpos := List.length_pos_of_mem hbm
  rw [List.length_erase_of_mem (mem_range.mpr hlt), List.length_range] at hpos
  rw [BlockPool.getNumFreeBlocks, h.holds.numFreeBlocks] at hnum
  omega

theorem BlockPool.resetPrefixCache_ok (p : BlockPool) :
    p.resetPrefixCache.2 = p ∨
      (p.numGpuBlocks : Int) - p.getNumFreeBlocks = 1 ∧
      p.resetPrefixCache.2.cachedBlockHashToBlock = ∅ ∧
      p.resetPrefixCache.2.freeBlockQueue = p.freeBlockQueue ∧
      p.SameShape p.resetPrefixCache.2 ∧
      ∀ b, p.resetPrefixCache.2.block b = { p.block b with blockHash := none } := by
  unfold BlockPool.resetPrefixCache
  by_cases h : (p.numGpuBlocks : Int) - p.getNumFreeBlocks ≠ 1
  · rw [if_pos h]
    exact .inl rfl
  · rw [if_neg h]
    refine .inr ⟨by omega, rfl, rfl, ⟨rfl, rfl, rfl⟩, fun b => ?_⟩
    simp only [BlockPool.block, Dict.getD, Dict.get?_mapValues]
    cases p.blocks.get? b <;> rfl

/-- **`reset_prefix_cache`** drops the hashes only if no block is in use. -/
theorem Coherent.resetPrefixCache (h : Coherent P p ms []) :
    Coherent P p.resetPrefixCache.2 ms [] := by
  rcases p.resetPrefixCache_ok with he | ⟨hnum, hcached, hq, hshape, hblock⟩
  · rwa [he]
  obtain ⟨free, hf⟩ := h.accounts
  exact
    { accounts := ⟨free, by rw [hq]; exact hf.holds,
        fun b => by rw [hshape.numGpuBlocks, hshape.nullBlock]; exact hf.mem_free b,
        fun b hb => by rw [hblock]; exact hf.refCnt b (hshape.nullBlock ▸ hb),
        fun b => by rw [hblock, hshape.nullBlock]; exact hf.isNull b,
        fun b hb hr => by
          rw [hshape.numGpuBlocks]
          exact hf.lt_of_refs b (hshape.nullBlock ▸ hb) hr⟩
      indexed := ⟨fun k b => by simp [hcached, hblock], fun k => by simp [hcached]⟩
      unhashed := fun _ b => by rw [hblock]
      null_lt := by rw [hshape.numGpuBlocks, hshape.nullBlock]; exact h.null_lt
      null_unhashed := by rw [hblock]
      position := fun r i s j b hb => h.position r i s j b (hshape.nullBlock ▸ hb)
      hashed := fun r i b k _ hk => by simp [hblock] at hk
      shared := fun b hb _ => by
        have hz := hf.refs_eq_zero h.null_lt hnum (b := b) (hshape.nullBlock ▸ hb)
        omega
      numCachedBlock_nonneg := h.numCachedBlock_nonneg }

end InferenceServer
