import InferenceServer.KVCache.Tables

/-!
# Blocks belong to one group

The groups share one pool of blocks, and the hash under which a block is cached carries the group it
was cached for. A block that has a hash is only ever held by tables of that group: it was allocated
for the group and cached by it, or it is a hit of the group. Together with the coherence of the
tables, every reference to a block is then from one group and from one position
(`KVCacheManager.Sound`).

The null block stands in the tables of groups that skip blocks. A group of full attention skips none,
and its hits are cached blocks, so its tables do not hold the null block.

## Main results

* `KVCacheManager.Sound.free`, `.allocateSlots`, `.cacheBlocks`, `.getComputedBlocks`, …
* `KVCacheManager.Sound.refCnt`
-/

namespace InferenceServer

open Outcome
open List (forall₂_iff_zip map_cons mem_append mem_cons mem_cons_of_mem mem_cons_self mem_filter mem_map range)
open SingleTypeKVCacheManager (kvCacheGroupId)

/-- **Blocks of a group**: their hashes are of the group, and if the group is of full attention, none
of them is the null block. -/
structure InGroup (p : BlockPool) (m : SingleTypeKVCacheManager) (l : List BlockId) : Prop where
  groupId : ∀ b ∈ l, b ≠ p.nullBlock → ∀ h, (p.block b).blockHash = some h →
    h.groupId = m.kvCacheGroupId
  full : m.kvCacheSpec.isFullAttention = true → p.nullBlock ∉ l

/-- **The tables of a group hold blocks of the group.** -/
def Grouped (p : BlockPool) (ms : List SingleTypeKVCacheManager) : Prop :=
  ∀ m ∈ ms, ∀ r, InGroup p m (m.blocksOf r)

section Tables

variable {P : ReqId → Nat → BlockHash → Prop} {p p' : BlockPool}
  {pre post ms : List SingleTypeKVCacheManager} {m m' : SingleTypeKVCacheManager} {r : ReqId}
  {l : List BlockId} {H : BlockHasher}

theorem InGroup.of_hashes (h : InGroup p m l) (hshape : p.SameShape p')
    (hhash : ∀ b ∈ l, (p'.block b).blockHash = (p.block b).blockHash) : InGroup p' m l := by
  refine ⟨fun b hb hz key hkey => ?_, fun hfull => hshape.nullBlock ▸ h.full hfull⟩
  rw [hhash b hb] at hkey
  exact h.groupId b hb (hshape.nullBlock ▸ hz) key hkey

theorem InGroup.congr (h : InGroup p m l) (hid : m'.kvCacheGroupId = m.kvCacheGroupId)
    (hspec : m'.kvCacheSpec = m.kvCacheSpec) : InGroup p m' l :=
  ⟨hid ▸ h.groupId, fun hfull => h.full (hspec ▸ hfull)⟩

theorem InGroup.with_events (h : InGroup p m l) (events : List KVCacheEvent) :
    InGroup { p with kvEventQueue := events } m l := ⟨h.groupId, h.full⟩

theorem InGroup.nil (p : BlockPool) (m : SingleTypeKVCacheManager) : InGroup p m [] :=
  ⟨fun _ hb => (nomatch hb), fun _ hb => (nomatch hb)⟩

theorem InGroup.append {l' : List BlockId} (h : InGroup p m l) (h' : InGroup p m l') :
    InGroup p m (l ++ l') := by
  refine ⟨fun b hb => ?_, fun hfull hb => ?_⟩
  · exact (mem_append.mp hb).elim (h.groupId b) (h'.groupId b)
  · exact (mem_append.mp hb).elim (h.full hfull) (h'.full hfull)

variable (h : Grouped p (pre ++ m :: post))

include h

/-- Replacing one table. -/
theorem Grouped.retable (hm : m.Retable r l m')
    (hid : m'.kvCacheGroupId = m.kvCacheGroupId) (hspec : m'.kvCacheSpec = m.kvCacheSpec)
    (hshape : p.SameShape p')
    (hheld : ∀ s i b, HeldAt (pre ++ m :: post) s i b →
      (p'.block b).blockHash = (p.block b).blockHash)
    (hnew : InGroup p' m (m.blocksOf r) → InGroup p' m l) : Grouped p' (pre ++ m' :: post) := by
  have hold : ∀ n ∈ pre ++ m :: post, ∀ s, InGroup p' n (n.blocksOf s) := fun n hn s =>
    (h n hn s).of_hashes hshape fun b hb => by
      obtain ⟨i, hi⟩ := List.mem_iff_getElem?.mp hb
      exact hheld s i b ⟨n, hn, hi⟩
  intro n hn s
  simp only [mem_append, mem_cons] at hn
  rcases hn with hn | rfl | hn
  · exact hold n (by simp [hn]) s
  · by_cases hs : s = r
    · subst hs
      rw [hm.blocksOf_self]
      exact (hnew (hold m (by simp) s)).congr hid hspec
    · rw [hm.blocksOf_ne s hs]
      exact (hold m (by simp) s).congr hid hspec
  · exact hold n (by simp [hn]) s

theorem Grouped.free (hs : p.SameHashes p')
    (hf : m.free p r = .ok (m', p')) : Grouped p' (pre ++ m' :: post) := by
  obtain ⟨q, h₁, h₂⟩ := bind_eq_ok.mp hf
  obtain ⟨rfl, rfl⟩ := Prod.mk.injEq .. ▸ pure_eq_ok.mp h₂
  exact h.retable (SingleTypeKVCacheManager.retable_erase m r _) rfl rfl hs.shape
    (fun _ _ b _ => hs.blockHash b) fun _ => .nil q m

/-- The blocks that are left are blocks of the table; full attention skips none. -/
theorem Grouped.removeSkippedBlocks (hs : p.SameHashes p')
    {nc : Int} (hr : m.removeSkippedBlocks p r nc = .ok (m', p')) :
    Grouped p' (pre ++ m' :: post) := by
  rcases SingleTypeKVCacheManager.removeSkippedBlocks_ok hr with
    ⟨rfl, rfl, -⟩ | ⟨n, removed, blocks, hn, hskip, -, rfl⟩
  · exact h
  · refine h.retable (SingleTypeKVCacheManager.retable_set m r blocks _) rfl rfl hs.shape
      (fun _ _ b _ => hs.blockHash b) fun hold => ⟨fun b hb hz => ?_, fun hfull => ?_⟩
    · obtain ⟨i, hi⟩ := List.mem_iff_getElem?.mp hb
      obtain ⟨-, hsub, -, -⟩ := SingleTypeKVCacheManager.skipLoop_ok hskip
      exact hold.groupId b
        (List.mem_of_getElem? (hsub i b hi (hs.shape.nullBlock ▸ hz))) hz
    · unfold SingleTypeKVCacheManager.numSkippedBlocks at hn
      cases hspec : m.kvCacheSpec <;> simp_all [KVCacheSpec.isFullAttention]

omit h

/-- New blocks have no hash, and the blocks of the tables keep theirs. -/
theorem Coherent.getNewBlocks (h : Coherent P p ms []) {n : Nat} {new : List BlockId}
    (hget : p.getNewBlocks n = .ok (new, p')) :
    p.SameShape p' ∧ (∀ b ∈ new, b ≠ p.nullBlock ∧ (p'.block b).blockHash = none) ∧
      ∀ s i b, HeldAt ms s i b → (p'.block b).blockHash = (p.block b).blockHash := by
  obtain ⟨free, ha⟩ := h.accounts
  obtain ⟨rest, rfl, -, -, -, hs, hhash⟩ := ha.getNewBlocks h.indexed h.unhashed hget
  refine ⟨hs, fun b hb => ⟨((ha.mem_free b).mp (List.mem_append_left rest hb)).2.1, ?_⟩,
    fun s i b hb => ?_⟩
  · rw [hhash, if_pos hb]
  · -- a block of a table is not free
    rw [hhash, if_neg fun hnew => ?_]
    have hocc := ((ha.mem_free b).mp (List.mem_append_left rest hnew)).2.2
    have hpos := hb.occurrences_pos
    simp only [List.count_nil, Nat.add_zero] at hocc
    omega

theorem Grouped.allocateNewBlocks (h : Grouped p (pre ++ m :: post))
    (hco : Coherent P p (pre ++ m :: post) []) {n : Int} {new : List BlockId}
    (hn : m.allocateNewBlocks p r n = .ok (new, m', p')) : Grouped p' (pre ++ m' :: post) := by
  rcases SingleTypeKVCacheManager.allocateNewBlocks_ok hn with
    ⟨rfl, rfl, rfl, -⟩ | ⟨hget, -, rfl⟩
  · exact h
  obtain ⟨hs, hnew, hheld⟩ := hco.getNewBlocks hget
  refine h.retable (SingleTypeKVCacheManager.retable_set m r (m.blocksOf r ++ new) _) rfl rfl hs
    hheld fun hold => hold.append ⟨fun b hb _ key hkey => ?_, fun _ hb => ?_⟩
  · rw [(hnew b hb).2] at hkey
    cases hkey
  · exact (hnew _ hb).1 hs.nullBlock

theorem Grouped.saveNewComputedBlocks (h : Grouped p (pre ++ m :: post)) {hits : List BlockId}
    (hhits : InGroup p m hits) (hs : m.saveNewComputedBlocks r hits = .ok m') :
    Grouped p (pre ++ m' :: post) := by
  rcases SingleTypeKVCacheManager.saveNewComputedBlocks_ok hs with
    ⟨-, rfl, rfl⟩ | ⟨-, -, rfl⟩
  · exact h
  · exact h.retable (SingleTypeKVCacheManager.retable_set m r hits _) rfl rfl (.refl p)
      (fun _ _ _ _ => rfl) fun _ => hhits

theorem InGroup.of_sameHashes (h : InGroup p m l) (hs : p.SameHashes p') : InGroup p' m l :=
  h.of_hashes hs.shape fun b _ => hs.blockHash b

theorem Grouped.of_sameHashes (h : Grouped p ms) (hs : p.SameHashes p') : Grouped p' ms :=
  fun m hm r => (h m hm r).of_sameHashes hs

/-! ## Caching -/

/-- The loop of `cache_full_blocks` gives hashes of the group to blocks without a hash. -/
theorem BlockPool.cacheLoop_groups {r : Request} {bs gid : Nat} {c : Int} {new : List BlockHash}
    {i : Nat} {s t : BlockPool.CacheLoop}
    (h : BlockPool.cacheLoop H r bs gid c new i l s = .ok t) (b : BlockId) :
    (t.pool.block b).blockHash = (s.pool.block b).blockHash ∨
      b ∈ l ∧ (s.pool.block b).blockHash = none ∧
        ∀ k, (t.pool.block b).blockHash = some k → k.groupId = gid := by
  induction l generalizing i s with
  | nil =>
    obtain rfl : s = t := by simpa [BlockPool.cacheLoop] using h
    exact .inl rfl
  | cons a l ih =>
    obtain ⟨u, h₁, h₂⟩ := bind_eq_ok.mp h
    obtain ⟨_, hnone, h₁⟩ := bind_eq_ok.mp h₁
    obtain ⟨⟨k, hashes⟩, -, h₁⟩ := bind_eq_ok.mp h₁
    cases h₁
    have hnone := require_eq_ok.mp hnone
    rcases ih h₂ with hsame | ⟨hmem, hun, hgid⟩
    · rw [BlockPool.blockHash_insertCached] at hsame
      split_ifs at hsame with hb
      · subst hb
        refine .inr ⟨mem_cons_self, hnone, fun k' hk' => ?_⟩
        rw [hsame] at hk'
        cases hk'
        rfl
      · exact .inl hsame
    · rw [BlockPool.blockHash_insertCached] at hun
      split_ifs at hun
      exact .inr ⟨mem_cons_of_mem a hmem, hun, hgid⟩

/-- A block that two groups hold occurs twice. -/
theorem occurrences_two {n : SingleTypeKVCacheManager} {s : ReqId} {b : BlockId}
    (hm : m ∈ ms) (hn : n ∈ ms) (hid : m.kvCacheGroupId ≠ n.kvCacheGroupId)
    (hb : b ∈ m.blocksOf r) (hb' : b ∈ n.blocksOf s) : 2 ≤ occurrences ms b := by
  obtain ⟨pre, post, rfl⟩ := List.append_of_mem hm
  have hc : 1 ≤ m.tableCount b :=
    (List.count_pos_iff.mpr hb).trans_le (m.count_blocksOf_le r b)
  have hc' := List.count_pos_iff.mpr hb'
  rw [occurrences_append, occurrences_cons]
  simp only [mem_append, mem_cons] at hn
  rcases hn with hn | rfl | hn
  · have := count_blocksOf_le_occurrences hn s b
    omega
  · exact absurd rfl hid
  · have := count_blocksOf_le_occurrences hn s b
    omega

/-- **Caching**: a block that gets a hash had none, so only one group holds it. -/
theorem Grouped.cacheBlocks {r : Request} {hashes hashes' : List BlockHash} {n : Int}
    (h : Grouped p (pre ++ m :: post)) (hco : Coherent P p (pre ++ m :: post) []) (hn : 0 ≤ n)
    (hc : m.cacheBlocks p H r hashes n = .ok (m', p', hashes')) :
    Grouped p' (pre ++ m' :: post) := by
  have hmem : m ∈ pre ++ m :: post := by simp
  unfold SingleTypeKVCacheManager.cacheBlocks at hc
  cases hg : m.numCachedBlock.get? r.requestId with
  | none => simp [hg] at hc
  | some c =>
    simp only [hg] at hc
    obtain ⟨⟨q, hs⟩, h₁, h₂⟩ := bind_eq_ok.mp hc
    obtain ⟨rfl, rfl, -⟩ :
        { m with numCachedBlock := m.numCachedBlock.set r.requestId (n / m.blockSize) } = m' ∧
          q = p' ∧ hs = hashes' := by
      simpa [pure_eq_ok] using h₂
    obtain ⟨c, rfl⟩ := Int.eq_ofNat_of_zero_le (hco.numCachedBlock_nonneg m hmem _ c hg)
    obtain ⟨k, hk⟩ := Int.eq_ofNat_of_zero_le (Int.ediv_nonneg hn (Int.natCast_nonneg m.blockSize))
    rw [hk] at h₁
    rcases BlockPool.cacheFullBlocks_ok h₁ with
      ⟨-, rfl, -⟩ | ⟨-, -, prev, t, events, -, hloop, rfl, -⟩
    · intro x hx
      simp only [mem_append, mem_cons] at hx
      rcases hx with hx | rfl | hx
      · exact h x (by simp [hx])
      · exact fun id => (h m hmem id).congr rfl rfl
      · exact h x (by simp [hx])
    have hnull : t.pool.nullBlock = p.nullBlock :=
      (BlockPool.sameCounts_cacheLoop hloop).shape.nullBlock
    -- the tables are the same, whatever the manager
    have hold : ∀ x ∈ pre ++ m :: post, ∀ id, InGroup t.pool x (x.blocksOf id) := by
      intro x hx id
      refine ⟨fun b hb hz key hkey => ?_, fun hfull => hnull ▸ (h x hx id).full hfull⟩
      rw [hnull] at hz
      rcases BlockPool.cacheLoop_groups hloop b with hsame | ⟨hnew, hnone, hgid⟩
      · exact (h x hx id).groupId b hb hz key (hsame ▸ hkey)
      · rw [hgid key hkey]
        by_contra hne
        have htwo := occurrences_two hmem hx hne (List.mem_of_mem_take (List.mem_of_mem_drop hnew)) hb
        have hone := hco.shared b hz hnone
        omega
    intro x hx id
    simp only [mem_append, mem_cons] at hx
    rcases hx with hx | rfl | hx
    · exact (hold x (by simp [hx]) id).with_events _
    · exact ((hold m hmem id).with_events _).congr rfl rfl
    · exact (hold x (by simp [hx]) id).with_events _

end Tables

/-! ## Hits of full attention -/

namespace KVCacheSpec

variable {p : BlockPool} {groupIds : List Nat} {rows : List (List BlockId)}

/-- Walking along the hashes finds cached blocks. -/
theorem prefixHits_notMem {z : BlockId} {hashes : List BlockHash}
    (hcached : ∀ key, z ∉ p.cachedBlockHashToBlock.getD key [])
    (hrows : List.Forall₂ (fun (_ : Nat) l => z ∉ l) groupIds rows) :
    List.Forall₂ (fun (_ : Nat) l => z ∉ l) groupIds (prefixHits p groupIds hashes rows) := by
  induction hashes generalizing rows with
  | nil => exact hrows
  | cons h hashes ih =>
    unfold prefixHits
    split
    · exact hrows
    · exact hrows
    · rename_i row _ hrow
      refine ih (forall₂_zipWith hrows (BlockPool.getCachedBlock_ok hrow) fun g l b hl hb => ?_)
      simp only [mem_append, List.mem_singleton, not_or]
      exact ⟨hl, fun hz => hcached ⟨h, g⟩ (hz ▸ hb)⟩

theorem findLongestCacheHit_full {spec : KVCacheSpec} {z : BlockId} {hashes : List BlockHash}
    {maxLength : Int} {eagle : Bool}
    (hcached : ∀ key, z ∉ p.cachedBlockHashToBlock.getD key [])
    (h : spec.findLongestCacheHit hashes maxLength groupIds p eagle = .ok rows) :
    List.Forall₂ (fun full l => full = true → z ∉ l)
      (groupIds.map fun _ => spec.isFullAttention) rows := by
  have hlen := (findLongestCacheHit_ok h).length_eq
  cases spec with
  | fullAttention bs f w c =>
    unfold findLongestCacheHit at h
    simp only at h
    split_ifs at h with hneg
    cases h
    have hrows : List.Forall₂ (fun (_ : Nat) l => z ∉ l) groupIds (prefixHits p groupIds
        (hashes.take (maxLength / (fullAttention bs f w c).blockSize).toNat)
        (groupIds.map fun _ => [])) :=
      prefixHits_notMem hcached (forall₂_const groupIds fun _ => List.not_mem_nil)
    refine List.forall₂_map_left_iff.mpr ?_
    unfold dropLastForEagle
    split_ifs
    · exact forall₂_map hrows fun _ l hl _ hb => hl (List.mem_of_mem_dropLast hb)
    · exact hrows.imp fun _ _ hl _ => hl
  | slidingWindow | chunkedLocalAttention | mamba =>
    refine List.forall₂_map_left_iff.mpr (forall₂_iff_zip.mpr ⟨hlen, ?_⟩)
    simp [isFullAttention]

end KVCacheSpec

namespace KVCacheManager

variable {P : ReqId → Nat → BlockHash → Prop} {H : BlockHasher} {k k' : KVCacheManager}
  {rid : ReqId}

/-- The group ids of the managers. -/
def groupIds (k : KVCacheManager) : List Nat :=
  k.singleTypeManagers.map SingleTypeKVCacheManager.kvCacheGroupId

/-- Which of the groups are of full attention, in the order in which the coordinator returns the
hits. -/
def fullOrder (k : KVCacheManager) : List Bool :=
  match k.kind with
  | .noPrefixCache => (specs k.singleTypeManagers).map KVCacheSpec.isFullAttention
  | .unitary spec => [spec.isFullAttention]
  | .hybrid fullIds otherIds fullSpec otherSpec fullFirst =>
    let full := fullIds.map fun _ => fullSpec.isFullAttention
    let other := otherIds.map fun _ => otherSpec.isFullAttention
    if fullFirst then full ++ other else other ++ full

/-- **The invariant of the manager, with the groups.** -/
structure Sound (H : BlockHasher) (k : KVCacheManager) : Prop where
  fits : k.Fits (HasDepth H)
  order : k.groupOrder = k.groupIds
  full : k.fullOrder = (specs k.singleTypeManagers).map KVCacheSpec.isFullAttention
  distinct : k.groupIds.Nodup
  grouped : Grouped k.blockPool k.singleTypeManagers

theorem groupIds_of_spares {ms ms' : List SingleTypeKVCacheManager}
    (h : List.Forall₂ (SingleTypeKVCacheManager.Spares rid) ms ms') :
    ms'.map kvCacheGroupId =
      ms.map kvCacheGroupId := by
  induction h with
  | nil => rfl
  | cons hm _ ih => rw [map_cons, map_cons, hm.kvCacheGroupId, ih]

theorem inGroup_of_spares {p : BlockPool} {ms ms' : List SingleTypeKVCacheManager}
    {rows : List (List BlockId)}
    (h : List.Forall₂ (SingleTypeKVCacheManager.Spares rid) ms ms')
    (hrows : List.Forall₂ (InGroup p) ms rows) : List.Forall₂ (InGroup p) ms' rows := by
  induction h generalizing rows with
  | nil => exact hrows
  | cons hm _ ih =>
    cases hrows with
    | cons hl hls => exact .cons (hl.congr hm.kvCacheGroupId hm.kvCacheSpec) (ih hls)

/-- What is left to show for an operation on one request. -/
theorem Sound.of_actsOn (h : k.Sound H) (ha : k.ActsOn rid k') (hf : k'.Fits (HasDepth H))
    (hg : Grouped k'.blockPool k'.singleTypeManagers) : k'.Sound H := by
  have hids : k'.groupIds = k.groupIds := groupIds_of_spares ha.managers
  refine ⟨hf, ?_, ?_, hids ▸ h.distinct, hg⟩
  · rw [hids, ← h.order, groupOrder, groupOrder, ha.config.kind, ha.length_managers]
  · rw [ha.config.specs, ← h.full, fullOrder, fullOrder, ha.config.kind, ha.config.specs]

/-! ## Loops over the groups -/

theorem Sound.free (h : k.Sound H) (hf : k.free rid = .ok k') : k'.Sound H := by
  refine h.of_actsOn (actsOn_free hf) (h.fits.free hf).1 ?_
  obtain ⟨out, h₁⟩ := second_of_ok hf
  obtain ⟨⟨-, hg⟩, -⟩ := forManagers_ok
    (I := fun done rest p => Coherent (HasDepth H) p (done ++ rest) [] ∧ Grouped p (done ++ rest))
    h₁ ⟨h.fits.coherent, h.grouped⟩ (by
      rintro done m rest p _ m' p' ⟨hco, hg⟩ hm
      have h₃ := unit_of_ok hm
      obtain ⟨hco', hs⟩ := hco.free h₃
      exact ⟨by simpa using hco', by simpa using hg.free hs h₃⟩)
  simpa using hg

theorem Sound.removeSkippedBlocks (h : k.Sound H) {nc : Int}
    (hr : k.removeSkippedBlocks rid nc = .ok k') : k'.Sound H := by
  refine h.of_actsOn (actsOn_removeSkippedBlocks hr) (h.fits.removeSkippedBlocks hr).1 ?_
  obtain ⟨out, h₁⟩ := second_of_ok hr
  obtain ⟨⟨-, hg⟩, -⟩ := forManagers_ok
    (I := fun done rest p => Coherent (HasDepth H) p (done ++ rest) [] ∧ Grouped p (done ++ rest))
    h₁ ⟨h.fits.coherent, h.grouped⟩ (by
      rintro done m rest p _ m' p' ⟨hco, hg⟩ hm
      have h₃ := unit_of_ok hm
      obtain ⟨hco', hs⟩ := hco.removeSkippedBlocks h₃
      exact ⟨by simpa using hco', by simpa using hg.removeSkippedBlocks hs h₃⟩)
  simpa using hg

variable {n : Int} {hits : List (List BlockId)} {r : Request} {groups : List KVCacheSpec}
  {enableCaching : Bool}

theorem Sound.allocateNewBlocks (h : k.Sound H) {out : List (List BlockId)}
    (ha : k.allocateNewBlocks rid n = .ok (out, k')) : k'.Sound H := by
  refine h.of_actsOn (actsOn_allocateNewBlocks ha) (h.fits.allocateNewBlocks ha).1 ?_
  obtain ⟨⟨-, hg⟩, -⟩ := forManagers_ok
    (I := fun done rest p => Coherent (HasDepth H) p (done ++ rest) [] ∧ Grouped p (done ++ rest))
    ha ⟨h.fits.coherent, h.grouped⟩ (by
      rintro done m rest p a m' p' ⟨hco, hg⟩ hm
      obtain ⟨hco', -, -⟩ := hco.allocateNewBlocks hm
      exact ⟨by simpa using hco', by simpa using hg.allocateNewBlocks hco hm⟩)
  simpa using hg

/-- Touching blocks leaves their hashes alone. -/
theorem touchComputed_sameHashes {k₁ : KVCacheManager} (ht : k.touchComputed hits = .ok k₁) :
    ∃ q, k₁ = { k with blockPool := q } ∧ k.blockPool.SameHashes q := by
  unfold touchComputed at ht
  split_ifs at ht
  · obtain ⟨q, h₁, h₂⟩ := bind_eq_ok.mp ht
    cases h₂
    exact ⟨q, rfl, (BlockPool.onlyCounts_touch h₁).sameHashes⟩
  · obtain ⟨_, -, h₂⟩ := bind_eq_ok.mp ht
    cases h₂
    exact ⟨k.blockPool, rfl, .refl _⟩

theorem Sound.touchAndSave (hH : H.Lawful) (h : k.Sound H)
    (hfit : ∀ l ∈ hits, HitsFit (HasDepth H) rid k.blockPool l)
    (hof : List.Forall₂ (InGroup k.blockPool) k.singleTypeManagers hits) {k₁ : KVCacheManager}
    (ht : k.touchComputed hits = .ok k₁) (hs : k₁.saveNewComputedBlocks rid hits = .ok k') :
    k'.Sound H := by
  have hlen : hits.length = k.singleTypeManagers.length := hof.length_eq.symm
  refine h.of_actsOn (actsOn_touchAndSave hlen ht hs)
    (h.fits.touchAndSave (positional_hasDepth hH) hfit hlen ht hs).1 ?_
  obtain ⟨q, rfl, hsame⟩ := touchComputed_sameHashes ht
  obtain ⟨⟨ms, _⟩, h₁, h₂⟩ := bind_eq_ok.mp hs
  cases h₂
  have hI := mapThreadM_invariant
    (I := fun (done : List SingleTypeKVCacheManager) rest (_ : Unit) =>
      Grouped q (done ++ rest.map Prod.fst) ∧ ∀ x ∈ rest, InGroup q x.1 x.2)
    ?_ [] ?_ h₁
  · simpa using hI.1
  · rintro done ⟨m, l⟩ rest _ m' _ ⟨hg, hhits⟩ hm
    obtain ⟨m'', h₃, h₄⟩ := bind_eq_ok.mp hm
    obtain rfl : m'' = m' := by simpa [pure_eq_ok] using h₄
    have hg' := Grouped.saveNewComputedBlocks hg (hhits (m, l) mem_cons_self) h₃
    exact ⟨by simpa using hg', fun x hx => hhits x (mem_cons_of_mem _ hx)⟩
  · rw [List.map_fst_zip hlen.ge, List.nil_append]
    exact ⟨h.grouped.of_sameHashes hsame, fun x hx =>
      ((forall₂_iff_zip.mp hof).2 hx).of_sameHashes hsame⟩

theorem Sound.coordinatorCacheBlocks (hH : H.Lawful) (h : k.Sound H)
    (hcaching : k.enableCaching = true) (hn : 0 ≤ n)
    (hclean : ∀ m ∈ k.singleTypeManagers, m.CacheClean k.blockPool.nullBlock r.requestId n)
    (hc : k.coordinatorCacheBlocks H r n = .ok k') : k'.Sound H := by
  have hacts : k.ActsOn r.requestId k' := (actsOn_coordinatorCacheBlocks _ hc).1
  refine h.of_actsOn hacts
    (h.fits.coordinatorCacheBlocks hcaching hn (computes_hasDepth hH r _ _ _) hclean hc).1 ?_
  obtain ⟨⟨ms, p, hashes⟩, h₁, h₂⟩ := bind_eq_ok.mp hc
  cases h₂
  have hI := mapThreadM_invariant
    (I := fun (done : List SingleTypeKVCacheManager) rest (s : BlockPool × List BlockHash) =>
      Coherent (HasDepth H) s.1 (done ++ rest) [] ∧ Grouped s.1 (done ++ rest) ∧
      k.blockPool.SameShape s.1 ∧ Recorded (HasDepth H) r.requestId s.2 ∧
      ∀ m ∈ rest, m ∈ k.singleTypeManagers)
    ?_ [] ?_ h₁
  · simpa using hI.2.1
  · rintro done m rest ⟨p, hs⟩ m' ⟨p', hs'⟩ ⟨hco, hg, hshape, hrec, hrest⟩ hm
    obtain ⟨⟨m'', p'', hs''⟩, h₃, h₄⟩ := bind_eq_ok.mp hm
    cases h₄
    obtain ⟨hco', hrec', -, hshape'⟩ := hco.cacheBlocks
      (by rw [hshape.enableCaching, h.fits.caching, hcaching]) hrec
      (computes_hasDepth hH r _ _ _) hn
      (by rw [hshape.nullBlock]; exact hclean m (hrest m (by simp))) h₃
    exact ⟨by simpa using hco', by simpa using hg.cacheBlocks hco hn h₃, hshape.trans hshape',
      hrec', fun x hx => hrest x (mem_cons_of_mem _ hx)⟩
  · exact ⟨h.fits.coherent, h.grouped, .refl _, h.fits.recorded _, fun _ hm => hm⟩

/-! ## The interface of the scheduler -/

/-- **`allocate_slots`** with hits of the request. -/
theorem Sound.allocateSlots (hH : H.Lawful) (h : k.Sound H) {c : Int}
    {lookahead : Nat} {delay : Bool}
    (hfit : ∀ l ∈ hits, HitsFit (HasDepth H) r.requestId k.blockPool l)
    (hof : List.Forall₂ (InGroup k.blockPool) k.singleTypeManagers hits)
    (hclean : k.enableCaching = true → delay = false → k.AllocateClean r n c)
    {res : Option (List (List BlockId))}
    (ha : k.allocateSlots H r n c hits lookahead delay = .ok (res, k')) : k'.Sound H := by
  cases res with
  | none => exact h.removeSkippedBlocks (allocateSlots_none ha)
  | some new =>
    obtain ⟨k₀, k₁, k₂, k₃, h₀, h₁, h₂, h₃, hskip, hcache⟩ := allocateSlots_ok ha
    have hs₀ := h.removeSkippedBlocks h₀
    obtain ⟨-, hc₀, hsame₀, -, hclean₀⟩ := h.fits.removeSkippedBlocks h₀
    have hfit₀ : ∀ l ∈ hits, HitsFit (HasDepth H) r.requestId k₀.blockPool l :=
      fun l hl => (hfit l hl).of_sameHashes hsame₀
    have hof₀ : List.Forall₂ (InGroup k₀.blockPool) k₀.singleTypeManagers hits :=
      (inGroup_of_spares (actsOn_removeSkippedBlocks h₀).managers hof).imp
        fun m l hl => hl.of_sameHashes hsame₀
    have hlen₀ : hits.length = k₀.singleTypeManagers.length := hof₀.length_eq.symm
    have hs₂ := hs₀.touchAndSave hH hfit₀ hof₀ h₁ h₂
    obtain ⟨-, hc₂, -, hclean₂⟩ :=
      hs₀.fits.touchAndSave (positional_hasDepth hH) hfit₀ hlen₀ h₁ h₂
    have hs₃ := hs₂.allocateNewBlocks h₃
    obtain ⟨-, hc₃, -, hclean₃⟩ := hs₂.fits.allocateNewBlocks h₃
    by_cases hdone : k₀.enableCaching = false ∨ delay = true
    · rw [hskip hdone]
      exact hs₃
    · rw [not_or, Bool.not_eq_false, Bool.not_eq_true] at hdone
      obtain ⟨hn, hskips⟩ := hclean (hc₀.enableCaching ▸ hdone.1) hdone.2
      have hz₀ : k₀.blockPool.nullBlock = k.blockPool.nullBlock := hc₀.shape.nullBlock
      have hz₂ : k₂.blockPool.nullBlock = k.blockPool.nullBlock := ((hc₀.trans hc₂).shape).nullBlock
      refine hs₃.coordinatorCacheBlocks hH ?_ hn ?_ (hcache hdone.1 hdone.2)
      · rw [hc₃.enableCaching, hc₂.enableCaching]
        exact hdone.1
      · rw [hc₃.shape.nullBlock]
        exact hclean₃ _ (hz₂ ▸ hz₀ ▸ hclean₂ _ (hz₀.symm ▸ hclean₀ _ hskips))

theorem hitsFit_createEmptyBlockList (k : KVCacheManager) :
    ∀ l ∈ k.createEmptyBlockList, HitsFit P rid k.blockPool l := by
  intro l hl
  obtain ⟨m, -, rfl⟩ := mem_map.mp hl
  exact hitsFit_nil

theorem inGroup_createEmptyBlockList (k : KVCacheManager) :
    List.Forall₂ (InGroup k.blockPool) k.singleTypeManagers k.createEmptyBlockList :=
  List.forall₂_map_right_iff.mpr (List.forall₂_same.mpr fun m _ => .nil _ m)

/-- The hits of a group of full attention are cached blocks, none of them null. -/
theorem findLongestCacheHit_full {hashes : List BlockHash} {len : Int} {rows : List (List BlockId)}
    (hcached : ∀ key, k.blockPool.nullBlock ∉ k.blockPool.cachedBlockHashToBlock.getD key [])
    (h : k.findLongestCacheHit hashes n = .ok (rows, len)) :
    List.Forall₂ (fun full l => full = true → k.blockPool.nullBlock ∉ l) k.fullOrder rows := by
  unfold findLongestCacheHit at h
  unfold fullOrder
  cases hk : k.kind with
  | noPrefixCache =>
    simp only [hk, Except.ok.injEq, Prod.mk.injEq] at h
    obtain ⟨rfl, -⟩ := h
    refine List.forall₂_iff_get.mpr ⟨by simp [specs], fun i h₁ h₂ => ?_⟩
    simp
  | unitary spec =>
    simp only [hk] at h
    obtain ⟨hit, h₁, h₂⟩ := bind_eq_ok.mp h
    cases h₂
    exact KVCacheSpec.findLongestCacheHit_full hcached h₁
  | hybrid fullIds otherIds fullSpec otherSpec fullFirst =>
    simp only [hk] at h
    obtain ⟨hitFull, h₁, h₂⟩ := bind_eq_ok.mp h
    obtain ⟨hitOther, h₃, h₄⟩ := bind_eq_ok.mp h₂
    obtain ⟨_, -, h₅⟩ := bind_eq_ok.mp h₄
    cases h₅
    have hfull := KVCacheSpec.findLongestCacheHit_full hcached h₁
    have hother := KVCacheSpec.findLongestCacheHit_full hcached h₃
    have htake : List.Forall₂ (fun full l => full = true → k.blockPool.nullBlock ∉ l)
        (fullIds.map fun _ => fullSpec.isFullAttention) (hitFull.map (List.take
          ((hitOther.headD []).length * otherSpec.blockSize / fullSpec.blockSize))) :=
      List.forall₂_map_right_iff.mpr
        (hfull.imp fun _ l hl hf hb => hl hf (List.mem_of_mem_take hb))
    cases fullFirst with
    | true => exact List.rel_append htake hother
    | false => exact List.rel_append hother htake

/-- **`get_computed_blocks`**: the hits fit their request and belong to their groups. -/
theorem Sound.getComputedBlocks (hH : H.Lawful) (h : k.Sound H)
    (hg : k.getComputedBlocks H r = .ok (hits, n, k')) :
    k'.Sound H ∧ (∀ l ∈ hits, HitsFit (HasDepth H) r.requestId k'.blockPool l) ∧
      List.Forall₂ (InGroup k'.blockPool) k'.singleTypeManagers hits := by
  obtain ⟨hf, -, hpool, hms, -, hfit⟩ := h.fits.getComputedBlocks (fun _ _ => recorded_hasDepth hH) hg
  have hs : k'.Sound H := by
    have hacts : k.ActsOn r.requestId k' := actsOn_getComputedBlocks hg
    refine h.of_actsOn hacts hf ?_
    rw [hpool, hms]
    exact h.grouped
  refine ⟨hs, by rwa [hpool], ?_⟩
  rw [hpool, hms]
  unfold KVCacheManager.getComputedBlocks at hg
  split_ifs at hg
  · cases hg
    exact inGroup_createEmptyBlockList k
  · obtain ⟨hashes, -, h₂⟩ := bind_eq_ok.mp hg
    obtain ⟨⟨rows, n'⟩, h₃, h₄⟩ := bind_eq_ok.mp h₂
    obtain ⟨rfl, -, -⟩ := triple_of_ok h₄
    have hrows : KVCacheSpec.HitRows k.blockPool hashes k.groupOrder rows :=
      findLongestCacheHit_ok h₃
    have hfull : List.Forall₂ (fun full l => full = true → k.blockPool.nullBlock ∉ l)
        k.fullOrder rows := findLongestCacheHit_full (fun key hb => by
      have hkey := (h.fits.coherent.indexed.mem_cached key _).mp hb
      rw [show (k.blockPool.block k.blockPool.nullBlock).blockHash = none from
        h.fits.coherent.null_unhashed] at hkey
      cases hkey) h₃
    rw [h.order, groupIds] at hrows
    rw [h.full, specs, List.map_map] at hfull
    have hrows' := List.forall₂_map_left_iff.mp hrows
    have hfull' := List.forall₂_map_left_iff.mp hfull
    refine forall₂_iff_zip.mpr ⟨hrows'.length_eq, fun {m l} hml =>
      ⟨fun b hb hz key hkey => ?_, (forall₂_iff_zip.mp hfull').2 hml⟩⟩
    obtain ⟨i, hi⟩ := List.mem_iff_getElem?.mp hb
    obtain ⟨bh, -, hcached⟩ := (forall₂_iff_zip.mp hrows').2 hml i b hi hz
    rw [h.fits.coherent.indexed.mem_cached, hkey] at hcached
    rw [Option.some.inj hcached]

theorem Sound.cacheBlocks (hH : H.Lawful) (h : k.Sound H)
    (hclean : k.enableCaching = true → 0 ≤ n ∧ ∀ m ∈ k.singleTypeManagers,
      m.SkipClean k.blockPool.nullBlock r.requestId 0 n)
    (hc : k.cacheBlocks H r n = .ok k') : k'.Sound H := by
  unfold KVCacheManager.cacheBlocks at hc
  split_ifs at hc with hcaching
  · obtain ⟨hn, hskips⟩ := hclean hcaching
    exact h.coordinatorCacheBlocks hH hcaching hn (fun m hm => (hskips m hm).cacheClean) hc
  · cases hc
    exact h

theorem Sound.freeBlockHashes (h : k.Sound H) (rid : ReqId) : (k.freeBlockHashes rid).Sound H :=
  h.of_actsOn (actsOn_freeBlockHashes k rid rid) (h.fits.freeBlockHashes rid).1 h.grouped

theorem Sound.takeEvents (h : k.Sound H) : k.takeEvents.2.Sound H := by
  have hpool : ∃ events, k.takeEvents.2 =
      { k with blockPool := { k.blockPool with kvEventQueue := events } } := by
    unfold KVCacheManager.takeEvents BlockPool.takeEvents
    split_ifs
    · exact ⟨_, rfl⟩
    · exact ⟨k.blockPool.kvEventQueue, rfl⟩
  have hacts : k.ActsOn 0 k.takeEvents.2 := actsOn_takeEvents k 0
  obtain ⟨events, hevents⟩ := hpool
  rw [hevents] at hacts ⊢
  exact h.of_actsOn hacts (h.fits.of_sameConfig hacts.config (h.fits.coherent.with_events events)
    h.fits.recorded) fun m hm r => (h.grouped m hm r).with_events events

/-! ## The new manager -/

theorem groupIdsOf_perm (groups : List KVCacheSpec) (f : KVCacheSpec → Bool) :
    (groupIdsOf groups f ++ groupIdsOf groups fun g => !f g).Perm (range groups.length) := by
  have hneg : groupIdsOf groups (fun g => !f g) = (range groups.length).filter
      fun i => !(groups[i]?.map f).getD false := by
    refine List.filter_congr fun i hi => ?_
    rw [List.getElem?_eq_getElem (List.mem_range.mp hi)]
    rfl
  rw [hneg]
  exact List.filter_append_perm _ _

/-- The groups of the two kinds, one after the other, are all groups in their order. -/
theorem groupIdsOf_append {f g : KVCacheSpec → Bool}
    (hperm : (groupIdsOf groups f ++ groupIdsOf groups g).Perm (range groups.length))
    (h : ∀ i ∈ groupIdsOf groups f, ∀ j ∈ groupIdsOf groups g, i < j) :
    groupIdsOf groups f ++ groupIdsOf groups g = range groups.length := by
  have hsorted : ∀ f, (groupIdsOf groups f).Pairwise (· < ·) :=
    fun f => List.pairwise_lt_range.filter _
  have happ : (groupIdsOf groups f ++ groupIdsOf groups g).Pairwise (· < ·) :=
    List.pairwise_append.mpr ⟨hsorted f, hsorted g, h⟩
  exact hperm.eq_of_pairwise (fun a b _ _ hab hba => absurd hab hba.not_gt) happ
    List.pairwise_lt_range

theorem groupIds_initManagers (groups : List KVCacheSpec) :
    (initManagers groups).map kvCacheGroupId =
      range groups.length := by
  simp [initManagers, Function.comp_def, List.range_eq_range']

theorem specs_initManagers (groups : List KVCacheSpec) : specs (initManagers groups) = groups := by
  simp [specs, initManagers, Function.comp_def]

/-- What the groups of a kind have in common, in the order of the groups. -/
theorem map_groupIdsOf {f g : KVCacheSpec → Bool} {a b : Bool}
    (happ : groupIdsOf groups f ++ groupIdsOf groups g = range groups.length)
    (hf : ∀ x ∈ groups, f x = true → x.isFullAttention = a)
    (hg : ∀ x ∈ groups, g x = true → x.isFullAttention = b) :
    ((groupIdsOf groups f).map fun _ => a) ++ ((groupIdsOf groups g).map fun _ => b) =
      groups.map KVCacheSpec.isFullAttention := by
  have hall : ∀ {q : KVCacheSpec → Bool} {c : Bool},
      (∀ x ∈ groups, q x = true → x.isFullAttention = c) → ((groupIdsOf groups q).map fun _ => c) =
        (groupIdsOf groups q).map fun i => (groups[i]?.map KVCacheSpec.isFullAttention).getD false := by
    intro q c hq
    refine List.map_congr_left fun i hi => ?_
    have hqi := (mem_filter.mp hi).2
    cases hget : groups[i]? with
    | none => simp [hget] at hqi
    | some x =>
      rw [hget] at hqi
      exact (hq x (List.mem_of_getElem? hget) hqi).symm
  rw [hall hf, hall hg, ← List.map_append, happ]
  refine List.ext_getElem (by simp) fun i h₁ h₂ => ?_
  have hi : i < groups.length := by simpa using h₁
  simp [List.getElem?_eq_getElem hi]

/-- The hits come in the order of the groups. -/
theorem groupOrder_of_coordinator (hk : getKVCacheCoordinator groups enableCaching = .ok k.kind)
    (hms : k.singleTypeManagers.length = groups.length) :
    k.groupOrder = range groups.length := by
  unfold getKVCacheCoordinator at hk
  unfold groupOrder
  split_ifs at hk
  · rw [← Except.ok.inj hk]
    simp [hms]
  · split at hk
    · rw [← Except.ok.inj hk]
      rfl
    · unfold verifyAndSplitKVCacheGroups at hk
      dsimp only at hk
      split at hk
      · obtain ⟨_, -, hk⟩ := bind_eq_ok.mp hk
        obtain ⟨_, -, hk⟩ := bind_eq_ok.mp hk
        have hperm := groupIdsOf_perm groups KVCacheSpec.isFullAttention
        split_ifs at hk with hfirst hlast
        · rw [← pure_eq_ok.mp hk]
          exact groupIdsOf_append hperm hfirst
        · rw [← pure_eq_ok.mp hk]
          exact groupIdsOf_append (List.perm_append_comm.trans hperm)
            fun i hi j hj => hlast j hj i hi
      · simp at hk

/-- The groups of full attention, as the coordinator knows them. -/
theorem fullOrder_of_coordinator (hk : getKVCacheCoordinator groups enableCaching = .ok k.kind)
    (hms : specs k.singleTypeManagers = groups) :
    k.fullOrder = groups.map KVCacheSpec.isFullAttention := by
  unfold getKVCacheCoordinator at hk
  unfold fullOrder
  split_ifs at hk
  · rw [← Except.ok.inj hk, hms]
  · split at hk
    · rw [← Except.ok.inj hk]
      rfl
    · unfold verifyAndSplitKVCacheGroups at hk
      dsimp only at hk
      split at hk
      next f fs o os hfull hother =>
        obtain ⟨_, -, hk⟩ := bind_eq_ok.mp hk
        obtain ⟨_, -, hk⟩ := bind_eq_ok.mp hk
        have hf : f.isFullAttention = true :=
          (mem_filter.mp (hfull ▸ mem_cons_self : f ∈ groups.filter _)).2
        have ho : o.isFullAttention = false := Bool.eq_false_of_not_eq_true'
          (mem_filter.mp (hother ▸ mem_cons_self : o ∈ groups.filter _)).2
        have hperm := groupIdsOf_perm groups KVCacheSpec.isFullAttention
        have hisFull : ∀ x ∈ groups, x.isFullAttention = true →
            x.isFullAttention = f.isFullAttention := fun x _ hx => hx.trans hf.symm
        have hisOther : ∀ x ∈ groups, (!x.isFullAttention) = true →
            x.isFullAttention = o.isFullAttention := fun x _ hx => by simpa [ho] using hx
        split_ifs at hk with hfirst hlast
        · rw [← pure_eq_ok.mp hk]
          exact map_groupIdsOf (groupIdsOf_append hperm hfirst) hisFull hisOther
        · rw [← pure_eq_ok.mp hk]
          exact map_groupIdsOf (groupIdsOf_append (List.perm_append_comm.trans hperm)
            fun i hi j hj => hlast j hj i hi) hisOther hisFull
      next => simp at hk

/-- **The new manager.** -/
theorem sound_init {config : KVCacheConfig} {maxModelLen : Nat} {useEagle events : Bool}
    (h : KVCacheManager.init config maxModelLen enableCaching useEagle events = .ok k) :
    k.Sound H := by
  have hfits : k.Fits (HasDepth H) := fits_init h
  obtain ⟨_, -, h⟩ := bind_eq_ok.mp h
  obtain ⟨kind, hkind, h⟩ := bind_eq_ok.mp h
  obtain ⟨pool, -, h⟩ := bind_eq_ok.mp h
  cases h
  have hids := groupIds_initManagers config.kvCacheGroups
  refine ⟨hfits, ?_, ?_, ?_, fun m hm r => ?_⟩
  · rw [groupIds, hids]
    exact groupOrder_of_coordinator hkind (by simp [initManagers])
  · rw [specs_initManagers]
    exact fullOrder_of_coordinator hkind (specs_initManagers config.kvCacheGroups)
  · rw [groupIds, hids]
    exact List.nodup_range
  · obtain ⟨⟨g, i⟩, -, rfl⟩ := mem_map.mp hm
    exact .nil _ _

/-! ## References -/

variable {m n : SingleTypeKVCacheManager} {b : BlockId}

/-- A block in a table of one group is in no table of another. -/
theorem Sound.groupId_eq (h : k.Sound H) {s : ReqId} (hm : m ∈ k.singleTypeManagers)
    (hn : n ∈ k.singleTypeManagers) (hb : b ∈ m.blocksOf rid) (hb' : b ∈ n.blocksOf s)
    (hz : b ≠ k.blockPool.nullBlock) : m.kvCacheGroupId = n.kvCacheGroupId := by
  cases hhash : (k.blockPool.block b).blockHash with
  | none =>
    by_contra hne
    have htwo := occurrences_two hm hn hne hb hb'
    have hone := h.fits.coherent.shared b hz hhash
    omega
  | some key =>
    rw [← (h.grouped m hm rid).groupId b hb hz key hhash,
      (h.grouped n hn s).groupId b hb' hz key hhash]

/-- **The references to a block of a table are from the tables of its group.** -/
theorem Sound.refCnt (h : k.Sound H) (hm : m ∈ k.singleTypeManagers) (hb : b ∈ m.blocksOf rid)
    (hz : b ≠ k.blockPool.nullBlock) : (k.blockPool.block b).refCnt = m.tableCount b := by
  obtain ⟨free, ha⟩ := h.fits.coherent.accounts
  have hrefs := ha.refCnt b hz
  obtain ⟨pre, post, hms⟩ := List.append_of_mem hm
  have hzero : ∀ ns, ns ⊆ k.singleTypeManagers → (∀ n ∈ ns, m.kvCacheGroupId ≠ n.kvCacheGroupId) →
      occurrences ns b = 0 := by
    intro ns hsub hne
    by_contra hocc
    obtain ⟨s, i, n, hn, hi⟩ := exists_heldAt hocc
    exact hne n hn (h.groupId_eq hm (hsub hn) hb (List.mem_of_getElem? hi) hz)
  have hdistinct := h.distinct
  rw [groupIds, hms, List.map_append, map_cons, List.nodup_append, List.nodup_cons] at hdistinct
  obtain ⟨-, ⟨hpost, -⟩, hpre⟩ := hdistinct
  rw [hrefs, hms, occurrences_append, occurrences_cons, hzero pre ?_ ?_, hzero post ?_ ?_]
  · simp
  · exact fun n hn => by simp [hms, hn]
  · rintro n hn heq
    exact hpost (mem_map.mpr ⟨n, hn, heq.symm⟩)
  · exact fun n hn => by simp [hms, hn]
  · rintro n hn heq
    exact hpre _ (List.mem_map_of_mem hn) _ mem_cons_self heq.symm

end KVCacheManager

/-- Elements that count at most once are as many as those that count. -/
theorem sum_le_length_filter {α : Type} {f : α → Nat} {p : α → Bool} {l : List α}
    (hone : ∀ a ∈ l, f a ≤ 1) (hp : ∀ a ∈ l, f a ≠ 0 → p a = true) :
    (l.map f).sum ≤ (l.filter p).length := by
  induction l with
  | nil => simp
  | cons a l ih =>
    have ih := ih (fun x hx => hone x (mem_cons_of_mem a hx))
      fun x hx => hp x (mem_cons_of_mem a hx)
    have h1 := hone a mem_cons_self
    have hpa := hp a mem_cons_self
    rw [map_cons, List.sum_cons, List.filter_cons]
    split_ifs with hpos
    · rw [List.length_cons]
      omega
    · have h0 : f a = 0 := by
        by_contra hne
        exact hpos (hpa hne)
      omega

/-- A block that a group holds at most once for a request is counted once for every holder. -/
theorem SingleTypeKVCacheManager.tableCount_le {m : SingleTypeKVCacheManager} {b : BlockId}
    {ids : List ReqId} (hone : ∀ r, (m.blocksOf r).count b ≤ 1)
    (hids : ∀ r, b ∈ m.blocksOf r → r ∈ ids) :
    m.tableCount b ≤ (ids.filter fun r => b ∈ m.blocksOf r).length := by
  have hentry : ∀ e ∈ m.reqToBlocks.entries, m.blocksOf e.1 = e.2 := fun e he =>
    Dict.getD_of_get? (Dict.get?_eq_some_iff.mpr he)
  have hsum : m.tableCount b ≤ (m.reqToBlocks.entries.filter fun e => b ∈ e.2).length := by
    refine sum_le_length_filter (fun e he => ?_) fun e he hne => ?_
    · exact hentry e he ▸ hone e.1
    · simpa using List.count_pos_iff.mp (Nat.pos_of_ne_zero hne)
  have hnodup : ((m.reqToBlocks.entries.filter fun e => b ∈ e.2).map Prod.fst).Nodup :=
    m.reqToBlocks.nodup.sublist (List.filter_sublist.map Prod.fst)
  have hsub : (m.reqToBlocks.entries.filter fun e => b ∈ e.2).map Prod.fst ⊆
      ids.filter fun r => b ∈ m.blocksOf r := by
    intro r hr
    obtain ⟨e, he, rfl⟩ := mem_map.mp hr
    obtain ⟨he, hb⟩ := mem_filter.mp he
    have hb' : b ∈ m.blocksOf e.1 := by
      rw [hentry e he]
      simpa using hb
    exact mem_filter.mpr ⟨hids e.1 hb', by simpa using hb'⟩
  have hle := (hnodup.subperm hsub).length_le
  rw [List.length_map] at hle
  exact hsum.trans hle

end InferenceServer
