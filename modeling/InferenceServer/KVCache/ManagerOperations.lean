import InferenceServer.KVCache.CacheHits

/-!
# What the KV cache manager keeps

`KVCacheManager.Fits P k` is the invariant of the manager: its tables are coherent with the pool,
and the block hashes remembered for the requests fit them. The methods are loops over the
managers of one type, in which the pool is threaded; `forManagers_ok` is the rule for such a
loop.

`allocate_slots` runs four of these loops one after the other: it gives up skipped blocks, enters
the touched hits, adds new blocks and caches the full ones. `AllocateClean` is the condition on
the call under which the last loop meets no null block.

## Main results

* `Fits.getComputedBlocks`, `Fits.allocateSlots`, `Fits.cacheBlocks`, `Fits.free`,
  `Fits.freeBlockHashes`, `Fits.resetPrefixCache`
-/

namespace InferenceServer

open Outcome

namespace SingleTypeKVCacheManager

variable {m m' : SingleTypeKVCacheManager} {p p' : BlockPool} {r : ReqId}

/-- **No block to be cached is null**, or among the first `skipped` blocks of the table. -/
def SkipClean (z : BlockId) (r : ReqId) (skipped numTokens : Int) (m : SingleTypeKVCacheManager) :
    Prop :=
  match m.numCachedBlock.get? r with
  | none => True
  | some c => ∀ i < (m.blocksOf r).length, c ≤ (i : Int) → (i : Int) < numTokens / m.blockSize →
      skipped ≤ i ∧ (m.blocksOf r)[i]? ≠ some z

instance (z : BlockId) (r : ReqId) (s n : Int) : Decidable (SkipClean z r s n m) := by
  unfold SkipClean
  split <;> infer_instance

variable {z : BlockId} {n : Int}

theorem SkipClean.cacheClean {s : Int} (h : SkipClean z r s n m) :
    CacheClean z r n m := by
  intro c hc i hi hn heq
  unfold SkipClean at h
  simp only [hc] at h
  exact (h i (List.getElem?_eq_some_iff.mp heq).1 hi hn).2 heq

theorem free_spec (h : m.free p r = .ok (m', p')) : m'.kvCacheSpec = m.kvCacheSpec := by
  obtain ⟨q, -, h₂⟩ := bind_eq_ok.mp h
  cases h₂
  rfl

theorem removeSkippedBlocks_spec {nc : Int} (h : m.removeSkippedBlocks p r nc = .ok (m', p')) :
    m'.kvCacheSpec = m.kvCacheSpec := by
  rcases removeSkippedBlocks_ok h with ⟨rfl, -⟩ | ⟨_, _, _, -, -, -, rfl⟩ <;> rfl

theorem removeSkippedBlocks_clean {nc : Int} (h : m.removeSkippedBlocks p r nc = .ok (m', p'))
    (hc : SkipClean p.nullBlock r ((m.numSkippedBlocks r nc).getD 0) n m) :
    CacheClean p.nullBlock r n m' := by
  rcases removeSkippedBlocks_ok h with ⟨rfl, -, -⟩ | ⟨s, removed, blocks, hs, hskip, -, rfl⟩
  · exact hc.cacheClean
  · obtain ⟨hlen, -, -, hge⟩ := skipLoop_ok hskip
    rw [hs] at hc
    intro c hcc i hi hn heq
    have hblocks : ({ m with reqToBlocks := m.reqToBlocks.set r blocks } :
        SingleTypeKVCacheManager).blocksOf r = blocks := Dict.getD_set_self
    rw [hblocks] at heq
    have hlt := (List.getElem?_eq_some_iff.mp heq).1
    unfold SkipClean at hc
    simp only [show m.numCachedBlock.get? r = some c from hcc] at hc
    obtain ⟨h₁, h₂⟩ := hc i (by omega) hi hn
    simp only [Option.getD_some] at h₁
    rw [hge i (by omega)] at heq
    exact h₂ heq

theorem allocateNewBlocks_spec {new : List BlockId}
    (h : m.allocateNewBlocks p r n = .ok (new, m', p')) : m'.kvCacheSpec = m.kvCacheSpec := by
  rcases allocateNewBlocks_ok h with ⟨-, rfl, -, -⟩ | ⟨-, -, rfl⟩ <;> rfl

theorem allocateNewBlocks_clean {n' : Int} {new : List BlockId}
    (h : m.allocateNewBlocks p r n = .ok (new, m', p')) (hz : z ∉ new)
    (hc : CacheClean z r n' m) : CacheClean z r n' m' := by
  rcases allocateNewBlocks_ok h with ⟨-, rfl, -, -⟩ | ⟨-, -, rfl⟩
  · exact hc
  · intro c hcc i hi hn heq
    have hblocks : ({ m with reqToBlocks := m.reqToBlocks.set r (m.blocksOf r ++ new) } :
        SingleTypeKVCacheManager).blocksOf r = m.blocksOf r ++ new := Dict.getD_set_self
    rw [hblocks, List.getElem?_append] at heq
    split_ifs at heq
    · exact hc c hcc i hi hn heq
    · exact hz (List.mem_of_getElem? heq)

theorem saveNewComputedBlocks_spec {hits : List BlockId}
    (h : m.saveNewComputedBlocks r hits = .ok m') : m'.kvCacheSpec = m.kvCacheSpec := by
  rcases saveNewComputedBlocks_ok h with ⟨-, -, rfl⟩ | ⟨-, -, rfl⟩ <;> rfl

theorem saveNewComputedBlocks_clean {hits : List BlockId}
    (h : m.saveNewComputedBlocks r hits = .ok m') (hc : CacheClean z r n m) :
    CacheClean z r n m' := by
  rcases saveNewComputedBlocks_ok h with ⟨-, -, rfl⟩ | ⟨-, -, rfl⟩
  · exact hc
  · -- all blocks of the new table are cached
    intro c hcc i hi _ heq
    have hblocks : ({ m with
        reqToBlocks := m.reqToBlocks.set r hits
        numCachedBlock := m.numCachedBlock.set r hits.length } :
        SingleTypeKVCacheManager).blocksOf r = hits := Dict.getD_set_self
    rw [hblocks] at heq
    have hlt := (List.getElem?_eq_some_iff.mp heq).1
    obtain rfl : (hits.length : Int) = c := by simpa using hcc
    omega

theorem cacheBlocks_spec {H : BlockHasher} {r : Request} {hashes hashes' : List BlockHash}
    (h : m.cacheBlocks p H r hashes n = .ok (m', p', hashes')) :
    m'.kvCacheSpec = m.kvCacheSpec := by
  unfold cacheBlocks at h
  split at h
  · simp at h
  · obtain ⟨⟨q, hs⟩, -, h₂⟩ := bind_eq_ok.mp h
    cases h₂
    rfl

end SingleTypeKVCacheManager

namespace KVCacheManager

variable {P Q : ReqId → Nat → BlockHash → Prop} {k k' : KVCacheManager} {H : BlockHasher}

/-- The specs of the groups. -/
def specs (ms : List SingleTypeKVCacheManager) : List KVCacheSpec :=
  ms.map SingleTypeKVCacheManager.kvCacheSpec

theorem specs_step {done rest : List SingleTypeKVCacheManager} {m m' : SingleTypeKVCacheManager}
    (h : m'.kvCacheSpec = m.kvCacheSpec) : specs (done ++ [m'] ++ rest) = specs (done ++ m :: rest) := by
  simp [specs, h]

theorem length_eq_of_specs {ms ms' : List SingleTypeKVCacheManager} (h : specs ms' = specs ms) :
    ms'.length = ms.length := by
  simpa [specs] using congrArg List.length h

/-- **The invariant of the manager.** -/
structure Fits (P : ReqId → Nat → BlockHash → Prop) (k : KVCacheManager) : Prop where
  coherent : Coherent P k.blockPool k.singleTypeManagers []
  recorded : ∀ r, Recorded P r (k.reqToBlockHashes.getD r [])
  caching : k.blockPool.enableCaching = k.enableCaching
  groups : k.groupOrder.length = k.singleTypeManagers.length
  blockSizes : k.enableCaching = true → ∀ g ∈ specs k.singleTypeManagers, g.blockSize = k.blockSize

theorem Fits.mono (h : k.Fits P) (hPQ : ∀ r i b, P r i b → Q r i b) : k.Fits Q :=
  ⟨h.coherent.mono hPQ, fun r i b hb => hPQ _ _ _ (h.recorded r i b hb), h.caching, h.groups,
    h.blockSizes⟩

/-- `k'` is `k` with other tables and another pool, of the same shape. -/
structure SameConfig (k k' : KVCacheManager) : Prop where
  maxModelLen : k'.maxModelLen = k.maxModelLen
  enableCaching : k'.enableCaching = k.enableCaching
  useEagle : k'.useEagle = k.useEagle
  blockSize : k'.blockSize = k.blockSize
  kind : k'.kind = k.kind
  specs : specs k'.singleTypeManagers = specs k.singleTypeManagers
  shape : k.blockPool.SameShape k'.blockPool

theorem SameConfig.refl (k : KVCacheManager) : SameConfig k k :=
  ⟨rfl, rfl, rfl, rfl, rfl, rfl, .refl _⟩

theorem SameConfig.trans {k₁ k₂ k₃ : KVCacheManager} (h : SameConfig k₁ k₂)
    (h' : SameConfig k₂ k₃) : SameConfig k₁ k₃ :=
  ⟨h'.maxModelLen.trans h.maxModelLen, h'.enableCaching.trans h.enableCaching,
    h'.useEagle.trans h.useEagle, h'.blockSize.trans h.blockSize, h'.kind.trans h.kind,
    h'.specs.trans h.specs, h.shape.trans h'.shape⟩

theorem SameConfig.length_groupOrder (h : SameConfig k k') :
    k'.groupOrder.length = k.groupOrder.length := by
  unfold groupOrder
  rw [h.kind, length_eq_of_specs h.specs]

/-- The parts of the invariant that follow from the configuration. -/
theorem Fits.of_sameConfig (h : k.Fits P) (hs : SameConfig k k')
    (hco : Coherent P k'.blockPool k'.singleTypeManagers [])
    (hrec : ∀ r, Recorded P r (k'.reqToBlockHashes.getD r [])) : k'.Fits P where
  coherent := hco
  recorded := hrec
  caching := by rw [hs.shape.enableCaching, h.caching, hs.enableCaching]
  groups := by rw [hs.length_groupOrder, h.groups, length_eq_of_specs hs.specs]
  blockSizes hc g hg := by
    rw [hs.blockSize]
    exact h.blockSizes (hs.enableCaching ▸ hc) g (hs.specs ▸ hg)

/-! ## Loops over the managers -/

/-- **The rule for a loop over the managers**: `I` holds of the managers that are done, the ones
that are left and the pool. -/
theorem forManagers_ok {α : Type} {f : SingleTypeKVCacheManager → BlockPool →
      Except PyError (α × SingleTypeKVCacheManager × BlockPool)}
    {I : List SingleTypeKVCacheManager → List SingleTypeKVCacheManager → BlockPool → Prop}
    {out : List α} (h : k.forManagers f = .ok (out, k'))
    (h0 : I [] k.singleTypeManagers k.blockPool)
    (hstep : ∀ done m rest p a m' p', I done (m :: rest) p → f m p = .ok (a, m', p') →
      I (done ++ [m']) rest p') :
    I k'.singleTypeManagers [] k'.blockPool ∧
      k' = { k with singleTypeManagers := k'.singleTypeManagers, blockPool := k'.blockPool } := by
  obtain ⟨⟨out', p⟩, h₁, h₂⟩ := bind_eq_ok.mp h
  cases h₂
  refine ⟨?_, rfl⟩
  have hI := mapThreadM_invariant
    (I := fun (done : List (α × SingleTypeKVCacheManager)) rest p =>
      I (done.map Prod.snd) rest p) ?_ [] h0 h₁
  · simpa using hI
  · rintro done m rest p ⟨a, m'⟩ p' hI hf
    obtain ⟨⟨a', m'', p''⟩, h₃, h₄⟩ := bind_eq_ok.mp hf
    obtain ⟨⟨rfl, rfl⟩, rfl⟩ : (a' = a ∧ m'' = m') ∧ p'' = p' := by simpa [pure_eq_ok] using h₄
    simpa using hstep _ _ _ _ _ _ _ hI h₃

/-- **`free`** of all groups. -/
theorem Fits.free (h : k.Fits P) {r : ReqId} (hf : k.free r = .ok k') :
    k'.Fits P ∧ SameConfig k k' := by
  obtain ⟨out, h₁⟩ := second_of_ok hf
  obtain ⟨⟨hco, hspec, hshape⟩, hk⟩ := forManagers_ok
    (I := fun done rest p => Coherent P p (done ++ rest) [] ∧
      specs (done ++ rest) = specs k.singleTypeManagers ∧ k.blockPool.SameShape p)
    h₁ ⟨h.coherent, rfl, .refl _⟩ (by
      rintro done m rest p _ m' p' ⟨hco, hspec, hshape⟩ hm
      have h₃ := unit_of_ok hm
      obtain ⟨hco', hs⟩ := hco.free h₃
      exact ⟨by simpa using hco', (specs_step (SingleTypeKVCacheManager.free_spec h₃)).trans hspec,
        hshape.trans hs.shape⟩)
  rw [List.append_nil] at hco hspec
  have hsc : SameConfig k k' := by
    rw [hk]
    exact ⟨rfl, rfl, rfl, rfl, rfl, hspec, hshape⟩
  exact ⟨h.of_sameConfig hsc hco (by rw [hk]; exact h.recorded), hsc⟩

/-- **`remove_skipped_blocks`** of all groups: the hashes stay, and a table that was clean with
respect to the skipped blocks is clean afterwards. -/
theorem Fits.removeSkippedBlocks (h : k.Fits P) {r : ReqId} {nc : Int}
    (hr : k.removeSkippedBlocks r nc = .ok k') :
    k'.Fits P ∧ SameConfig k k' ∧ k.blockPool.SameHashes k'.blockPool ∧
      k'.reqToBlockHashes = k.reqToBlockHashes ∧
      ∀ n, (∀ m ∈ k.singleTypeManagers, m.SkipClean k.blockPool.nullBlock r
          ((m.numSkippedBlocks r nc).getD 0) n) →
        ∀ m ∈ k'.singleTypeManagers, m.CacheClean k.blockPool.nullBlock r n := by
  obtain ⟨out, h₁⟩ := second_of_ok hr
  obtain ⟨⟨hco, hspec, hsame, -, hclean⟩, hk⟩ := forManagers_ok
    (I := fun done rest p => Coherent P p (done ++ rest) [] ∧
      specs (done ++ rest) = specs k.singleTypeManagers ∧ k.blockPool.SameHashes p ∧
      (∀ m ∈ rest, m ∈ k.singleTypeManagers) ∧
      ∀ n, (∀ m ∈ k.singleTypeManagers, m.SkipClean k.blockPool.nullBlock r
          ((m.numSkippedBlocks r nc).getD 0) n) →
        ∀ m ∈ done, m.CacheClean k.blockPool.nullBlock r n)
    h₁ ⟨h.coherent, rfl, .refl _, fun _ hm => hm, by simp⟩ (by
      rintro done m rest p _ m' p' ⟨hco, hspec, hsame, hrest, hclean⟩ hm
      have h₃ := unit_of_ok hm
      obtain ⟨hco', hs⟩ := hco.removeSkippedBlocks h₃
      refine ⟨by simpa using hco',
        (specs_step (SingleTypeKVCacheManager.removeSkippedBlocks_spec h₃)).trans hspec,
        hsame.trans hs, fun n hn => hrest n (List.mem_cons_of_mem _ hn), fun n hn x hx => ?_⟩
      rcases List.mem_append.mp hx with hx | hx
      · exact hclean n hn x hx
      · obtain rfl := List.mem_singleton.mp hx
        have hz := hsame.shape.nullBlock
        exact hz ▸ SingleTypeKVCacheManager.removeSkippedBlocks_clean h₃
          (hz.symm ▸ hn m (hrest m (by simp))))
  rw [List.append_nil] at hco hspec
  have hsc : SameConfig k k' := by
    rw [hk]
    exact ⟨rfl, rfl, rfl, rfl, rfl, hspec, hsame.shape⟩
  exact ⟨h.of_sameConfig hsc hco (by rw [hk]; exact h.recorded), hsc, hsame, by rw [hk], hclean⟩

variable {r : Request} {n : Int} {hits : List (List BlockId)}

/-- **`allocate_new_blocks`** of all groups. -/
theorem Fits.allocateNewBlocks (h : k.Fits P) {r : ReqId} {out : List (List BlockId)}
    (ha : k.allocateNewBlocks r n = .ok (out, k')) :
    k'.Fits P ∧ SameConfig k k' ∧ k'.reqToBlockHashes = k.reqToBlockHashes ∧
      ∀ t, (∀ m ∈ k.singleTypeManagers, m.CacheClean k.blockPool.nullBlock r t) →
        ∀ m ∈ k'.singleTypeManagers, m.CacheClean k.blockPool.nullBlock r t := by
  obtain ⟨⟨hco, hspec, hshape, hclean⟩, hk⟩ := forManagers_ok
    (I := fun done rest p => Coherent P p (done ++ rest) [] ∧
      specs (done ++ rest) = specs k.singleTypeManagers ∧ k.blockPool.SameShape p ∧
      ∀ t, (∀ m ∈ k.singleTypeManagers, m.CacheClean k.blockPool.nullBlock r t) →
        ∀ m ∈ done ++ rest, m.CacheClean k.blockPool.nullBlock r t)
    ha ⟨h.coherent, rfl, .refl _, fun t ht m hm => ht m (by simpa using hm)⟩ (by
      rintro done m rest p a m' p' ⟨hco, hspec, hshape, hclean⟩ hm
      obtain ⟨hco', hs, hnot⟩ := hco.allocateNewBlocks hm
      refine ⟨by simpa using hco',
        (specs_step (SingleTypeKVCacheManager.allocateNewBlocks_spec hm)).trans hspec,
        hshape.trans hs, fun t ht x hx => ?_⟩
      rw [hshape.nullBlock] at hnot
      have hcl := hclean t ht
      simp only [List.append_assoc, List.singleton_append, List.mem_append, List.mem_cons] at hx hcl
      rcases hx with hx | rfl | hx
      · exact hcl x (.inl hx)
      · exact SingleTypeKVCacheManager.allocateNewBlocks_clean hm hnot (hcl m (.inr (.inl rfl)))
      · exact hcl x (.inr (.inr hx)))
  rw [List.append_nil] at hco hspec hclean
  have hsc : SameConfig k k' := by
    rw [hk]
    exact ⟨rfl, rfl, rfl, rfl, rfl, hspec, hshape⟩
  exact ⟨h.of_sameConfig hsc hco (by rw [hk]; exact h.recorded), hsc, by rw [hk], hclean⟩

/-- **Touching the hits and entering them into the tables.** -/
theorem Fits.touchAndSave (h : k.Fits P) (hP : Positional P) {r : ReqId}
    (hfit : ∀ l ∈ hits, HitsFit P r k.blockPool l)
    (hlen : hits.length = k.singleTypeManagers.length) {k₁ : KVCacheManager}
    (ht : k.touchComputed hits = .ok k₁) (hs : k₁.saveNewComputedBlocks r hits = .ok k') :
    k'.Fits P ∧ SameConfig k k' ∧ k'.reqToBlockHashes = k.reqToBlockHashes ∧
      ∀ t, (∀ m ∈ k.singleTypeManagers, m.CacheClean k.blockPool.nullBlock r t) →
        ∀ m ∈ k'.singleTypeManagers, m.CacheClean k.blockPool.nullBlock r t := by
  -- after the first loop, the hits are referenced and not yet in a table
  obtain ⟨q, rfl, hco, hsame⟩ : ∃ q, k₁ = { k with blockPool := q } ∧
      Coherent P q k.singleTypeManagers hits.flatten ∧ k.blockPool.SameHashes q := by
    unfold touchComputed at ht
    split_ifs at ht with hcaching
    · obtain ⟨q, h₁, h₂⟩ := bind_eq_ok.mp ht
      cases h₂
      obtain ⟨free, ha⟩ := h.coherent.accounts
      obtain ⟨free', ha', hsame⟩ := ha.touchBlocks h₁
      refine ⟨q, rfl, ⟨⟨free', ha'.congr fun b _ => by simp⟩, hsame.indexed h.coherent.indexed,
        hsame.unhashed h.coherent.unhashed, ?_, ?_, ?_, ?_, ?_,
        h.coherent.numCachedBlock_nonneg⟩, hsame⟩
      · rw [hsame.shape.nullBlock, hsame.shape.numGpuBlocks]
        exact h.coherent.null_lt
      · rw [hsame.shape.nullBlock, hsame.blockHash]
        exact h.coherent.null_unhashed
      · intro s i t j b hb
        exact h.coherent.position s i t j b (hsame.shape.nullBlock ▸ hb)
      · intro s i b c hi hc
        exact h.coherent.hashed s i b c hi (by rw [← hsame.blockHash, hc])
      · intro b hb hc
        exact h.coherent.shared b (hsame.shape.nullBlock ▸ hb) (by rw [← hsame.blockHash, hc])
    · obtain ⟨_, h₁, h₂⟩ := bind_eq_ok.mp ht
      cases h₂
      have hnil : hits.flatten = [] := List.flatten_eq_nil_iff.mpr (by simpa using h₁)
      exact ⟨k.blockPool, rfl, by rw [hnil]; exact h.coherent, .refl _⟩
  obtain ⟨⟨ms, _⟩, h₁, h₂⟩ := bind_eq_ok.mp hs
  cases h₂
  have hI := mapThreadM_invariant
    (I := fun (done : List SingleTypeKVCacheManager) rest (_ : Unit) =>
      Coherent P q (done ++ rest.map Prod.fst) (rest.map Prod.snd).flatten ∧
      specs (done ++ rest.map Prod.fst) = specs k.singleTypeManagers ∧
      (∀ l ∈ rest.map Prod.snd, HitsFit P r q l) ∧
      ∀ t, (∀ m ∈ k.singleTypeManagers, m.CacheClean k.blockPool.nullBlock r t) →
        ∀ m ∈ done ++ rest.map Prod.fst, m.CacheClean k.blockPool.nullBlock r t)
    ?_ [] ?_ h₁
  · obtain ⟨hco', hspec, -, hclean⟩ := hI
    simp only [List.nil_append, List.map_nil, List.append_nil, List.flatten_nil] at hco' hspec hclean
    have hsc : SameConfig k { k with blockPool := q, singleTypeManagers := ms } :=
      ⟨rfl, rfl, rfl, rfl, rfl, hspec, hsame.shape⟩
    exact ⟨h.of_sameConfig hsc hco' h.recorded, hsc, rfl, hclean⟩
  · rintro done ⟨m, l⟩ rest _ m' _ ⟨hco, hspec, hfit, hclean⟩ hm
    obtain ⟨m'', h₃, h₄⟩ := bind_eq_ok.mp hm
    obtain rfl : m'' = m' := by simpa [pure_eq_ok] using h₄
    simp only [List.map_cons, List.flatten_cons] at hco hspec hfit hclean
    refine ⟨?_, ?_, fun l' hl' => hfit l' (List.mem_cons_of_mem _ hl'), fun t ht x hx => ?_⟩
    · simpa using hco.saveNewComputedBlocks hP (hfit l (by simp)) h₃
    · exact (specs_step (SingleTypeKVCacheManager.saveNewComputedBlocks_spec h₃)).trans hspec
    · have hcl := hclean t ht
      simp only [List.append_assoc, List.singleton_append, List.mem_append, List.mem_cons] at hx hcl
      rcases hx with hx | rfl | hx
      · exact hcl x (.inl hx)
      · exact SingleTypeKVCacheManager.saveNewComputedBlocks_clean h₃ (hcl m (.inr (.inl rfl)))
      · exact hcl x (.inr (.inr hx))
  · rw [List.map_fst_zip hlen.ge, List.map_snd_zip hlen.le]
    refine ⟨by simpa using hco, by simp, fun l hl => (hfit l hl).of_sameHashes hsame, ?_⟩
    intro t ht m hm
    exact ht m (by simpa using hm)

/-- **`cache_blocks`** of all groups, which share the block hashes of the request. -/
theorem Fits.coordinatorCacheBlocks (h : k.Fits P) (hcaching : k.enableCaching = true) (hn : 0 ≤ n)
    (hcomp : Computes P H r k.blockSize (k.reqToBlockHashes.getD r.requestId []).length
      (n / k.blockSize).toNat) (hclean : ∀ m ∈ k.singleTypeManagers,
      m.CacheClean k.blockPool.nullBlock r.requestId n)
    (hc : k.coordinatorCacheBlocks H r n = .ok k') : k'.Fits P ∧ SameConfig k k' := by
  obtain ⟨⟨ms, p, hashes⟩, h₁, h₂⟩ := bind_eq_ok.mp hc
  cases h₂
  have hI := mapThreadM_invariant
    (I := fun (done : List SingleTypeKVCacheManager) rest (s : BlockPool × List BlockHash) =>
      Coherent P s.1 (done ++ rest) [] ∧ specs (done ++ rest) = specs k.singleTypeManagers ∧
      k.blockPool.SameShape s.1 ∧ Recorded P r.requestId s.2 ∧
      (k.reqToBlockHashes.getD r.requestId []).length ≤ s.2.length ∧
      ∀ m ∈ rest, m ∈ k.singleTypeManagers)
    ?_ [] ?_ h₁
  · obtain ⟨hco, hspec, hshape, hrec, -, -⟩ := hI
    rw [List.append_nil, List.nil_append] at hco hspec
    have hsc : SameConfig k { k with
        singleTypeManagers := ms
        blockPool := p
        reqToBlockHashes := k.reqToBlockHashes.set r.requestId hashes } :=
      ⟨rfl, rfl, rfl, rfl, rfl, hspec, hshape⟩
    refine ⟨h.of_sameConfig hsc hco fun s => ?_, hsc⟩
    rw [Dict.getD_set]
    split_ifs with hs
    · exact hs ▸ hrec
    · exact h.recorded s
  · rintro done m rest ⟨p, hs⟩ m' ⟨p', hs'⟩ ⟨hco, hspec, hshape, hrec, hle, hrest⟩ hm
    obtain ⟨⟨m'', p'', hs''⟩, h₃, h₄⟩ := bind_eq_ok.mp hm
    cases h₄
    have hmk : m ∈ k.singleTypeManagers := hrest m (by simp)
    have hbs : m.blockSize = k.blockSize :=
      h.blockSizes hcaching _ (List.mem_map_of_mem (f := SingleTypeKVCacheManager.kvCacheSpec) hmk)
    obtain ⟨hco', hrec', hpre, hshape'⟩ := hco.cacheBlocks
      (by rw [hshape.enableCaching, h.caching, hcaching]) hrec (by rw [hbs]; exact hcomp.mono hle) hn
      (by rw [hshape.nullBlock]; exact hclean m hmk) h₃
    exact ⟨by simpa using hco', (specs_step (SingleTypeKVCacheManager.cacheBlocks_spec h₃)).trans hspec,
      hshape.trans hshape', hrec', hle.trans hpre.length_le,
      fun x hx => hrest x (List.mem_cons_of_mem _ hx)⟩
  · exact ⟨h.coherent, rfl, .refl _, h.recorded _, le_rfl, fun _ hm => hm⟩

/-! ## The interface of the scheduler -/

/-- The number of tokens that `allocate_slots` caches. -/
def numTokensToCache (r : Request) (numNewTokens numNewComputedTokens : Int) : Int :=
  min (r.numComputedTokens + numNewComputedTokens + numNewTokens) r.numTokens

/-- The number of blocks that are full after `allocate_slots`. -/
def numFullBlocks (k : KVCacheManager) (r : Request) (numNewTokens numNewComputedTokens : Int) :
    Nat :=
  (numTokensToCache r numNewTokens numNewComputedTokens / k.blockSize).toNat

/-- **The blocks that `allocate_slots` is about to cache do not include the null block**: none
of them is null, or skipped by this call, and the number of tokens is not negative. -/
def AllocateClean (k : KVCacheManager) (r : Request) (numNewTokens numNewComputedTokens : Int) :
    Prop :=
  let n := numTokensToCache r numNewTokens numNewComputedTokens
  0 ≤ n ∧ ∀ m ∈ k.singleTypeManagers, m.SkipClean k.blockPool.nullBlock r.requestId
    ((m.numSkippedBlocks r.requestId r.numComputedTokens).getD 0) n

instance (r : Request) (n c : Int) : Decidable (k.AllocateClean r n c) := by
  unfold AllocateClean
  infer_instance

/-- **`allocate_slots`** keeps the invariant. -/
theorem Fits.allocateSlots (h : k.Fits P) (hP : Positional P)
    {numNew numNewComputed : Int} {lookahead : Nat} {delay : Bool}
    (hfit : ∀ l ∈ hits, HitsFit P r.requestId k.blockPool l)
    (hlen : hits.length = k.singleTypeManagers.length)
    (hcomp : k.enableCaching = true → delay = false →
      Computes P H r k.blockSize (k.reqToBlockHashes.getD r.requestId []).length
        (k.numFullBlocks r numNew numNewComputed))
    (hclean : k.enableCaching = true → delay = false → k.AllocateClean r numNew numNewComputed)
    {res : Option (List (List BlockId))}
    (ha : k.allocateSlots H r numNew numNewComputed hits lookahead delay = .ok (res, k')) :
    k'.Fits P ∧ SameConfig k k' := by
  unfold KVCacheManager.allocateSlots at ha
  split_ifs at ha with h0
  obtain ⟨k₀, h₁, h₂⟩ := bind_eq_ok.mp ha
  obtain ⟨hf₀, hc₀, hsame₀, hhash₀, hclean₀⟩ := h.removeSkippedBlocks h₁
  dsimp only at h₂
  split_ifs at h₂ with hfree
  · cases h₂
    exact ⟨hf₀, hc₀⟩
  obtain ⟨⟨new, k''⟩, h₃, h₄⟩ := bind_eq_ok.mp h₂
  cases h₄
  obtain ⟨k₁, h₅, h₆⟩ := bind_eq_ok.mp h₃
  obtain ⟨k₂, h₇, h₈⟩ := bind_eq_ok.mp h₆
  obtain ⟨⟨new', k₃⟩, h₉, h₁₀⟩ := bind_eq_ok.mp h₈
  obtain ⟨hf₂, hc₂, hhash₂, hclean₂⟩ := hf₀.touchAndSave hP
    (fun l hl => (hfit l hl).of_sameHashes hsame₀)
    (hlen.trans (length_eq_of_specs hc₀.specs).symm) h₅ h₇
  obtain ⟨hf₃, hc₃, hhash₃, hclean₃⟩ := hf₂.allocateNewBlocks h₉
  have hc₀₃ := (hc₀.trans hc₂).trans hc₃
  split_ifs at h₁₀ with hskip
  · cases h₁₀
    exact ⟨hf₃, hc₀₃⟩
  · obtain ⟨k₄, h₁₁, h₁₂⟩ := bind_eq_ok.mp h₁₀
    cases h₁₂
    rw [hc₀.enableCaching, not_or, Bool.not_eq_false, Bool.not_eq_true] at hskip
    obtain ⟨hn, hskips⟩ := hclean hskip.1 hskip.2
    have hz₂ : k₂.blockPool.nullBlock = k.blockPool.nullBlock :=
      ((hc₀.trans hc₂).shape).nullBlock
    have hz₀ : k₀.blockPool.nullBlock = k.blockPool.nullBlock := hc₀.shape.nullBlock
    have hcl₃ := hclean₃ _ (hz₂ ▸ hz₀ ▸ hclean₂ _ (hz₀.symm ▸ hclean₀ _ hskips))
    obtain ⟨hf₄, hc₄⟩ := hf₃.coordinatorCacheBlocks (by rw [hc₀₃.enableCaching]; exact hskip.1) hn
      (by rw [hc₀₃.blockSize, hhash₃, hhash₂, hhash₀]; exact hcomp hskip.1 hskip.2)
      (by rw [hc₃.shape.nullBlock]; exact hcl₃) h₁₁
    exact ⟨hf₄, hc₀₃.trans hc₄⟩

/-- **`cache_blocks`** keeps the invariant. -/
theorem Fits.cacheBlocks (h : k.Fits P) (hcomp : k.enableCaching = true →
      Computes P H r k.blockSize (k.reqToBlockHashes.getD r.requestId []).length
        (n / k.blockSize).toNat)
    (hclean : k.enableCaching = true → 0 ≤ n ∧ ∀ m ∈ k.singleTypeManagers,
      m.SkipClean k.blockPool.nullBlock r.requestId 0 n)
    (hc : k.cacheBlocks H r n = .ok k') : k'.Fits P ∧ SameConfig k k' := by
  unfold KVCacheManager.cacheBlocks at hc
  split_ifs at hc with hcaching
  · obtain ⟨hn, hskips⟩ := hclean hcaching
    exact h.coordinatorCacheBlocks hcaching hn (hcomp hcaching)
      (fun m hm => (hskips m hm).cacheClean) hc
  · cases hc
    exact ⟨h, .refl k⟩

theorem Fits.freeBlockHashes (h : k.Fits P) (r : ReqId) :
    (k.freeBlockHashes r).Fits P ∧ SameConfig k (k.freeBlockHashes r) := by
  have hsc : SameConfig k (k.freeBlockHashes r) := ⟨rfl, rfl, rfl, rfl, rfl, rfl, .refl _⟩
  refine ⟨h.of_sameConfig hsc h.coherent fun s => ?_, hsc⟩
  simp only [KVCacheManager.freeBlockHashes, Dict.getD_erase]
  split_ifs
  · simp [Recorded]
  · exact h.recorded s

theorem Fits.resetPrefixCache (h : k.Fits P) :
    k.resetPrefixCache.2.Fits P ∧ SameConfig k k.resetPrefixCache.2 := by
  have hshape : k.blockPool.SameShape k.blockPool.resetPrefixCache.2 := by
    rcases k.blockPool.resetPrefixCache_ok with he | ⟨-, -, -, hs, -⟩
    · rw [he]
      exact .refl _
    · exact hs
  have hsc : SameConfig k k.resetPrefixCache.2 := ⟨rfl, rfl, rfl, rfl, rfl, rfl, hshape⟩
  exact ⟨h.of_sameConfig hsc h.coherent.resetPrefixCache h.recorded, hsc⟩

/-- **The blocks of `get_computed_blocks`** have the hashes that the manager then remembers for
the request, each at the position of its hash. -/
theorem getComputedBlocks_hits (hidx : k.blockPool.Indexed)
    (hg : k.getComputedBlocks H r = .ok (hits, n, k')) :
    ∀ l ∈ hits, ∀ (i : Nat) (b : BlockId), l[i]? = some b → b ≠ k.blockPool.nullBlock →
      ∃ h, (k.blockPool.block b).blockHash = some h ∧
        (k'.reqToBlockHashes.getD r.requestId [])[i]? = some h.blockHash := by
  unfold KVCacheManager.getComputedBlocks at hg
  intro l hl i b hi hb
  split_ifs at hg with hskip
  · cases hg
    obtain ⟨m, -, rfl⟩ := List.mem_map.mp hl
    simp at hi
  · obtain ⟨hashes, -, h₂⟩ := bind_eq_ok.mp hg
    obtain ⟨⟨rows, n'⟩, h₃, h₄⟩ := bind_eq_ok.mp h₂
    cases h₄
    have hrows := findLongestCacheHit_ok h₃
    obtain ⟨j, hj⟩ := List.mem_iff_getElem?.mp hl
    obtain ⟨hlt, hget⟩ := List.getElem?_eq_some_iff.mp hj
    have hrow := (List.forall₂_iff_get.mp hrows).2 j (by rw [hrows.length_eq]; exact hlt) hlt
    rw [List.get_eq_getElem, List.get_eq_getElem, hget] at hrow
    obtain ⟨bh, hbh, hmem⟩ := hrow i b hi hb
    exact ⟨_, (hidx.mem_cached _ b).mp hmem, by rw [Dict.getD_set_self]; exact hbh⟩

/-- **`get_computed_blocks`** keeps the invariant, and its blocks fit the request. -/
theorem Fits.getComputedBlocks (h : k.Fits P)
    (hscratch : ∀ hashes, k.enableCaching = true → hashRequestTokens H k.blockSize r = .ok hashes →
      Recorded P r.requestId hashes) (hg : k.getComputedBlocks H r = .ok (hits, n, k')) :
    k'.Fits P ∧ SameConfig k k' ∧ k'.blockPool = k.blockPool ∧
      k'.singleTypeManagers = k.singleTypeManagers ∧
      hits.length = k.singleTypeManagers.length ∧
      ∀ l ∈ hits, HitsFit P r.requestId k.blockPool l := by
  have hhits := getComputedBlocks_hits h.coherent.indexed hg
  suffices hs : k'.Fits P ∧ SameConfig k k' ∧ k'.blockPool = k.blockPool ∧
      k'.singleTypeManagers = k.singleTypeManagers ∧
      hits.length = k.singleTypeManagers.length by
    obtain ⟨h₁, h₂, h₃, h₄, h₅⟩ := hs
    refine ⟨h₁, h₂, h₃, h₄, h₅, fun l hl i b hi hb => ?_⟩
    obtain ⟨bh, hbh, hrec⟩ := hhits l hl i b hi hb
    exact ⟨bh, hbh, h₁.recorded _ i _ hrec⟩
  unfold KVCacheManager.getComputedBlocks at hg
  split_ifs at hg with hskip
  · cases hg
    exact ⟨h, .refl k, rfl, rfl, by simp [createEmptyBlockList]⟩
  · obtain ⟨hashes, h₁, h₂⟩ := bind_eq_ok.mp hg
    obtain ⟨⟨rows, n'⟩, h₃, h₄⟩ := bind_eq_ok.mp h₂
    cases h₄
    have hcaching : k.enableCaching = true := by
      simp only [skipsPrefixCache, Bool.or_eq_true, Bool.not_eq_true', not_or,
        Bool.not_eq_false] at hskip
      exact hskip.1
    have hrec : Recorded P r.requestId hashes := by
      unfold requestBlockHashes at h₁
      split at h₁
      · exact hscratch hashes hcaching h₁
      · cases h₁
        exact h.recorded r.requestId
    have hsc : SameConfig k
        { k with reqToBlockHashes := k.reqToBlockHashes.set r.requestId hashes } :=
      ⟨rfl, rfl, rfl, rfl, rfl, rfl, .refl _⟩
    refine ⟨h.of_sameConfig hsc h.coherent fun s => ?_, hsc, rfl, rfl, ?_⟩
    · rw [Dict.getD_set]
      split_ifs with hs
      · exact hs ▸ hrec
      · exact h.recorded s
    · rw [← (findLongestCacheHit_ok h₃).length_eq, hsc.length_groupOrder, h.groups]

end KVCacheManager

end InferenceServer
