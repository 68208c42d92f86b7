import InferenceServer.KVCache.LongestHit

/-!
# The hashes that a lookup reads

`get_computed_blocks` hashes the blocks of a request once, and remembers the hashes. A later lookup looks for
the blocks of the tokens that the request has then. The managers of full attention walk along the
remembered hashes, and so stop at the last one. The managers of sliding window and of chunked local
attention read them by the index of the block, up to the last but one token of the request, and an index
behind the last hash is an `IndexError`. Behind full attention, in the hybrid coordinator, they look only
at the blocks that full attention has found.

So a lookup returns if the remembered hashes cover the tokens (`KVCacheManager.Remembers`). A lookup for a
request without hashes makes it so; allocating slots and caching blocks extend the hashes of their
request and leave those of the others alone.

## Main results

* `KVCacheManager.getComputedBlocks_returns`
* `KVCacheManager.keepsHashes_allocateSlots`, `KVCacheManager.keepsHashes_cacheBlocks`
-/

namespace InferenceServer

open Outcome

/-! ## Searches that return -/

namespace KVCacheSpec

/-- The search reads the hashes by the index of a block. -/
def readsByIndex : KVCacheSpec → Bool
  | slidingWindow .. | chunkedLocalAttention .. => true
  | _ => false

/-- A group of chunked local attention. -/
def isChunkedLocal : KVCacheSpec → Bool
  | chunkedLocalAttention .. => true
  | _ => false

theorem isFullAttention_eq_false {spec : KVCacheSpec}
    (h : spec.isChunkedLocal = true ∨ spec.readsByIndex = true) : spec.isFullAttention = false := by
  cases spec with
  | fullAttention => rcases h with h | h <;> cases h
  | slidingWindow | chunkedLocalAttention | mamba => rfl

section Search

variable {p : BlockPool} {groupIds : List Nat} {hashes : List BlockHash} {rows : List (List BlockId)}

/-- The search from the right returns if it starts at a hash. -/
theorem windowHits_returns {needed : Int} {i run : Nat} (hi : i ≤ hashes.length) :
    ∃ res, windowHits p groupIds hashes needed i run rows = .ok res := by
  induction i generalizing run rows with
  | zero => exact ⟨_, rfl⟩
  | succ i ih =>
    unfold windowHits
    rw [List.getElem?_eq_getElem (by omega)]
    dsimp only
    split
    · exact ih (by omega)
    · exact ih (by omega)
    · split
      · exact ⟨_, rfl⟩
      · exact ih (by omega)

/-- The search in a chunk returns if it ends at a hash. -/
theorem chunkHits_returns {n i : Nat} (hn : n = 0 ∨ i + n ≤ hashes.length) :
    ∃ out, chunkHits p groupIds hashes n i rows = .ok out := by
  induction n generalizing i rows with
  | zero => exact ⟨_, rfl⟩
  | succ n ih =>
    unfold chunkHits
    rw [List.getElem?_eq_getElem (by omega)]
    dsimp only
    split
    · exact ⟨_, rfl⟩
    · exact ⟨_, rfl⟩
    · exact ih (.inr (by omega))

theorem head_appendEach (rows : List (List BlockId)) (row : List BlockId) :
    ((appendEach rows row).headD []).length ≤ (rows.headD []).length + 1 := by
  unfold appendEach
  cases rows <;> cases row <;> simp

/-- The walk along the hashes finds no more blocks than there are hashes. -/
theorem head_prefixHits (p : BlockPool) (groupIds : List Nat) (hashes : List BlockHash)
    (rows : List (List BlockId)) :
    ((prefixHits p groupIds hashes rows).headD []).length ≤
      (rows.headD []).length + hashes.length := by
  induction hashes generalizing rows with
  | nil => exact Nat.le_add_right _ _
  | cons h l ih =>
    unfold prefixHits
    split
    · exact Nat.le_add_right _ _
    · exact Nat.le_add_right _ _
    · next row _ _ =>
      have := ih (appendEach rows row)
      have := head_appendEach rows row
      rw [List.length_cons]
      omega

theorem head_dropLastForEagle (useEagle : Bool) (rows : List (List BlockId)) :
    ((dropLastForEagle useEagle rows).headD []).length ≤ (rows.headD []).length := by
  unfold dropLastForEagle
  split
  · cases rows <;> simp
  · exact le_rfl

theorem head_map_nil (groupIds : List Nat) :
    ((groupIds.map fun _ => ([] : List BlockId)).headD []) = [] := by
  cases groupIds <;> rfl

/-- **A search for at least one token returns**, if it reads no hash by an index behind the last one. -/
theorem findLongestCacheHit_returns {spec : KVCacheSpec} {maxLength : Int} {useEagle : Bool}
    (hmax : 0 ≤ maxLength) (heagle : spec.isChunkedLocal = true → useEagle = false)
    (hread : spec.readsByIndex = true → (maxLength / spec.blockSize).toNat ≤ hashes.length) :
    ∃ rows, spec.findLongestCacheHit hashes maxLength groupIds p useEagle = .ok rows ∧
      (spec.isFullAttention = true → (rows.headD []).length ≤ hashes.length) := by
  cases spec with
  | fullAttention bs format window chunk =>
    have hblocks : ¬ maxLength / bs < 0 := not_lt.mpr (Int.ediv_nonneg hmax (Int.natCast_nonneg bs))
    refine ⟨_, ?_, fun _ => (head_dropLastForEagle useEagle _).trans
      ((head_prefixHits p groupIds (hashes.take (maxLength / bs).toNat)
        (groupIds.map fun _ => [])).trans ?_)⟩
    · unfold findLongestCacheHit
      exact if_neg hblocks
    · rw [head_map_nil, List.length_nil, zero_add]
      exact List.length_take_le' _ _
  | slidingWindow bs format window =>
    obtain ⟨⟨computed, run, found⟩, hscan⟩ : ∃ res, windowHits p groupIds hashes
        (cdiv (window - 1) bs + if useEagle then 1 else 0) (maxLength / bs).toNat 0
        (groupIds.map fun _ => List.replicate (maxLength / bs).toNat p.nullBlock) = .ok res :=
      windowHits_returns (hread rfl)
    refine ⟨dropLastForEagle useEagle (if found then computed else computed.map (List.take run)),
      ?_, fun h => nomatch h⟩
    exact bind_eq_ok.mpr ⟨_, hscan, rfl⟩
  | chunkedLocalAttention bs format chunk =>
    have hread : (maxLength / bs).toNat ≤ hashes.length := hread rfl
    obtain ⟨out, hout⟩ : ∃ out, chunkHits p groupIds hashes
        ((maxLength / bs).toNat -
          ((if maxLength > 0 then maxLength / chunk * chunk else 0) / bs).toNat)
        ((if maxLength > 0 then maxLength / chunk * chunk else 0) / bs).toNat
        (groupIds.map fun _ => List.replicate
          ((if maxLength > 0 then maxLength / chunk * chunk else 0) / bs).toNat p.nullBlock) =
          .ok out := chunkHits_returns (by omega)
    refine ⟨out, ?_, fun h => nomatch h⟩
    exact bind_eq_ok.mpr ⟨(), require_eq_ok.mpr (heagle rfl), hout⟩
  | mamba => exact ⟨_, rfl, fun h => nomatch h⟩

end Search

end KVCacheSpec

/-! ## Hashing from scratch -/

/-- A request comes with a token, and with a hash for every multi-modal item. -/
structure Request.Hashable (r : Request) : Prop where
  nonempty : r.promptTokenIds ≠ []
  items : r.mmPositions.length = r.mmHashes.length

instance (r : Request) : Decidable r.Hashable :=
  decidable_of_iff (r.promptTokenIds ≠ [] ∧ r.mmPositions.length = r.mmHashes.length)
    ⟨fun h => ⟨h.1, h.2⟩, fun h => ⟨h.nonempty, h.items⟩⟩

section Scratch

variable {H : BlockHasher} {bs : Nat} {r : Request}

variable (hitems : r.mmPositions.length = r.mmHashes.length)

include hitems

/-- The extra keys of a block, from a running index of the items. -/
theorem scratchExtraKeys_returns (k i : Nat) :
    ∃ keys, ∃ j : Nat, scratchExtraKeys bs r k i = .ok (keys, (j : Int)) := by
  have hmm : ∀ start stop : Int, ∃ keys, ∃ j : Nat,
      genMmExtraHashKeys r start stop i = .ok (keys, (j : Int)) := by
    intro start stop
    unfold genMmExtraHashKeys
    split
    · exact ⟨_, _, rfl⟩
    · rw [if_neg (not_not.mpr hitems)]
      split
      · exact ⟨_, _, rfl⟩
      · refine ⟨_, _, bind_eq_ok.mpr ⟨(), require_eq_ok.mpr fun hneg => ?_, rfl⟩⟩
        omega
  unfold scratchExtraKeys
  split
  · obtain ⟨keys, j, hkeys⟩ := hmm (k * bs : Nat) ((k + 1) * bs : Nat)
    exact ⟨_, j, bind_eq_ok.mpr ⟨_, hkeys, rfl⟩⟩
  · exact ⟨_, i, rfl⟩

theorem hashBlocksFrom_returns (n k i : Nat)
    (parent : Option Int) : ∃ l, hashBlocksFrom H bs r n k i parent = .ok l := by
  induction n generalizing k i parent with
  | zero => exact ⟨_, rfl⟩
  | succ n ih =>
    obtain ⟨keys, j, hkeys⟩ := @scratchExtraKeys_returns bs r hitems k i
    obtain ⟨rest, hrest⟩ := ih (k + 1) j
      (some (hashBlockTokens H parent (blockTokens bs r.allTokenIds k) keys).hashValue)
    exact ⟨_, hashBlocksFrom_succ_ok.mpr ⟨keys, j, rest, hkeys, hrest, rfl⟩⟩

/-- **`hash_request_tokens` returns.** -/
theorem hashRequestTokens_returns : ∃ l, hashRequestTokens H bs r = .ok l :=
  hashBlocksFrom_returns hitems _ 0 0 none

end Scratch

/-! ## The hashes cover the tokens -/

/-- The coordinators that read the hashes of a request by the index of a block. -/
def CoordinatorKind.ReadsByIndex : CoordinatorKind → Prop
  | .unitary spec => spec.readsByIndex = true
  | _ => False

instance (kind : CoordinatorKind) : Decidable kind.ReadsByIndex := by
  cases kind <;> unfold CoordinatorKind.ReadsByIndex <;> infer_instance

/-- The groups have one block size, and an EAGLE head is not used with chunked local attention. -/
def CoordinatorKind.Uniform (blockSize : Nat) (useEagle : Bool) : CoordinatorKind → Prop
  | .noPrefixCache => True
  | .unitary spec => spec.blockSize = blockSize ∧ (spec.isChunkedLocal = true → useEagle = false)
  | .hybrid _ _ full other _ => full.isFullAttention = true ∧ full.blockSize = blockSize ∧
      other.blockSize = blockSize ∧ (other.isChunkedLocal = true → useEagle = false)

namespace KVCacheManager

/-- The hashes that are remembered for a request. -/
def hashesOf (k : KVCacheManager) (rid : ReqId) : List BlockHash := k.reqToBlockHashes.getD rid []

/-- The number of blocks that a lookup for the request may look at. Its last token is always computed. -/
def lookupBlocks (k : KVCacheManager) (r : Request) : Nat := (r.numTokens - 1) / k.blockSize

/-- The remembered hashes cover the tokens of the request. -/
def Covers (k : KVCacheManager) (r : Request) : Prop :=
  k.lookupBlocks r ≤ (k.hashesOf r.requestId).length

instance (k : KVCacheManager) (r : Request) : Decidable (k.Covers r) :=
  inferInstanceAs (Decidable (_ ≤ _))

/-- **The hashes are remembered well enough**: if a lookup reads them by index, there are none, so that they
are computed, or they cover the tokens. -/
def Remembers (k : KVCacheManager) (r : Request) : Prop :=
  k.kind.ReadsByIndex → k.skipsPrefixCache r = false →
    k.hashesOf r.requestId = [] ∨ k.Covers r

section Lookup

variable {H : BlockHasher} {k k' : KVCacheManager} {r : Request}

theorem lookupBlocks_eq (hr : 0 < r.numTokens) :
    (((r.numTokens : Int) - 1) / k.blockSize).toNat = k.lookupBlocks r := by
  have hcast : (r.numTokens : Int) - 1 = ((r.numTokens - 1 : Nat) : Int) := by omega
  rw [hcast, ← Int.natCast_ediv, Int.toNat_natCast]
  rfl

/-- The hashes of a lookup are the remembered ones, or those of all full blocks. -/
theorem requestBlockHashes_ok {hashes : List BlockHash}
    (h : k.requestBlockHashes H r = .ok hashes) :
    (k.hashesOf r.requestId = [] ∧ hashes.length = r.numTokens / k.blockSize) ∨
      (k.hashesOf r.requestId ≠ [] ∧ hashes = k.hashesOf r.requestId) := by
  unfold requestBlockHashes at h
  split at h
  next hnil => exact .inl ⟨hnil, length_hashRequestTokens h⟩
  next hne =>
    cases h
    exact .inr ⟨hne, rfl⟩

/-- **A lookup returns** if the hashes are remembered well enough. -/
theorem getComputedBlocks_returns (hkind : k.kind.Uniform k.blockSize k.useEagle)
    (hr : r.Hashable) (h : k.Remembers r) : ∃ res, k.getComputedBlocks H r = .ok res := by
  have hpos : 0 < r.numTokens := by
    have := List.length_pos_of_ne_nil hr.nonempty
    simp only [Request.numTokens, Request.allTokenIds, List.length_append]
    omega
  have hmax : (0 : Int) ≤ (r.numTokens : Int) - 1 := by omega
  unfold getComputedBlocks
  split
  next => exact ⟨_, rfl⟩
  next hskips =>
    obtain ⟨hashes, hhashes⟩ : ∃ hashes, k.requestBlockHashes H r = .ok hashes := by
      unfold requestBlockHashes
      split
      · exact hashRequestTokens_returns hr.items
      · exact ⟨_, rfl⟩
    suffices hfind : ∃ res, KVCacheManager.findLongestCacheHit
        { k with reqToBlockHashes := k.reqToBlockHashes.set r.requestId hashes } hashes
          ((r.numTokens : Int) - 1) = .ok res by
      obtain ⟨⟨blocks, n⟩, hfind⟩ := hfind
      exact ⟨_, bind_eq_ok.mpr ⟨hashes, hhashes, bind_eq_ok.mpr ⟨_, hfind, rfl⟩⟩⟩
    cases hkindeq : k.kind with
    | noPrefixCache => exact ⟨_, rfl⟩
    | unitary spec =>
      rw [hkindeq] at hkind
      obtain ⟨hsize, heagle⟩ := hkind
      obtain ⟨rows, hrows, -⟩ : ∃ rows, spec.findLongestCacheHit hashes
          ((r.numTokens : Int) - 1) [0] k.blockPool k.useEagle = .ok rows ∧ _ :=
        KVCacheSpec.findLongestCacheHit_returns hmax heagle fun hread => by
          rw [hsize, lookupBlocks_eq hpos]
          have hcovers := h (by rw [hkindeq]; exact hread) (by simpa using hskips)
          rcases requestBlockHashes_ok hhashes with ⟨-, hlen⟩ | ⟨hne, rfl⟩
          · rw [hlen]
            exact Nat.div_le_div_right (Nat.sub_le _ 1)
          · exact hcovers.resolve_left hne
      exact ⟨_, bind_eq_ok.mpr ⟨rows, hrows, rfl⟩⟩
    | hybrid fullIds otherIds full other first =>
      rw [hkindeq] at hkind
      obtain ⟨hfull, hsize, hsize', heagle⟩ := hkind
      obtain ⟨rows, hrows, hlen⟩ : ∃ rows, full.findLongestCacheHit hashes
          ((r.numTokens : Int) - 1) fullIds k.blockPool k.useEagle = .ok rows ∧ _ :=
        KVCacheSpec.findLongestCacheHit_returns hmax
        (fun h => absurd (hfull ▸ KVCacheSpec.isFullAttention_eq_false (.inl h)) (by simp))
        (fun h => absurd (hfull ▸ KVCacheSpec.isFullAttention_eq_false (.inr h)) (by simp))
      -- the other search looks at the blocks only that full attention has found
      obtain ⟨rows', hrows', -⟩ : ∃ rows', other.findLongestCacheHit hashes
          (((rows.headD []).length * full.blockSize : Nat) : Int) otherIds k.blockPool k.useEagle =
            .ok rows' ∧ _ :=
        KVCacheSpec.findLongestCacheHit_returns (Int.natCast_nonneg _) heagle fun _ => by
          rw [hsize, hsize', ← Int.natCast_ediv, Int.toNat_natCast]
          exact (Nat.div_le_of_le_mul (Nat.mul_comm _ _).le).trans (hlen hfull)
      refine ⟨_, bind_eq_ok.mpr ⟨rows, hrows, bind_eq_ok.mpr ⟨rows', hrows',
        bind_eq_ok.mpr ⟨(), require_eq_ok.mpr ?_, rfl⟩⟩⟩⟩
      rw [hsize', hsize]
      exact Nat.mul_mod_left _ _

end Lookup

/-! ## What the calls leave of the hashes -/

/-- The manager is set up in the same way. -/
structure SameSetup (k k' : KVCacheManager) : Prop where
  enableCaching : k'.enableCaching = k.enableCaching
  useEagle : k'.useEagle = k.useEagle
  blockSize : k'.blockSize = k.blockSize
  kind : k'.kind = k.kind

/-- **The hashes of one request are extended** at most, and those of the others stay. -/
structure KeepsHashes (rid : ReqId) (k k' : KVCacheManager) : Prop where
  setup : k.SameSetup k'
  others : ∀ id, id ≠ rid → k'.hashesOf id = k.hashesOf id
  isPrefix : k.hashesOf rid <+: k'.hashesOf rid

end KVCacheManager

section CacheLoop

variable {H : BlockHasher} {r : Request} {bs gid : Nat} {c : Int} {p p' : BlockPool}

/-- The loop of `cache_full_blocks` appends to the hashes of the request. -/
theorem BlockPool.isPrefix_cacheLoop {new : List BlockHash} {i : Nat} {l : List BlockId}
    {s t : BlockPool.CacheLoop} (h : cacheLoop H r bs gid c new i l s = .ok t) :
    s.blockHashes <+: t.blockHashes := by
  induction l generalizing i s with
  | nil =>
    cases h
    exact List.prefix_rfl
  | cons b l ih =>
    obtain ⟨u, hone, hloop⟩ := bind_eq_ok.mp h
    refine List.IsPrefix.trans ?_ (ih hloop)
    obtain ⟨_, -, hone⟩ := bind_eq_ok.mp hone
    obtain ⟨⟨hash, hashes⟩, hnext, hone⟩ := bind_eq_ok.mp hone
    cases hone
    unfold nextBlockHash at hnext
    split at hnext
    · cases hnext
      exact List.prefix_rfl
    · obtain ⟨_, -, hnext⟩ := bind_eq_ok.mp hnext
      cases hnext
      exact List.prefix_append _ _

theorem SingleTypeKVCacheManager.isPrefix_cacheBlocks (m : SingleTypeKVCacheManager)
    {m' : SingleTypeKVCacheManager} {hashes hashes' : List BlockHash} {n : Int}
    (h : m.cacheBlocks p H r hashes n = .ok (m', p', hashes')) : hashes <+: hashes' := by
  unfold cacheBlocks at h
  split at h
  · simp at h
  obtain ⟨⟨q, hs⟩, hfull, h⟩ := bind_eq_ok.mp h
  cases h
  unfold BlockPool.cacheFullBlocks at hfull
  split at hfull
  · cases hfull
    exact List.prefix_rfl
  · obtain ⟨_, -, hfull⟩ := bind_eq_ok.mp hfull
    obtain ⟨prev, -, hfull⟩ := bind_eq_ok.mp hfull
    obtain ⟨t, hloop, hfull⟩ := bind_eq_ok.mp hfull
    obtain ⟨q', -, hfull⟩ := bind_eq_ok.mp hfull
    cases hfull
    exact BlockPool.isPrefix_cacheLoop hloop

end CacheLoop

namespace KVCacheManager

section Keeps

variable {H : BlockHasher} {k k' k'' : KVCacheManager} {r : Request} {rid : ReqId}

theorem SameConfig.setup (h : SameConfig k k') : k.SameSetup k' :=
  ⟨h.enableCaching, h.useEagle, h.blockSize, h.kind⟩

theorem SameSetup.refl (k : KVCacheManager) : k.SameSetup k := ⟨rfl, rfl, rfl, rfl⟩

theorem SameSetup.trans (h : k.SameSetup k') (h' : k'.SameSetup k'') : k.SameSetup k'' :=
  ⟨h'.enableCaching.trans h.enableCaching, h'.useEagle.trans h.useEagle,
    h'.blockSize.trans h.blockSize, h'.kind.trans h.kind⟩

theorem KeepsHashes.of_eq (hsetup : k.SameSetup k')
    (h : k'.reqToBlockHashes = k.reqToBlockHashes) : KeepsHashes rid k k' := by
  have hall : ∀ id, k'.hashesOf id = k.hashesOf id := fun id => by rw [hashesOf, h]; rfl
  exact ⟨hsetup, fun id _ => hall id, hall rid ▸ List.prefix_rfl⟩

theorem KeepsHashes.trans (h : KeepsHashes rid k k') (h' : KeepsHashes rid k' k'') :
    KeepsHashes rid k k'' :=
  ⟨h.setup.trans h'.setup, fun id hid => (h'.others id hid).trans (h.others id hid),
    h.isPrefix.trans h'.isPrefix⟩

/-- A request stays remembered well enough if its hashes and its tokens are the same. -/
theorem Remembers.congr {r' : Request} (h : k.Remembers r) (hsetup : k.SameSetup k')
    (hhashes : k'.hashesOf r'.requestId = k.hashesOf r.requestId)
    (htokens : r'.numTokens = r.numTokens) (hparams : r'.samplingParams = r.samplingParams) :
    k'.Remembers r' := by
  unfold Remembers Covers lookupBlocks skipsPrefixCache at *
  rw [hsetup.kind, hsetup.enableCaching, hsetup.blockSize, hhashes, htokens, hparams]
  exact h

theorem reqToBlockHashes_forManagers {α : Type} {f : SingleTypeKVCacheManager → BlockPool →
      Except PyError (α × SingleTypeKVCacheManager × BlockPool)} {out : List α}
    (h : k.forManagers f = .ok (out, k')) : k'.reqToBlockHashes = k.reqToBlockHashes := by
  obtain ⟨_, -, h⟩ := bind_eq_ok.mp h
  cases h
  rfl

theorem reqToBlockHashes_removeSkippedBlocks {n : Int}
    (h : k.removeSkippedBlocks rid n = .ok k') : k'.reqToBlockHashes = k.reqToBlockHashes := by
  obtain ⟨_, hloop, h⟩ := bind_eq_ok.mp h
  rw [← pure_eq_ok.mp h]
  exact reqToBlockHashes_forManagers hloop

/-- Giving back the blocks of a request leaves its hashes. -/
theorem reqToBlockHashes_free (h : k.free rid = .ok k') :
    k'.reqToBlockHashes = k.reqToBlockHashes := by
  obtain ⟨_, hloop, h⟩ := bind_eq_ok.mp h
  rw [← pure_eq_ok.mp h]
  exact reqToBlockHashes_forManagers hloop

/-- **Caching full blocks** extends the hashes of the request. -/
theorem keepsHashes_coordinatorCacheBlocks {n : Int}
    (h : k.coordinatorCacheBlocks H r n = .ok k') : KeepsHashes r.requestId k k' := by
  have hsetup := (actsOn_coordinatorCacheBlocks r.requestId h).1.config.setup
  obtain ⟨⟨ms, p, hashes⟩, hloop, h⟩ := bind_eq_ok.mp h
  have hpre := mapThreadM_invariant
    (I := fun (_ _ : List SingleTypeKVCacheManager) (s : BlockPool × List BlockHash) =>
      k.hashesOf r.requestId <+: s.2)
    (fun _ m _ s m' t hs hm => hs.trans <| by
      obtain ⟨⟨m₁, p₁, hs₁⟩, hcache, hm⟩ := bind_eq_ok.mp hm
      cases hm
      exact m.isPrefix_cacheBlocks hcache) [] List.prefix_rfl hloop
  cases h
  refine ⟨hsetup, fun id hid => ?_, ?_⟩
  · exact Dict.getD_set_ne hid
  · unfold hashesOf
    rw [Dict.getD_set_self]
    exact hpre

theorem keepsHashes_cacheBlocks {n : Int} (h : k.cacheBlocks H r n = .ok k') :
    KeepsHashes r.requestId k k' := by
  unfold cacheBlocks at h
  split at h
  · exact keepsHashes_coordinatorCacheBlocks h
  · cases h
    exact .of_eq (.refl k) rfl

/-- **`allocate_slots`** extends the hashes of its request, by those of the blocks that it caches. -/
theorem keepsHashes_allocateSlots {n c : Int} {hits : List (List BlockId)} {lookahead : Nat}
    {delay : Bool} {res : Option (List (List BlockId))}
    (h : k.allocateSlots H r n c hits lookahead delay = .ok (res, k')) :
    KeepsHashes r.requestId k k' ∧
      (res = none ∨ delay = true → k'.reqToBlockHashes = k.reqToBlockHashes) := by
  cases res with
  | none =>
    have hskip := allocateSlots_none h
    have hsame := reqToBlockHashes_removeSkippedBlocks hskip
    exact ⟨.of_eq (actsOn_removeSkippedBlocks hskip).config.setup hsame, fun _ => hsame⟩
  | some new =>
    obtain ⟨k₀, k₁, k₂, k₃, hskip, htouch, hsave, hnew, hoff, hon⟩ := allocateSlots_ok h
    have h₀ : KeepsHashes r.requestId k k₀ :=
      .of_eq (actsOn_removeSkippedBlocks hskip).config.setup
        (reqToBlockHashes_removeSkippedBlocks hskip)
    have h₁ : k₀.SameSetup k₁ ∧ k₁.reqToBlockHashes = k₀.reqToBlockHashes := by
      unfold touchComputed at htouch
      split at htouch
      · obtain ⟨q, -, htouch⟩ := bind_eq_ok.mp htouch
        rw [← pure_eq_ok.mp htouch]
        exact ⟨⟨rfl, rfl, rfl, rfl⟩, rfl⟩
      · obtain ⟨_, -, htouch⟩ := bind_eq_ok.mp htouch
        rw [← pure_eq_ok.mp htouch]
        exact ⟨.refl k₀, rfl⟩
    have h₂ : k₁.SameSetup k₂ ∧ k₂.reqToBlockHashes = k₁.reqToBlockHashes := by
      obtain ⟨⟨ms, _⟩, -, hsave⟩ := bind_eq_ok.mp hsave
      rw [← pure_eq_ok.mp hsave]
      exact ⟨⟨rfl, rfl, rfl, rfl⟩, rfl⟩
    have hsame : k₃.reqToBlockHashes = k.reqToBlockHashes :=
      (reqToBlockHashes_forManagers hnew).trans <| h₂.2.trans <| h₁.2.trans <|
        reqToBlockHashes_removeSkippedBlocks hskip
    have h₃ : KeepsHashes r.requestId k k₃ :=
      .of_eq (h₀.setup.trans <| h₁.1.trans <| h₂.1.trans
        (actsOn_allocateNewBlocks hnew).config.setup) hsame
    by_cases hcaches : k₀.enableCaching = false ∨ delay = true
    · obtain rfl := hoff hcaches
      exact ⟨h₃, fun _ => hsame⟩
    · rw [not_or, Bool.not_eq_false, Bool.not_eq_true] at hcaches
      refine ⟨h₃.trans (keepsHashes_coordinatorCacheBlocks (hon hcaches.1 hcaches.2)), ?_⟩
      rintro (hnone | hdelay)
      · cases hnone
      · exact absurd hdelay (by simp [hcaches.2])

/-- **A lookup** leaves its request remembered well enough; a request that has no hashes after it is
covered. -/
theorem keepsHashes_getComputedBlocks {blocks : List (List BlockId)} {n : Int}
    (h : k.getComputedBlocks H r = .ok (blocks, n, k')) :
    KeepsHashes r.requestId k k' ∧
      (k.Remembers r → k'.Remembers r) ∧
      (k.skipsPrefixCache r = false → k'.hashesOf r.requestId = [] → k'.Covers r) := by
  unfold getComputedBlocks at h
  split at h
  next hskips =>
    cases h
    exact ⟨.of_eq (.refl k) rfl, fun h => h, fun hnot => by simp [hskips] at hnot⟩
  next hskips =>
    obtain ⟨hashes, hhashes, h⟩ := bind_eq_ok.mp h
    obtain ⟨⟨blocks', n'⟩, -, h⟩ := bind_eq_ok.mp h
    cases h
    have hself : hashesOf { k with reqToBlockHashes := k.reqToBlockHashes.set r.requestId hashes }
        r.requestId = hashes := Dict.getD_set_self
    refine ⟨⟨⟨rfl, rfl, rfl, rfl⟩, fun id hid => Dict.getD_set_ne hid, ?_⟩, fun hrem => ?_,
      fun _ hnil => ?_⟩
    · rw [hself]
      rcases requestBlockHashes_ok hhashes with ⟨hnil, -⟩ | ⟨-, rfl⟩
      · rw [hnil]
        exact List.nil_prefix
      · exact List.prefix_rfl
    · rcases requestBlockHashes_ok hhashes with ⟨-, hlen⟩ | ⟨-, heq⟩
      · -- all full blocks have been hashed
        intro _ _
        right
        unfold Covers lookupBlocks
        rw [hself, hlen]
        exact Nat.div_le_div_right (Nat.sub_le _ 1)
      · exact hrem.congr ⟨rfl, rfl, rfl, rfl⟩ (hself.trans heq) rfl rfl
    · rw [hself] at hnil
      rcases requestBlockHashes_ok hhashes with ⟨-, hlen⟩ | ⟨hne, heq⟩
      · unfold Covers lookupBlocks
        rw [hself, hlen]
        exact Nat.div_le_div_right (Nat.sub_le _ 1)
      · exact absurd (heq ▸ hnil) hne

theorem reqToBlockHashes_takeEvents (k : KVCacheManager) :
    k.takeEvents.2.reqToBlockHashes = k.reqToBlockHashes := rfl

theorem hashesOf_freeBlockHashes {id : ReqId} (hid : id ≠ rid) :
    (k.freeBlockHashes rid).hashesOf id = k.hashesOf id := by
  unfold hashesOf freeBlockHashes
  rw [Dict.getD_erase, if_neg hid]

end Keeps

end KVCacheManager

end InferenceServer
