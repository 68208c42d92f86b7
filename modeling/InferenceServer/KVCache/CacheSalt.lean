import InferenceServer.KVCache.PrefixSoundness

/-!
# Isolation by the cache salt

The cache salt of a request is a key of its first block only. The later blocks of the request are
kept apart from those of other requests by the chain of hashes: with an injective hash function a
block hash determines the extra keys of the first block of its chain (`Rooted.unique`). So two
requests with different salts have no block hash in common, provided that the key tuples of their
first blocks differ.

The salt is appended to the LoRA id and the hashes of the multi-modal items without a tag. Of two
salted requests the last keys are the salts, which differ. But the last key of a request without a
salt may be the hash of an item, and this may be the salt of another request: then the two share
their blocks (`cacheSalt_imitated`). An empty salt counts as none.

## Main results

* `cacheSalt_isolates`, `cacheSalt_imitated`
-/

namespace InferenceServer

open Outcome
open List (getLast? map_cons map_nil mem_append)

/-! ## The root of a chain -/

/-- `v` is a hash value of the `n`-th block of a chain whose first block has the extra keys
`root`. -/
inductive BlockHasher.Rooted (H : BlockHasher) (root : Option (List ExtraKey)) :
    Int → Nat → Prop where
  | first (t : List TokenId) : Rooted H root (H.hashFunction H.noneHash t root) 1
  | next {p : Int} {n : Nat} (h : Rooted H root p n) (t : List TokenId)
      (e : Option (List ExtraKey)) : Rooted H root (H.hashFunction p t e) (n + 1)

namespace BlockHasher

variable {H : BlockHasher} {root root' : Option (List ExtraKey)} {v : Int} {n m : Nat}

theorem Rooted.depth (h : H.Rooted root v n) : H.Depth v n := by
  induction h with
  | first t => exact .first t root
  | next _ t e ih => exact .next ih t e

/-- **A hash value determines the keys of the first block of its chain.** -/
theorem Rooted.unique (hH : H.Lawful) (h : H.Rooted root v n) (h' : H.Rooted root' v m) :
    root = root' := by
  induction h generalizing m with
  | first t =>
    generalize hv : H.hashFunction H.noneHash t root = v at h'
    cases h' with
    | first => exact (hH.injective _ _ _ _ _ _ hv).2.2
    | next hp =>
      obtain ⟨p, t', e', rfl⟩ := hp.depth.eq_hash
      exact absurd (hH.injective _ _ _ _ _ _ hv).1.symm (hH.ne_noneHash _ _ _)
  | @next p k hp t e ih =>
    generalize hv : H.hashFunction p t e = v at h'
    cases h' with
    | first =>
      obtain ⟨p', t', e', rfl⟩ := hp.depth.eq_hash
      exact absurd (hH.injective _ _ _ _ _ _ hv).1 (hH.ne_noneHash _ _ _)
    | next hp' =>
      obtain rfl := (hH.injective _ _ _ _ _ _ hv).1
      exact ih hp'

theorem Rooted.hashBlockTokens (hH : H.Lawful) (h : H.Rooted root v n) (t : List TokenId)
    (e : Option (List ExtraKey)) :
    H.Rooted root (hashBlockTokens H (some v) t e).hashValue (n + 1) := by
  unfold InferenceServer.hashBlockTokens
  rw [parentHash_of_depth hH h.depth]
  exact h.next t e

end BlockHasher

/-! ## The keys of the first block -/

/-- The salt that enters the keys: an empty one counts as none. -/
def Request.salt (r : Request) : Option String := r.cacheSalt.filter fun s => s ≠ ""

/-- The hashes of the items that start in the first block. -/
def Request.firstHashes (bs : Nat) (r : Request) : List String :=
  (r.mmItems.filter fun it => it.1.offset < bs).map Prod.snd

/-- The extra keys that a first block of the request may get, from either path: its LoRA id, hashes
of items that start in the block, and its salt. -/
def FirstKeys (bs : Nat) (r : Request) (keys : Option (List ExtraKey)) : Prop :=
  ∃ hashes : List String, (∀ h ∈ hashes, h ∈ r.firstHashes bs) ∧
    keys = keyTuple (genLoraExtraHashKeys r ++ hashes.map .str ++ r.salt.toList.map .str)

theorem cacheSaltKeys_zero (r : Request) : cacheSaltKeys r 0 = r.salt.toList.map .str := by
  unfold cacheSaltKeys Request.salt
  cases r.cacheSalt with
  | none => rfl
  | some s => by_cases hs : s = "" <;> simp [hs, Option.filter]

theorem mem_scanMm {start stop : Int} {items : List (PlaceholderRange × String)} {i : Nat}
    {key : ExtraKey} (h : key ∈ (scanMm start stop items i).1) :
    ∃ it ∈ items, key = .str it.2 ∧ (it.1.offset : Int) < stop := by
  induction items generalizing i with
  | nil => simp [scanMm] at h
  | cons it items ih =>
    obtain ⟨p, name⟩ := it
    simp only [scanMm] at h
    split_ifs at h with hoff hpast hend
    · obtain ⟨it, hit, hkey⟩ := ih h
      exact ⟨it, List.mem_cons_of_mem _ hit, hkey⟩
    · rcases List.mem_cons.mp h with rfl | h
      · exact ⟨_, List.mem_cons_self, rfl, hoff⟩
      · obtain ⟨it, hit, hkey⟩ := ih h
        exact ⟨it, List.mem_cons_of_mem _ hit, hkey⟩
    · obtain rfl := List.mem_singleton.mp h
      exact ⟨_, List.mem_cons_self, rfl, hoff⟩
    · simp at h

variable {r A B : Request} {bs : Nat} {idx idx' : Int} {keys : Option (List ExtraKey)}

/-- The keys of items for a block are hashes of items that start before its end. -/
theorem genMmExtraHashKeys_first {keys : List ExtraKey}
    (h : genMmExtraHashKeys r 0 bs idx = .ok (keys, idx')) :
    ∃ hashes : List String, (∀ s ∈ hashes, s ∈ r.firstHashes bs) ∧ keys = hashes.map .str := by
  have hmem : ∀ key ∈ keys, ∃ s ∈ r.firstHashes bs, key = .str s := by
    intro key hkey
    unfold genMmExtraHashKeys at h
    split at h
    · cases h
      simp at hkey
    split at h
    · simp at h
    split at h
    · cases h
      simp at hkey
    obtain ⟨_, -, h⟩ := bind_eq_ok.mp h
    cases h
    obtain ⟨it, hit, rfl, hoff⟩ := mem_scanMm hkey
    refine ⟨it.2, List.mem_map.mpr ⟨it, List.mem_filter.mpr ⟨List.mem_of_mem_drop hit, ?_⟩, rfl⟩, rfl⟩
    simpa using hoff
  clear h
  induction keys with
  | nil => exact ⟨[], by simp, rfl⟩
  | cons key keys ih =>
    obtain ⟨s, hs, rfl⟩ := hmem key List.mem_cons_self
    obtain ⟨hashes, hin, rfl⟩ := ih fun k hk => hmem k (List.mem_cons_of_mem _ hk)
    exact ⟨s :: hashes, by simpa using ⟨hs, hin⟩, rfl⟩

theorem firstKeys_generate
    (h : generateBlockHashExtraKeys r 0 bs idx = .ok (keys, idx')) : FirstKeys bs r keys := by
  obtain ⟨⟨mm, i⟩, hmm, h⟩ := bind_eq_ok.mp h
  cases h
  obtain ⟨hashes, hin, rfl⟩ := genMmExtraHashKeys_first hmm
  exact ⟨hashes, hin, by rw [cacheSaltKeys_zero]⟩

/-- The keys of the first block in `hash_request_tokens`. -/
theorem firstKeys_scratch (h : scratchExtraKeys bs r 0 idx = .ok (keys, idx')) :
    FirstKeys bs r keys := by
  unfold scratchExtraKeys at h
  split_ifs at h with hneed
  · have hgen : generateBlockHashExtraKeys r 0 bs idx = .ok (keys, idx') := by simpa using h
    exact firstKeys_generate hgen
  · cases h
    simp only [needExtraKeys, Bool.or_eq_true, not_or, Bool.not_eq_true, Option.isSome_eq_false_iff,
      Option.isNone_iff_eq_none] at hneed
    exact ⟨[], by simp, by
      simp [genLoraExtraHashKeys, Request.salt, hneed.1.2, hneed.2, keyTuple]⟩

/-- The same request later on has the same keys. -/
theorem FirstKeys.extends (h : FirstKeys bs A keys) (he : A.Extends B) : FirstKeys bs B keys := by
  obtain ⟨hashes, hin, rfl⟩ := h
  refine ⟨hashes, ?_, ?_⟩
  · simpa only [Request.firstHashes, Request.mmItems, he.mmPositions, he.mmHashes] using hin
  · simp only [genLoraExtraHashKeys, Request.salt, he.loraRequest, he.cacheSalt]

/-! ## Salts -/

/-- **The salts of two requests are told apart**: they differ as keys, and a request without a salt
has no item in its first block whose hash is the salt of the other. -/
def SaltsApart (bs : Nat) (A B : Request) : Prop :=
  A.cacheSalt ≠ B.cacheSalt → A.salt ≠ B.salt ∧
    (A.salt = none → ∀ s ∈ B.salt, s ∉ A.firstHashes bs) ∧
    (B.salt = none → ∀ s ∈ A.salt, s ∉ B.firstHashes bs)

instance (bs : Nat) (A B : Request) : Decidable (SaltsApart bs A B) := by
  unfold SaltsApart
  infer_instance

theorem SaltsApart.symm (h : SaltsApart bs A B) :
    SaltsApart bs B A := by
  intro hne
  obtain ⟨hsalt, hAB, hBA⟩ := h hne.symm
  exact ⟨hsalt.symm, hBA, hAB⟩

/-- The keys of a request without a salt end with the hash of an item, if they end with a
string. -/
theorem mem_of_unsalted {hashes : List String} {l : List ExtraKey} {s : String}
    (h : genLoraExtraHashKeys A ++ hashes.map .str = l ++ [.str s]) : s ∈ hashes := by
  rcases List.eq_nil_or_concat hashes with rfl | ⟨hashes', last, rfl⟩
  · unfold genLoraExtraHashKeys at h
    cases hl : A.loraRequest with
    | none => simp [hl] at h
    | some lora =>
      have hlast := congrArg getLast? h
      simp [hl] at hlast
  · have hlast := congrArg getLast? h
    simp only [List.map_append, map_cons, map_nil, List.concat_eq_append,
      ← List.append_assoc, List.getLast?_append, List.getLast?_singleton, Option.some_or,
      Option.some.injEq, ExtraKey.str.injEq] at hlast
    simp [hlast]

/-- **Different salts give different keys.** -/
theorem FirstKeys.ne (hA : FirstKeys bs A keys) (hB : FirstKeys bs B keys) (h : SaltsApart bs A B) :
    A.cacheSalt = B.cacheSalt := by
  by_contra hne
  obtain ⟨hsalt, hAB, hBA⟩ := h hne
  obtain ⟨hashesA, hinA, rfl⟩ := hA
  obtain ⟨hashesB, hinB, heq⟩ := hB
  have hkeys := keyTuple_injective heq
  cases hsA : A.salt with
  | none =>
    cases hsB : B.salt with
    | none => exact hsalt (hsA.trans hsB.symm)
    | some s =>
      simp only [hsA, hsB, Option.toList_none, Option.toList_some, map_nil, List.append_nil,
        map_cons] at hkeys
      exact hAB hsA s (by simp [hsB]) (hinA s (mem_of_unsalted hkeys))
  | some s =>
    cases hsB : B.salt with
    | none =>
      simp only [hsA, hsB, Option.toList_none, Option.toList_some, map_nil, List.append_nil,
        map_cons] at hkeys
      exact hBA hsB s (by simp [hsA]) (hinB s (mem_of_unsalted hkeys.symm))
    | some s' =>
      have hlast := congrArg getLast? hkeys
      simp only [hsA, hsB, Option.toList_some, map_cons, map_nil, List.getLast?_append,
        List.getLast?_singleton, Option.some_or, Option.some.injEq, ExtraKey.str.injEq] at hlast
      exact hsalt (by rw [hsA, hsB, hlast])

/-! ## What a cache hit depends on

`get_computed_blocks` reads the index only at the hashes of its request. -/

section Lookups

variable {p p' : BlockPool} {groupIds : List Nat} {hashes : List BlockHash}

/-- Two pools agree on what is cached under the hashes. -/
structure SameLookups (p p' : BlockPool) (hashes : List BlockHash) : Prop where
  nullBlock : p'.nullBlock = p.nullBlock
  cached : ∀ h ∈ hashes, ∀ g,
    p'.cachedBlockHashToBlock.get? ⟨h, g⟩ = p.cachedBlockHashToBlock.get? ⟨h, g⟩

theorem SameLookups.getCachedBlock (hs : SameLookups p p' hashes) {h : BlockHash}
    (hh : h ∈ hashes) : p'.getCachedBlock h groupIds = p.getCachedBlock h groupIds := by
  unfold BlockPool.getCachedBlock
  congr 1
  funext g
  rw [Dict.getD, Dict.getD, hs.cached h hh g]

namespace KVCacheSpec

variable (hs : SameLookups p p' hashes)

include hs

theorem prefixHits_congr {l : List BlockHash} (hl : l ⊆ hashes)
    (rows : List (List BlockId)) : prefixHits p' groupIds l rows = prefixHits p groupIds l rows := by
  induction l generalizing rows with
  | nil => rfl
  | cons h l ih =>
    obtain ⟨hh, hl⟩ := List.cons_subset.mp hl
    unfold prefixHits
    rw [hs.getCachedBlock hh]
    split
    · rfl
    · rfl
    · exact ih hl _

theorem windowHits_congr (needed : Int) (i run : Nat) (rows : List (List BlockId)) :
    windowHits p' groupIds hashes needed i run rows =
      windowHits p groupIds hashes needed i run rows := by
  induction i generalizing run rows with
  | zero => rfl
  | succ i ih =>
    unfold windowHits
    split
    · rfl
    · rename_i h hi
      rw [hs.getCachedBlock (List.mem_of_getElem? hi)]
      split
      · exact ih _ _
      · exact ih _ _
      · dsimp only
        rw [ih]

theorem chunkHits_congr (n i : Nat) (rows : List (List BlockId)) :
    chunkHits p' groupIds hashes n i rows = chunkHits p groupIds hashes n i rows := by
  induction n generalizing i rows with
  | zero => rfl
  | succ n ih =>
    unfold chunkHits
    split
    · rfl
    · rename_i h hi
      rw [hs.getCachedBlock (List.mem_of_getElem? hi)]
      split
      · rfl
      · rfl
      · exact ih _ _

theorem findLongestCacheHit_congr (spec : KVCacheSpec) (maxLength : Int) (eagle : Bool) :
    spec.findLongestCacheHit hashes maxLength groupIds p' eagle =
      spec.findLongestCacheHit hashes maxLength groupIds p eagle := by
  unfold findLongestCacheHit
  cases spec with
  | fullAttention =>
    dsimp only
    rw [prefixHits_congr hs (List.take_subset _ _)]
  | slidingWindow =>
    dsimp only
    rw [hs.nullBlock, windowHits_congr hs]
  | chunkedLocalAttention =>
    dsimp only
    rw [hs.nullBlock, chunkHits_congr hs]
  | mamba => rfl

end KVCacheSpec

theorem KVCacheManager.findLongestCacheHit_congr (k : KVCacheManager)
    (hs : SameLookups k.blockPool p' hashes) (n : Int) :
    { k with blockPool := p' }.findLongestCacheHit hashes n = k.findLongestCacheHit hashes n := by
  unfold KVCacheManager.findLongestCacheHit
  simp only [KVCacheSpec.findLongestCacheHit_congr hs]

/-- **A cache hit depends on the hashes of its request only.** -/
theorem KVCacheManager.getComputedBlocks_congr {H : BlockHasher} {k k' : KVCacheManager}
    {r : Request} {blocks : List (List BlockId)} {n : Int}
    (h : k.getComputedBlocks H r = .ok (blocks, n, k'))
    (hs : k.skipsPrefixCache r = false →
      SameLookups k.blockPool p' (k'.reqToBlockHashes.getD r.requestId [])) :
    { k with blockPool := p' }.getComputedBlocks H r =
      .ok (blocks, n, { k' with blockPool := p' }) := by
  unfold KVCacheManager.getComputedBlocks at h ⊢
  change (if k.skipsPrefixCache r = true then _ else _) = _
  split_ifs at h ⊢ with hskip
  · obtain ⟨rfl, rfl, rfl⟩ := triple_of_ok h
    rfl
  · obtain ⟨hashes, hhashes, h⟩ := bind_eq_ok.mp h
    obtain ⟨⟨rows, n'⟩, hfind, h⟩ := bind_eq_ok.mp h
    obtain ⟨rfl, rfl, rfl⟩ := triple_of_ok h
    have hs := hs (by simpa using hskip)
    rw [Dict.getD_set_self] at hs
    refine bind_eq_ok.mpr ⟨hashes, hhashes, bind_eq_ok.mpr ⟨(rows, n'), ?_, rfl⟩⟩
    rw [← hfind]
    exact KVCacheManager.findLongestCacheHit_congr
      { k with reqToBlockHashes := k.reqToBlockHashes.set r.requestId hashes } hs _

end Lookups

/-! ## Runs -/

namespace TracedState

/-- There is one object for each request, which only ever gets more output tokens. -/
def OneObject (s : TracedState) (op : KVOp) : Prop :=
  ∀ r ∈ op.request?, ∀ A ∈ s.seen, A.requestId = r.requestId → A.Extends r

/-- **The condition on a call**: the null block is not cached, and the salt of the request is told
apart from those of the requests before. -/
structure SaltSound (s : TracedState) (op : KVOp) : Prop where
  null : CachesNoNull s.kv op
  salts : ∀ r ∈ op.request?, ∀ A ∈ s.seen, SaltsApart s.kv.manager.blockSize A r

/-- The hashes that fit a request: their chain starts with the keys of its first block. -/
def SeenRoot (H : BlockHasher) (bs : Nat) (seen : List Request) (rid : ReqId) (i : Nat)
    (h : BlockHash) : Prop :=
  ∃ A ∈ seen, A.requestId = rid ∧ ∃ root, FirstKeys bs A root ∧ H.Rooted root h.hashValue (i + 1)

variable {H : BlockHasher} {bs : Nat} {s t : TracedState} {op : KVOp} {r : Request}
  {seen : List Request}

theorem positional_seenRoot (hH : H.Lawful) (seen : List Request) :
    Positional (SeenRoot H bs seen) := by
  rintro r i r' j h ⟨A, -, -, root, -, hroot⟩ ⟨B, -, -, root', -, hroot'⟩
  exact Nat.succ.inj (hroot.depth.unique hH hroot'.depth)

/-- A hash that is computed for a request has the root of the request. -/
theorem computes_seenRoot (hH : H.Lawful) (hr : r ∈ seen) (lo hi : Nat) :
    Computes (SeenRoot H bs seen) H r bs lo hi := by
  intro i prev h _ _ hprev hc
  obtain ⟨-, keys, idx, hkeys, rfl⟩ := BlockPool.computeBlockHash_ok hc
  cases i with
  | zero =>
    obtain rfl : prev = none := hprev
    have hgen : generateBlockHashExtraKeys r 0 bs (-1) = .ok (keys, idx) := by simpa using hkeys
    exact ⟨r, hr, rfl, keys, firstKeys_generate hgen, .first _⟩
  | succ i =>
    obtain ⟨b, ⟨A, hA, hid, root, hroot, hrooted⟩, rfl⟩ := hprev
    exact ⟨A, hA, hid, root, hroot, hrooted.hashBlockTokens hH _ _⟩

theorem recorded_seenRoot (hH : H.Lawful) (hr : r ∈ seen) {hashes : List BlockHash}
    (h : hashRequestTokens H bs r = .ok hashes) :
    Recorded (SeenRoot H bs seen) r.requestId hashes := by
  unfold hashRequestTokens at h
  cases hn : r.numTokens / bs with
  | zero =>
    rw [hn] at h
    obtain rfl : [] = hashes := by simpa [hashBlocksFrom] using h
    intro i b hb
    simp at hb
  | succ n =>
    rw [hn] at h
    obtain ⟨keys, idx, rest, hkeys, hrest, rfl⟩ := hashBlocksFrom_succ_ok.mp h
    have hroot := firstKeys_scratch hkeys
    have hfirst : H.Rooted keys (hashBlockTokens H none (blockTokens bs r.allTokenIds 0) keys).hashValue
      1 := .first _
    intro i b hb
    refine ⟨r, hr, rfl, keys, hroot, ?_⟩
    cases i with
    | zero =>
      cases hb
      exact hfirst
    | succ i =>
      have hrec := hashBlocksFrom_induction
        (P := fun j h => H.Rooted keys h.hashValue (j + 1)) hrest
        (fun e => hfirst.hashBlockTokens hH _ e)
        (fun j b e hb => hb.hashBlockTokens hH _ e) i b (by simpa using hb)
      rwa [show 0 + 1 + i = i + 1 by omega] at hrec

/-- The hashes that a call computes have the root of its request. -/
theorem computes_root (hH : H.Lawful) (hr : op.request? = some r) (hseen : r ∈ seen)
    (hsize : s.kv.manager.blockSize = bs) :
    op.Computes (SeenRoot H bs seen) H s.kv.manager := by
  subst hsize
  cases op with
  | getComputedBlocks r' =>
    obtain rfl : r' = r := by simpa [KVOp.request?] using hr
    exact fun _ _ h => recorded_seenRoot hH hseen h
  | allocateSlots r' n c u lookahead delay =>
    obtain rfl : r' = r := by simpa [KVOp.request?] using hr
    exact fun _ _ => computes_seenRoot hH hseen _ _
  | cacheBlocks r' n =>
    obtain rfl : r' = r := by simpa [KVOp.request?] using hr
    exact fun _ => computes_seenRoot hH hseen _ _
  | free r' => trivial
  | freeBlockHashes r' => trivial
  | resetPrefixCache => trivial

/-- The invariant of the runs. -/
structure SaltInv (H : BlockHasher) (bs : Nat) (s : TracedState) : Prop where
  fits : s.kv.Fits (SeenRoot H bs s.seen)
  blockSize : s.kv.manager.blockSize = bs
  salts : ∀ A ∈ s.seen, ∀ B ∈ s.seen, SaltsApart bs A B
  log : ∀ e ∈ s.log, e.request ∈ s.seen ∧ ∃ root, FirstKeys bs e.request root ∧
    H.Rooted root e.hash.hashValue (e.position + 1)

/-- **One call keeps the invariant.** -/
theorem SaltInv.step {k : KVCacheManager} (hH : H.Lawful) (h : s.SaltInv H bs)
    (hone : s.OneObject op) (hsound : s.SaltSound op)
    (hstep : (tracedMachine H k).step s op = .ok t) : t.SaltInv H bs := by
  obtain ⟨kv, hrun, hstep⟩ := bind_eq_ok.mp hstep
  cases hr : op.request? with
  | none =>
    obtain rfl : { s with kv := kv } = t := by simpa [hr, pure_eq_ok] using hstep
    have hcomp : op.Computes (SeenRoot H bs s.seen) H s.kv.manager := by
      cases op <;> trivial
    obtain ⟨hf, hsc⟩ := h.fits.run (positional_seenRoot hH s.seen) hcomp hsound.null hrun
    exact ⟨hf, hsc.blockSize.trans h.blockSize, h.salts, h.log⟩
  | some r =>
    obtain rfl : { kv := kv, seen := s.seen ++ [r], log := s.log ++ recordsOf kv.manager r } = t := by
      simpa [hr, pure_eq_ok] using hstep
    have hmono : s.kv.Fits (SeenRoot H bs (s.seen ++ [r])) :=
      h.fits.mono fun _ _ _ ⟨A, hA, hc⟩ => ⟨A, List.mem_append_left _ hA, hc⟩
    obtain ⟨hf, hsc⟩ := hmono.run (positional_seenRoot hH _)
      (computes_root hH hr (by simp) h.blockSize) hsound.null hrun
    have hsalts := hsound.salts r hr
    rw [h.blockSize] at hsalts
    refine ⟨hf, hsc.blockSize.trans h.blockSize, fun A hA B hB => ?_, fun e he => ?_⟩
    · rw [mem_append, List.mem_singleton] at hA hB
      rcases hA with hA | rfl
      · rcases hB with hB | rfl
        · exact h.salts A hA B hB
        · exact hsalts A hA
      · rcases hB with hB | rfl
        · exact (hsalts B hB).symm
        · exact fun hne => absurd rfl hne
    · rcases mem_append.mp he with he | he
      · obtain ⟨hseen, hroot⟩ := h.log e he
        exact ⟨List.mem_append_left _ hseen, hroot⟩
      · obtain ⟨rfl, hrec⟩ := mem_recordsOf.mp he
        obtain ⟨A, hA, hid, root, hkeys, hrooted⟩ := hf.manager.recorded _ _ _ hrec
        refine ⟨by simp, root, ?_, hrooted⟩
        rw [mem_append, List.mem_singleton] at hA
        rcases hA with hA | rfl
        · exact hkeys.extends (hone _ hr A hA hid)
        · exact hkeys

/-- Requests with different salts have no hash in common. -/
theorem SaltInv.hash_ne (hH : H.Lawful) (h : s.SaltInv H bs) {a b : HashRecord} (ha : a ∈ s.log)
    (hb : b ∈ s.log) (hne : a.request.cacheSalt ≠ b.request.cacheSalt) :
    a.hash.hashValue ≠ b.hash.hashValue := by
  intro heq
  obtain ⟨hA, root, hkeys, hroot⟩ := h.log a ha
  obtain ⟨hB, root', hkeys', hroot'⟩ := h.log b hb
  rw [← heq] at hroot'
  obtain rfl := hroot.unique hH hroot'
  exact hne (hkeys.ne hkeys' (h.salts _ hA _ hB))

end TracedState

open TracedState

/-- The hashes recorded for requests with another salt. -/
def TracedState.foreignHashes (s : TracedState) (B : Request) : List BlockHash :=
  (s.log.filter fun e => e.request.cacheSalt ≠ B.cacheSalt).map HashRecord.hash

/-- **Isolation by the cache salt.** In every run whose calls meet the condition, no block hash recorded
for a request equals one recorded for a request with another cache salt, and what `get_computed_blocks`
reports to it is the same whatever the index holds under their hashes. -/
theorem cacheSalt_isolates {H : BlockHasher} (hH : H.Lawful) {config : KVCacheConfig}
    {maxModelLen : Nat} {enableCaching useEagle events : Bool} {k : KVCacheManager}
    (hinit : KVCacheManager.init config maxModelLen enableCaching useEagle events = .ok k)
    {s : TracedState}
    (hs : (tracedMachine H k).Reach (fun s op => s.OneObject op ∧ s.SaltSound op) s) :
    (∀ a ∈ s.log, ∀ b ∈ s.log, a.request.cacheSalt ≠ b.request.cacheSalt →
      a.hash.hashValue ≠ b.hash.hashValue) ∧
    ∀ B blocks n k', s.OneObject (.getComputedBlocks B) → s.SaltSound (.getComputedBlocks B) →
      s.kv.manager.getComputedBlocks H B = .ok (blocks, n, k') →
      ∀ p' : BlockPool, p'.nullBlock = s.kv.manager.blockPool.nullBlock →
        (∀ h, h.blockHash ∉ s.foreignHashes B → p'.cachedBlockHashToBlock.get? h =
          s.kv.manager.blockPool.cachedBlockHashToBlock.get? h) →
        ∃ k'', { s.kv.manager with blockPool := p' }.getComputedBlocks H B =
          .ok (blocks, n, k'') := by
  have hinv : s.SaltInv H k.blockSize := by
    refine hs.invariant (I := fun s => s.SaltInv H k.blockSize) ?_
      fun _ _ _ hI hok hstep => hI.step hH hok.1 hok.2 hstep
    exact ⟨⟨KVCacheManager.fits_init hinit, fun _ _ he => by simp [tracedMachine] at he⟩, rfl,
      by simp [tracedMachine], by simp [tracedMachine]⟩
  refine ⟨fun a ha b hb hne => hinv.hash_ne hH ha hb hne, ?_⟩
  intro B blocks n k' hone hsound hget p' hnull hagree
  -- the call records the hashes of `B`, none of which is foreign
  have hstep : (tracedMachine H k).step s (.getComputedBlocks B) = .ok
      { kv := ⟨k', some (B.requestId, blocks)⟩, seen := s.seen ++ [B]
        log := s.log ++ recordsOf k' B } := by
    refine bind_eq_ok.mpr ⟨⟨k', some (B.requestId, blocks)⟩, bind_eq_ok.mpr ⟨_, hget, rfl⟩, rfl⟩
  have hinv' := hinv.step hH hone hsound hstep
  refine ⟨_, KVCacheManager.getComputedBlocks_congr hget fun _ => ⟨hnull, fun h hh g => ?_⟩⟩
  refine hagree ⟨h, g⟩ fun hforeign => ?_
  obtain ⟨e, he, rfl⟩ := List.mem_map.mp hforeign
  obtain ⟨hlog, hne⟩ := List.mem_filter.mp he
  obtain ⟨i, hi⟩ := List.mem_iff_getElem?.mp hh
  have hrec : (⟨B, i, e.hash⟩ : HashRecord) ∈ s.log ++ recordsOf k' B :=
    List.mem_append_right _ (mem_recordsOf.mpr ⟨rfl, hi⟩)
  exact hinv'.hash_ne hH (List.mem_append_left _ hlog) hrec (by simpa using hne) rfl

/-! ## An item that imitates a salt -/

instance (s : TracedState) (op : KVOp) : Decidable (s.OneObject op) := by
  unfold TracedState.OneObject
  infer_instance

instance (s : TracedState) (op : KVOp) : Decidable (s.SaltSound op) :=
  decidable_of_iff (CachesNoNull s.kv op ∧ ∀ r ∈ op.request?, ∀ A ∈ s.seen,
      SaltsApart s.kv.manager.blockSize A r)
    ⟨fun ⟨h₁, h₂⟩ => ⟨h₁, h₂⟩, fun h => ⟨h.null, h.salts⟩⟩

/-- A request with a salt and no item. -/
def saltedRequest (rid : ReqId) (salt : String) : Request :=
  { requestId := rid, promptTokenIds := [7, 7, 7, 7, 7], cacheSalt := some salt }

/-- A request without a salt, with an item in its first block. -/
def imageOnlyRequest (rid : ReqId) : Request :=
  { requestId := rid, promptTokenIds := [7, 7, 7, 7, 7], mmPositions := [⟨0, 2⟩]
    mmHashes := ["image"] }

/-- Serve a salted request, and look up the blocks of one without a salt. -/
def saltedRun (salt : String) : List KVOp :=
  [.getComputedBlocks (saltedRequest 1 salt),
   .allocateSlots (saltedRequest 1 salt) 5 0 true 0 false,
   .getComputedBlocks (imageOnlyRequest 2)]

/-- **An item imitates a salt**: the request without a salt gets the block of the salted one, since
the hash of its item is the salt. -/
theorem cacheSalt_imitated :
    ∃ H : BlockHasher, H.Lawful ∧ ∃ k, KVCacheManager.init fullConfig 100 true false false = .ok k ∧
      ∃ s, (tracedMachine H k).Reach (fun s op => s.OneObject op) s ∧
        (∃ a ∈ s.log, ∃ b ∈ s.log, a.request.cacheSalt ≠ b.request.cacheSalt ∧ a.hash = b.hash) ∧
        s.kv.computed = some (2, [[1]]) := by
  have hrun : (traceCalls .encoding (fun s op => s.OneObject op) (saltedRun "image")).any (fun s =>
      decide ((∃ a ∈ s.log, ∃ b ∈ s.log, a.request.cacheSalt ≠ b.request.cacheSalt ∧
        a.hash = b.hash) ∧ s.kv.computed = some (2, [[1]]))) = true := by decide +kernel
  obtain ⟨s, hs, hbad⟩ := Option.any_eq_true .. |>.mp hrun
  obtain ⟨k, hk, hreach⟩ := reach_traceCalls hs
  exact ⟨_, BlockHasher.lawful_encoding, k, hk, s, hreach, of_decide_eq_true hbad⟩

/-- The theorem on a run with another salt: the second request gets no block. -/
theorem cacheSalt_isolates_saltedRun :
    ∃ s, traceCalls .encoding (fun s op => s.OneObject op ∧ s.SaltSound op) (saltedRun "salt") =
        some s ∧ s.kv.computed = some (2, [[]]) ∧
      ∀ a ∈ s.log, ∀ b ∈ s.log, a.request.cacheSalt ≠ b.request.cacheSalt →
        a.hash.hashValue ≠ b.hash.hashValue := by
  have hrun : (traceCalls .encoding (fun s op => s.OneObject op ∧ s.SaltSound op)
      (saltedRun "salt")).any (fun s => decide (s.kv.computed = some (2, [[]]))) = true := by
    decide +kernel
  obtain ⟨s, hs, hc⟩ := Option.any_eq_true .. |>.mp hrun
  obtain ⟨k, hk, hreach⟩ := reach_traceCalls hs
  exact ⟨s, hs, of_decide_eq_true hc,
    (cacheSalt_isolates BlockHasher.lawful_encoding hk hreach).1⟩

end InferenceServer
