import InferenceServer.KVCache.Coherence
import InferenceServer.KVCache.HashLoop

/-!
# What the managers of one type do to the block tables

Every method of `SingleTypeKVCacheManager` replaces the table of one request and calls the pool.
This module proves, for a manager anywhere in the list of managers, that the method keeps the
tables coherent with the pool.

Caching is the one operation with a side condition: a table may hold the null block at a position
that is not cached yet, if the attention window has passed the position before its block was
cached, and `cache_full_blocks` does not look whether a block is the null block. `CacheClean`
states that this does not happen.

## Main results

* `Coherent.free`, `Coherent.removeSkippedBlocks`, `Coherent.allocateNewBlocks`,
  `Coherent.saveNewComputedBlocks`, `Coherent.cacheBlocks`
-/

namespace InferenceServer

open Outcome

variable {P : ReqId → Nat → BlockHash → Prop} {p p' : BlockPool}
  {pre post ms : List SingleTypeKVCacheManager} {m m' : SingleTypeKVCacheManager}
  {pending : List BlockId} {r : ReqId} {l : List BlockId}

/-- A hash belongs to one position of all requests. -/
def Positional (P : ReqId → Nat → BlockHash → Prop) : Prop :=
  ∀ r i s j h, P r i h → P s j h → i = j

theorem Coherent.count_le_one (h : Coherent P p ms pending) (hm : m ∈ ms) {b : BlockId}
    (hb : b ≠ p.nullBlock) : (m.blocksOf r).count b ≤ 1 := by
  have hn := List.nodup_iff_count_le_one.mp (h.nodup_blocksOf hm r) b
  rwa [List.count_filter (by simpa using hb)] at hn

/-- The position of a block that is in the table already. -/
theorem Coherent.position_of_mem (h : Coherent P p ms pending) (hm : m ∈ ms) {i : Nat}
    {b : BlockId} (hb : b ≠ p.nullBlock) (hi : (m.blocksOf r)[i]? = some b) :
    ∀ s j, HeldAt ms s j b → j = i :=
  fun s j hj => h.position s j r i b hb hj ⟨m, hm, hi⟩

/-- **Giving up entries of a table**: the new table has the old one's blocks at their places, or
the null block, and the blocks that are gone are given back. -/
theorem Coherent.giveBack (h : Coherent P p (pre ++ m :: post) []) (hm : m.Retable r l m')
    (hc : m'.numCachedBlock = m.numCachedBlock ∨
      m'.numCachedBlock = m.numCachedBlock.erase r)
    (hsub : ∀ (i : Nat) (b : BlockId), l[i]? = some b → b ≠ p.nullBlock → (m.blocksOf r)[i]? = some b)
    {removed : List BlockId}
    (hcount : ∀ b, b ≠ p.nullBlock → (m.blocksOf r).count b = l.count b + removed.count b)
    (hf : p.freeBlocks removed = .ok p') :
    Coherent P p' (pre ++ m' :: post) [] ∧ p.SameHashes p' := by
  have hmem : m ∈ pre ++ m :: post := by simp
  obtain ⟨free, ha⟩ := h.accounts
  have hone : ∀ b, b ≠ p.nullBlock → removed.count b ≤ 1 := fun b hb => by
    have h₁ := h.count_le_one hmem (r := r) hb
    have h₂ := hcount b hb
    omega
  have hle : ∀ b, b ≠ p.nullBlock →
      removed.count b ≤ occurrences (pre ++ m :: post) b + ([] : List BlockId).count b := by
    intro b hb
    have h₁ := count_blocksOf_le_occurrences hmem r b
    have h₂ := hcount b hb
    omega
  have hnd : (removed.filter fun b => b ≠ p.nullBlock).Nodup := by
    refine List.nodup_iff_count_le_one.mpr fun b => ?_
    by_cases hb : b = p.nullBlock
    · rw [List.count_eq_zero_of_not_mem (by simp [hb])]
      omega
    · rw [List.count_filter (by simpa using hb)]
      exact hone b hb
  obtain ⟨free', ha', hs⟩ := ha.freeBlocks hle hnd hf
  have hocc : ∀ b, b ≠ p.nullBlock → occurrences (pre ++ m' :: post) b =
      occurrences (pre ++ m :: post) b - removed.count b := by
    intro b hb
    have h₁ := occurrences_retable pre post hm b
    have h₂ := hcount b hb
    omega
  refine ⟨h.retable hm ⟨free', ha'.congr fun b hb => ?_⟩ (hs.indexed h.indexed)
    (hs.unhashed h.unhashed) hs.shape (fun _ _ b _ => hs.blockHash b) ?_ ?_ ?_ ?_ ?_, hs⟩
  · rw [hs.shape.nullBlock] at hb
    simp [hocc b hb]
  · rw [hs.shape.nullBlock, hs.blockHash, h.null_unhashed]
  · intro i b hi hb
    have hpos := h.position_of_mem hmem hb (hsub i b hi hb)
    exact ⟨hpos, fun j hj => hpos r j ⟨m, hmem, hsub j b hj hb⟩⟩
  · intro i b k hi hb hk
    exact h.hashed r i b k ⟨m, hmem, hsub i b hi hb⟩ (by rw [← hs.blockHash, hk])
  · intro b hb hk
    rw [hs.blockHash] at hk
    have h₁ := h.shared b hb hk
    rw [hocc b hb]
    omega
  · intro s c hs
    refine h.numCachedBlock_nonneg m hmem s c ?_
    rcases hc with hc | hc
    · rwa [hc] at hs
    · rw [hc, Dict.get?_erase] at hs
      split_ifs at hs
      exact hs

/-- **`free`** gives back all blocks of a request. -/
theorem Coherent.free (h : Coherent P p (pre ++ m :: post) []) (hf : m.free p r = .ok (m', p')) :
    Coherent P p' (pre ++ m' :: post) [] ∧ p.SameHashes p' := by
  obtain ⟨q, h₁, h₂⟩ := bind_eq_ok.mp hf
  obtain ⟨rfl, rfl⟩ := Prod.mk.injEq .. ▸ pure_eq_ok.mp h₂
  exact h.giveBack (SingleTypeKVCacheManager.retable_erase m r _) (.inr rfl) (by simp)
    (by simp [List.count_reverse]) h₁

/-! ## Skipped blocks -/

namespace SingleTypeKVCacheManager

/-- The loop of `remove_skipped_blocks` replaces the blocks it removes by the null block. -/
theorem skipLoop_ok {z : BlockId} {n : Nat} {l removed l' : List BlockId}
    (h : skipLoop z n l = .ok (removed, l')) :
    l'.length = l.length ∧
      (∀ (i : Nat) (b : BlockId), l'[i]? = some b → b ≠ z → l[i]? = some b) ∧
      (∀ b, b ≠ z → l.count b = l'.count b + removed.count b) ∧
      ∀ i : Nat, n ≤ i → l'[i]? = l[i]? := by
  induction n generalizing l removed with
  | zero =>
    obtain ⟨rfl, rfl⟩ : [] = removed ∧ l = l' := by simpa [skipLoop] using h
    exact ⟨rfl, fun _ _ hi _ => hi, fun _ _ => by simp, fun _ _ => rfl⟩
  | succ n ih =>
    rw [skipLoop] at h
    cases hn : l[n]? with
    | none => simp [hn] at h
    | some b =>
      simp only [hn] at h
      split_ifs at h with hb
      · cases h
        exact ⟨rfl, fun _ _ hi _ => hi, fun _ _ => by simp, fun _ _ => rfl⟩
      · obtain ⟨⟨rem, l''⟩, h₁, h₂⟩ := bind_eq_ok.mp h
        cases h₂
        obtain ⟨hlen, hsub, hcount, hge⟩ := ih h₁
        obtain ⟨hlt, hget⟩ := List.getElem?_eq_some_iff.mp hn
        refine ⟨by simpa using hlen, fun i c hi hc => ?_, fun c hc => ?_, fun i hi => ?_⟩
        · have hs := hsub i c hi hc
          rw [List.getElem?_set] at hs
          split_ifs at hs
          · exact absurd (by simpa using hs) (Ne.symm hc)
          · exact hs
        · have hs := hcount c hc
          rw [List.count_set hlt, hget] at hs
          have hz : (z == c) = false := by simpa using Ne.symm hc
          simp only [hz, Bool.false_eq_true, if_false, Nat.add_zero] at hs
          rw [List.count_cons]
          by_cases hcb : b = c
          · subst hcb
            have hpos : 0 < l.count b := List.count_pos_iff.mpr (List.mem_of_getElem? hn)
            simp only [beq_self_eq_true, if_true] at hs ⊢
            omega
          · have hbc : (b == c) = false := by simpa using hcb
            simp only [hbc, Bool.false_eq_true, if_false] at hs ⊢
            omega
        · rw [hge i (by omega), List.getElem?_set_ne (by omega)]

/-- What `remove_skipped_blocks` does to the manager. -/
theorem removeSkippedBlocks_ok {nc : Int} (h : m.removeSkippedBlocks p r nc = .ok (m', p')) :
    m' = m ∧ p' = p ∧ m.numSkippedBlocks r nc = none ∨
      ∃ n removed blocks, m.numSkippedBlocks r nc = some n ∧
        skipLoop p.nullBlock n.toNat (m.blocksOf r) = .ok (removed, blocks) ∧
        p.freeBlocks removed = .ok p' ∧
        m' = { m with reqToBlocks := m.reqToBlocks.set r blocks } := by
  unfold removeSkippedBlocks at h
  cases hn : m.numSkippedBlocks r nc with
  | none =>
    obtain ⟨rfl, rfl⟩ : m = m' ∧ p = p' := by simpa [hn] using h
    exact .inl ⟨rfl, rfl, rfl⟩
  | some n =>
    simp only [hn] at h
    obtain ⟨⟨removed, blocks⟩, h₁, h₂⟩ := bind_eq_ok.mp h
    obtain ⟨q, h₃, h₄⟩ := bind_eq_ok.mp h₂
    obtain ⟨rfl, rfl⟩ := Prod.mk.injEq .. ▸ pure_eq_ok.mp h₄
    exact .inr ⟨n, removed, blocks, rfl, h₁, h₃, rfl⟩

end SingleTypeKVCacheManager

/-- **`remove_skipped_blocks`** gives back the blocks behind the attention window. -/
theorem Coherent.removeSkippedBlocks (h : Coherent P p (pre ++ m :: post) []) {nc : Int}
    (hr : m.removeSkippedBlocks p r nc = .ok (m', p')) :
    Coherent P p' (pre ++ m' :: post) [] ∧ p.SameHashes p' := by
  rcases SingleTypeKVCacheManager.removeSkippedBlocks_ok hr with
    ⟨rfl, rfl, -⟩ | ⟨n, removed, blocks, -, hskip, hfree, rfl⟩
  · exact ⟨h, .refl _⟩
  · obtain ⟨-, hsub, hcount, -⟩ := SingleTypeKVCacheManager.skipLoop_ok hskip
    exact h.giveBack (SingleTypeKVCacheManager.retable_set m r blocks _) (.inl rfl) hsub hcount
      hfree

/-! ## New blocks -/

namespace SingleTypeKVCacheManager

/-- What `allocate_new_blocks` does to the manager. -/
theorem allocateNewBlocks_ok {n : Int} {new : List BlockId}
    (h : m.allocateNewBlocks p r n = .ok (new, m', p')) :
    new = [] ∧ m' = m ∧ p' = p ∧ cdiv n m.blockSize ≤ (m.blocksOf r).length ∨
      p.getNewBlocks (cdiv n m.blockSize - (m.blocksOf r).length).toNat = .ok (new, p') ∧
        0 < cdiv n m.blockSize - (m.blocksOf r).length ∧
        m' = { m with reqToBlocks := m.reqToBlocks.set r (m.blocksOf r ++ new) } := by
  unfold allocateNewBlocks at h
  dsimp only at h
  split_ifs at h with hn
  · obtain ⟨-, -, h₂⟩ := bind_eq_ok.mp h
    cases h₂
    exact .inl ⟨rfl, rfl, rfl, by omega⟩
  · obtain ⟨⟨new', q⟩, h₁, h₂⟩ := bind_eq_ok.mp h
    obtain ⟨-, -, h₃⟩ := bind_eq_ok.mp h₂
    cases h₃
    exact .inr ⟨h₁, by omega, rfl⟩

end SingleTypeKVCacheManager

/-- **`allocate_new_blocks`** adds free blocks at the end of the table. -/
theorem Coherent.allocateNewBlocks (h : Coherent P p (pre ++ m :: post) []) {n : Int}
    {new : List BlockId} (hn : m.allocateNewBlocks p r n = .ok (new, m', p')) :
    Coherent P p' (pre ++ m' :: post) [] ∧ p.SameShape p' ∧ p.nullBlock ∉ new := by
  rcases SingleTypeKVCacheManager.allocateNewBlocks_ok hn with
    ⟨rfl, rfl, rfl, -⟩ | ⟨hget, -, rfl⟩
  · exact ⟨h, .refl _, by simp⟩
  have hmem : m ∈ pre ++ m :: post := by simp
  obtain ⟨free, ha⟩ := h.accounts
  obtain ⟨rest, rfl, -, ha', hi', hs, hhash⟩ := ha.getNewBlocks h.indexed h.unhashed hget
  have hm := SingleTypeKVCacheManager.retable_set m r (m.blocksOf r ++ new) m.numCachedBlock
  have hnew : ∀ b ∈ new, b ≠ p.nullBlock ∧ occurrences (pre ++ m :: post) b = 0 := by
    intro b hb
    obtain ⟨-, h₂, h₃⟩ := (ha.mem_free b).mp (List.mem_append_left _ hb)
    exact ⟨h₂, by simpa using h₃⟩
  have hnd : new.Nodup := (List.nodup_append.mp ha.holds.nodup).1
  have hnothold : ∀ s i b, HeldAt (pre ++ m :: post) s i b → b ∉ new := fun s i b hh hb => by
    have h₁ := hh.occurrences_pos
    have h₂ := (hnew b hb).2
    omega
  have hocc : ∀ b, occurrences (pre ++ { m with
      reqToBlocks := m.reqToBlocks.set r (m.blocksOf r ++ new) } :: post) b =
      occurrences (pre ++ m :: post) b + new.count b := by
    intro b
    have h₁ := occurrences_retable pre post hm b
    rw [List.count_append] at h₁
    omega
  refine ⟨h.retable hm ⟨rest, ha'.congr fun b _ => ?_⟩ hi' ?_ hs ?_ ?_ ?_ ?_ ?_ ?_, hs, fun hb =>
    (hnew _ hb).1 rfl⟩
  · rw [hocc]
    simp
  · intro hc b
    rw [hhash]
    split_ifs
    · rfl
    · exact h.unhashed (hs.enableCaching ▸ hc) b
  · intro s i b hh
    rw [hhash, if_neg (hnothold s i b hh)]
  · rw [hs.nullBlock, hhash, if_neg fun hb => (hnew _ hb).1 rfl, h.null_unhashed]
  · intro i b hi hb
    by_cases hbn : b ∈ new
    · refine ⟨fun s j hh => absurd hbn (hnothold s j b hh), fun j hj => ?_⟩
      -- the block is in the new part of the table, where it has one index
      have hnot : ∀ j : Nat, (m.blocksOf r)[j]? ≠ some b := fun j hj' =>
        hnothold r j b ⟨m, hmem, hj'⟩ hbn
      have hnew_idx : ∀ j : Nat, (m.blocksOf r ++ new)[j]? = some b →
          (m.blocksOf r).length ≤ j ∧ new[j - (m.blocksOf r).length]? = some b := by
        intro j hj'
        by_cases hlt : j < (m.blocksOf r).length
        · rw [List.getElem?_append_left hlt] at hj'
          exact absurd hj' (hnot j)
        · rw [List.getElem?_append_right (by omega)] at hj'
          exact ⟨by omega, hj'⟩
      obtain ⟨hi₁, hi₂⟩ := hnew_idx i hi
      obtain ⟨hj₁, hj₂⟩ := hnew_idx j hj
      have hlt := (List.getElem?_eq_some_iff.mp hj₂).1
      have := (List.getElem?_inj hlt hnd).mp (hj₂.trans hi₂.symm)
      omega
    · have hold : ∀ j : Nat, (m.blocksOf r ++ new)[j]? = some b → (m.blocksOf r)[j]? = some b := by
        intro j hj
        by_cases hlt : j < (m.blocksOf r).length
        · rwa [List.getElem?_append_left hlt] at hj
        · rw [List.getElem?_append_right (by omega)] at hj
          exact absurd (List.mem_of_getElem? hj) hbn
      have hpos := h.position_of_mem hmem hb (hold i hi)
      exact ⟨hpos, fun j hj => hpos r j ⟨m, hmem, hold j hj⟩⟩
  · intro i b k hi hb hk
    rw [hhash] at hk
    split_ifs at hk with hbn
    refine h.hashed r i b k ⟨m, hmem, ?_⟩ hk
    by_cases hlt : i < (m.blocksOf r).length
    · rwa [List.getElem?_append_left hlt] at hi
    · rw [List.getElem?_append_right (by omega)] at hi
      exact absurd (List.mem_of_getElem? hi) hbn
  · intro b hb hk
    rw [hocc]
    by_cases hbn : b ∈ new
    · rw [(hnew b hbn).2, List.count_eq_one_of_mem hnd hbn]
    · rw [List.count_eq_zero_of_not_mem hbn]
      rw [hhash, if_neg hbn] at hk
      exact h.shared b hb hk
  · exact h.numCachedBlock_nonneg m hmem

/-! ## Prefix cache hits -/

/-- **Prefix cache hits**: a block at position `i` is the null block or has a hash that fits
block `i` of the request. -/
def HitsFit (P : ReqId → Nat → BlockHash → Prop) (r : ReqId) (p : BlockPool)
    (l : List BlockId) : Prop :=
  ∀ (i : Nat) (b : BlockId), l[i]? = some b → b ≠ p.nullBlock →
    ∃ h, (p.block b).blockHash = some h ∧ P r i h.blockHash

theorem HitsFit.of_sameHashes (h : HitsFit P r p l) (hs : p.SameHashes p') : HitsFit P r p' l := by
  intro i b hi hb
  rw [hs.shape.nullBlock] at hb
  rw [hs.blockHash]
  exact h i b hi hb

theorem hitsFit_nil : HitsFit P r p [] := by simp [HitsFit]

namespace SingleTypeKVCacheManager

/-- What `save_new_computed_blocks` does to the manager. -/
theorem saveNewComputedBlocks_ok {hits : List BlockId}
    (h : m.saveNewComputedBlocks r hits = .ok m') :
    r ∈ m.numCachedBlock ∧ hits = [] ∧ m' = m ∨
      r ∉ m.numCachedBlock ∧ m.blocksOf r = [] ∧
        m' = { m with
          reqToBlocks := m.reqToBlocks.set r hits
          numCachedBlock := m.numCachedBlock.set r hits.length } := by
  unfold saveNewComputedBlocks at h
  split_ifs at h with hr
  · obtain ⟨_, h₁, h₂⟩ := bind_eq_ok.mp h
    cases h₂
    exact .inl ⟨hr, by simpa using h₁, rfl⟩
  · obtain ⟨_, h₁, h₂⟩ := bind_eq_ok.mp h
    cases h₂
    exact .inr ⟨hr, by simpa using h₁, rfl⟩

end SingleTypeKVCacheManager

/-- **`save_new_computed_blocks`** enters touched hits into the table of a new request. -/
theorem Coherent.saveNewComputedBlocks {hits : List BlockId}
    (h : Coherent P p (pre ++ m :: post) (hits ++ pending)) (hP : Positional P)
    (hfit : HitsFit P r p hits) (hsave : m.saveNewComputedBlocks r hits = .ok m') :
    Coherent P p (pre ++ m' :: post) pending := by
  rcases SingleTypeKVCacheManager.saveNewComputedBlocks_ok hsave with
    ⟨-, rfl, rfl⟩ | ⟨hr, hempty, rfl⟩
  · exact h
  have hmem : m ∈ pre ++ m :: post := by simp
  have hm := SingleTypeKVCacheManager.retable_set m r hits (m.numCachedBlock.set r hits.length)
  obtain ⟨free, ha⟩ := h.accounts
  refine h.retable hm ⟨free, ha.congr fun b _ => ?_⟩ h.indexed h.unhashed (.refl p)
    (fun _ _ _ _ => rfl) h.null_unhashed ?_ ?_ ?_ ?_
  · have h₁ := occurrences_retable pre post hm b
    rw [hempty] at h₁
    simp only [List.count_nil, List.count_append] at h₁ ⊢
    omega
  · intro i b hi hb
    obtain ⟨k, hk, hPk⟩ := hfit i b hi hb
    refine ⟨fun s j hh => hP _ _ _ _ _ (h.hashed s j b k hh hk) hPk, fun j hj => ?_⟩
    obtain ⟨k', hk', hPk'⟩ := hfit j b hj hb
    obtain rfl : k = k' := by simpa [hk] using hk'
    exact hP _ _ _ _ _ hPk' hPk
  · intro i b k hi hb hk
    obtain ⟨k', hk', hPk'⟩ := hfit i b hi hb
    obtain rfl : k' = k := by simpa [hk'] using hk
    exact hPk'
  · intro b hb hk
    have hnot : b ∉ hits := fun hbh => by
      obtain ⟨i, hi⟩ := List.mem_iff_getElem?.mp hbh
      obtain ⟨k, hk', -⟩ := hfit i b hi hb
      simp [hk] at hk'
    have h₁ := occurrences_retable pre post hm b
    have h₂ := h.shared b hb hk
    rw [hempty, List.count_eq_zero_of_not_mem hnot] at h₁
    simp only [List.count_nil] at h₁
    omega
  · intro s c hs
    simp only [Dict.get?_set] at hs
    split_ifs at hs with hsr
    · obtain rfl : (hits.length : Int) = c := by simpa using hs
      omega
    · exact h.numCachedBlock_nonneg m hmem s c hs

/-! ## Caching full blocks -/

/-- The relation does not read the event queue. -/
theorem Coherent.with_events (h : Coherent P p ms pending) (events : List KVCacheEvent) :
    Coherent P { p with kvEventQueue := events } ms pending := by
  obtain ⟨free, ha⟩ := h.accounts
  exact
    { accounts := ⟨free, ha.holds, ha.mem_free, ha.refCnt, ha.isNull, ha.lt_of_refs⟩
      indexed := ⟨h.indexed.mem_cached, h.indexed.nodup⟩
      unhashed := h.unhashed
      null_lt := h.null_lt
      null_unhashed := h.null_unhashed
      position := h.position
      hashed := h.hashed
      shared := h.shared
      numCachedBlock_nonneg := h.numCachedBlock_nonneg }

section CacheLoop

variable {H : BlockHasher} {r : Request} {bs gid n : Nat} {hashes : List BlockHash}

/-- The state of the loop before block `i`: the tables are coherent with the pool, and the hashes
up to the block are there and fit. -/
structure LoopFits (P : ReqId → Nat → BlockHash → Prop) (r : Request)
    (ms : List SingleTypeKVCacheManager) (hashes : List BlockHash) (i : Nat)
    (s : BlockPool.CacheLoop) : Prop where
  coherent : Coherent P s.pool ms []
  caching : s.pool.enableCaching = true
  hashes : HashesFit P r.requestId hashes i s

/-- **One iteration** of the loop of `cache_full_blocks`. -/
theorem LoopFits.cacheOne {c i : Nat} {b : BlockId} {s t : BlockPool.CacheLoop}
    (hs : LoopFits P r ms hashes (c + i) s) (hcomp : Computes P H r bs hashes.length n)
    (hn : c + i < n) (hb : b ≠ s.pool.nullBlock) (hheld : HeldAt ms r.requestId (c + i) b)
    (h : BlockPool.cacheOne H r bs gid c (hashes.drop c) i b s = .ok t) :
    LoopFits P r ms hashes (c + (i + 1)) t ∧ s.pool.SameShape t.pool := by
  obtain ⟨ht, hnone, k, hP, hpool⟩ := hs.hashes.cacheOne hcomp hn h
  refine ⟨⟨?_, ?_, ht⟩, ?_⟩
  · rw [hpool]
    exact hs.coherent.insertCached hs.caching hb hheld hnone hP
  · rw [hpool]
    exact hs.caching
  · rw [hpool]
    exact ⟨rfl, rfl, rfl⟩

/-- **The loop of `cache_full_blocks`**, over blocks of the table of the request. -/
theorem LoopFits.cacheLoop {c i : Nat} {l : List BlockId} {s t : BlockPool.CacheLoop}
    (hs : LoopFits P r ms hashes (c + i) s) (hcomp : Computes P H r bs hashes.length n)
    (hn : c + i + l.length ≤ n ∨ l = [])
    (hl : ∀ (j : Nat) (b : BlockId), l[j]? = some b →
      b ≠ s.pool.nullBlock ∧ HeldAt ms r.requestId (c + i + j) b)
    (h : BlockPool.cacheLoop H r bs gid c (hashes.drop c) i l s = .ok t) :
    LoopFits P r ms hashes (c + i + l.length) t ∧ s.pool.SameShape t.pool := by
  induction l generalizing i s with
  | nil =>
    obtain rfl : s = t := by simpa [BlockPool.cacheLoop] using h
    exact ⟨hs, .refl _⟩
  | cons b l ih =>
    obtain ⟨u, h₁, h₂⟩ := bind_eq_ok.mp h
    obtain ⟨hb, hheld⟩ := hl 0 b (by simp)
    rw [List.length_cons, or_iff_left (List.cons_ne_nil b l)] at hn
    obtain ⟨hu, hshape⟩ := hs.cacheOne hcomp (by omega) hb hheld h₁
    obtain ⟨ht, hshape'⟩ := ih hu (.inl (by omega)) (fun j b' hj => by
      obtain ⟨h₃, h₄⟩ := hl (j + 1) b' (by simpa using hj)
      exact ⟨hshape.nullBlock ▸ h₃, by rwa [show c + (i + 1) + j = c + i + (j + 1) by omega]⟩) h₂
    refine ⟨?_, hshape.trans hshape'⟩
    rwa [List.length_cons, show c + i + (l.length + 1) = c + (i + 1) + l.length by omega]

/-- The hash of the physical block before position `c` fits the request. -/
theorem Coherent.prevBlockHash (h : Coherent P p ms pending) (hm : m ∈ ms) {c : Nat}
    {prev : Option Int}
    (hp : p.prevBlockHash (m.blocksOf r.requestId) c = .ok prev) :
    PrevFits P r.requestId c prev := by
  unfold BlockPool.prevBlockHash at hp
  cases c with
  | zero => simpa [PrevFits] using hp.symm
  | succ c =>
    rw [if_neg (by omega), show ((c + 1 : Nat) : Int) - 1 = (c : Nat) by omega,
      pyGet?_natCast] at hp
    cases hb : (m.blocksOf r.requestId)[c]? with
    | none => simp [hb] at hp
    | some b =>
      cases hk : (p.block b).blockHash with
      | none => simp [hb, hk] at hp
      | some k =>
        obtain rfl : some k.getHashValue = prev := by simpa [hb, hk] using hp
        exact ⟨k.blockHash, h.hashed _ c b k ⟨m, hm, hb⟩ hk, rfl⟩

/-- **`cache_full_blocks`** on blocks other than the null block. -/
theorem Coherent.cacheFullBlocks (h : Coherent P p ms []) (hm : m ∈ ms)
    (hcaching : p.enableCaching = true) (hrec : Recorded P r.requestId hashes)
    {c n : Nat} (hcomp : Computes P H r bs hashes.length n)
    (hclean : ∀ i : Nat, c ≤ i → i < n → (m.blocksOf r.requestId)[i]? ≠ some p.nullBlock)
    {hashes' : List BlockHash}
    (hc : p.cacheFullBlocks H r (m.blocksOf r.requestId) hashes c n bs gid = .ok (p', hashes')) :
    Coherent P p' ms [] ∧ Recorded P r.requestId hashes' ∧ hashes <+: hashes' ∧
      p.SameShape p' := by
  rcases BlockPool.cacheFullBlocks_ok hc with
    ⟨-, rfl, rfl⟩ | ⟨-, hlen, prev, s, events, hprev, hloop, rfl, rfl⟩
  · exact ⟨h, hrec, List.prefix_rfl, .refl _⟩
  have hfits : LoopFits P r ms hashes (c + 0) ⟨p, hashes, prev, []⟩ :=
    ⟨h, hcaching, hrec, (max_eq_left hlen).symm, List.prefix_rfl, h.prevBlockHash hm hprev⟩
  obtain ⟨hs, hshape⟩ := hfits.cacheLoop hcomp
    (length_newFullBlocks _ c n) (fun j b hj => by
    rw [List.getElem?_drop, List.getElem?_take] at hj
    split_ifs at hj with hlt
    refine ⟨?_, m, hm, hj⟩
    rintro rfl
    exact hclean (c + j) (by omega) hlt hj) hloop
  exact ⟨hs.coherent.with_events events, hs.hashes.recorded, hs.hashes.isPrefix,
    hshape.numGpuBlocks, hshape.enableCaching, hshape.nullBlock⟩

end CacheLoop

namespace SingleTypeKVCacheManager

/-- **No null block is about to be cached** for the first `numTokens` tokens of a request. -/
def CacheClean (z : BlockId) (r : ReqId) (numTokens : Int) (m : SingleTypeKVCacheManager) : Prop :=
  ∀ c, m.numCachedBlock.get? r = some c → ∀ i : Nat, c ≤ i → (i : Int) < numTokens / m.blockSize →
    (m.blocksOf r)[i]? ≠ some z

end SingleTypeKVCacheManager

/-- **`cache_blocks`**. -/
theorem Coherent.cacheBlocks {H : BlockHasher} {r : Request} {hashes hashes' : List BlockHash}
    {n : Int} (h : Coherent P p (pre ++ m :: post) []) (hcaching : p.enableCaching = true)
    (hrec : Recorded P r.requestId hashes)
    (hcomp : Computes P H r m.blockSize hashes.length (n / m.blockSize).toNat) (hn : 0 ≤ n)
    (hclean : m.CacheClean p.nullBlock r.requestId n)
    (hc : m.cacheBlocks p H r hashes n = .ok (m', p', hashes')) :
    Coherent P p' (pre ++ m' :: post) [] ∧ Recorded P r.requestId hashes' ∧
      hashes <+: hashes' ∧ p.SameShape p' := by
  have hmem : m ∈ pre ++ m :: post := by simp
  unfold SingleTypeKVCacheManager.cacheBlocks at hc
  cases hg : m.numCachedBlock.get? r.requestId with
  | none => simp [hg] at hc
  | some c =>
    simp only [hg] at hc
    obtain ⟨⟨q, hs⟩, h₁, h₂⟩ := bind_eq_ok.mp hc
    obtain ⟨rfl, rfl, rfl⟩ :
        { m with numCachedBlock := m.numCachedBlock.set r.requestId (n / m.blockSize) } = m' ∧
          q = p' ∧ hs = hashes' := by
      simpa [pure_eq_ok] using h₂
    have hnn : 0 ≤ n / m.blockSize := Int.ediv_nonneg hn (by omega)
    have hcc := h.numCachedBlock_nonneg m hmem _ c hg
    obtain ⟨c, rfl⟩ := Int.eq_ofNat_of_zero_le hcc
    obtain ⟨k, hk⟩ := Int.eq_ofNat_of_zero_le hnn
    rw [hk] at h₁ hcomp
    obtain ⟨hco, hrec', hpre, hshape⟩ := h.cacheFullBlocks hmem hcaching hrec hcomp
      (fun i hi hlt => hclean _ hg i (by omega) (by omega)) h₁
    refine ⟨hco.congr_manager rfl fun s d hd => ?_, hrec', hpre, hshape⟩
    simp only [Dict.get?_set] at hd
    split_ifs at hd with hs
    · obtain rfl : n / m.blockSize = d := by simpa using hd
      exact hnn
    · exact h.numCachedBlock_nonneg m hmem s d hd

end InferenceServer
