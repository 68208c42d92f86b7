import InferenceServer.KVCache.Tables

/-!
# A manager of one group

A KV connector works with a single KV cache group. The size of a block table then follows from the
arguments of the calls alone: `allocate_slots` extends the table by the computed blocks, and up to
the number of blocks that the slots need. What a call of `cache_blocks` gives a hash to are full
blocks of the table, none of them beyond the number of tokens it is called with.

## Main results

* `getComputedBlocks_oneGroup`, `allocateSlots_oneGroup`, `cacheBlocks_hashes`
-/

namespace InferenceServer

open Outcome DoublyLinked

/-! ## The number of new blocks -/

theorem FreeKVCacheBlockQueue.length_popLoop {n : Nat} {cur cur' : Option (Node BlockId)}
    {L L' : Links BlockId} {ret : List BlockId}
    (h : FreeKVCacheBlockQueue.popLoop n cur L = .ok (ret, cur', L')) : ret.length = n := by
  induction n generalizing cur L ret cur' L' with
  | zero =>
    obtain ⟨rfl, -⟩ : [] = ret ∧ _ := by simpa [FreeKVCacheBlockQueue.popLoop] using h
    rfl
  | succ n ih =>
    cases cur with
    | none => simp [FreeKVCacheBlockQueue.popLoop] at h
    | some node =>
      cases node with
      | head => simp [FreeKVCacheBlockQueue.popLoop] at h
      | tail => simp [FreeKVCacheBlockQueue.popLoop] at h
      | item b =>
        obtain ⟨⟨ret', cur'', L''⟩, h₁, h₂⟩ := bind_eq_ok.mp h
        cases h₂
        rw [List.length_cons, ih h₁]

namespace BlockPool

variable {H : BlockHasher} {p p' : BlockPool}

theorem length_getNewBlocks {n : Nat} {new : List BlockId}
    (h : p.getNewBlocks n = .ok (new, p')) : new.length = n := by
  unfold getNewBlocks at h
  split at h
  · simp at h
  obtain ⟨⟨ret, queue⟩, hpop, h⟩ := bind_eq_ok.mp h
  obtain ⟨q, -, h⟩ := bind_eq_ok.mp h
  cases h
  unfold FreeKVCacheBlockQueue.popleftN at hpop
  split at hpop
  next h0 =>
    cases hpop
    exact h0.symm
  next =>
    obtain ⟨_, -, hpop⟩ := bind_eq_ok.mp hpop
    obtain ⟨⟨ret', cur, L⟩, hloop, hpop⟩ := bind_eq_ok.mp hpop
    cases hpop
    exact FreeKVCacheBlockQueue.length_popLoop hloop

/-! ## The blocks that get a hash -/

theorem cacheLoop_hashes {r : Request} {bs gid : Nat} {c : Int} {new : List BlockHash} {i : Nat}
    {l : List BlockId} {s t : CacheLoop} (h : cacheLoop H r bs gid c new i l s = .ok t)
    {b : BlockId} (hb : b ∉ l) : (t.pool.block b).blockHash = (s.pool.block b).blockHash := by
  induction l generalizing i s with
  | nil =>
    obtain rfl : s = t := by simpa [cacheLoop] using h
    rfl
  | cons a l ih =>
    obtain ⟨u, h₁, h₂⟩ := bind_eq_ok.mp h
    obtain ⟨_, -, h₁⟩ := bind_eq_ok.mp h₁
    obtain ⟨⟨k, hashes⟩, -, h₁⟩ := bind_eq_ok.mp h₁
    cases h₁
    rw [List.mem_cons, not_or] at hb
    rw [ih h₂ hb.2, block_insertCached, if_neg hb.1]

/-- `cache_full_blocks` gives a hash to blocks of the table before index `n`. -/
theorem cacheFullBlocks_hashes {r : Request} {blocks : List BlockId}
    {hashes hashes' : List BlockHash} {c n : Int} {bs gid : Nat} (hn : 0 ≤ n)
    (h : p.cacheFullBlocks H r blocks hashes c n bs gid = .ok (p', hashes')) {b : BlockId}
    (hb : (p'.block b).blockHash ≠ (p.block b).blockHash) :
    ∃ i : Nat, blocks[i]? = some b ∧ (i : Int) < n := by
  unfold cacheFullBlocks at h
  split at h
  · cases h
    exact absurd rfl hb
  obtain ⟨_, -, h⟩ := bind_eq_ok.mp h
  obtain ⟨prev, -, h⟩ := bind_eq_ok.mp h
  obtain ⟨s, hloop, h⟩ := bind_eq_ok.mp h
  obtain ⟨q, hstored, h⟩ := bind_eq_ok.mp h
  cases h
  obtain ⟨events, rfl⟩ := storedEvent_ok hstored
  have hmem : b ∈ pySlice blocks c n := by
    by_contra hnot
    exact hb (cacheLoop_hashes hloop hnot)
  unfold pySlice at hmem
  obtain ⟨j, hj⟩ := List.mem_iff_getElem?.mp hmem
  rw [List.getElem?_take, List.getElem?_drop] at hj
  split_ifs at hj with hlt
  refine ⟨_, hj, ?_⟩
  have hbound : sliceBound blocks.length n ≤ n.toNat := by
    rw [sliceBound, if_neg (not_lt.mpr hn)]
    exact min_le_left _ _
  omega

end BlockPool

namespace KVCacheManager

variable {H : BlockHasher} {k k' : KVCacheManager} {m : SingleTypeKVCacheManager} {r : Request}

/-- **The blocks that get a hash** in a call of `cache_blocks` are full blocks of the request, and lie
within the tokens of the call. -/
theorem cacheBlocks_hashes {n : Int} (hn : 0 ≤ n) (h : k.cacheBlocks H r n = .ok k') {b : BlockId}
    (hb : (k'.blockPool.block b).blockHash ≠ (k.blockPool.block b).blockHash) :
    ∃ m ∈ k.singleTypeManagers, ∃ i : Nat, (m.blocksOf r.requestId)[i]? = some b ∧
      ((i + 1) * m.blockSize : Int) ≤ n := by
  unfold cacheBlocks at h
  split at h
  swap
  · cases h
    exact absurd rfl hb
  obtain ⟨⟨ms, p, hashes⟩, hloop, h⟩ := bind_eq_ok.mp h
  cases h
  -- as long as no such block has come up, the hash of `b` is the old one
  by_contra hnone
  push Not at hnone
  refine hb (mapThreadM_invariant (I := fun (_ : List SingleTypeKVCacheManager) rest
      (s : BlockPool × List BlockHash) => (∀ m ∈ rest, m ∈ k.singleTypeManagers) ∧
        (s.1.block b).blockHash = (k.blockPool.block b).blockHash)
    (fun done m rest s m' t hI hm => ⟨fun m₁ hm₁ => hI.1 m₁ (List.mem_cons_of_mem m hm₁), ?_⟩) []
    ⟨fun _ hm => hm, rfl⟩ hloop).2
  obtain ⟨⟨m₁, p₁, hs₁⟩, hcache, hm⟩ := bind_eq_ok.mp hm
  cases hm
  rw [← hI.2]
  by_contra hne
  unfold SingleTypeKVCacheManager.cacheBlocks at hcache
  split at hcache
  · simp at hcache
  next numCached _ =>
    obtain ⟨⟨q, hs⟩, hfull, hcache⟩ := bind_eq_ok.mp hcache
    cases hcache
    have hnn : 0 ≤ n / (m.blockSize : Int) := Int.ediv_nonneg hn (Int.natCast_nonneg _)
    obtain ⟨i, hi, hlt⟩ := BlockPool.cacheFullBlocks_hashes hnn hfull hne
    refine absurd ?_ (not_le.mpr (hnone m (hI.1 m List.mem_cons_self) i hi))
    rcases Nat.eq_zero_or_pos m.blockSize with h0 | hpos
    · simp only [h0, Nat.cast_zero, Int.ediv_zero] at hlt
      omega
    · exact (Int.le_ediv_iff_mul_le (by exact_mod_cast hpos)).mp hlt

/-! ## The length of the table -/

variable (hk : k.singleTypeManagers = [m])

include hk

theorem forManagers_oneGroup {α : Type} {f : SingleTypeKVCacheManager → BlockPool →
      Except PyError (α × SingleTypeKVCacheManager × BlockPool)} {out : List α}
    (h : k.forManagers f = .ok (out, k')) :
    ∃ a m' p', f m k.blockPool = .ok (a, m', p') ∧
      k' = { k with singleTypeManagers := [m'], blockPool := p' } := by
  obtain ⟨⟨out', p⟩, h₁, h₂⟩ := bind_eq_ok.mp h
  cases h₂
  rw [hk] at h₁
  obtain ⟨a, p₁, l, hf, hl, rfl⟩ := mapThreadM_cons_ok.mp h₁
  obtain ⟨rfl, rfl⟩ : [] = l ∧ p₁ = p := by simpa [mapThreadM] using hl
  obtain ⟨⟨a', m', p'⟩, h₃, h₄⟩ := bind_eq_ok.mp hf
  obtain ⟨rfl, rfl⟩ := pair_of_ok h₄
  exact ⟨a', m', p', h₃, rfl⟩

/-- **The length of the table** after `allocate_slots`. -/
theorem allocateSlots_oneGroup {n c : Int} {row : List BlockId} {new : List (List BlockId)}
    {lookahead : Nat} {delay : Bool}
    (h : k.allocateSlots H r n c [row] lookahead delay = .ok (some new, k')) :
    ∃ table, k'.getBlockIds r.requestId = [table] ∧
      (table.length : Int) = max ((m.blocksOf r.requestId).length + row.length : Int)
        (cdiv (min (r.numComputedTokens + c + n + lookahead) k.maxModelLen) m.blockSize) := by
  obtain ⟨k₀, k₁, k₂, k₃, h₀, h₁, h₂, h₃, hskip, hcache⟩ := allocateSlots_ok h
  obtain ⟨⟨_, k₀'⟩, hloop, hk₀⟩ := bind_eq_ok.mp h₀
  obtain rfl : k₀' = k₀ := pure_eq_ok.mp hk₀
  obtain ⟨_, m₀, p₀, hm₀, rfl⟩ := forManagers_oneGroup hk hloop
  have hskipped := unit_of_ok hm₀
  have hlen₀ := SingleTypeKVCacheManager.length_blocksOf_removeSkippedBlocks hskipped
  have hspec₀ := SingleTypeKVCacheManager.removeSkippedBlocks_spec hskipped
  obtain ⟨p₁, rfl⟩ : ∃ p₁, k₁ = { k with singleTypeManagers := [m₀], blockPool := p₁ } := by
    unfold touchComputed at h₁
    split at h₁
    · obtain ⟨q, -, h₁⟩ := bind_eq_ok.mp h₁
      exact ⟨q, (pure_eq_ok.mp h₁).symm⟩
    · obtain ⟨_, -, h₁⟩ := bind_eq_ok.mp h₁
      exact ⟨p₀, (pure_eq_ok.mp h₁).symm⟩
  obtain ⟨⟨ms, _⟩, hsave, h₂⟩ := bind_eq_ok.mp h₂
  cases h₂
  obtain ⟨m₂, _, l, hm₂, hl, rfl⟩ := mapThreadM_cons_ok.mp hsave
  obtain rfl : [] = l := by simpa using hl
  obtain ⟨m₂', hsaved, hm₂⟩ := bind_eq_ok.mp hm₂
  obtain rfl : m₂' = m₂ := by simpa [pure_eq_ok] using hm₂
  have hspec₂ := SingleTypeKVCacheManager.saveNewComputedBlocks_spec hsaved
  obtain ⟨-, htable₂, -⟩ := SingleTypeKVCacheManager.spares_saveNewComputedBlocks hsaved
  obtain ⟨new', m₃, p₃, hm₃, rfl⟩ := forManagers_oneGroup (m := m₂') rfl h₃
  obtain ⟨-, htable₃, -⟩ := SingleTypeKVCacheManager.actsOn_allocateNewBlocks hm₃
  refine ⟨m₃.blocksOf r.requestId, ?_, ?_⟩
  · by_cases hc : k.enableCaching = false ∨ delay = true
    · rw [hskip hc]
      rfl
    · rw [not_or, Bool.not_eq_false, Bool.not_eq_true] at hc
      rw [(actsOn_coordinatorCacheBlocks r.requestId (hcache hc.1 hc.2)).2]
      rfl
  · have hbs : m₂'.blockSize = m.blockSize := by
      rw [SingleTypeKVCacheManager.blockSize, hspec₂, hspec₀]
      rfl
    have hlen₂ : (m₂'.blocksOf r.requestId).length =
        (m.blocksOf r.requestId).length + row.length := by
      rw [htable₂, List.length_append, hlen₀]
    rw [htable₃, List.length_append]
    rcases SingleTypeKVCacheManager.allocateNewBlocks_ok hm₃ with
      ⟨rfl, -, -, hle⟩ | ⟨hget, hlt, -⟩
    · rw [hbs, hlen₂] at hle
      simp only [List.length_nil]
      push_cast at hle ⊢
      omega
    · have hlen := BlockPool.length_getNewBlocks hget
      rw [hbs, hlen₂] at hlen hlt
      push_cast at hlen hlt ⊢
      omega

/-- **The hits of one group**, and the number of tokens they hold. -/
theorem getComputedBlocks_oneGroup {hits : List (List BlockId)} {n : Int}
   
    (hkind : k.kind = .noPrefixCache ∨ k.kind = .unitary m.kvCacheSpec)
    (h : k.getComputedBlocks H r = .ok (hits, n, k')) :
    ∃ row, hits = [row] ∧ n = row.length * m.blockSize ∧ k'.singleTypeManagers = [m] := by
  unfold getComputedBlocks at h
  split at h
  · cases h
    exact ⟨[], by simp [createEmptyBlockList, hk], by simp, hk⟩
  obtain ⟨hashes, -, h⟩ := bind_eq_ok.mp h
  obtain ⟨⟨hits', n'⟩, hfind, h⟩ := bind_eq_ok.mp h
  cases h
  rcases hkind with hkind | hkind
  · simp only [hkind, hk] at hfind
    cases hfind
    exact ⟨[], rfl, by simp, hk⟩
  · simp only [hkind] at hfind
    obtain ⟨hit, hspec, hfind⟩ := bind_eq_ok.mp hfind
    cases hfind
    have hlen := (KVCacheSpec.findLongestCacheHit_ok hspec).length_eq
    obtain ⟨row, rfl⟩ := List.length_eq_one_iff.mp hlen.symm
    exact ⟨row, rfl, by simp [SingleTypeKVCacheManager.blockSize], hk⟩

end KVCacheManager

end InferenceServer
