import InferenceServer.KVCache.BlockPool

/-!
# The hashes that `cache_full_blocks` gives out

The loop of `cache_full_blocks` takes the hash of a block from the block hashes of the request,
or computes it from the hash of the block before and appends it. For a predicate `P r i h` on the
hashes of block `i` of request `r`: if the recorded hashes satisfy it and every computed hash
inherits it from the hash before, then all hashes that the loop gives out and records satisfy it.

The hash before the first new block is read from the physical block and not from the list, so it
has to be supplied.

## Main results

* `BlockPool.cacheFullBlocks_ok`, `HashesFit.cacheOne`, `HashesFit.cacheLoop`,
  `recorded_cacheFullBlocks`
-/

namespace InferenceServer

open Outcome

variable {P : ReqId → Nat → BlockHash → Prop} {p p' : BlockPool} {r : ReqId}

/-- The hashes recorded for a request fit it. -/
def Recorded (P : ReqId → Nat → BlockHash → Prop) (r : ReqId) (hashes : List BlockHash) : Prop :=
  ∀ (i : Nat) (h : BlockHash), hashes[i]? = some h → P r i h

/-- The hash value before block `i` comes from a hash that fits the block before it. -/
def PrevFits (P : ReqId → Nat → BlockHash → Prop) (r : ReqId) : Nat → Option Int → Prop
  | 0, prev => prev = none
  | i + 1, prev => ∃ h, P r i h ∧ prev = some h.hashValue

/-- The hashes that `cache_full_blocks` computes for the blocks from `lo` to `hi` fit the
request. -/
def Computes (P : ReqId → Nat → BlockHash → Prop) (H : BlockHasher) (r : Request)
    (bs lo hi : Nat) : Prop :=
  ∀ (i : Nat) (prev : Option Int) (h : BlockHash), lo ≤ i → i < hi →
    PrevFits P r.requestId i prev → BlockPool.computeBlockHash H r bs prev i = .ok h →
    P r.requestId i h

theorem Computes.mono {H : BlockHasher} {r : Request} {bs lo lo' hi : Nat}
    (h : Computes P H r bs lo hi) (hn : lo ≤ lo') : Computes P H r bs lo' hi :=
  fun i prev k hi => h i prev k (hn.trans hi)

theorem Recorded.append {hashes : List BlockHash} {h : BlockHash} (hr : Recorded P r hashes)
    (hh : P r hashes.length h) : Recorded P r (hashes ++ [h]) := by
  intro i k hi
  rw [List.getElem?_append] at hi
  split_ifs at hi with hlt
  · exact hr i k hi
  · obtain ⟨rfl, rfl⟩ : i = hashes.length ∧ h = k := by
      obtain ⟨h₁, h₂⟩ := List.getElem?_eq_some_iff.mp hi
      simp only [List.length_singleton] at h₁
      simp only [List.getElem_singleton] at h₂
      exact ⟨by omega, h₂⟩
    exact hh

section CacheLoop

variable {H : BlockHasher} {r : Request} {bs gid n : Nat} {hashes : List BlockHash}

theorem BlockPool.computeBlockHash_ok {prev : Option Int} {i : Int} {h : BlockHash}
    (hc : BlockPool.computeBlockHash H r bs prev i = .ok h) :
    (pySlice r.allTokenIds (i * bs) ((i + 1) * bs)).length = bs ∧
      ∃ keys idx, generateBlockHashExtraKeys r (i * bs) ((i + 1) * bs) (-1) = .ok (keys, idx) ∧
        h = hashBlockTokens H prev (pySlice r.allTokenIds (i * bs) ((i + 1) * bs)) keys := by
  obtain ⟨_, h₁, h₂⟩ := bind_eq_ok.mp hc
  obtain ⟨⟨keys, idx⟩, h₃, h₄⟩ := bind_eq_ok.mp h₂
  exact ⟨by simpa using h₁, keys, idx, h₃, (pure_eq_ok.mp h₄).symm⟩

theorem storedEvent_ok {n n' : Int} {parent : Option Int} {new : List Int}
    (h : p.storedEvent r bs n n' parent new = .ok p') :
    ∃ events, p' = { p with kvEventQueue := events } := by
  unfold BlockPool.storedEvent at h
  split_ifs at h
  · cases hl : r.loraRequest with
    | some lora => simp [hl] at h
    | none => exact ⟨_, by simpa [hl] using h.symm⟩
  · exact ⟨p.kvEventQueue, by simpa using h.symm⟩

/-- **What a call of `cache_full_blocks` consists of.** -/
theorem BlockPool.cacheFullBlocks_ok {blocks : List BlockId} {c n : Nat}
    {hashes' : List BlockHash}
    (h : p.cacheFullBlocks H r blocks hashes c n bs gid = .ok (p', hashes')) :
    c = n ∧ p' = p ∧ hashes' = hashes ∨
      c ≠ n ∧ c ≤ hashes.length ∧ ∃ prev s events,
        p.prevBlockHash blocks c = .ok prev ∧
        cacheLoop H r bs gid c (hashes.drop c) 0 ((blocks.take n).drop c)
          ⟨p, hashes, prev, []⟩ = .ok s ∧
        p' = { s.pool with kvEventQueue := events } ∧ hashes' = s.blockHashes := by
  unfold BlockPool.cacheFullBlocks at h
  split_ifs at h with hcn
  · cases h
    exact .inl ⟨by exact_mod_cast hcn, rfl, rfl⟩
  obtain ⟨_, h₁, h₂⟩ := bind_eq_ok.mp h
  obtain ⟨prev, h₃, h₄⟩ := bind_eq_ok.mp h₂
  obtain ⟨s, h₅, h₆⟩ := bind_eq_ok.mp h₄
  obtain ⟨q, h₇, h₈⟩ := bind_eq_ok.mp h₆
  cases h₈
  rw [pySlice_natCast, pySlice_natCast, List.take_length] at h₅
  obtain ⟨events, rfl⟩ := storedEvent_ok h₇
  exact .inr ⟨by exact_mod_cast hcn, by simpa using h₁, prev, s, events, h₃, h₅, rfl, rfl⟩

/-- The state of the loop before block `i`: the hashes up to the block are there and fit. -/
structure HashesFit (P : ReqId → Nat → BlockHash → Prop) (r : ReqId) (hashes : List BlockHash)
    (i : Nat) (s : BlockPool.CacheLoop) : Prop where
  recorded : Recorded P r s.blockHashes
  length : s.blockHashes.length = max hashes.length i
  isPrefix : hashes <+: s.blockHashes
  prev : PrevFits P r i s.prevBlockHashValue

/-- **One iteration**: the block had no hash and gets one that fits. -/
theorem HashesFit.cacheOne {c i : Nat} {b : BlockId} {s t : BlockPool.CacheLoop}
    (hs : HashesFit P r.requestId hashes (c + i) s)
    (hcomp : Computes P H r bs hashes.length n) (hn : c + i < n)
    (h : BlockPool.cacheOne H r bs gid c (hashes.drop c) i b s = .ok t) :
    HashesFit P r.requestId hashes (c + (i + 1)) t ∧ (s.pool.block b).blockHash = none ∧
      ∃ k, P r.requestId (c + i) k ∧ t.pool = s.pool.insertCached b ⟨k, gid⟩ := by
  obtain ⟨_, h₁, h₂⟩ := bind_eq_ok.mp h
  obtain ⟨⟨k, hashes'⟩, h₃, h₄⟩ := bind_eq_ok.mp h₂
  cases h₄
  have hnone : (s.pool.block b).blockHash = none := by simpa using h₁
  -- the hash is read from the list, or computed and appended at the place of the block
  have hk : P r.requestId (c + i) k ∧ Recorded P r.requestId hashes' ∧
      hashes'.length = max hashes.length (c + (i + 1)) ∧ hashes <+: hashes' := by
    unfold BlockPool.nextBlockHash at h₃
    cases hg : (hashes.drop c)[i]? with
    | some k' =>
      obtain ⟨rfl, rfl⟩ : k' = k ∧ s.blockHashes = hashes' := by simpa [hg] using h₃
      rw [List.getElem?_drop] at hg
      obtain ⟨hlt, -⟩ := List.getElem?_eq_some_iff.mp hg
      obtain ⟨rest, hrest⟩ := hs.isPrefix
      refine ⟨hs.recorded _ _ ?_, hs.recorded, ?_, hs.isPrefix⟩
      · rw [← hrest, List.getElem?_append_left hlt, hg]
      · rw [hs.length]
        omega
    | none =>
      simp only [hg] at h₃
      obtain ⟨k', h₅, h₆⟩ := bind_eq_ok.mp h₃
      obtain ⟨rfl, rfl⟩ := pair_of_ok h₆
      have hle : hashes.length ≤ c + i := by
        rw [List.getElem?_drop] at hg
        exact List.getElem?_eq_none_iff.mp hg
      have hP : P r.requestId (c + i) k' :=
        hcomp (c + i) _ k' hle hn hs.prev (by exact_mod_cast h₅)
      have hlen : s.blockHashes.length = c + i := by rw [hs.length]; omega
      refine ⟨hP, hs.recorded.append (hlen ▸ hP), ?_, hs.isPrefix.trans (List.prefix_append _ _)⟩
      rw [List.length_append, hlen, List.length_singleton]
      omega
  obtain ⟨hP, hrec, hlen, hpre⟩ := hk
  exact ⟨⟨hrec, hlen, hpre, k, hP, rfl⟩, hnone, k, hP, rfl⟩

/-- **The loop** records hashes that fit. -/
theorem HashesFit.cacheLoop {c i : Nat} {l : List BlockId} {s t : BlockPool.CacheLoop}
    (hs : HashesFit P r.requestId hashes (c + i) s)
    (hcomp : Computes P H r bs hashes.length n) (hn : c + i + l.length ≤ n ∨ l = [])
    (h : BlockPool.cacheLoop H r bs gid c (hashes.drop c) i l s = .ok t) :
    HashesFit P r.requestId hashes (c + i + l.length) t := by
  induction l generalizing i s with
  | nil =>
    obtain rfl : s = t := by simpa [BlockPool.cacheLoop] using h
    exact hs
  | cons b l ih =>
    obtain ⟨u, h₁, h₂⟩ := bind_eq_ok.mp h
    rw [List.length_cons, or_iff_left (List.cons_ne_nil b l)] at hn
    obtain ⟨hu, -⟩ := hs.cacheOne hcomp (by omega) h₁
    have ht := ih hu (.inl (by omega)) h₂
    rwa [List.length_cons, show c + i + (l.length + 1) = c + (i + 1) + l.length by omega]

/-- The new blocks of a call end at block `n`. -/
theorem length_newFullBlocks (blocks : List BlockId) (c n : Nat) :
    c + 0 + ((blocks.take n).drop c).length ≤ n ∨ (blocks.take n).drop c = [] := by
  rcases le_total c n with hcn | hcn
  · left
    simp only [List.length_drop, List.length_take]
    omega
  · right
    exact List.drop_of_length_le (by simp only [List.length_take]; omega)

/-- **The hashes recorded by a call** of `cache_full_blocks`. -/
theorem recorded_cacheFullBlocks {blocks : List BlockId} {c n : Nat} {hashes' : List BlockHash}
    (hrec : Recorded P r.requestId hashes) (hcomp : Computes P H r bs hashes.length n)
    (hprev : ∀ prev, p.prevBlockHash blocks c = .ok prev → PrevFits P r.requestId c prev)
    (h : p.cacheFullBlocks H r blocks hashes c n bs gid = .ok (p', hashes')) :
    Recorded P r.requestId hashes' ∧ hashes <+: hashes' := by
  rcases BlockPool.cacheFullBlocks_ok h with
    ⟨-, rfl, rfl⟩ | ⟨-, hlen, prev, s, events, hp, hloop, rfl, rfl⟩
  · exact ⟨hrec, List.prefix_rfl⟩
  have hfits : HashesFit P r.requestId hashes (c + 0) ⟨p, hashes, prev, []⟩ :=
    ⟨hrec, (max_eq_left hlen).symm, List.prefix_rfl, hprev prev hp⟩
  have hs := hfits.cacheLoop hcomp (length_newFullBlocks blocks c n) hloop
  exact ⟨hs.recorded, hs.isPrefix⟩

end CacheLoop

end InferenceServer
