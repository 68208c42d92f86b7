import Mathlib.Data.Nat.ModEq
import InferenceServer.Lib.PrefixSearch
import InferenceServer.KVCache.Groups

/-!
# The longest prefix cache hit

The three attention types look for a cache hit in different ways, and the hybrid coordinator looks for
the hit of one type within that of the other. In each case the result is the longest prefix in which
every position that the next token may attend to has a cached block for every group.

The null block stands for positions that are not needed. It must not be cached itself: a search that
finds it under a hash takes it for a block of tokens. So the hit is valid exactly if the null block is not
the cached block of a position that is needed.

## Main results

* `KVCacheSpec.attends_iff`, `KVCacheSpec.findLongestCacheHit_greatest`,
  `KVCacheManager.longestHit_iff`
-/

namespace InferenceServer

open Outcome PrefixSearch
open List (getElem?_eq_getElem mem_cons mem_cons_self mem_filter mem_of_getElem? range)

/-- The cached block of a position: the first one under its hash. -/
def BlockPool.cachedBlock (p : BlockPool) (hashes : List BlockHash) (g i : Nat) : Option BlockId :=
  hashes[i]?.bind fun h => (p.cachedBlockHashToBlock.getD ⟨h, g⟩ []).head?

namespace KVCacheSpec

/-- The token at index `q` may attend to the one at index `pos` before it. -/
def Attends : KVCacheSpec → Nat → Nat → Prop
  | fullAttention .., _, _ => True
  | slidingWindow _ _ window, q, pos => q < pos + window
  | chunkedLocalAttention _ _ chunk, q, pos => pos / chunk = q / chunk
  | mamba .., _, _ => True

/-- The specs for which there is a search: a window of at least two tokens, chunks of whole blocks. -/
def Searchable : KVCacheSpec → Prop
  | fullAttention .. => True
  | slidingWindow _ _ window => 2 ≤ window
  | chunkedLocalAttention bs _ chunk => 0 < chunk ∧ bs ∣ chunk
  | mamba .. => False

/-- The number of blocks in which the window before a token is. -/
def windowBlocks (bs window : Nat) : Nat := (cdiv (window - 1) bs).toNat

/-- The first block that is needed after `n` blocks. -/
def firstNeeded : KVCacheSpec → Nat → Nat
  | fullAttention .., _ => 0
  | slidingWindow bs _ window, n => n - windowBlocks bs window
  | chunkedLocalAttention bs _ chunk, n => n / (chunk / bs) * (chunk / bs)
  | mamba .., _ => 0

variable {bs window n : Nat}

theorem windowBlocks_spec (hbs : 0 < bs) (hw : 2 ≤ window) :
    cdiv (window - 1) bs = windowBlocks bs window ∧ 0 < windowBlocks bs window ∧
      window ≤ windowBlocks bs window * bs + 1 ∧ windowBlocks bs window * bs + 1 < window + bs := by
  have hbs' : (0 : Int) < bs := by omega
  have hpos : 0 < cdiv ((window : Int) - 1) bs := by
    by_contra hle
    have := (cdiv_le_iff hbs').mp (Int.not_lt.mp hle)
    omega
  have heq : cdiv ((window : Int) - 1) bs = windowBlocks bs window :=
    (Int.toNat_of_nonneg hpos.le).symm
  have hle : ((window : Int) - 1) ≤ windowBlocks bs window * bs := heq ▸ le_cdiv_mul hbs'
  have hlt : ¬ ((window : Int) - 1) ≤ (windowBlocks bs window - 1 : Int) * bs := fun h => by
    have := (cdiv_le_iff hbs').mpr h
    omega
  rw [sub_mul, one_mul] at hlt
  refine ⟨heq, by omega, ?_, ?_⟩
  · have : ((window : Int)) ≤ ((windowBlocks bs window * bs + 1 : Nat) : Int) := by
      omega
    omega
  · have : ((windowBlocks bs window * bs + 1 : Nat) : Int) < window + bs := by
      omega
    omega

/-- The needed blocks of a window. -/
theorem attends_window_iff (hbs : 0 < bs) (hw : 2 ≤ window) {Q : Nat → Prop} :
    (∀ pos, pos < n * bs → n * bs < pos + window → Q (pos / bs)) ↔
      ∀ i, n - windowBlocks bs window ≤ i → i < n → Q i := by
  obtain ⟨-, -, hlow, hhigh⟩ := windowBlocks_spec hbs hw
  constructor
  · -- the last position of a needed block is in the window
    intro h i hi hlt
    have hsucc : (i + 1) * bs ≤ n * bs := Nat.mul_le_mul_right bs hlt
    have hin : n * bs ≤ i * bs + windowBlocks bs window * bs := by
      rw [← add_mul]
      exact Nat.mul_le_mul_right bs (by omega)
    rw [Nat.succ_mul] at hsucc
    have hdiv : (i * bs + (bs - 1)) / bs = i := by
      rw [Nat.mul_comm, Nat.mul_add_div hbs, Nat.div_eq_of_lt (by omega), Nat.add_zero]
    rw [← hdiv]
    exact h _ (by omega) (by omega)
  · intro h pos hpos hin
    refine h _ ?_ ((Nat.div_lt_iff_lt_mul hbs).mpr hpos)
    have hdiv : pos < pos / bs * bs + bs := Nat.lt_div_mul_add hbs
    generalize pos / bs = i at hdiv ⊢
    by_contra hlt
    have hle : (i + 1 + windowBlocks bs window) * bs ≤ n * bs :=
      Nat.mul_le_mul_right bs (by omega)
    rw [add_mul, Nat.succ_mul] at hle
    omega

/-- The needed blocks of a chunk. -/
theorem attends_chunk_iff {k : Nat} (hbs : 0 < bs) {Q : Nat → Prop} :
    (∀ pos, pos < n * bs → pos / (bs * k) = n * bs / (bs * k) → Q (pos / bs)) ↔
      ∀ i, n / k * k ≤ i → i < n → Q i := by
  have hq : n * bs / (bs * k) = n / k := by
    rw [Nat.mul_comm n bs, Nat.mul_div_mul_left n k hbs]
  have hmem : ∀ i, i < n → (i / k = n / k ↔ n / k * k ≤ i) := fun i hi => by
    constructor
    · intro heq
      rw [← heq]
      exact Nat.div_mul_le_self i k
    · intro hle
      refine le_antisymm (Nat.div_le_div_right hi.le) ?_
      rcases Nat.eq_zero_or_pos k with rfl | hk
      · simp
      · exact (Nat.le_div_iff_mul_le hk).mpr hle
  constructor
  · intro h i hi hlt
    have hdiv : i * bs / bs = i := Nat.mul_div_cancel i hbs
    rw [← hdiv]
    refine h _ ((Nat.mul_lt_mul_right hbs).mpr hlt) ?_
    rw [hq, ← Nat.div_div_eq_div_mul, hdiv]
    exact (hmem i hlt).mpr hi
  · intro h pos hpos heq
    have hlt := (Nat.div_lt_iff_lt_mul hbs).mpr hpos
    rw [hq, ← Nat.div_div_eq_div_mul] at heq
    exact h _ ((hmem _ hlt).mp heq) hlt

/-- **The needed positions** are those of the blocks from the first needed one on. -/
theorem attends_iff {spec : KVCacheSpec} (hbs : 0 < spec.blockSize) (hs : spec.Searchable)
    {Q : Nat → Prop} :
    (∀ pos, pos < n * spec.blockSize → spec.Attends (n * spec.blockSize) pos →
      Q (pos / spec.blockSize)) ↔ ∀ i, spec.firstNeeded n ≤ i → i < n → Q i := by
  cases spec with
  | fullAttention bs format window chunk =>
    constructor
    · intro h i _ hlt
      have hdiv : i * bs / bs = i := Nat.mul_div_cancel i hbs
      rw [← hdiv]
      exact h _ ((Nat.mul_lt_mul_right hbs).mpr hlt) trivial
    · intro h pos hpos _
      exact h _ (Nat.zero_le _) ((Nat.div_lt_iff_lt_mul hbs).mpr hpos)
  | slidingWindow bs format window => exact attends_window_iff hbs hs
  | chunkedLocalAttention bs format chunk =>
    obtain ⟨-, k, rfl⟩ := hs
    have hbs : 0 < bs := hbs
    change (∀ pos, pos < n * bs → pos / (bs * k) = n * bs / (bs * k) → Q (pos / bs)) ↔
      ∀ i, n / (bs * k / bs) * (bs * k / bs) ≤ i → i < n → Q i
    rw [Nat.mul_div_cancel_left k hbs]
    exact attends_chunk_iff hbs
  | mamba => exact hs.elim

end KVCacheSpec

/-! ## Rows of hits -/

variable {p : BlockPool} {hashes : List BlockHash} {groupIds : List Nat}

/-- A row of a group: its blocks are cached blocks or the null block, and those from `lo` to `hi` are the
cached blocks. -/
structure CacheRow (p : BlockPool) (hashes : List BlockHash) (g lo hi n : Nat) (l : List BlockId) :
    Prop where
  length : l.length = n
  cached : ∀ i b, l[i]? = some b → b ≠ p.nullBlock → p.cachedBlock hashes g i = some b
  filled : ∀ i, lo ≤ i → i < hi → l[i]? = p.cachedBlock hashes g i

/-- A position is hit if it has a cached block for every group. -/
def Hit (p : BlockPool) (hashes : List BlockHash) (groupIds : List Nat) (i : Nat) : Prop :=
  ∀ g ∈ groupIds, p.cachedBlock hashes g i ≠ none

namespace CacheRow

variable {g lo hi n i : Nat} {l : List BlockId} {b : BlockId}

theorem replicate_null (g n : Nat) :
    CacheRow p hashes g n n n (List.replicate n p.nullBlock) := by
  refine ⟨List.length_replicate, fun i b hi hb => ?_, fun i hi hlt => by omega⟩
  rw [List.getElem?_replicate] at hi
  split_ifs at hi
  exact absurd (Option.some.inj hi).symm hb

theorem mono {lo' : Nat} (h : CacheRow p hashes g lo hi n l) (hle : lo ≤ lo') :
    CacheRow p hashes g lo' hi n l :=
  ⟨h.length, h.cached, fun i hi => h.filled i (hle.trans hi)⟩

theorem take {m : Nat} (h : CacheRow p hashes g lo hi n l) (hm : m ≤ hi) (hn : m ≤ n) :
    CacheRow p hashes g lo m m (l.take m) := by
  refine ⟨?_, fun i b hi hb => ?_, fun i hlo hlt => ?_⟩
  · rw [List.length_take, h.length, Nat.min_eq_left hn]
  · rw [List.getElem?_take] at hi
    split_ifs at hi
    exact h.cached i b hi hb
  · rw [List.getElem?_take, if_pos hlt]
    exact h.filled i hlo (hlt.trans_le hm)

/-- One block more at the end. -/
theorem append (h : CacheRow p hashes g lo n n l) (hb : p.cachedBlock hashes g n = some b) :
    CacheRow p hashes g lo (n + 1) (n + 1) (l ++ [b]) := by
  have hget : ∀ i, (l ++ [b])[i]? = if i = n then some b else l[i]? := fun i => by
    rw [List.getElem?_append, h.length]
    split_ifs with hlt heq heq
    · omega
    · rfl
    · rw [heq, Nat.sub_self]
      rfl
    · rw [List.getElem?_eq_none (by rw [List.length_singleton]; omega),
        List.getElem?_eq_none (by rw [h.length]; omega)]
  refine ⟨by rw [List.length_append, h.length]; rfl, fun i c hi hc => ?_, fun i hlo hlt => ?_⟩
  · rw [hget] at hi
    split_ifs at hi with heq
    · rw [heq, hb, hi]
    · exact h.cached i c hi hc
  · rw [hget]
    split_ifs with heq
    · rw [heq, hb]
    · exact h.filled i hlo (by omega)

/-- One block more at the beginning. -/
theorem set (h : CacheRow p hashes g (i + 1) hi n l) (hn : i < n)
    (hb : p.cachedBlock hashes g i = some b) : CacheRow p hashes g i hi n (l.set i b) := by
  have hget : ∀ j, (l.set i b)[j]? = if j = i then some b else l[j]? := fun j => by
    rw [List.getElem?_set, h.length]
    by_cases hj : i = j
    · rw [if_pos hj, if_pos hn, if_pos hj.symm]
    · rw [if_neg hj, if_neg (Ne.symm hj)]
  refine ⟨by rw [List.length_set, h.length], fun j c hj hc => ?_, fun j hlo hlt => ?_⟩
  · rw [hget] at hj
    split_ifs at hj with heq
    · rw [heq, hb, hj]
    · exact h.cached j c hj hc
  · rw [hget]
    split_ifs with heq
    · rw [heq, hb]
    · exact h.filled j (by omega) hlt

end CacheRow

/-- Rows of all groups. -/
def CacheRows (p : BlockPool) (hashes : List BlockHash) (groupIds : List Nat) (lo hi n : Nat)
    (rows : List (List BlockId)) : Prop :=
  List.Forall₂ (fun g l => CacheRow p hashes g lo hi n l) groupIds rows

/-- **`get_cached_block`** finds the cached blocks of a position if it is hit. -/
theorem getCachedBlock_cases (p : BlockPool) (groupIds : List Nat) {i : Nat} {h : BlockHash}
    (hh : hashes[i]? = some h) :
    (∃ row, p.getCachedBlock h groupIds = some row ∧ Hit p hashes groupIds i ∧
      List.Forall₂ (fun g b => p.cachedBlock hashes g i = some b) groupIds row) ∨
    (p.getCachedBlock h groupIds = none ∧ ¬ Hit p hashes groupIds i) := by
  have hcached : ∀ g, p.cachedBlock hashes g i =
      (p.cachedBlockHashToBlock.getD ⟨h, g⟩ []).head? := fun g => by
    unfold BlockPool.cachedBlock
    rw [hh]
    rfl
  unfold BlockPool.getCachedBlock Hit
  simp only [hcached]
  induction groupIds with
  | nil => exact .inl ⟨[], rfl, fun g hg => (by cases hg), .nil⟩
  | cons g gs ih =>
    rw [List.mapM_cons]
    cases hg : (p.cachedBlockHashToBlock.getD ⟨h, g⟩ []).head? with
    | none => exact .inr ⟨rfl, fun hall => hall g mem_cons_self hg⟩
    | some b =>
      rcases ih with ⟨row, hrow, hhit, hall⟩ | ⟨hnone, hmiss⟩
      · rw [hrow]
        refine .inl ⟨b :: row, rfl, fun g' hg' => ?_, .cons hg hall⟩
        rcases mem_cons.mp hg' with rfl | hg'
        · rw [hg]
          exact Option.some_ne_none b
        · exact hhit g' hg'
      · rw [hnone]
        exact .inr ⟨rfl, fun hall => hmiss fun g' hg' => hall g' (List.mem_cons_of_mem g hg')⟩

theorem CacheRows.zipWith {lo hi n lo' hi' n' i : Nat} {rows : List (List BlockId)}
    {row : List BlockId} {f : List BlockId → BlockId → List BlockId}
    (hrows : CacheRows p hashes groupIds lo hi n rows)
    (hrow : List.Forall₂ (fun g b => p.cachedBlock hashes g i = some b) groupIds row)
    (hf : ∀ g l b, CacheRow p hashes g lo hi n l → p.cachedBlock hashes g i = some b →
      CacheRow p hashes g lo' hi' n' (f l b)) :
    CacheRows p hashes groupIds lo' hi' n' (List.zipWith f rows row) :=
  forall₂_zipWith hrows hrow hf

/-! ## The searches -/

namespace KVCacheSpec

variable {n N : Nat} {rows : List (List BlockId)}

/-- **The walk to the right** of the full attention manager. -/
theorem prefixHits_spec (hne : groupIds ≠ []) (hn : n ≤ N) (hN : N ≤ hashes.length)
    (hhit : ∀ i, i < n → Hit p hashes groupIds i)
    (hrows : CacheRows p hashes groupIds 0 n n rows) :
    ∃ n', n ≤ n' ∧ n' ≤ N ∧ (n' = N ∨ ¬ Hit p hashes groupIds n') ∧
      (∀ i, i < n' → Hit p hashes groupIds i) ∧
      CacheRows p hashes groupIds 0 n' n'
        (prefixHits p groupIds ((hashes.take N).drop n) rows) := by
  obtain ⟨k, hk⟩ : ∃ k, k = N - n := ⟨_, rfl⟩
  induction k generalizing n rows with
  | zero =>
    have hnil : (hashes.take N).drop n = [] := List.drop_eq_nil_of_le (by
      rw [List.length_take]
      omega)
    rw [hnil]
    exact ⟨n, le_rfl, hn, .inl (by omega), hhit, hrows⟩
  | succ k ih =>
    have hlt : n < hashes.length := by omega
    have hcons : (hashes.take N).drop n = hashes[n] :: (hashes.take N).drop (n + 1) := by
      rw [List.drop_eq_getElem_cons (by rw [List.length_take]; omega), List.getElem_take]
    rw [hcons]
    unfold prefixHits
    rcases getCachedBlock_cases p groupIds (getElem?_eq_getElem hlt) with
      ⟨row, hrow, hhit', hall⟩ | ⟨hnone, hmiss⟩
    · obtain ⟨b, row, rfl⟩ := List.exists_cons_of_ne_nil (l := row) fun hnil => hne (by
        rw [hnil] at hall
        exact List.forall₂_nil_right_iff.mp hall)
      rw [hrow]
      have hrows' : CacheRows p hashes groupIds 0 (n + 1) (n + 1) (appendEach rows (b :: row)) :=
        hrows.zipWith hall fun g l b hl hb => hl.append hb
      obtain ⟨n', hle, hspec⟩ := ih (by omega) (fun i hi => by
        rcases Nat.lt_succ_iff_lt_or_eq.mp hi with hi | rfl
        · exact hhit i hi
        · exact hhit') hrows' (by omega)
      exact ⟨n', by omega, hspec⟩
    · rw [hnone]
      exact ⟨n, le_rfl, hn, .inr hmiss, hhit, hrows⟩

/-- **The walk to the right** of the chunked local attention manager. -/
theorem chunkHits_spec (hne : groupIds ≠ []) {start k : Nat} (hstart : start ≤ n)
    (hN : n + k ≤ hashes.length)
    (hhit : ∀ i, start ≤ i → i < n → Hit p hashes groupIds i)
    (hrows : CacheRows p hashes groupIds start n n rows) :
    ∃ n' out, chunkHits p groupIds hashes k n rows = .ok out ∧ start ≤ n' ∧ n' ≤ n + k ∧
      (n' = n + k ∨ ¬ Hit p hashes groupIds n') ∧
      (∀ i, start ≤ i → i < n' → Hit p hashes groupIds i) ∧
      CacheRows p hashes groupIds start n' n' out := by
  induction k generalizing n rows with
  | zero => exact ⟨n, rows, rfl, hstart, le_rfl, .inl rfl, hhit, hrows⟩
  | succ k ih =>
    have hlt : n < hashes.length := by omega
    unfold chunkHits
    rw [getElem?_eq_getElem hlt]
    dsimp only
    rcases getCachedBlock_cases p groupIds (getElem?_eq_getElem hlt) with
      ⟨row, hrow, hhit', hall⟩ | ⟨hnone, hmiss⟩
    · obtain ⟨b, row, rfl⟩ := List.exists_cons_of_ne_nil (l := row) fun hnil => hne (by
        rw [hnil] at hall
        exact List.forall₂_nil_right_iff.mp hall)
      rw [hrow]
      have hrows' : CacheRows p hashes groupIds start (n + 1) (n + 1)
          (appendEach rows (b :: row)) := hrows.zipWith hall fun g l b hl hb => hl.append hb
      obtain ⟨n', out, hok, hge, hle, hstop, hspec⟩ := ih (by omega) (by omega)
        (fun i hsi hi => by
          rcases Nat.lt_succ_iff_lt_or_eq.mp hi with hi | rfl
          · exact hhit i hsi hi
          · exact hhit') hrows'
      exact ⟨n', out, hok, hge, by omega, hstop.imp_left fun h => by omega, hspec⟩
    · rw [hnone]
      exact ⟨n, rows, rfl, hstart, by omega, .inr hmiss, hhit, hrows⟩

/-- **The walk to the left** of the sliding window manager. -/
theorem windowHits_spec (hne : groupIds ≠ []) {needed i run : Nat} (hN : N ≤ hashes.length)
    (hscan : Scanning (Hit p hashes groupIds) needed N i run)
    (hrows : CacheRows p hashes groupIds i (i + run) N rows) :
    ∃ n out run' found, windowHits p groupIds hashes needed i run rows = .ok (out, run', found) ∧
      IsGreatest (lengths (Hit p hashes groupIds) (· - needed) N) n ∧
      CacheRows p hashes groupIds (n - needed) n n
        (if found then out else out.map (List.take run')) := by
  induction i generalizing run rows with
  | zero =>
    refine ⟨run, rows, run, false, rfl, hscan.finish, ?_⟩
    have hle := hscan.le
    exact forall₂_map hrows fun g l hl =>
      ((hl.mono (Nat.zero_le (run - needed))).take (by omega) (by omega))
  | succ i ih =>
    have hle := hscan.le
    have hlt : i < hashes.length := by omega
    have hsum : i + 1 + run = i + (run + 1) := by omega
    unfold windowHits
    rw [getElem?_eq_getElem hlt]
    dsimp only
    rcases getCachedBlock_cases p groupIds (getElem?_eq_getElem hlt) with
      ⟨row, hrow, hhit, hall⟩ | ⟨hnone, hmiss⟩
    · obtain ⟨b, row, rfl⟩ := List.exists_cons_of_ne_nil (l := row) fun hnil => hne (by
        rw [hnil] at hall
        exact List.forall₂_nil_right_iff.mp hall)
      rw [hrow]
      have hrows' : CacheRows p hashes groupIds i (i + (run + 1)) N
          (List.zipWith (fun l b => l.set i b) rows (b :: row)) :=
        hrows.zipWith hall fun g l b hl hb => hsum ▸ hl.set (by omega) hb
      dsimp only
      split_ifs with hlong
      · have hlong : needed ≤ run + 1 := by omega
        refine ⟨i + (run + 1), _, run + 1, true, rfl, hscan.found hhit hlong, ?_⟩
        have hshort := hscan.short
        exact forall₂_map hrows' fun g l hl =>
          (hl.mono (by omega)).take le_rfl (by omega)
      · exact ih (hscan.hit_run hhit (by omega)) hrows'
    · rw [hnone]
      refine ih (hscan.miss hmiss) (hrows.imp fun g l hl => ?_)
      exact ⟨hl.length, hl.cached, fun j hj hlt => by omega⟩

/-- **The search of one attention type** finds the longest prefix whose needed blocks are hit. -/
theorem findLongestCacheHit_greatest {spec : KVCacheSpec} {maxLength : Nat}
    (hbs : 0 < spec.blockSize) (hs : spec.Searchable) (hne : groupIds ≠ [])
    (hlen : maxLength ≤ hashes.length * spec.blockSize) :
    ∃ n rows, spec.findLongestCacheHit hashes maxLength groupIds p false = .ok rows ∧
      IsGreatest
        (lengths (Hit p hashes groupIds) spec.firstNeeded (maxLength / spec.blockSize)) n ∧
      CacheRows p hashes groupIds (spec.firstNeeded n) n n rows := by
  have hN : maxLength / spec.blockSize ≤ hashes.length := Nat.div_le_of_le_mul (by
    rw [Nat.mul_comm]
    exact hlen)
  have hmax : ((maxLength : Int) / (spec.blockSize : Int)) =
      ((maxLength / spec.blockSize : Nat) : Int) := rfl
  unfold findLongestCacheHit
  dsimp only
  rw [hmax]
  generalize hNdef : maxLength / spec.blockSize = N at hN
  rw [Int.toNat_natCast]
  cases spec with
  | fullAttention bs format window chunk =>
    rw [if_neg (by omega)]
    obtain ⟨n, -, hn, hstop, hhit, hrows⟩ := prefixHits_spec (p := p) hne (Nat.zero_le N) hN
      (fun i hi => absurd hi (Nat.not_lt_zero i))
      (forall₂_const groupIds fun g => CacheRow.replicate_null g 0)
    exact ⟨n, _, rfl, isGreatest_of_stop (Nat.zero_le n) hn (fun _ _ _ => rfl)
      (fun i _ hi => hhit i hi) hstop, hrows⟩
  | slidingWindow bs format window =>
    have hbs : 0 < bs := hbs
    obtain ⟨hneeded, hpos, -⟩ := windowBlocks_spec hbs hs
    have hstart : CacheRows p hashes groupIds N (N + 0) N
        (groupIds.map fun _ => List.replicate N p.nullBlock) :=
      forall₂_const groupIds fun g => .replicate_null g N
    obtain ⟨n, out, run, found, hok, hgreatest, hrows⟩ := windowHits_spec (p := p) hne hN
      (Scanning.start hpos) hstart
    dsimp only
    rw [hneeded, if_neg Bool.false_ne_true, add_zero, hok]
    exact ⟨n, _, rfl, hgreatest, hrows⟩
  | chunkedLocalAttention bs format chunk =>
    obtain ⟨hchunk, k, rfl⟩ := hs
    have hbs : 0 < bs := hbs
    have hNk : maxLength / (bs * k) = N / k := by
      rw [← hNdef]
      exact (Nat.div_div_eq_div_mul maxLength bs k).symm
    have hstart : ((if (maxLength : Int) > 0 then (maxLength : Int) / ((bs * k : Nat) : Int) *
        ((bs * k : Nat) : Int) else 0) / (bs : Int)).toNat = N / k * k := by
      have hidx : (if (maxLength : Int) > 0 then (maxLength : Int) / ((bs * k : Nat) : Int) *
          ((bs * k : Nat) : Int) else 0) = ((maxLength / (bs * k) * (bs * k) : Nat) : Int) := by
        split_ifs with hpos
        · rfl
        · obtain rfl : maxLength = 0 := by omega
          rw [Nat.zero_div, Nat.zero_mul]
          rfl
      rw [hidx, ← Int.natCast_ediv, Int.toNat_natCast, hNk, Nat.mul_left_comm,
        Nat.mul_div_cancel_left _ hbs]
    have hle : N / k * k ≤ N := Nat.div_mul_le_self N k
    -- all lengths from the beginning of the last chunk on need the same blocks
    have hfirst : ∀ m, N / k * k ≤ m → m ≤ N →
        firstNeeded (.chunkedLocalAttention bs format (bs * k)) m = N / k * k := fun m hm hmN => by
      change m / (bs * k / bs) * (bs * k / bs) = N / k * k
      rw [Nat.mul_div_cancel_left k hbs]
      rcases Nat.eq_zero_or_pos k with rfl | hk
      · simp
      · rw [le_antisymm (Nat.div_le_div_right hmN) ((Nat.le_div_iff_mul_le hk).mpr hm)]
    have hend : N / k * k + (N - N / k * k) = N := by omega
    obtain ⟨n, out, hok, hge, hn, hstop, hhit, hrows⟩ := chunkHits_spec (p := p) hne
      (le_refl (N / k * k)) (hend ▸ hN) (fun i hi hlt => by omega)
      (forall₂_const groupIds fun g => CacheRow.replicate_null g (N / k * k))
    rw [hend] at hn hstop
    dsimp only
    rw [hstart]
    refine ⟨n, out, hok, isGreatest_of_stop hge hn (fun m hm => hfirst m (hge.trans hm)) hhit hstop,
      ?_⟩
    rw [hfirst n hge hn]
    exact hrows
  | mamba => exact hs.elim

end KVCacheSpec

/-! ## What the callers rely on -/

variable {groups : List KVCacheSpec} {bs maxLength n : Nat} {rows : List (List BlockId)}

/-- The row of a group, for a hit of `n` blocks: the blocks are those cached under the hashes of their
positions, and no position that the next token may attend to is in the null block. -/
structure ValidRow (p : BlockPool) (hashes : List BlockHash) (spec : KVCacheSpec) (g n : Nat)
    (l : List BlockId) : Prop where
  length : l.length = n
  cached : ∀ i b, l[i]? = some b → b ≠ p.nullBlock → p.cachedBlock hashes g i = some b
  attended : ∀ pos, pos < n * spec.blockSize → spec.Attends (n * spec.blockSize) pos →
    ∃ b, l[pos / spec.blockSize]? = some b ∧ b ≠ p.nullBlock

/-- A valid row for every group. -/
def ValidRows (p : BlockPool) (hashes : List BlockHash) (groups : List KVCacheSpec) (n : Nat)
    (rows : List (List BlockId)) : Prop :=
  rows.length = groups.length ∧
    ∀ g spec l, groups[g]? = some spec → rows[g]? = some l → ValidRow p hashes spec g n l

/-- **The longest hit** of at most `maxLength` tokens. -/
structure LongestHit (p : BlockPool) (hashes : List BlockHash) (groups : List KVCacheSpec)
    (bs maxLength : Nat) (rows : List (List BlockId)) (h : Nat) : Prop where
  le : h ≤ maxLength
  multiple : bs ∣ h
  valid : ValidRows p hashes groups (h / bs) rows
  longest : ∀ h', h < h' → h' ≤ maxLength → bs ∣ h' →
    ¬ ∃ rows', ValidRows p hashes groups (h' / bs) rows'

/-- Every position that is needed after `n` blocks has a cached block. -/
def Reusable (p : BlockPool) (hashes : List BlockHash) (groups : List KVCacheSpec) (n : Nat) : Prop :=
  ∀ g spec, groups[g]? = some spec → ∀ pos, pos < n * spec.blockSize →
    spec.Attends (n * spec.blockSize) pos → p.cachedBlock hashes g (pos / spec.blockSize) ≠ none

/-- **The condition on the pool**: after the longest prefix whose needed positions have cached blocks, none
of these blocks is the null block. -/
def NullNotNeeded (p : BlockPool) (hashes : List BlockHash) (groups : List KVCacheSpec)
    (bs maxLength : Nat) : Prop :=
  ∀ n, IsGreatest {n | n * bs ≤ maxLength ∧ Reusable p hashes groups n} n →
    ∀ g spec, groups[g]? = some spec → ∀ pos, pos < n * spec.blockSize →
      spec.Attends (n * spec.blockSize) pos →
        p.cachedBlock hashes g (pos / spec.blockSize) ≠ some p.nullBlock

/-- If the null block is not cached at all, the condition holds. -/
theorem nullNotNeeded_of_notCached (h : ∀ g i, p.cachedBlock hashes g i ≠ some p.nullBlock) :
    NullNotNeeded p hashes groups bs maxLength := fun _ _ _ _ _ _ _ _ => h _ _

/-- What the searches have found. -/
structure Found (p : BlockPool) (hashes : List BlockHash) (groups : List KVCacheSpec)
    (bs maxLength : Nat) (rows : List (List BlockId)) (n : Nat) : Prop where
  greatest : IsGreatest {n | n * bs ≤ maxLength ∧ Reusable p hashes groups n} n
  length : rows.length = groups.length
  cacheRow : ∀ g spec l, groups[g]? = some spec → rows[g]? = some l →
    CacheRow p hashes g (spec.firstNeeded n) n n l

/-- **A hit that has been found is the longest one** exactly if the null block is not needed. -/
theorem Found.greatest_iff (h : Found p hashes groups bs maxLength rows n) (hbs : 0 < bs)
    (hsize : ∀ spec ∈ groups, spec.blockSize = bs) (hs : ∀ spec ∈ groups, spec.Searchable) :
    LongestHit p hashes groups bs maxLength rows (n * bs) ↔
      NullNotNeeded p hashes groups bs maxLength := by
  have hdiv : ∀ n, n * bs / bs = n := fun n => Nat.mul_div_cancel n hbs
  -- the needed positions are in the filled part of the rows
  have hfilled : ∀ g spec l, groups[g]? = some spec → rows[g]? = some l →
      ∀ pos, pos < n * spec.blockSize → spec.Attends (n * spec.blockSize) pos →
        l[pos / spec.blockSize]? = p.cachedBlock hashes g (pos / spec.blockSize) := by
    intro g spec l hg hl
    have hmem := mem_of_getElem? hg
    exact (KVCacheSpec.attends_iff (by rw [hsize spec hmem]; exact hbs) (hs spec hmem)
      (Q := fun i => l[i]? = p.cachedBlock hashes g i)).mpr (h.cacheRow g spec l hg hl).filled
  have hrow : ∀ g spec, groups[g]? = some spec → ∃ l, rows[g]? = some l := fun g spec hg =>
    ⟨_, getElem?_eq_getElem (h.length ▸ (List.getElem?_eq_some_iff.mp hg).1)⟩
  constructor
  · intro hlong m hm g spec hg pos hpos hatt
    obtain rfl := h.greatest.unique hm
    obtain ⟨l, hl⟩ := hrow g spec hg
    have hvalid := hlong.valid.2 g spec l hg hl
    rw [hdiv] at hvalid
    obtain ⟨b, hb, hne⟩ := hvalid.attended pos hpos hatt
    rw [← hfilled g spec l hg hl pos hpos hatt, hb]
    exact fun hc => hne (Option.some.inj hc)
  · intro hnull
    refine ⟨h.greatest.1.1, Nat.dvd_mul_left bs n, ?_, ?_⟩
    · rw [hdiv]
      refine ⟨h.length, fun g spec l hg hl => ?_⟩
      have hcache := h.cacheRow g spec l hg hl
      refine ⟨hcache.length, hcache.cached, fun pos hpos hatt => ?_⟩
      have hnone := h.greatest.1.2 g spec hg pos hpos hatt
      have hne := hnull n h.greatest g spec hg pos hpos hatt
      obtain ⟨b, hb⟩ := Option.ne_none_iff_exists'.mp hnone
      refine ⟨b, (hfilled g spec l hg hl pos hpos hatt).trans hb, fun hc => hne ?_⟩
      rw [hb, hc]
    · rintro h' hlt hle ⟨m, rfl⟩ ⟨rows', hlen, hvalid⟩
      rw [Nat.mul_comm bs m] at hlt hle hvalid
      rw [hdiv] at hvalid
      -- a longer valid hit would have been found
      have hmem : m ∈ {n | n * bs ≤ maxLength ∧ Reusable p hashes groups n} := by
        refine ⟨hle, fun g spec hg pos hpos hatt => ?_⟩
        obtain ⟨l, hl⟩ : ∃ l, rows'[g]? = some l :=
          ⟨_, getElem?_eq_getElem (hlen ▸ (List.getElem?_eq_some_iff.mp hg).1)⟩
        obtain ⟨b, hb, hne⟩ := (hvalid g spec l hg hl).attended pos hpos hatt
        rw [(hvalid g spec l hg hl).cached _ b hb hne]
        exact Option.some_ne_none b
      have hmn := h.greatest.2 hmem
      exact absurd hlt (Nat.not_lt.mpr (Nat.mul_le_mul_right bs hmn))

/-! ## The coordinators -/

/-- The needed positions have cached blocks if the needed blocks have. -/
theorem reusable_iff (hbs : 0 < bs) (hsize : ∀ spec ∈ groups, spec.blockSize = bs)
    (hs : ∀ spec ∈ groups, spec.Searchable) :
    Reusable p hashes groups n ↔ ∀ g spec, groups[g]? = some spec →
      Covered (fun i => p.cachedBlock hashes g i ≠ none) spec.firstNeeded n := by
  refine forall₃_congr fun g spec hg => ?_
  have hmem := mem_of_getElem? hg
  exact KVCacheSpec.attends_iff (Q := fun i => p.cachedBlock hashes g i ≠ none)
    (by rw [hsize spec hmem]; exact hbs) (hs spec hmem)

theorem CacheRows.head_length {lo hi : Nat} (h : CacheRows p hashes groupIds lo hi n rows)
    (hne : groupIds ≠ []) : (rows.headD []).length = n := by
  cases h with
  | nil => exact absurd rfl hne
  | cons hl _ => exact hl.length

theorem mem_groupIdsOf {f : KVCacheSpec → Bool} {g : Nat} :
    g ∈ groupIdsOf groups f ↔ ∃ spec, groups[g]? = some spec ∧ f spec = true := by
  unfold groupIdsOf
  rw [mem_filter, List.mem_range]
  constructor
  · rintro ⟨hlt, hf⟩
    rw [getElem?_eq_getElem hlt] at hf
    exact ⟨_, getElem?_eq_getElem hlt, hf⟩
  · rintro ⟨spec, hg, hf⟩
    exact ⟨(List.getElem?_eq_some_iff.mp hg).1, by rw [hg]; exact hf⟩

/-- What the hybrid coordinator knows of the groups. -/
structure HybridSplit (groups : List KVCacheSpec) (fullIds otherIds : List Nat)
    (full other : KVCacheSpec) : Prop where
  eq_fullIds : fullIds = groupIdsOf groups KVCacheSpec.isFullAttention
  eq_otherIds : otherIds = groupIdsOf groups fun g => !g.isFullAttention
  mem_full : full ∈ groups ∧ full.isFullAttention = true
  mem_other : other ∈ groups ∧ other.isFullAttention = false
  only : ∀ spec ∈ groups, spec = if spec.isFullAttention then full else other

theorem hybridSplit_of_verify {fullIds otherIds : List Nat} {full other : KVCacheSpec} {first : Bool}
    (h : verifyAndSplitKVCacheGroups groups = .ok (.hybrid fullIds otherIds full other first)) :
    HybridSplit groups fullIds otherIds full other := by
  unfold verifyAndSplitKVCacheGroups at h
  dsimp only at h
  split at h
  next f fs o os hfull hother =>
    obtain ⟨_, hsame, h⟩ := bind_eq_ok.mp h
    obtain ⟨_, -, h⟩ := bind_eq_ok.mp h
    have hsame := require_eq_ok.mp hsame
    have hf := mem_filter.mp (hfull ▸ mem_cons_self : f ∈ groups.filter _)
    have ho := mem_filter.mp (hother ▸ mem_cons_self : o ∈ groups.filter _)
    have honly : ∀ spec ∈ groups, spec = if spec.isFullAttention then f else o := by
      intro spec hspec
      split_ifs with hkind
      · have hmem : spec ∈ f :: fs := hfull ▸ mem_filter.mpr ⟨hspec, hkind⟩
        exact (mem_cons.mp hmem).elim id (hsame.1 spec)
      · have hmem : spec ∈ o :: os :=
          hother ▸ mem_filter.mpr ⟨hspec, by simpa using hkind⟩
        exact (mem_cons.mp hmem).elim id (hsame.2 spec)
    have hall : HybridSplit groups (groupIdsOf groups KVCacheSpec.isFullAttention)
        (groupIdsOf groups fun g => !g.isFullAttention) f o :=
      ⟨rfl, rfl, hf, ⟨ho.1, by simpa using ho.2⟩, honly⟩
    split_ifs at h
    · obtain ⟨rfl, rfl, rfl, rfl, -⟩ := CoordinatorKind.hybrid.inj (pure_eq_ok.mp h)
      exact hall
    · obtain ⟨rfl, rfl, rfl, rfl, -⟩ := CoordinatorKind.hybrid.inj (pure_eq_ok.mp h)
      exact hall
  next => cases h

namespace HybridSplit

variable {fullIds otherIds : List Nat} {full other : KVCacheSpec}
  (h : HybridSplit groups fullIds otherIds full other)

include h

theorem fullIds_ne : fullIds ≠ [] := by
  obtain ⟨i, hi⟩ := List.mem_iff_getElem?.mp h.mem_full.1
  rw [h.eq_fullIds]
  exact List.ne_nil_of_mem (mem_groupIdsOf.mpr ⟨full, hi, h.mem_full.2⟩)

theorem otherIds_ne : otherIds ≠ [] := by
  obtain ⟨i, hi⟩ := List.mem_iff_getElem?.mp h.mem_other.1
  rw [h.eq_otherIds]
  exact List.ne_nil_of_mem (mem_groupIdsOf.mpr ⟨other, hi, by simp [h.mem_other.2]⟩)

/-- The group ids of full attention are those of its spec. -/
theorem getElem?_of_mem_full {g : Nat} (hg : g ∈ fullIds) : groups[g]? = some full := by
  rw [h.eq_fullIds] at hg
  obtain ⟨spec, hget, hkind⟩ := mem_groupIdsOf.mp hg
  have honly := h.only spec (mem_of_getElem? hget)
  rw [if_pos hkind] at honly
  rw [hget, honly]

theorem getElem?_of_mem_other {g : Nat} (hg : g ∈ otherIds) : groups[g]? = some other := by
  rw [h.eq_otherIds] at hg
  obtain ⟨spec, hget, hkind⟩ := mem_groupIdsOf.mp hg
  have honly := h.only spec (mem_of_getElem? hget)
  rw [if_neg (by simpa using hkind)] at honly
  rw [hget, honly]

theorem mem_or_mem {g : Nat} {spec : KVCacheSpec} (hg : groups[g]? = some spec) :
    (g ∈ fullIds ∧ spec = full) ∨ (g ∈ otherIds ∧ spec = other) := by
  have honly := h.only spec (mem_of_getElem? hg)
  cases hkind : spec.isFullAttention with
  | true =>
    rw [hkind, if_pos rfl] at honly
    exact .inl ⟨h.eq_fullIds ▸ mem_groupIdsOf.mpr ⟨spec, hg, hkind⟩, honly⟩
  | false =>
    rw [hkind, if_neg Bool.false_ne_true] at honly
    exact .inr ⟨h.eq_otherIds ▸ mem_groupIdsOf.mpr ⟨spec, hg, by simp [hkind]⟩, honly⟩

/-- A prefix is reusable if the needed blocks are hit in the groups of both kinds. -/
theorem reusable_iff (hbs : 0 < bs)
    (hsize : ∀ spec ∈ groups, spec.blockSize = bs) (hs : ∀ spec ∈ groups, spec.Searchable) :
    Reusable p hashes groups n ↔ Covered (Hit p hashes fullIds) full.firstNeeded n ∧
      Covered (Hit p hashes otherIds) other.firstNeeded n := by
  rw [InferenceServer.reusable_iff hbs hsize hs]
  constructor
  · intro hall
    exact ⟨fun i hi hlt g hg => hall g full (h.getElem?_of_mem_full hg) i hi hlt,
      fun i hi hlt g hg => hall g other (h.getElem?_of_mem_other hg) i hi hlt⟩
  · rintro ⟨hfull, hother⟩ g spec hg i hi hlt
    rcases h.mem_or_mem hg with ⟨hmem, rfl⟩ | ⟨hmem, rfl⟩
    · exact hfull i hi hlt g hmem
    · exact hother i hi hlt g hmem

end HybridSplit

/-- In full attention every block is needed. -/
theorem KVCacheSpec.firstNeeded_of_full {spec : KVCacheSpec} (h : spec.isFullAttention = true) :
    spec.firstNeeded = fun _ => 0 := by
  cases spec with
  | fullAttention => rfl
  | slidingWindow => cases h
  | chunkedLocalAttention => cases h
  | mamba => cases h

namespace KVCacheManager

variable {k : KVCacheManager}

/-- The hit of the coordinator of one group. -/
theorem found_unitary {spec : KVCacheSpec} (hkind : k.kind = .unitary spec)
    (heagle : k.useEagle = false) (hbs : 0 < spec.blockSize) (hs : spec.Searchable)
    (hlen : maxLength ≤ hashes.length * spec.blockSize) :
    ∃ rows n, k.findLongestCacheHit hashes maxLength = .ok (rows, ((n * spec.blockSize : Nat) : Int)) ∧
      Found k.blockPool hashes [spec] spec.blockSize maxLength rows n := by
  obtain ⟨n, rows, hok, hgreatest, hrows⟩ := KVCacheSpec.findLongestCacheHit_greatest
    (p := k.blockPool) hbs hs (List.cons_ne_nil 0 []) hlen
  refine ⟨rows, n, ?_, ?_, ?_, ?_⟩
  · unfold findLongestCacheHit
    rw [hkind]
    dsimp only
    rw [heagle, hok]
    change Except.ok (rows, (((rows.headD []).length * spec.blockSize : Nat) : Int)) = _
    rw [hrows.head_length (List.cons_ne_nil 0 [])]
  · have hset : {n | n * spec.blockSize ≤ maxLength ∧ Reusable k.blockPool hashes [spec] n} =
        lengths (Hit k.blockPool hashes [0]) spec.firstNeeded (maxLength / spec.blockSize) := by
      ext m
      change m * spec.blockSize ≤ maxLength ∧ _ ↔ m ≤ maxLength / spec.blockSize ∧ _
      rw [Nat.le_div_iff_mul_le hbs, reusable_iff hbs (by simp) (by simpa using hs)]
      refine and_congr_right fun _ => ⟨fun hall i hi hlt g hg => ?_, fun hall g spec' hg i hi hlt => ?_⟩
      · obtain rfl := List.mem_singleton.mp hg
        exact hall 0 spec rfl i hi hlt
      · obtain rfl : g = 0 := by
          have := (List.getElem?_eq_some_iff.mp hg).1
          simpa using this
        cases hg
        exact hall i hi hlt 0 mem_cons_self
    rw [hset]
    exact hgreatest
  · exact hrows.length_eq.symm
  · intro g spec' l hg hl
    obtain rfl : g = 0 := by
      have := (List.getElem?_eq_some_iff.mp hg).1
      simpa using this
    cases hg
    cases hrows with
    | cons hrow _ =>
      cases hl
      exact hrow

/-- The hit of the coordinator of two kinds of groups: the other kind is searched within the hit of full
attention, which is cut to its length. -/
theorem found_hybrid {fullIds otherIds : List Nat} {full other : KVCacheSpec} {first : Bool}
    (hkind : k.kind = .hybrid fullIds otherIds full other first) (heagle : k.useEagle = false)
    (hsplit : HybridSplit groups fullIds otherIds full other)
    (horder : k.groupOrder = range groups.length) (hbs : 0 < bs)
    (hsize : ∀ spec ∈ groups, spec.blockSize = bs) (hs : ∀ spec ∈ groups, spec.Searchable)
    (hlen : maxLength ≤ hashes.length * bs) :
    ∃ rows n, k.findLongestCacheHit hashes maxLength = .ok (rows, ((n * bs : Nat) : Int)) ∧
      Found k.blockPool hashes groups bs maxLength rows n := by
  have hfbs := hsize full hsplit.mem_full.1
  have hobs := hsize other hsplit.mem_other.1
  obtain ⟨n₁, rows₁, hok₁, hgreatest₁, hrows₁⟩ := KVCacheSpec.findLongestCacheHit_greatest
    (p := k.blockPool) (hfbs ▸ hbs) (hs full hsplit.mem_full.1) hsplit.fullIds_ne (hfbs ▸ hlen)
  rw [hfbs] at hgreatest₁
  have hn₁ : n₁ * bs ≤ maxLength := (Nat.le_div_iff_mul_le hbs).mp hgreatest₁.1.1
  have hlen₁ : n₁ * bs ≤ hashes.length * other.blockSize := hobs.symm ▸ hn₁.trans hlen
  obtain ⟨n, rows₂, hok₂, hgreatest₂, hrows₂⟩ := KVCacheSpec.findLongestCacheHit_greatest
    (p := k.blockPool) (hobs ▸ hbs) (hs other hsplit.mem_other.1) hsplit.otherIds_ne hlen₁
  rw [hobs, Nat.mul_div_cancel n₁ hbs] at hgreatest₂
  have hn : n ≤ n₁ := hgreatest₂.1.1
  have hhead₁ := hrows₁.head_length hsplit.fullIds_ne
  have hhead₂ := hrows₂.head_length hsplit.otherIds_ne
  -- the rows, in the order of the groups
  have hcut : List.Forall₂ (fun g l => ∀ spec, groups[g]? = some spec →
      CacheRow k.blockPool hashes g (spec.firstNeeded n) n n l) fullIds
      (rows₁.map (List.take n)) := by
    have hmem := (List.forall₂_and_left fullIds rows₁).mpr ⟨fun g (hg : g ∈ fullIds) => hg, hrows₁⟩
    refine List.forall₂_map_right_iff.mpr (hmem.imp fun g l ⟨hg, hl⟩ spec hspec => ?_)
    obtain rfl : full = spec := Option.some.inj ((hsplit.getElem?_of_mem_full hg).symm.trans hspec)
    rw [KVCacheSpec.firstNeeded_of_full hsplit.mem_full.2] at hl ⊢
    exact hl.take hn hn
  have hother : List.Forall₂ (fun g l => ∀ spec, groups[g]? = some spec →
      CacheRow k.blockPool hashes g (spec.firstNeeded n) n n l) otherIds rows₂ := by
    have hmem := (List.forall₂_and_left otherIds rows₂).mpr
      ⟨fun g (hg : g ∈ otherIds) => hg, hrows₂⟩
    refine hmem.imp fun g l ⟨hg, hl⟩ spec hspec => ?_
    obtain rfl : other = spec := Option.some.inj ((hsplit.getElem?_of_mem_other hg).symm.trans hspec)
    exact hl
  have hall : List.Forall₂ (fun g l => ∀ spec, groups[g]? = some spec →
      CacheRow k.blockPool hashes g (spec.firstNeeded n) n n l) (range groups.length)
      (if first then rows₁.map (List.take n) ++ rows₂ else rows₂ ++ rows₁.map (List.take n)) := by
    unfold groupOrder at horder
    rw [hkind] at horder
    rw [← horder]
    cases first with
    | true => exact List.rel_append hcut hother
    | false => exact List.rel_append hother hcut
  refine ⟨if first then rows₁.map (List.take n) ++ rows₂ else rows₂ ++ rows₁.map (List.take n), n, ?_,
    ?_, ?_, fun g spec l hg hl => ?_⟩
  · unfold findLongestCacheHit
    rw [hkind]
    rw [heagle]
    refine bind_eq_ok.mpr ⟨rows₁, hok₁, bind_eq_ok.mpr ⟨rows₂, ?_, bind_eq_ok.mpr ⟨(), ?_, ?_⟩⟩⟩
    · rw [hhead₁, hfbs]
      exact hok₂
    · rw [hhead₂, hobs, hfbs]
      exact require_eq_ok.mpr (Nat.mul_mod_left n bs)
    · rw [hhead₂, hobs, hfbs, Nat.mul_div_cancel n hbs]
      rfl
  · have hset : {n | n * bs ≤ maxLength ∧ Reusable k.blockPool hashes groups n} =
        lengths (Hit k.blockPool hashes fullIds) (fun _ => 0) (maxLength / bs) ∩
          lengths (Hit k.blockPool hashes otherIds) other.firstNeeded (maxLength / bs) := by
      ext m
      change m * bs ≤ maxLength ∧ _ ↔ (m ≤ maxLength / bs ∧ _) ∧ m ≤ maxLength / bs ∧ _
      rw [Nat.le_div_iff_mul_le hbs, hsplit.reusable_iff hbs hsize hs,
        KVCacheSpec.firstNeeded_of_full hsplit.mem_full.2]
      constructor
      · exact fun ⟨hle, hfull, hother⟩ => ⟨⟨hle, hfull⟩, hle, hother⟩
      · exact fun ⟨⟨hle, hfull⟩, _, hother⟩ => ⟨hle, hfull, hother⟩
    rw [hset]
    exact isGreatest_both (KVCacheSpec.firstNeeded_of_full hsplit.mem_full.2 ▸ hgreatest₁) hgreatest₂
  · rw [← hall.length_eq, List.length_range]
  · have hlt := (List.getElem?_eq_some_iff.mp hg).1
    have hrow := (List.forall₂_iff_get.mp hall).2 g (by rw [List.length_range]; exact hlt)
      (List.getElem?_eq_some_iff.mp hl).1
    rw [List.get_eq_getElem, List.get_eq_getElem, List.getElem_range,
      (List.getElem?_eq_some_iff.mp hl).2] at hrow
    exact hrow spec hg

/-- What the constructor makes of the groups. -/
theorem init_cases {config : KVCacheConfig} {maxModelLen : Nat} {events : Bool}
    (h : KVCacheManager.init config maxModelLen true false events = .ok k)
    (hne : config.kvCacheGroups ≠ []) :
    k.useEagle = false ∧ (∀ spec ∈ config.kvCacheGroups, spec.blockSize = k.blockSize) ∧
      getKVCacheCoordinator config.kvCacheGroups true = .ok k.kind ∧
      k.groupOrder = range config.kvCacheGroups.length := by
  have hcaching : (true && !config.kvCacheGroups.isEmpty) = true := by
    cases hgroups : config.kvCacheGroups with
    | nil => exact absurd hgroups hne
    | cons => rfl
  unfold KVCacheManager.init at h
  rw [hcaching] at h
  obtain ⟨_, hsize, h⟩ := bind_eq_ok.mp h
  obtain ⟨kind, hkind, h⟩ := bind_eq_ok.mp h
  obtain ⟨pool, -, h⟩ := bind_eq_ok.mp h
  cases h
  exact ⟨rfl, require_eq_ok.mp hsize rfl, hkind,
    groupOrder_of_coordinator hkind (by simp [initManagers])⟩

/-- **The hit of a manager**, whatever is in the pool: the search returns the longest hit exactly if the
null block is not needed. -/
theorem longestHit_iff {config : KVCacheConfig} {maxModelLen : Nat} {events : Bool}
    (hinit : KVCacheManager.init config maxModelLen true false events = .ok k)
    (hne : config.kvCacheGroups ≠ []) (hs : ∀ spec ∈ config.kvCacheGroups, spec.Searchable)
    (p : BlockPool) (hlen : maxLength ≤ hashes.length * k.blockSize) :
    ∃ rows h, KVCacheManager.findLongestCacheHit { k with blockPool := p } hashes maxLength =
        .ok (rows, ((h : Nat) : Int)) ∧
      (LongestHit p hashes config.kvCacheGroups k.blockSize maxLength rows h ↔
        NullNotNeeded p hashes config.kvCacheGroups k.blockSize maxLength) := by
  obtain ⟨heagle, hsize, hkind, horder⟩ := init_cases hinit hne
  have hbs : 0 < k.blockSize := by
    obtain ⟨spec, hspec⟩ := List.exists_mem_of_ne_nil _ hne
    exact hsize spec hspec ▸ config.blockSize_pos spec hspec
  suffices hfound : ∃ rows n, KVCacheManager.findLongestCacheHit { k with blockPool := p } hashes
      maxLength = .ok (rows, ((n * k.blockSize : Nat) : Int)) ∧
        Found p hashes config.kvCacheGroups k.blockSize maxLength rows n by
    obtain ⟨rows, n, hok, hfound⟩ := hfound
    exact ⟨rows, n * k.blockSize, hok, hfound.greatest_iff hbs hsize hs⟩
  unfold getKVCacheCoordinator at hkind
  rw [if_neg (by decide)] at hkind
  split at hkind
  next spec hgroups =>
    have hmem : spec ∈ config.kvCacheGroups := hgroups ▸ List.mem_cons_self
    have hspec := hsize spec hmem
    obtain ⟨rows, n, hok, hfound⟩ := found_unitary (k := { k with blockPool := p })
      (Except.ok.inj hkind).symm heagle (hspec ▸ hbs) (hs spec hmem) (hspec ▸ hlen)
    rw [hspec] at hok hfound
    exact ⟨rows, n, hok, hgroups ▸ hfound⟩
  next =>
    -- the split into the two kinds succeeds only with the hybrid coordinator
    obtain ⟨fullIds, otherIds, full, other, first, hk⟩ : ∃ fullIds otherIds full other first,
        k.kind = .hybrid fullIds otherIds full other first := by
      unfold verifyAndSplitKVCacheGroups at hkind
      dsimp only at hkind
      split at hkind
      · obtain ⟨_, -, hkind⟩ := bind_eq_ok.mp hkind
        obtain ⟨_, -, hkind⟩ := bind_eq_ok.mp hkind
        split_ifs at hkind
        · exact ⟨_, _, _, _, _, (pure_eq_ok.mp hkind).symm⟩
        · exact ⟨_, _, _, _, _, (pure_eq_ok.mp hkind).symm⟩
      · cases hkind
    rw [hk] at hkind
    exact found_hybrid (k := { k with blockPool := p }) hk heagle (hybridSplit_of_verify hkind) horder
      hbs hsize hs hlen

/-! ## Runs -/

/-- If no entry of the index begins with the null block, then it is not a cached block. -/
theorem cachedBlock_ne_null
    (h : ∀ e ∈ p.cachedBlockHashToBlock.entries, e.2.head? ≠ some p.nullBlock) (g i : Nat) :
    p.cachedBlock hashes g i ≠ some p.nullBlock := by
  intro hc
  obtain ⟨hash, -, hhead⟩ := Option.bind_eq_some_iff.mp hc
  unfold Dict.getD at hhead
  cases hget : p.cachedBlockHashToBlock.get? ⟨hash, g⟩ with
  | none =>
    rw [hget] at hhead
    cases hhead
  | some blocks =>
    rw [hget] at hhead
    exact h _ (Dict.get?_eq_some_iff.mp hget) hhead

/-- A hit of two blocks, behind a window. -/
theorem longestHit_behind_window :
    ∃ (k : KVCacheManager) (p : BlockPool) (hashes : List BlockHash) (rows : List (List BlockId)),
      KVCacheManager.init (hybridConfig 2) 100 true false false = .ok k ∧
        KVCacheManager.findLongestCacheHit { k with blockPool := p } hashes (2 : Nat) =
          .ok (rows, ((2 : Nat) : Int)) ∧
        LongestHit p hashes (hybridConfig 2).kvCacheGroups k.blockSize 2 rows 2 := by
  have hrun : (runCalls BlockHasher.encoding (hybridConfig 2) (fun _ _ => True)
      [.getComputedBlocks (repeatingRequest [] 0),
        .allocateSlots (repeatingRequest [] 0) 3 0 true 0 false]).any (fun s =>
      decide ((∀ e ∈ s.manager.blockPool.cachedBlockHashToBlock.entries,
          e.2.head? ≠ some s.manager.blockPool.nullBlock) ∧
        (s.manager.reqToBlockHashes.getD 2 []).length = 3) &&
      (KVCacheManager.init (hybridConfig 2) 100 true false false).toOption.any (fun k =>
        k.blockSize = 1 && (KVCacheManager.findLongestCacheHit
          { k with blockPool := s.manager.blockPool } (s.manager.reqToBlockHashes.getD 2 [])
            (2 : Nat)).toOption.any fun x => x.2 = 2)) = true := by
    decide +kernel
  obtain ⟨s, -, hs⟩ := (Option.any_eq_true ..).mp hrun
  rw [Bool.and_eq_true] at hs
  obtain ⟨hnull, hlen⟩ := of_decide_eq_true hs.1
  obtain ⟨k, hk, hs⟩ := (Option.any_eq_true ..).mp hs.2
  rw [Bool.and_eq_true] at hs
  have hbs : k.blockSize = 1 := of_decide_eq_true hs.1
  obtain ⟨⟨rows', h'⟩, hfind, hh⟩ := (Option.any_eq_true ..).mp hs.2
  obtain rfl : h' = 2 := of_decide_eq_true hh
  have hinit := toOption_eq_some.mp hk
  have hle : 2 ≤ (s.manager.reqToBlockHashes.getD 2 []).length * k.blockSize := by
    rw [hlen, hbs]
    decide
  obtain ⟨rows, h, hok, hiff⟩ := longestHit_iff hinit (by decide)
    (by simp [hybridConfig, KVCacheSpec.Searchable]) s.manager.blockPool hle
  rw [hok] at hfind
  obtain ⟨-, hh⟩ := Prod.mk.inj (Option.some.inj hfind)
  obtain rfl : h = 2 := by exact_mod_cast hh
  exact ⟨k, s.manager.blockPool, _, rows, hinit, hok,
    hiff.mpr (nullNotNeeded_of_notCached (cachedBlock_ne_null hnull))⟩

/-! ### A hit with the null block -/

/-- A window of two tokens, in blocks of four. -/
def windowConfig : KVCacheConfig where
  numBlocks := 8
  kvCacheGroups := [.slidingWindow 4 ⟨1, 1, "float16", false⟩ 2]
  blockSize_pos := by simp [KVCacheSpec.blockSize]

/-- A request that gets four tokens in its second step, three of them accepted drafts. -/
def draftingRequest (output drafts : List TokenId) (numComputedTokens : Int) : Request :=
  { requestId := 1, promptTokenIds := [7, 8], outputTokenIds := output, numComputedTokens,
    specTokenIds := drafts }

/-- The first block of the request is full and behind the window at once, so that the null block gets its
hash. -/
def skippedDraftsRun : List KVOp :=
  [.getComputedBlocks (draftingRequest [] [] 0),
   .allocateSlots (draftingRequest [] [] 0) 2 0 true 0 false,
   .allocateSlots (draftingRequest [9] [1, 2, 3] 2) 4 0 false 0 false,
   .allocateSlots (draftingRequest [9, 1, 2, 3, 4] [] 6) 1 0 false 0 false,
   .getComputedBlocks { requestId := 2, promptTokenIds := [7, 8, 9, 1, 2] }]

/-- **The null block as a hit**: the next request with these tokens gets the null block for the block that
its window needs. -/
theorem not_longestHit_of_null_cached :
    ∃ k, KVCacheManager.init windowConfig 100 true false false = .ok k ∧
      ∃ s, (kvMachine BlockHasher.encoding k).Reach (fun _ _ => True) s ∧
      ∃ hashes rows, 4 ≤ hashes.length * k.blockSize ∧
        KVCacheManager.findLongestCacheHit { k with blockPool := s.manager.blockPool } hashes
            (4 : Nat) = .ok (rows, ((4 : Nat) : Int)) ∧
          ¬ LongestHit s.manager.blockPool hashes windowConfig.kvCacheGroups k.blockSize 4 rows 4 := by
  have hrun : (runCalls BlockHasher.encoding windowConfig (fun _ _ => True) skippedDraftsRun).any (fun s =>
      (KVCacheManager.init windowConfig 100 true false false).toOption.any (fun k =>
        decide (k.blockSize = 4 ∧ (s.manager.reqToBlockHashes.getD 2 []).length = 1) &&
        (KVCacheManager.findLongestCacheHit { k with blockPool := s.manager.blockPool }
          (s.manager.reqToBlockHashes.getD 2 []) (4 : Nat)).toOption.any fun x =>
            x = ([[s.manager.blockPool.nullBlock]], 4))) = true := by
    decide +kernel
  obtain ⟨s, hs, hany⟩ := (Option.any_eq_true ..).mp hrun
  obtain ⟨k, hk, hreach⟩ := reach_runCalls hs
  rw [hk] at hany
  obtain ⟨k', hk', hany⟩ := (Option.any_eq_true ..).mp hany
  obtain rfl : k = k' := Option.some.inj hk'
  rw [Bool.and_eq_true] at hany
  obtain ⟨hbs, hlen⟩ := of_decide_eq_true hany.1
  obtain ⟨x, hx, hrows⟩ := (Option.any_eq_true ..).mp hany.2
  obtain rfl := of_decide_eq_true hrows
  refine ⟨k, hk, s, hreach, s.manager.reqToBlockHashes.getD 2 [], [[s.manager.blockPool.nullBlock]],
    ?_, toOption_eq_some.mp hx, fun hlong => ?_⟩
  · rw [hlen, hbs]
  · -- the token at index 4 attends to the one at index 3
    have hvalid := hlong.valid.2 0 _ _ rfl rfl
    rw [hbs] at hvalid
    obtain ⟨b, hb, hne⟩ := hvalid.attended 3 (by decide) (show 4 / 4 * 4 < 3 + 2 by decide)
    exact hne (Option.some.inj hb).symm

end KVCacheManager

end InferenceServer
