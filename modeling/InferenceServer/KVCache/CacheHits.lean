import InferenceServer.KVCache.TableOperations
import InferenceServer.KVCache.Manager

/-!
# What a prefix cache hit is

`find_longest_cache_hit` differs from one attention type to the next in the direction of its
search and in the padding with the null block. What the callers rely on is the same for all of
them: the list of a group has at position `i` the null block or a block that is cached for the
group under the `i`-th block hash of the request.
-/

namespace InferenceServer

open Outcome

variable {p : BlockPool} {hashes : List BlockHash} {groupIds : List Nat}

/-- A block that is not the null block is cached under the hash of its position. -/
def HitRow (p : BlockPool) (hashes : List BlockHash) (g : Nat) (l : List BlockId) : Prop :=
  ∀ (i : Nat) (b : BlockId), l[i]? = some b → b ≠ p.nullBlock →
    ∃ h, hashes[i]? = some h ∧ b ∈ p.cachedBlockHashToBlock.getD ⟨h, g⟩ []

namespace HitRow

variable {g : Nat} {l : List BlockId} {b : BlockId} {h : BlockHash} {i : Nat}

theorem nil (g : Nat) : HitRow p hashes g [] := by simp [HitRow]

theorem replicate_null (g n : Nat) : HitRow p hashes g (List.replicate n p.nullBlock) := by
  intro i b hi hb
  rw [List.getElem?_replicate] at hi
  split_ifs at hi
  exact absurd (by simpa using hi.symm) hb

variable (hl : HitRow p hashes g l)

include hl

theorem take (n : Nat) : HitRow p hashes g (l.take n) := by
  intro i b hi hb
  rw [List.getElem?_take] at hi
  split_ifs at hi
  exact hl i b hi hb

theorem dropLast : HitRow p hashes g l.dropLast := by
  rw [List.dropLast_eq_take]
  exact hl.take _

theorem set (hh : hashes[i]? = some h)
    (hb : b ∈ p.cachedBlockHashToBlock.getD ⟨h, g⟩ []) : HitRow p hashes g (l.set i b) := by
  intro j c hj hc
  rw [List.getElem?_set] at hj
  split_ifs at hj with hij
  · obtain rfl : b = c := by simpa using hj
    exact ⟨h, hij ▸ hh, hb⟩
  · exact hl j c hj hc

theorem append (hh : hashes[l.length]? = some h)
    (hb : b ∈ p.cachedBlockHashToBlock.getD ⟨h, g⟩ []) : HitRow p hashes g (l ++ [b]) := by
  intro j c hj hc
  rw [List.getElem?_append] at hj
  split_ifs at hj with hlt
  · exact hl j c hj hc
  · obtain ⟨h₁, h₂⟩ := List.getElem?_eq_some_iff.mp hj
    simp only [List.length_singleton] at h₁
    obtain rfl : j = l.length := by omega
    obtain rfl : b = c := by simpa using h₂
    exact ⟨h, hh, hb⟩

end HitRow

/-- Combining two rows of values for the same groups. -/
theorem forall₂_zipWith {α β γ : Type} {R : Nat → α → Prop} {S : Nat → β → Prop}
    {T : Nat → γ → Prop} {f : α → β → γ} {gs : List Nat} {xs : List α} {ys : List β}
    (hR : List.Forall₂ R gs xs) (hS : List.Forall₂ S gs ys)
    (hT : ∀ g x y, R g x → S g y → T g (f x y)) : List.Forall₂ T gs (List.zipWith f xs ys) := by
  induction hR generalizing ys with
  | nil => simp
  | cons hx _ ih =>
    cases hS with
    | cons hy hys => exact .cons (hT _ _ _ hx hy) (ih hys)

theorem forall₂_map {α β : Type} {R : Nat → α → Prop} {T : Nat → β → Prop} {f : α → β}
    {gs : List Nat} {xs : List α} (hR : List.Forall₂ R gs xs) (hT : ∀ g x, R g x → T g (f x)) :
    List.Forall₂ T gs (xs.map f) := by
  induction hR with
  | nil => exact .nil
  | cons hx _ ih => exact .cons (hT _ _ hx) ih

theorem forall₂_const {α : Type} {T : Nat → α → Prop} {a : α} (gs : List Nat)
    (hT : ∀ g, T g a) : List.Forall₂ T gs (gs.map fun _ => a) := by
  induction gs with
  | nil => exact .nil
  | cons g gs ih => exact .cons (hT g) ih

/-- **`get_cached_block`** finds a cached block for every group. -/
theorem BlockPool.getCachedBlock_ok {h : BlockHash} {row : List BlockId}
    (hr : p.getCachedBlock h groupIds = some row) :
    List.Forall₂ (fun g b => b ∈ p.cachedBlockHashToBlock.getD ⟨h, g⟩ []) groupIds row := by
  unfold BlockPool.getCachedBlock at hr
  induction groupIds generalizing row with
  | nil =>
    obtain rfl : [] = row := by simpa using hr
    exact .nil
  | cons g gs ih =>
    rw [List.mapM_cons] at hr
    cases hg : (p.cachedBlockHashToBlock.getD ⟨h, g⟩ []).head? with
    | none => simp [hg] at hr
    | some b =>
      cases hgs : gs.mapM fun g => (p.cachedBlockHashToBlock.getD ⟨h, g⟩ []).head? with
      | none => simp [hg, hgs] at hr
      | some bs =>
        obtain rfl : b :: bs = row := by simpa [hg, hgs] using hr
        exact .cons (List.mem_of_head? hg) (ih hgs)

namespace KVCacheSpec

/-- Rows of hits, one for each group. -/
def HitRows (p : BlockPool) (hashes : List BlockHash) (groupIds : List Nat)
    (rows : List (List BlockId)) : Prop :=
  List.Forall₂ (HitRow p hashes) groupIds rows

/-- Rows of hits of one length. -/
def HitRowsOf (p : BlockPool) (hashes : List BlockHash) (n : Nat) (groupIds : List Nat)
    (rows : List (List BlockId)) : Prop :=
  List.Forall₂ (fun g l => HitRow p hashes g l ∧ l.length = n) groupIds rows

variable {rows : List (List BlockId)}

theorem HitRowsOf.hitRows {n : Nat}
    (h : HitRowsOf p hashes n groupIds rows) : HitRows p hashes groupIds rows :=
  h.imp fun _ _ hl => hl.1

variable {n : Nat} (hrows : HitRowsOf p hashes n groupIds rows)

include hrows

theorem HitRowsOf.appendEach {row : List BlockId} {h : BlockHash} (hh : hashes[n]? = some h)
    (hrow : p.getCachedBlock h groupIds = some row) :
    HitRowsOf p hashes (n + 1) groupIds (appendEach rows row) :=
  forall₂_zipWith hrows (BlockPool.getCachedBlock_ok hrow) fun _ l _ hl hb =>
    ⟨hl.1.append (hl.2 ▸ hh) hb, by simp [hl.2]⟩

theorem prefixHits_ok {rest : List BlockHash}
    (hrest : ∀ (j : Nat) (h : BlockHash), rest[j]? = some h → hashes[n + j]? = some h) :
    HitRows p hashes groupIds (prefixHits p groupIds rest rows) := by
  induction rest generalizing n rows with
  | nil => exact hrows.hitRows
  | cons h rest ih =>
    unfold prefixHits
    split
    · exact hrows.hitRows
    · exact hrows.hitRows
    · rename_i row _ hrow
      refine ih (hrows.appendEach (hrest 0 h rfl) hrow) fun j k hj => ?_
      rw [show n + 1 + j = n + (j + 1) by omega]
      exact hrest (j + 1) k (by simpa using hj)

theorem chunkHits_ok {k : Nat} {out : List (List BlockId)}
    (h : chunkHits p groupIds hashes k n rows = .ok out) : HitRows p hashes groupIds out := by
  induction k generalizing n rows with
  | zero =>
    obtain rfl : rows = out := by simpa [chunkHits] using h
    exact hrows.hitRows
  | succ k ih =>
    unfold chunkHits at h
    cases hh : hashes[n]? with
    | none => simp [hh] at h
    | some b =>
      simp only [hh] at h
      split at h
      · cases h
        exact hrows.hitRows
      · cases h
        exact hrows.hitRows
      · rename_i row _ hrow
        exact ih (hrows.appendEach hh hrow) h

omit hrows

theorem windowHits_ok {needed : Int} {i run : Nat}
    {out : List (List BlockId) × Nat × Bool} (hrows : HitRows p hashes groupIds rows)
    (h : windowHits p groupIds hashes needed i run rows = .ok out) :
    HitRows p hashes groupIds out.1 := by
  induction i generalizing run rows with
  | zero =>
    obtain rfl : (rows, run, false) = out := by simpa [windowHits] using h
    exact hrows
  | succ i ih =>
    unfold windowHits at h
    cases hh : hashes[i]? with
    | none => simp [hh] at h
    | some b =>
      simp only [hh] at h
      split at h
      · exact ih hrows h
      · exact ih hrows h
      · rename_i row _ hrow
        have hset : HitRows p hashes groupIds
            (List.zipWith (fun l b => l.set i b) rows row) :=
          forall₂_zipWith hrows (BlockPool.getCachedBlock_ok hrow) fun _ _ _ hl hb => hl.set hh hb
        split_ifs at h with hneed
        · cases h
          exact forall₂_map hset fun _ _ hl => hl.take _
        · exact ih hset h

theorem dropLastForEagle_ok {eagle : Bool} (h : HitRows p hashes groupIds rows) :
    HitRows p hashes groupIds (dropLastForEagle eagle rows) := by
  unfold dropLastForEagle
  split_ifs
  · exact forall₂_map h fun _ _ hl => hl.dropLast
  · exact h

/-- **The hits of one attention type.** -/
theorem findLongestCacheHit_ok {spec : KVCacheSpec} {maxLength : Int} {eagle : Bool}
    (h : spec.findLongestCacheHit hashes maxLength groupIds p eagle = .ok rows) :
    HitRows p hashes groupIds rows := by
  unfold findLongestCacheHit at h
  cases spec with
  | fullAttention bs f w c =>
    simp only at h
    split_ifs at h with hneg
    cases h
    refine dropLastForEagle_ok (prefixHits_ok (n := 0)
      (forall₂_const groupIds fun g => ⟨.nil g, rfl⟩) fun j k hj => ?_)
    rw [List.getElem?_take] at hj
    split_ifs at hj
    simpa using hj
  | slidingWindow bs f w =>
    obtain ⟨⟨computed, run, found⟩, h₁, h₂⟩ := bind_eq_ok.mp h
    cases h₂
    have hrows := windowHits_ok (forall₂_const groupIds fun g => .replicate_null g _) h₁
    refine dropLastForEagle_ok ?_
    cases found with
    | true => exact hrows
    | false => exact forall₂_map hrows fun _ _ hl => hl.take _
  | chunkedLocalAttention bs f c =>
    obtain ⟨_, -, h₂⟩ := bind_eq_ok.mp h
    exact chunkHits_ok (forall₂_const groupIds fun g => ⟨.replicate_null g _, by simp⟩) h₂
  | mamba bs s d padded type =>
    cases h
    exact forall₂_const groupIds fun g => .nil g

end KVCacheSpec

/-! ## The coordinator -/

namespace KVCacheManager

variable {k : KVCacheManager}

/-- The group ids in the order in which the coordinator returns the hits. -/
def groupOrder (k : KVCacheManager) : List Nat :=
  match k.kind with
  | .noPrefixCache => List.range k.singleTypeManagers.length
  | .unitary _ => [0]
  | .hybrid fullIds otherIds _ _ fullFirst =>
    if fullFirst then fullIds ++ otherIds else otherIds ++ fullIds

/-- **The hits of the coordinator**: a row of hits for every group. -/
theorem findLongestCacheHit_ok {n len : Int} {rows : List (List BlockId)}
    (h : k.findLongestCacheHit hashes n = .ok (rows, len)) :
    KVCacheSpec.HitRows k.blockPool hashes k.groupOrder rows := by
  unfold findLongestCacheHit at h
  unfold groupOrder
  cases hk : k.kind with
  | noPrefixCache =>
    simp only [hk, Except.ok.injEq, Prod.mk.injEq] at h
    obtain ⟨rfl, -⟩ := h
    refine List.forall₂_iff_get.mpr ⟨by simp, fun i h₁ h₂ => ?_⟩
    simpa using HitRow.nil _
  | unitary spec =>
    simp only [hk] at h
    obtain ⟨hit, h₁, h₂⟩ := bind_eq_ok.mp h
    cases h₂
    exact KVCacheSpec.findLongestCacheHit_ok h₁
  | hybrid fullIds otherIds fullSpec otherSpec fullFirst =>
    simp only [hk] at h
    obtain ⟨hitFull, h₁, h₂⟩ := bind_eq_ok.mp h
    obtain ⟨hitOther, h₃, h₄⟩ := bind_eq_ok.mp h₂
    obtain ⟨_, -, h₅⟩ := bind_eq_ok.mp h₄
    cases h₅
    have hfull := forall₂_map (KVCacheSpec.findLongestCacheHit_ok h₁) fun _ l hl =>
      hl.take ((hitOther.headD []).length * otherSpec.blockSize / fullSpec.blockSize)
    have hother := KVCacheSpec.findLongestCacheHit_ok h₃
    cases fullFirst with
    | true => exact List.rel_append hfull hother
    | false => exact List.rel_append hother hfull

end KVCacheManager

end InferenceServer
