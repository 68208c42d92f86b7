import InferenceServer.KVCache.BlockAccounting
import InferenceServer.KVCache.HashPaths

/-!
# Soundness of the prefix cache

With an injective hash function, a block hash determines everything that it was taken over: the
hash of the block before, the tokens and the extra keys. So the hash of block `i` determines the
first `i + 1` blocks of tokens, the LoRA adapter and, block by block, the hashes of the
multi-modal items (`samePrefix_of_chainHash`). It does not determine the offsets of the items,
which are dropped from the extra keys although the docstring of `generate_block_hash_extra_keys`
announces pairs of a hash and a start offset.

The runs here carry two ghost records: the requests as they were passed to the calls, and every
block hash that was recorded for one of them.
-/

namespace InferenceServer

open Outcome

/-! ## What a block hash determines -/

/-- The offsets and hashes of the multi-modal items that start before position `n`. -/
def Request.itemsBelow (r : Request) (n : Nat) : List (Nat × String) :=
  (r.mmItems.filter fun it => it.1.offset < n).map fun it => (it.1.offset, it.2)

def Request.loraId (r : Request) : Option Int := r.loraRequest.map LoRARequest.loraIntId

/-- The multi-modal hashes of two requests are the same in every block up to block `i`. -/
def SameItemHashes (bs : Nat) (A B : Request) (i : Nat) : Prop :=
  ∀ k ≤ i, reachKeys A.mmItems (k * bs) ((k + 1) * bs) = reachKeys B.mmItems (k * bs) ((k + 1) * bs)

/-- **Images with equal hashes are at equal offsets**: requests that agree on the tokens of the
first blocks, the LoRA adapter and, block by block, on the hashes of the items have them at the
same offsets. -/
def ImagesAgree (bs : Nat) (A B : Request) : Prop :=
  ∀ i < A.numTokens,
    A.allTokenIds.take ((i + 1) * bs) = B.allTokenIds.take ((i + 1) * bs) ∧
      A.loraId = B.loraId ∧ SameItemHashes bs A B i →
    A.itemsBelow ((i + 1) * bs) = B.itemsBelow ((i + 1) * bs)

instance (bs : Nat) (A B : Request) (i : Nat) : Decidable (SameItemHashes bs A B i) :=
  inferInstanceAs (Decidable (∀ k ≤ i, _))

instance (bs : Nat) (A B : Request) : Decidable (ImagesAgree bs A B) :=
  inferInstanceAs (Decidable (∀ i < A.numTokens, _))

section Chain

variable {H : BlockHasher} {bs : Nat} {A B : Request}

theorem depth_chainHash (hH : H.Lawful) (bs : Nat) (r : Request) (i : Nat) :
    H.Depth (chainHash H bs r i).hashValue (i + 1) := by
  induction i with
  | zero => exact depth_hashBlockTokens_first H _ _
  | succ i ih => exact depth_hashBlockTokens_next hH ih _ _

end Chain

/-! ## Runs with a record of all hashes -/

/-- A block hash that was recorded for a position of a request. -/
structure HashRecord where
  request : Request
  position : Nat
  hash : BlockHash
deriving DecidableEq

/-- The manager, the requests as they were passed to the calls so far, and the hashes recorded
for them. -/
structure TracedState where
  kv : KVState
  seen : List Request := []
  log : List HashRecord := []

/-- The request object of a call. -/
def KVOp.request? : KVOp → Option Request
  | .getComputedBlocks r | .allocateSlots r .. | .cacheBlocks r _ => some r
  | _ => none

/-- The block hashes of a request that the manager remembers. -/
def recordsOf (k : KVCacheManager) (r : Request) : List HashRecord :=
  (k.reqToBlockHashes.getD r.requestId []).zipIdx.map fun (h, i) => ⟨r, i, h⟩

/-- The runs of a KV cache manager, with the ghost records. -/
def tracedMachine (H : BlockHasher) (k : KVCacheManager) : Machine TracedState KVOp PyError where
  init := { kv := ⟨k, none⟩ }
  step s op := do
    let kv ← op.run H s.kv
    return match op.request? with
      | none => { s with kv }
      | some r => { kv, seen := s.seen ++ [r], log := s.log ++ recordsOf kv.manager r }

namespace TracedState

/-- **What the engine passes**: sorted placeholders with a hash each, and one object for each
request, which only ever gets more output tokens. -/
def Serves (s : TracedState) (op : KVOp) : Prop :=
  ∀ r ∈ op.request?, r.MmOrdered ∧ r.mmPositions.length = r.mmHashes.length ∧
    ∀ A ∈ s.seen, A.requestId = r.requestId → A.Extends r

/-- The incrementally hashed blocks of a call are reached by the last multi-modal item only. -/
def LastItems (s : TracedState) : KVOp → Prop
  | .allocateSlots r n c _ _ delay => s.kv.manager.enableCaching = true → delay = false →
      ∀ i < s.kv.manager.numFullBlocks r n c,
        (s.kv.manager.reqToBlockHashes.getD r.requestId []).length ≤ i →
        LastItemOnly s.kv.manager.blockSize r i
  | .cacheBlocks r n => s.kv.manager.enableCaching = true →
      ∀ i < (n / s.kv.manager.blockSize).toNat,
        (s.kv.manager.reqToBlockHashes.getD r.requestId []).length ≤ i →
        LastItemOnly s.kv.manager.blockSize r i
  | _ => True

/-- **The condition on a call**: the null block is not cached, the incremental path sees all items of
the blocks it hashes, and the images are where equal images of equal prefixes were before. -/
structure Sound (s : TracedState) (op : KVOp) : Prop where
  null : CachesNoNull s.kv op
  items : s.LastItems op
  images : ∀ r ∈ op.request?, ∀ A ∈ s.seen,
    ImagesAgree s.kv.manager.blockSize A r ∧ ImagesAgree s.kv.manager.blockSize r A

/-- The hashes that fit a request: those on the chain of one of its objects. -/
def SeenChain (H : BlockHasher) (bs : Nat) (seen : List Request) (rid : ReqId) (i : Nat)
    (h : BlockHash) : Prop :=
  0 < bs ∧ ∃ A ∈ seen, A.requestId = rid ∧ OnChain H bs A rid i h

/-- The invariant of the runs. -/
structure Inv (H : BlockHasher) (bs : Nat) (s : TracedState) : Prop where
  fits : s.kv.Fits (SeenChain H bs s.seen)
  blockSize : s.kv.manager.blockSize = bs
  blockSize_pos : s.kv.manager.enableCaching = true → 0 < bs
  ordered : ∀ A ∈ s.seen, A.MmOrdered
  images : ∀ A ∈ s.seen, ∀ B ∈ s.seen, ImagesAgree bs A B
  log : ∀ e ∈ s.log, 0 < bs ∧ e.request ∈ s.seen ∧
    OnChain H bs e.request e.request.requestId e.position e.hash
  /-- The blocks handed out have the hashes recorded for the request. -/
  computed : ∀ rid blocks, s.kv.computed = some (rid, blocks) → ∀ l ∈ blocks,
    ∀ (i : Nat) (b : BlockId), l[i]? = some b → b ≠ s.kv.manager.blockPool.nullBlock →
      ∃ h A, (s.kv.manager.blockPool.block b).blockHash = some h ∧ A.requestId = rid ∧
        (⟨A, i, h.blockHash⟩ : HashRecord) ∈ s.log

variable {H : BlockHasher} {bs : Nat} {s t : TracedState} {op : KVOp} {r : Request}

theorem positional_seenChain (hH : H.Lawful) (seen : List Request) :
    Positional (SeenChain H bs seen) := by
  rintro r i r' j h ⟨-, A, -, -, rfl, -⟩ ⟨-, B, -, -, heq, -⟩
  have hd := depth_chainHash hH bs A i
  rw [heq] at hd
  exact Nat.succ.inj (hd.unique hH (depth_chainHash hH bs B j))

/-- The chain of an older object of the request is the chain of the request. -/
theorem onChain_of_seen {seen : List Request}
    (hext : ∀ A ∈ seen, A.requestId = r.requestId → A.Extends r) {i : Nat} {h : BlockHash}
    (hc : SeenChain H bs (seen ++ [r]) r.requestId i h) : OnChain H bs r r.requestId i h := by
  obtain ⟨-, A, hA, hid, rfl, hlen⟩ := hc
  rw [List.mem_append, List.mem_singleton] at hA
  rcases hA with hA | rfl
  · have he := hext A hA hid
    exact ⟨(chainHash_extends he hlen).symm, hlen.trans he.allTokenIds.length_le⟩
  · exact ⟨rfl, hlen⟩

/-- The hashes computed by a call are on the chain of its request. -/
theorem Sound.computes (hs : s.Sound op) (hserves : s.Serves op) (hr : op.request? = some r)
    (hbs : s.kv.manager.enableCaching = true → 0 < bs) (hsize : s.kv.manager.blockSize = bs) :
    op.Computes (SeenChain H bs (s.seen ++ [r])) H s.kv.manager := by
  obtain ⟨hord, -, hext⟩ := hserves r hr
  have hchain : ∀ i h, 0 < bs → OnChain H bs r r.requestId i h →
      SeenChain H bs (s.seen ++ [r]) r.requestId i h :=
    fun i h hpos hc => ⟨hpos, r, by simp, rfl, hc⟩
  -- the incremental path, once it is known that caching is on
  have hinc : ∀ lo hi, 0 < bs → (∀ i < hi, lo ≤ i → LastItemOnly bs r i) →
      InferenceServer.Computes (SeenChain H bs (s.seen ++ [r])) H r bs lo hi := by
    intro lo hi hpos hlast i prev h hlo hhi hprev hc
    have hprev' : prev = chainPrev H bs r i := by
      cases i with
      | zero => exact hprev
      | succ i =>
        obtain ⟨k, hk, rfl⟩ := hprev
        rw [(onChain_of_seen hext hk).1]
        rfl
    rw [hprev'] at hc
    exact hchain i h hpos (computeBlockHash_eq hord hpos (hlast i hhi hlo) hc)
  subst hsize
  cases op with
  | getComputedBlocks r' =>
    obtain rfl : r' = r := by simpa [KVOp.request?] using hr
    intro hashes hcaching hfull i h hi
    rw [hashRequestTokens_eq hord hfull] at hi
    obtain ⟨hlt, rfl⟩ := List.getElem?_eq_some_iff.mp hi
    simp only [List.length_map, List.length_range] at hlt
    exact hchain i _ (hbs hcaching) ⟨by simp, (Nat.le_div_iff_mul_le (hbs hcaching)).mp hlt⟩
  | allocateSlots r' n c u lookahead delay =>
    obtain rfl : r' = r := by simpa [KVOp.request?] using hr
    exact fun hcaching hdelay => hinc _ _ (hbs hcaching) (hs.items hcaching hdelay)
  | cacheBlocks r' n =>
    obtain rfl : r' = r := by simpa [KVOp.request?] using hr
    exact fun hcaching => hinc _ _ (hbs hcaching) (hs.items hcaching)
  | free r' => simp [KVOp.request?] at hr
  | freeBlockHashes r' => simp [KVOp.request?] at hr
  | resetPrefixCache => simp [KVOp.request?] at hr

theorem mem_recordsOf {k : KVCacheManager} {e : HashRecord} :
    e ∈ recordsOf k r ↔ e.request = r ∧
      (k.reqToBlockHashes.getD r.requestId [])[e.position]? = some e.hash := by
  unfold recordsOf
  rw [List.mem_map]
  constructor
  · rintro ⟨⟨h, i⟩, hm, rfl⟩
    exact ⟨rfl, List.mem_zipIdx_iff_getElem?.mp hm⟩
  · rintro ⟨rfl, hm⟩
    exact ⟨(e.hash, e.position), List.mem_zipIdx_iff_getElem?.mpr hm, rfl⟩

/-- The blocks handed out by a call are those of `get_computed_blocks`, and their hashes are
recorded. -/
theorem computed_run {kv : KVState} (hidx : s.kv.manager.blockPool.Indexed)
    (hrun : op.run H s.kv = .ok kv) {rid : ReqId} {blocks : List (List BlockId)}
    (hc : kv.computed = some (rid, blocks)) :
    ∃ r, op.request? = some r ∧ r.requestId = rid ∧ ∀ l ∈ blocks, ∀ (i : Nat) (b : BlockId),
      l[i]? = some b → b ≠ kv.manager.blockPool.nullBlock →
        ∃ h, (kv.manager.blockPool.block b).blockHash = some h ∧
          (⟨r, i, h.blockHash⟩ : HashRecord) ∈ recordsOf kv.manager r := by
  cases op with
  | getComputedBlocks r =>
    obtain ⟨⟨blocks', n, k⟩, h₁, h₂⟩ := bind_eq_ok.mp hrun
    cases h₂
    obtain ⟨rfl, rfl⟩ : r.requestId = rid ∧ blocks' = blocks := by simpa using hc
    refine ⟨r, rfl, rfl, fun l hl i b hi hb => ?_⟩
    have hpool : k.blockPool = s.kv.manager.blockPool := by
      unfold KVCacheManager.getComputedBlocks at h₁
      split_ifs at h₁
      · cases h₁
        rfl
      · obtain ⟨hashes, -, h₃⟩ := bind_eq_ok.mp h₁
        obtain ⟨⟨rows, n'⟩, -, h₄⟩ := bind_eq_ok.mp h₃
        cases h₄
        rfl
    simp only [hpool] at hb ⊢
    obtain ⟨h, hh, hrec⟩ := KVCacheManager.getComputedBlocks_hits hidx h₁ l hl i b hi hb
    exact ⟨h, hh, mem_recordsOf.mpr ⟨rfl, hrec⟩⟩
  | allocateSlots r n c u lookahead delay =>
    obtain ⟨_, -, h₂⟩ := bind_eq_ok.mp hrun
    cases h₂
    simp at hc
  | cacheBlocks r n =>
    obtain ⟨_, -, h₂⟩ := bind_eq_ok.mp hrun
    cases h₂
    simp at hc
  | free r =>
    obtain ⟨_, -, h₂⟩ := bind_eq_ok.mp hrun
    cases h₂
    simp at hc
  | freeBlockHashes r =>
    cases hrun
    simp at hc
  | resetPrefixCache =>
    cases hrun
    simp at hc

/-- **One call keeps the invariant.** -/
theorem Inv.step {k : KVCacheManager} (hH : H.Lawful) (h : s.Inv H bs) (hserves : s.Serves op)
    (hsound : s.Sound op) (hstep : (tracedMachine H k).step s op = .ok t) : t.Inv H bs := by
  obtain ⟨kv, h₁, h₂⟩ := bind_eq_ok.mp hstep
  have hidx := h.fits.manager.coherent.indexed
  cases hr : op.request? with
  | none =>
    obtain rfl : { s with kv := kv } = t := by simpa [hr, pure_eq_ok] using h₂
    have hcomp : op.Computes (SeenChain H bs s.seen) H s.kv.manager := by
      cases op <;> trivial
    obtain ⟨hf, hsc⟩ := h.fits.run (positional_seenChain hH s.seen) hcomp hsound.null h₁
    exact
      { fits := hf
        blockSize := hsc.blockSize.trans h.blockSize
        blockSize_pos := fun hc => h.blockSize_pos (hsc.enableCaching ▸ hc)
        ordered := h.ordered
        images := h.images
        log := h.log
        computed := fun rid blocks hc => by
          obtain ⟨r, hr', -⟩ := computed_run hidx h₁ hc
          simp [hr] at hr' }
  | some r =>
    obtain rfl : { kv := kv, seen := s.seen ++ [r], log := s.log ++ recordsOf kv.manager r } = t := by
      simpa [hr, pure_eq_ok] using h₂
    have hsub : ∀ A ∈ s.seen, A ∈ s.seen ++ [r] := fun A hA => List.mem_append_left _ hA
    obtain ⟨hord, -, hext⟩ := hserves r hr
    have hmono : s.kv.Fits (SeenChain H bs (s.seen ++ [r])) :=
      h.fits.mono fun _ _ _ ⟨hpos, A, hA, hc⟩ => ⟨hpos, A, hsub A hA, hc⟩
    obtain ⟨hf, hsc⟩ := hmono.run (positional_seenChain hH _)
      (hsound.computes hserves hr h.blockSize_pos h.blockSize) hsound.null h₁
    exact
      { fits := hf
        blockSize := hsc.blockSize.trans h.blockSize
        blockSize_pos := fun hc => h.blockSize_pos (hsc.enableCaching ▸ hc)
        ordered := fun A hA => by
          rcases List.mem_append.mp hA with hA | hA
          · exact h.ordered A hA
          · rw [List.mem_singleton.mp hA]
            exact hord
        images := fun A hA B hB => by
          have himg := hsound.images r hr
          rw [h.blockSize] at himg
          rw [List.mem_append, List.mem_singleton] at hA hB
          rcases hA with hA | rfl
          · rcases hB with hB | rfl
            · exact h.images A hA B hB
            · exact (himg A hA).1
          · rcases hB with hB | rfl
            · exact (himg B hB).2
            · exact fun _ _ _ => rfl
        log := fun e he => by
          rcases List.mem_append.mp he with he | he
          · obtain ⟨hpos, hseen, hc⟩ := h.log e he
            exact ⟨hpos, hsub _ hseen, hc⟩
          · obtain ⟨rfl, hrec⟩ := mem_recordsOf.mp he
            have hc := hf.manager.recorded _ _ _ hrec
            exact ⟨hc.1, by simp, onChain_of_seen hext hc⟩
        computed := fun rid blocks hc l hl i b hi hb => by
          obtain ⟨r', hr', hid, hhits⟩ := computed_run hidx h₁ hc
          obtain rfl : r = r' := by simpa [hr] using hr'
          obtain ⟨bh, hbh, hrec⟩ := hhits l hl i b hi hb
          exact ⟨bh, r, hbh, hid, List.mem_append_right _ hrec⟩ }

end TracedState

open TracedState

/-- One full attention group with blocks of four tokens. -/
def fullConfig : KVCacheConfig where
  numBlocks := 8
  kvCacheGroups := [.fullAttention 4 ⟨1, 1, "float16", false⟩ none none]
  blockSize_pos := by decide

instance (r r' : Request) : Decidable (r.Extends r') :=
  decidable_of_iff (r'.requestId = r.requestId ∧ r'.promptTokenIds = r.promptTokenIds ∧
      r.outputTokenIds <+: r'.outputTokenIds ∧ r'.mmPositions = r.mmPositions ∧
      r'.mmHashes = r.mmHashes ∧ r'.loraRequest = r.loraRequest ∧ r'.cacheSalt = r.cacheSalt)
    ⟨fun ⟨h₁, h₂, h₃, h₄, h₅, h₆, h₇⟩ => ⟨h₁, h₂, h₃, h₄, h₅, h₆, h₇⟩,
      fun h => ⟨h.requestId, h.promptTokenIds, h.outputTokenIds, h.mmPositions, h.mmHashes,
        h.loraRequest, h.cacheSalt⟩⟩

instance (s : TracedState) (op : KVOp) : Decidable (s.Serves op) := by
  unfold TracedState.Serves
  infer_instance

instance (s : TracedState) (op : KVOp) : Decidable (s.LastItems op) := by
  refine op.casesOn ?_ ?_ ?_ ?_ ?_ ?_ <;> intros <;> unfold TracedState.LastItems <;> infer_instance

instance (s : TracedState) (op : KVOp) : Decidable (s.Sound op) :=
  decidable_of_iff (CachesNoNull s.kv op ∧ s.LastItems op ∧ ∀ r ∈ op.request?, ∀ A ∈ s.seen,
      ImagesAgree s.kv.manager.blockSize A r ∧ ImagesAgree s.kv.manager.blockSize r A)
    ⟨fun ⟨h₁, h₂, h₃⟩ => ⟨h₁, h₂, h₃⟩, fun h => ⟨h.null, h.items, h.images⟩⟩

/-- The state after a list of calls on a new manager, with the records. -/
def traceCalls (H : BlockHasher) (ok : TracedState → KVOp → Prop)
    [∀ s op, Decidable (ok s op)] (ops : List KVOp) : Option TracedState :=
  match KVCacheManager.init fullConfig 100 true false false with
  | .ok k => (tracedMachine H k).execIf ok ops { kv := ⟨k, none⟩ }
  | .error _ => none

theorem reach_traceCalls {H : BlockHasher} {ok : TracedState → KVOp → Prop}
    [∀ s op, Decidable (ok s op)] {ops : List KVOp} {s : TracedState}
    (h : traceCalls H ok ops = some s) :
    ∃ k, KVCacheManager.init fullConfig 100 true false false = .ok k ∧
      (tracedMachine H k).Reach ok s := by
  unfold traceCalls at h
  cases hk : KVCacheManager.init fullConfig 100 true false false with
  | error e => simp [hk] at h
  | ok k =>
    simp only [hk] at h
    exact ⟨k, rfl, Machine.reach_execIf .start h⟩

end InferenceServer
