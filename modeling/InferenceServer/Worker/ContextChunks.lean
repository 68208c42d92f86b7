import InferenceServer.Worker.AttentionMetadata

/-!
# Context in chunks

With MLA a prefill attends to the tokens it computes now and, in a second pass, to its *context*: the
tokens computed before. For the second pass the context is gathered from the cache into a workspace of
fixed size, so `MLACommonMetadataBuilder` (`vllm/v1/attention/backends/mla/common.py`) cuts the contexts
into chunks. All prefills that have a context get an equal part of the workspace, rounded down to whole
pages where the kernel that gathers needs it; a context that has ended takes part in the chunks of the
longer ones with no tokens.
-/

namespace InferenceServer.PersistentBatch

open Outcome Ragged

/-! ## The builder -/

/-- The configuration that the constructor reads. The block sizes are members of `BlockSize`. -/
structure MLAConfig where
  maxModelLen : Int
  maxNumSeqs : Int
  /-- `cache_config.block_size`. -/
  blockSize : Int
  /-- `kv_cache_spec.block_size`. -/
  specBlockSize : Int
  headSize : Int
  chunkedPrefillEnabled : Bool
  isCuda : Bool
  blockSize_pos : 0 < blockSize

/-- `MLACommonMetadataBuilder`. -/
structure MLACommonMetadataBuilder where
  headSize : Int
  /-- Set with `aot_schedule` only. -/
  pageSize : Option Int
  /-- Set with chunked prefill only. -/
  chunkedPrefillWorkspaceSize : Option Int
deriving DecidableEq, Repr

/-- The constructor. -/
def MLACommonMetadataBuilder.init (cfg : MLAConfig) : Except PyError MLACommonMetadataBuilder :=
  let pageSize := if cfg.isCuda then some cfg.specBlockSize else none
  if cfg.chunkedPrefillEnabled then do
    let workspaceSize := min (max (8 * cfg.maxModelLen) (4 * cfg.maxNumSeqs * cfg.blockSize)) (128 * 1024)
    require (cfg.maxNumSeqs * cfg.blockSize ≤ workspaceSize) (.assertionError .mlaMetadataBuilder)
    return ⟨cfg.headSize, pageSize, some workspaceSize⟩
  else return ⟨cfg.headSize, pageSize, none⟩

/-- `ChunkedContextMetadata`: a row for each chunk, with an entry for each prefill. -/
structure ChunkedContextMetadata where
  cuSeqLens : List (List Int)
  starts : List (List Int)
  seqTot : List Int
  maxSeqLens : List Int
  seqLens : List (List Int)
deriving DecidableEq, Repr

/-- `MLACommonPrefillMetadata`. -/
structure MLACommonPrefillMetadata where
  blockTable : List (List Int)
  queryStartLoc : List Int
  maxQueryLen : Int
  chunkedContext : Option ChunkedContextMetadata
deriving DecidableEq, Repr

/-- `MLACommonMetadata`. The metadata of the decodes are a part of the block table and of the
lengths. -/
structure MLACommonMetadata where
  numReqs : Int
  maxQueryLen : Int
  numActualTokens : Int
  queryStartLoc : List Int
  slotMapping : List Int
  headDim : Int
  numDecodes : Int
  numDecodeTokens : Int
  numPrefills : Int
  prefill : Option MLACommonPrefillMetadata
  decode : Option (List (List Int) × List Int)
deriving DecidableEq, Repr

/-- `round_down`. -/
def roundDown (x y : Int) : Int := Int.fdiv x y * y

namespace MLACommonMetadataBuilder

variable (b : MLACommonMetadataBuilder)

/-- `max_context_chunk`. -/
def maxContextChunk (workspaceSize numPrefillsWithContext : Int) : Int :=
  let chunk := Int.fdiv workspaceSize numPrefillsWithContext
  match b.pageSize with
  | none => chunk
  | some pageSize => roundDown chunk pageSize

/-- `chunk_starts`. -/
def chunkStarts (chunk : Int) (numChunks numPrefills : Nat) : List (List Int) :=
  (List.range numChunks).map fun c : Nat => List.replicate numPrefills (c * chunk)

/-- `chunk_seq_lens`: from a start to the end of the chunk or of the context, clamped. -/
def chunkSeqLens (chunk : Int) (contextLens : List Int) (chunkStarts : List (List Int)) :
    List (List Int) :=
  chunkStarts.map fun starts =>
    List.zipWith (fun n start => max (min n (start + chunk) - start) 0) contextLens starts

/-- The chunks of the contexts, if there are any. -/
def chunkedContext (contextLens : List Int) : Except PyError (Option ChunkedContextMetadata) :=
  let maxContextLen := contextLens.foldl max (contextLens.headD 0)
  match b.chunkedPrefillWorkspaceSize with
  | none => return none
  | some workspaceSize =>
    if maxContextLen ≤ 0 then return none
    else do
      let chunk := b.maxContextChunk workspaceSize (contextLens.countP fun n => 0 < n)
      require (0 < chunk) (.assertionError .mlaBuild)
      let chunkStarts := chunkStarts chunk (cdiv maxContextLen chunk).toNat contextLens.length
      let chunkSeqLens := chunkSeqLens chunk contextLens chunkStarts
      let maxSeqLens := chunkSeqLens.map fun lens => lens.foldl max (lens.headD 0)
      require (maxSeqLens.foldl max (maxSeqLens.headD 0) ≤ workspaceSize) (.assertionError .mlaBuild)
      return some {
        cuSeqLens := chunkSeqLens.map fun lens => 0 :: cumsum lens
        starts := chunkStarts
        seqTot := chunkSeqLens.map List.sum
        maxSeqLens
        seqLens := chunkSeqLens }

/-- The metadata of the prefills, if there are any. -/
def prefillMetadata (m : CommonAttentionMetadata) (numDecodes numPrefills : Int) :
    Except PyError (Option MLACommonPrefillMetadata) :=
  let numComputedTokens := List.zipWith (· - ·) m.seqLens m.queryLens
  if numPrefills ≤ 0 then return none
  else do
    let contextLens := pySlice numComputedTokens numDecodes m.numReqs
    -- `max` of an empty tensor
    require (contextLens ≠ []) .runtimeError
    match pyGet? m.queryStartLoc numDecodes with
    | none => .error .indexError
    | some first => do
      let chunkedContext ← b.chunkedContext contextLens
      return some {
        blockTable := pySlice m.blockTable numDecodes m.blockTable.length
        queryStartLoc := (pySlice m.queryStartLoc numDecodes m.queryStartLoc.length).map (· - first)
        maxQueryLen := m.maxQueryLen
        chunkedContext }

/-- `build`. -/
def build (m : CommonAttentionMetadata) : Except PyError MLACommonMetadata := do
  let (numDecodes, numPrefills, numDecodeTokens, numPrefillTokens) ← splitDecodesAndPrefills m 1
  require (numDecodes + numPrefills = m.numReqs) (.assertionError .mlaBuild)
  require (numDecodeTokens + numPrefillTokens = m.numActualTokens) (.assertionError .mlaBuild)
  let prefill ← b.prefillMetadata m numDecodes numPrefills
  return {
    numReqs := m.numReqs
    maxQueryLen := m.maxQueryLen
    numActualTokens := m.numActualTokens
    queryStartLoc := m.queryStartLoc
    slotMapping := m.slotMapping
    headDim := b.headSize
    numDecodes, numDecodeTokens, numPrefills, prefill
    decode := if 0 < numDecodes then
        some (pySlice m.blockTable 0 numDecodes, pySlice m.seqLens 0 numDecodes)
      else none }

end MLACommonMetadataBuilder

/-! ## What the chunks are for -/

/-- A token is in the interval of chunk `c` for prefill `i`. -/
def ChunkedContextMetadata.Contains (ch : ChunkedContextMetadata) (c i : Nat) (t : Int) : Prop :=
  ∃ start len, (ch.starts[c]?.bind (·[i]?)) = some start ∧ (ch.seqLens[c]?.bind (·[i]?)) = some len ∧
    start ≤ t ∧ t < start + len

/-- **The chunks cut the contexts**: the intervals of a prefill are disjoint and cover its context, they
start at pages, and every chunk fits the workspace. -/
structure ChunkedContextMetadata.Cuts (ch : ChunkedContextMetadata) (contextLens : List Int)
    (pageSize : Option Int) (workspaceSize : Int) : Prop where
  disjoint : ∀ i c c', c ≠ c' → ∀ t, ¬ (ch.Contains c i t ∧ ch.Contains c' i t)
  union : ∀ i n, contextLens[i]? = some n → ∀ t, (∃ c, ch.Contains c i t) ↔ 0 ≤ t ∧ t < n
  aligned : ∀ p ∈ pageSize, ∀ starts ∈ ch.starts, ∀ start ∈ starts, p ∣ start
  fits : ∀ lens ∈ ch.seqLens, lens.sum ≤ workspaceSize

/-! ## Chunks of one size -/

section Chunks

open MLACommonMetadataBuilder

variable {ch : ChunkedContextMetadata} {chunk w : Int} {k : Nat} {contextLens : List Int}

/-- The length of chunk `c` of a context of `n` tokens. -/
def chunkLen (chunk n : Int) (c : Nat) : Int := max (min n (c * chunk + chunk) - c * chunk) 0

theorem chunkSeqLens_eq : chunkSeqLens chunk contextLens (chunkStarts chunk k contextLens.length) =
    (List.range k).map fun c => contextLens.map (chunkLen chunk · c) := by
  unfold chunkSeqLens chunkStarts
  rw [List.map_map]
  refine List.map_congr_left fun c _ => ?_
  rw [Function.comp_apply, ← List.map_const', List.zipWith_map_right, List.zipWith_self]
  rfl

/-- A token of a context is in one chunk, which its position names. -/
theorem contains_iff (hchunk : 0 < chunk) (hnum : ∀ n ∈ contextLens, n ≤ k * chunk)
    (hstarts : ch.starts = chunkStarts chunk k contextLens.length)
    (hlens : ch.seqLens = chunkSeqLens chunk contextLens ch.starts) {c i : Nat} {t : Int} :
    ch.Contains c i t ↔ ∃ n, contextLens[i]? = some n ∧ 0 ≤ t ∧ t < n ∧ t / chunk = c := by
  -- what is in row `c` and column `i`
  have hstart : ch.starts[c]?.bind (·[i]?) =
      if c < k then contextLens[i]?.map fun _ => c * chunk else none := by
    rw [hstarts, chunkStarts, List.getElem?_map]
    by_cases hc : c < k
    · by_cases hi : i < contextLens.length
      · simp [hc, hi]
      · simp [hc, hi]
    · simp [hc]
  have hlen : ch.seqLens[c]?.bind (·[i]?) =
      if c < k then contextLens[i]?.map (chunkLen chunk · c) else none := by
    rw [hlens, hstarts, chunkSeqLens_eq, List.getElem?_map]
    by_cases hc : c < k
    · simp [hc]
    · simp [hc]
  have hpos : 0 ≤ c * chunk := mul_nonneg (Int.natCast_nonneg c) hchunk.le
  unfold ChunkedContextMetadata.Contains
  rw [hstart, hlen, Int.ediv_eq_iff_of_pos hchunk]
  cases hn : contextLens[i]? with
  | none => simp
  | some n =>
    have hle := hnum n (List.mem_of_getElem? hn)
    by_cases hc : c < k
    · simp only [hc, if_true, Option.map_some, Option.some.injEq, exists_and_left, exists_eq_left',
        chunkLen]
      omega
    · -- the chunks end behind the context
      have hend : k * chunk ≤ c * chunk :=
        mul_le_mul_of_nonneg_right (Int.ofNat_le.mpr (not_lt.mp hc)) hchunk.le
      simp only [hc, if_false, reduceCtorEq, false_and, exists_false, Option.some.injEq,
        exists_eq_left', false_iff]
      omega

/-- Only a prefill with a context has tokens in a chunk, and no more than its part of the workspace. -/
theorem sum_chunkLen_le (hchunk : 0 ≤ chunk) (c : Nat) :
    (contextLens.map (chunkLen chunk · c)).sum ≤ (contextLens.countP fun n => 0 < n) * chunk := by
  have hstart : 0 ≤ c * chunk := mul_nonneg (Int.natCast_nonneg c) hchunk
  induction contextLens with
  | nil => simp
  | cons n ns ih =>
    rw [List.map_cons, List.sum_cons, List.countP_cons]
    unfold chunkLen at ih ⊢
    by_cases hn : 0 < n
    · simp only [hn, decide_true, if_true, Nat.cast_add, Nat.cast_one, add_mul, one_mul]
      omega
    · simp only [hn, decide_false, Bool.false_eq_true, if_false, Nat.add_zero]
      omega

theorem chunks_cut (hchunk : 0 < chunk) (hnum : ∀ n ∈ contextLens, n ≤ k * chunk)
    (hstarts : ch.starts = chunkStarts chunk k contextLens.length)
    (hlens : ch.seqLens = chunkSeqLens chunk contextLens ch.starts)
    (hfits : (contextLens.countP fun n => 0 < n) * chunk ≤ w) {pageSize : Option Int}
    (hpage : ∀ p ∈ pageSize, p ∣ chunk) : ch.Cuts contextLens pageSize w := by
  have hcontains {c i : Nat} {t : Int} := contains_iff hchunk hnum hstarts hlens (c := c) (i := i) (t := t)
  refine ⟨fun i c c' hne t h => hne ?_, fun i n hn t => ⟨?_, fun h => ?_⟩, fun p hp starts hmem start hs => ?_,
    fun lens hmem => ?_⟩
  · -- the position names both chunks
    obtain ⟨-, -, -, -, hc⟩ := hcontains.mp h.1
    obtain ⟨-, -, -, -, hc'⟩ := hcontains.mp h.2
    exact_mod_cast hc.symm.trans hc'
  · rintro ⟨c, h⟩
    obtain ⟨n', hn', h0, hlt, -⟩ := hcontains.mp h
    cases hn.symm.trans hn'
    exact ⟨h0, hlt⟩
  · refine ⟨(t / chunk).toNat, hcontains.mpr ⟨n, hn, h.1, h.2, ?_⟩⟩
    exact (Int.toNat_of_nonneg (Int.ediv_nonneg h.1 hchunk.le)).symm
  · rw [hstarts] at hmem
    obtain ⟨c, -, rfl⟩ := List.mem_map.mp hmem
    rw [List.eq_of_mem_replicate hs]
    exact (hpage p hp).mul_left _
  · rw [hlens, hstarts, chunkSeqLens_eq] at hmem
    obtain ⟨c, -, rfl⟩ := List.mem_map.mp hmem
    exact (sum_chunkLen_le hchunk.le c).trans hfits

end Chunks

/-! ## The builder's chunks -/

section Builder

open MLACommonMetadataBuilder

variable {cfg : MLAConfig} {b : MLACommonMetadataBuilder} {m : CommonAttentionMetadata} {w : Int}

/-- What the constructor promises: a page for every request. -/
theorem le_workspace (hinit : init cfg = .ok b) (hw : b.chunkedPrefillWorkspaceSize = some w) :
    cfg.maxNumSeqs * cfg.blockSize ≤ w := by
  unfold init at hinit
  by_cases henabled : cfg.chunkedPrefillEnabled
  · rw [if_pos henabled] at hinit
    obtain ⟨_, hle, hb⟩ := bind_eq_ok.mp hinit
    cases hb
    cases hw
    exact require_eq_ok.mp hle
  · rw [if_neg henabled] at hinit
    cases hinit
    cases hw

/-- The part of a prefill: positive, made of pages, and not more than its share. -/
theorem maxContextChunk_spec {bs : Int} {n : Nat} (hpos : 0 < bs) (hpage : ∀ p ∈ b.pageSize, p = bs)
    (hn : 0 < n) (hw : n * bs ≤ w) : 0 < b.maxContextChunk w n ∧ n * b.maxContextChunk w n ≤ w ∧
      ∀ p ∈ b.pageSize, p ∣ b.maxContextChunk w n := by
  have hn' : (0 : Int) < n := Int.natCast_pos.mpr hn
  have hshare : bs ≤ w / n := (Int.le_ediv_iff_mul_le hn').mpr (by rwa [mul_comm])
  have hle : n * (w / n) ≤ w := Int.mul_ediv_self_le hn'.ne'
  unfold maxContextChunk
  rw [Int.fdiv_eq_ediv_of_nonneg _ hn'.le]
  cases hp : b.pageSize with
  | none => exact ⟨hpos.trans_le hshare, hle, by simp⟩
  | some p =>
    obtain rfl : p = bs := hpage p hp
    simp only [roundDown, Int.fdiv_eq_ediv_of_nonneg _ hpos.le]
    have hpages : 1 ≤ w / n / p := (Int.le_ediv_iff_mul_le hpos).mpr (by rwa [one_mul])
    refine ⟨mul_pos hpages hpos, ?_, ?_⟩
    · exact (mul_le_mul_of_nonneg_left (Int.ediv_mul_le _ hpos.ne') hn'.le).trans hle
    · rintro q hq
      cases hq
      exact Int.dvd_mul_left _ _

theorem foldl_max_le {l : List Int} (hw : 0 ≤ w) (h : ∀ n ∈ l, n ≤ w) :
    l.foldl max (l.headD 0) ≤ w := by
  rcases foldl_max_mem l (l.headD 0) with hmax | hmax
  · rw [hmax]
    cases l with
    | nil => exact hw
    | cons n l => exact h n List.mem_cons_self
  · exact h _ hmax

/-- **The chunks of some contexts**, at least one of which is not empty. -/
theorem chunkedContext_cuts {bs : Int} (contextLens : List Int) (hpos : 0 < bs)
    (hpage : ∀ p ∈ b.pageSize, p = bs) (hworkspace : b.chunkedPrefillWorkspaceSize = some w)
    (hw : contextLens.length * bs ≤ w) (hcontext : ∃ n ∈ contextLens, 0 < n) :
    ∃ ch, b.chunkedContext contextLens = .ok (some ch) ∧ ch.Cuts contextLens b.pageSize w := by
  obtain ⟨n, hmem, hn⟩ := hcontext
  have hmax := (foldl_max_ge contextLens (contextLens.headD 0)).2
  have hcount : 0 < contextLens.countP fun n => 0 < n := List.countP_pos_iff.mpr ⟨n, hmem, by simpa⟩
  have hfits : ((contextLens.countP fun n => 0 < n : Nat) : Int) * bs ≤ w :=
    (mul_le_mul_of_nonneg_right (Int.ofNat_le.mpr List.countP_le_length) hpos.le).trans hw
  obtain ⟨hchunk, hshare, haligned⟩ := maxContextChunk_spec hpos hpage hcount hfits
  unfold chunkedContext
  rw [hworkspace]
  dsimp only
  rw [if_neg (not_le.mpr (hn.trans_le (hmax n hmem))), bind_of_ok (require_of hchunk)]
  generalize hk : (contextLens.countP fun n => decide (0 < n)) = k at hcount hchunk hshare haligned ⊢
  generalize b.maxContextChunk w k = chunk at hchunk hshare haligned ⊢
  have hw0 : 0 ≤ w := (mul_nonneg (Int.natCast_nonneg _) hchunk.le).trans hshare
  have hlen (c : Nat) : ∀ x ∈ contextLens.map (chunkLen chunk · c), x ≤ w := by
    rintro x hx
    obtain ⟨n, -, rfl⟩ := List.mem_map.mp hx
    have hle := (le_mul_of_one_le_left hchunk.le (Int.ofNat_le.mpr hcount)).trans hshare
    unfold chunkLen
    omega
  rw [bind_of_ok (require_of (foldl_max_le hw0 ?_))]
  · refine ⟨_, rfl, chunks_cut hchunk (fun n hn => ?_) rfl rfl (hk ▸ hshare) haligned⟩
    exact ((hmax n hn).trans (le_cdiv_mul hchunk)).trans
      (mul_le_mul_of_nonneg_right (Int.self_le_toNat _) hchunk.le)
  · rw [chunkSeqLens_eq, List.map_map]
    rintro x hx
    obtain ⟨c, -, rfl⟩ := List.mem_map.mp hx
    exact foldl_max_le hw0 (hlen c)

/-- **The context in chunks.** A batch lists its decodes and then its prefills, each as the length of its
context and the number of its query tokens. -/
theorem build_chunks (hinit : init cfg = .ok b) (hw : b.chunkedPrefillWorkspaceSize = some w)
    (hpage : ∀ p ∈ b.pageSize, p = cfg.blockSize) (decodes prefills : List (Int × Int))
    (hbatch : m.Describes ((decodes ++ prefills).map Prod.snd))
    (hlens : m.seqLens = (decodes ++ prefills).map fun r => r.1 + r.2)
    (hnum : m.numReqs ≤ cfg.maxNumSeqs) (hdecodes : ∀ r ∈ decodes, r.2 ≤ 1)
    (hprefills : ∀ r ∈ prefills, 1 < r.2) (hcontext : ∃ r ∈ prefills, 0 < r.1) :
    ∃ md pre ch, b.build m = .ok md ∧ md.prefill = some pre ∧ pre.chunkedContext = some ch ∧
      ch.Cuts (prefills.map Prod.fst) b.pageSize w := by
  have hcomputed : List.zipWith (· - ·) m.seqLens m.queryLens =
      decodes.map Prod.fst ++ prefills.map Prod.fst := by
    rw [hbatch.queryLens, hlens, List.zipWith_map, List.zipWith_self, ← List.map_append]
    exact List.map_congr_left fun r _ => add_sub_cancel_right r.1 r.2
  have hreqs : m.numReqs = (decodes.length + prefills.length : Nat) := by
    rw [hbatch.numReqs, List.length_map, List.length_append]
  obtain ⟨r, hr, hcontext⟩ := hcontext
  have hnonempty := List.length_pos_of_mem hr
  rw [List.map_append] at hbatch
  have hsplit := splitDecodesAndPrefills_ok hbatch (t := 1) (List.forall_mem_map.mpr hdecodes)
    (List.forall_mem_map.mpr hprefills)
  rw [List.length_map, List.length_map] at hsplit
  have hcontexts : pySlice (decodes.map Prod.fst ++ prefills.map Prod.fst) decodes.length m.numReqs =
      prefills.map Prod.fst := by
    rw [hreqs, pySlice_natCast, List.take_of_length_le (by simp)]
    exact List.drop_left' (List.length_map _)
  obtain ⟨ch, hch, hcuts⟩ := chunkedContext_cuts (prefills.map Prod.fst) cfg.blockSize_pos hpage hw (by
      refine (mul_le_mul_of_nonneg_right ?_ cfg.blockSize_pos.le).trans (le_workspace hinit hw)
      rw [List.length_map]
      omega) ⟨r.1, List.mem_map_of_mem hr, hcontext⟩
  unfold build
  rw [bind_of_ok hsplit]
  dsimp only
  rw [bind_of_ok (require_of (by omega)),
    bind_of_ok (require_of (by rw [hbatch.numActualTokens, List.sum_append]))]
  unfold prefillMetadata
  rw [if_neg (by omega), hcomputed, hcontexts,
    bind_of_ok (require_of (List.ne_nil_of_mem (List.mem_map_of_mem hr))), pyGet?_natCast,
    hbatch.queryStartLoc, getElem?_zero_cons_cumsum (by simp)]
  dsimp only
  rw [bind_of_ok hch]
  exact ⟨_, _, ch, rfl, rfl, rfl, hcuts⟩

/-- Two prefills with a context, one of which takes two chunks, one without, and a decode. -/
def fourRequests : CommonAttentionMetadata where
  queryStartLoc := [0, 1, 4, 6, 13]
  seqLens := [11, 5003, 2, 137]
  numComputedTokens := [10, 5000, 0, 130]
  numReqs := 4
  numActualTokens := 13
  maxQueryLen := 7
  blockTable := []
  slotMapping := []

/-- Room for a thousand tokens a request, on pages of 16. -/
def onPages : MLAConfig := ⟨1000, 4, 16, 16, 576, true, true, by decide⟩

theorem build_chunks_four : ∃ md pre ch, build ⟨576, some 16, some 8000⟩ fourRequests = .ok md ∧
    md.prefill = some pre ∧ pre.chunkedContext = some ch ∧ ch.Cuts [5000, 0, 130] (some 16) 8000 :=
  build_chunks (show init onPages = .ok _ from rfl) rfl (by simp [onPages]) [(10, 1)]
    [(5000, 3), (0, 2), (130, 7)] ⟨rfl, rfl, rfl, by decide, by decide⟩ rfl (by decide)
    (by decide) (by decide) (by decide)

end Builder

end InferenceServer.PersistentBatch
