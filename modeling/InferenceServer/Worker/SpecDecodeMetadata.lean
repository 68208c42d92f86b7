import InferenceServer.Worker.AttentionMetadata

/-!
# The rows of the logits

With draft tokens, a request of the batch has several rows in the logits: one for each of its drafts, and
one more, the *bonus* row, behind them. `_calc_spec_decode_metadata`
(`vllm/v1/worker/gpu_model_runner.py`) computes from the numbers of drafts and of scheduled tokens which
tokens the rows belong to, which rows are targets of a draft and which are bonus rows, and which tokens
the drafts are. Every one of these arrays is ragged over the requests.
-/

namespace InferenceServer.PersistentBatch

open Outcome Ragged
open List (map_congr_left map_cons map_map mem_cons range zipWith)

/-! ## The functions -/

/-- `_get_cumsum_and_arange`, with the length of `arange_np`. -/
def getCumsumAndArange (arangeLength : Nat) (numTokens : List Int) :
    Except PyError (List Int × List Int) :=
  let cuNumTokens := cumsum numTokens
  match cuNumTokens.getLast? with
  | none => .error .indexError
  | some totalNumTokens => do
    let cumsumsOffsets := npRepeat (List.zipWith (· - ·) cuNumTokens numTokens) numTokens
    let arangeNp := (List.range arangeLength).map fun i : Nat => (i : Int)
    let head := pySlice arangeNp 0 totalNumTokens
    -- two arrays of one length
    require (head.length = cumsumsOffsets.length) .valueError
    return (cuNumTokens, List.zipWith (· - ·) head cumsumsOffsets)

/-- `l[indices]`. -/
def gather {α : Type} (l : List α) (indices : List Int) : Except PyError (List α) :=
  indices.mapM fun i =>
    match pyGet? l i with
    | some x => .ok x
    | none => .error .indexError

/-- `SpecDecodeMetadata`. -/
structure SpecDecodeMetadata where
  draftTokenIds : List TokenId
  numDraftTokens : List Int
  cuNumDraftTokens : List Int
  targetLogitsIndices : List Int
  bonusLogitsIndices : List Int
  logitsIndices : List Int
deriving DecidableEq, Repr

/-- `_calc_spec_decode_metadata`, with the length of `arange_np` and the tokens of the step. -/
def calcSpecDecodeMetadata (arangeLength : Nat) (inputIds : List TokenId)
    (numDraftTokens cuNumScheduledTokens : List Int) : Except PyError SpecDecodeMetadata := do
  let numSampledTokens := numDraftTokens.map fun n => n + 1
  let (cuNumSampledTokens, arange) ← getCumsumAndArange arangeLength numSampledTokens
  let logitsIndices := List.zipWith (· + ·)
    (npRepeat (List.zipWith (· - ·) cuNumScheduledTokens numSampledTokens) numSampledTokens) arange
  let bonusLogitsIndices := cuNumSampledTokens.map fun n => n - 1
  let (cuNumDraftTokens, arange) ← getCumsumAndArange arangeLength numDraftTokens
  let targetLogitsIndices := List.zipWith (· + ·)
    (npRepeat (List.zipWith (· - ·) cuNumSampledTokens numSampledTokens) numDraftTokens) arange
  let sampledTokenIds ← gather inputIds logitsIndices
  let draftTokenIds ← gather sampledTokenIds (targetLogitsIndices.map fun n => n + 1)
  return {
    draftTokenIds, numDraftTokens, cuNumDraftTokens, targetLogitsIndices, bonusLogitsIndices
    logitsIndices }

/-- `num_draft_tokens[req_idx] = len(draft_token_ids)`, for an entry of the scheduled drafts. -/
def setNumDrafts (b : InputBatch) (e : ReqId × List TokenId) (numDraftTokens : List Int) :
    Except PyError (List Int) :=
  match b.reqIdToIndex.get? e.1 with
  | none => .error .keyError
  | some reqIdx =>
    if reqIdx < numDraftTokens.length then .ok (numDraftTokens.set reqIdx e.2.length)
    else .error .indexError

/-- The number of drafts of every row, in `_prepare_inputs`. -/
def numDraftTokens (b : InputBatch) (out : SchedulerOutput) : Except PyError (List Int) :=
  threadM (setNumDrafts b) out.scheduledSpecDecodeTokens.entries (List.replicate b.numReqs 0)

/-! ## Where a request is -/

/-- Where a request is in the array of the tokens and in the logits. -/
structure RowPlace where
  reqId : ReqId
  numTokens : Nat
  numDrafts : Nat
  /-- The first of its tokens. -/
  tokenStart : Nat
  /-- The first of its rows in the logits. -/
  logitStart : Nat
deriving DecidableEq, Repr

namespace RowPlace

/-- The positions of its last tokens, as many as it has rows in the logits. -/
def sampled (p : RowPlace) : List Nat :=
  List.range' (p.tokenStart + p.numTokens - (p.numDrafts + 1)) (p.numDrafts + 1)

/-- The rows of the logits that are targets of its drafts. -/
def targets (p : RowPlace) : List Nat := List.range' p.logitStart p.numDrafts

/-- Its bonus row, the last one. -/
def bonus (p : RowPlace) : Nat := p.logitStart + p.numDrafts

/-- Its tokens in the array of all tokens. -/
def tokens (p : RowPlace) (inputIds : List TokenId) : List TokenId :=
  (inputIds.drop p.tokenStart).take p.numTokens

/-- Its last tokens, as many as it has drafts. -/
def drafts (p : RowPlace) (inputIds : List TokenId) : List TokenId :=
  (p.tokens inputIds).drop (p.numTokens - p.numDrafts)

end RowPlace

/-- The places of the requests in the order of the batch, from a token and a logits row on. -/
def rowPlaces (numTokens numDrafts : ReqId → Nat) : Nat → Nat → List ReqId → List RowPlace
  | _, _, [] => []
  | tokenStart, logitStart, id :: ids =>
    ⟨id, numTokens id, numDrafts id, tokenStart, logitStart⟩ ::
      rowPlaces numTokens numDrafts (tokenStart + numTokens id) (logitStart + (numDrafts id + 1)) ids

section Places

variable {s d : ReqId → Nat} {ids : List ReqId} {t g : Nat} {p : RowPlace}

theorem map_reqId_rowPlaces : (rowPlaces s d t g ids).map RowPlace.reqId = ids := by
  induction ids generalizing t g with
  | nil => rfl
  | cons id ids ih => simp [rowPlaces, ih]

theorem mem_rowPlaces (hp : p ∈ rowPlaces s d t g ids) :
    p.reqId ∈ ids ∧ p.numTokens = s p.reqId ∧ p.numDrafts = d p.reqId := by
  induction ids generalizing t g with
  | nil => cases hp
  | cons id ids ih =>
    rcases mem_cons.mp hp with rfl | hp
    · exact ⟨List.mem_cons_self, rfl, rfl⟩
    · exact ⟨List.mem_cons_of_mem _ (ih hp).1, (ih hp).2⟩

/-- The tokens of a request end before those of the next one start. -/
theorem tokens_of_mem_rowPlaces (hp : p ∈ rowPlaces s d t g ids) :
    p.tokenStart + p.numTokens ≤ t + (ids.map s).sum := by
  induction ids generalizing t g with
  | nil => cases hp
  | cons id ids ih =>
    rw [map_cons, List.sum_cons]
    rcases mem_cons.mp hp with rfl | hp
    · dsimp only
      omega
    · have := ih hp
      omega

theorem counts_rowPlaces (f : Nat → Nat) :
    counts (rowPlaces s d t g ids) (fun p => f p.numDrafts) = counts ids fun id => f (d id) := by
  induction ids generalizing t g with
  | nil => rfl
  | cons id ids ih => rw [rowPlaces, counts_cons, counts_cons, ih]

theorem sum_rowPlaces (f : Nat → Nat) :
    ((rowPlaces s d t g ids).map fun p => f p.numDrafts).sum = (ids.map fun id => f (d id)).sum := by
  induction ids generalizing t g with
  | nil => rfl
  | cons id ids ih => simp [rowPlaces, ih]

/-- The running sums of the tokens are where the requests end. -/
theorem sumsFrom_tokens :
    sumsFrom (t : Int) (counts ids s) =
      (rowPlaces s d t g ids).map fun p => (p.tokenStart : Int) + p.numTokens := by
  induction ids generalizing t g with
  | nil => rfl
  | cons id ids ih =>
    rw [counts_cons, sumsFrom, rowPlaces, map_cons,
      ← ih (t := t + s id) (g := g + (d id + 1))]
    rfl

/-- The running sums of the rows are where the requests end in the logits. -/
theorem sumsFrom_rows :
    sumsFrom (g : Int) (counts ids fun id => d id + 1) =
      (rowPlaces s d t g ids).map fun p => (p.logitStart : Int) + (p.numDrafts + 1) := by
  induction ids generalizing t g with
  | nil => rfl
  | cons id ids ih =>
    rw [counts_cons, sumsFrom, rowPlaces, map_cons,
      ← ih (t := t + s id) (g := g + (d id + 1))]
    rfl

/-- **The rows of the logits** are the cells of the batch, in this order. -/
theorem getElem?_rows (hp : p ∈ rowPlaces s d t g ids) {j : Nat} (hj : j ≤ p.numDrafts) :
    g ≤ p.logitStart ∧
      (cells (rowPlaces s d t g ids) fun p => p.numDrafts + 1)[p.logitStart - g + j]? =
        some (p, j) := by
  induction ids generalizing t g with
  | nil => cases hp
  | cons id ids ih =>
    rw [rowPlaces, cells_cons]
    rcases mem_cons.mp hp with rfl | hp
    · refine ⟨le_rfl, ?_⟩
      rw [List.getElem?_append_left (by simp; omega), Nat.sub_self, Nat.zero_add, List.getElem?_map,
        List.getElem?_range (by omega)]
      rfl
    · obtain ⟨hle, hat⟩ := ih hp
      refine ⟨by omega, ?_⟩
      rw [List.getElem?_append_right (by simp; omega), ← hat]
      congr 1
      simp only [List.length_map, List.length_range]
      omega

/-- The targets and the bonus row of every request, one after the other, are all rows. -/
theorem flatMap_rows :
    ((rowPlaces s d t g ids).flatMap fun p => p.targets ++ [p.bonus]) =
      List.range' g (ids.map fun id => d id + 1).sum := by
  induction ids generalizing t g with
  | nil => rfl
  | cons id ids ih =>
    rw [rowPlaces, List.flatMap_cons, ih, map_cons, List.sum_cons, ← List.range'_append_1]
    congr 1
    rw [RowPlace.targets, RowPlace.bonus, List.range'_concat]
    simp

end Places

/-! ## What the metadata says -/

section Metadata

variable {ι : Type} {items : List ι} {count : ι → Nat}

theorem getCumsumAndArange_ok (hne : items ≠ []) {arangeLength : Nat}
    (hlength : (items.map count).sum ≤ arangeLength) :
    getCumsumAndArange arangeLength (counts items count) =
      .ok (cumsum (counts items count), (cells items count).map fun c => (c.2 : Int)) := by
  have hlast : (cumsum (counts items count)).getLast? = some (((items.map count).sum : Nat) : Int) := by
    rw [cumsum, getLast?_sumsFrom 0 (by simpa [counts] using hne), zero_add, sum_counts]
  have harange : pySlice ((range arangeLength).map fun i : Nat => (i : Int)) 0
      (((items.map count).sum : Nat) : Int) =
        (List.range' 0 (items.map count).sum).map fun i : Nat => (i : Int) := by
    rw [← Nat.cast_zero, pySlice_natCast, List.drop_zero, ← List.map_take, List.take_range,
      min_eq_left hlength, List.range_eq_range']
  have hoffsets : (npRepeat (zipWith (· - ·) (cumsum (counts items count))
      (counts items count)) (counts items count)).length = (items.map count).sum :=
    length_npRepeat (by simp [counts])
  have hcells := @arange_eq_cells ι items count 0
  unfold getCumsumAndArange
  dsimp only
  rw [hlast]
  dsimp only
  rw [harange, bind_of_ok (require_of (by rw [hoffsets]; simp))]
  exact congrArg (fun l => Except.ok (cumsum (counts items count), l)) hcells

theorem gather_ok {α κ : Type} {l : List α} {cs : List κ} {f : κ → Nat} {v : κ → α}
    (h : ∀ c ∈ cs, l[f c]? = some (v c)) :
    gather l (cs.map fun c => (f c : Int)) = .ok (cs.map v) := by
  induction cs with
  | nil => rfl
  | cons c cs ih =>
    have hc : (match pyGet? l (f c : Int) with
        | some x => (.ok x : Except PyError α)
        | none => .error .indexError) = .ok (v c) := by
      rw [pyGet?_natCast, h c List.mem_cons_self]
    rw [map_cons, gather, List.mapM_cons, bind_of_ok hc]
    have hrest := ih fun c' hc' => h c' (List.mem_cons_of_mem _ hc')
    rw [gather] at hrest
    rw [bind_of_ok hrest]
    rfl

variable {s d : ReqId → Nat} {ids : List ReqId} {inputIds : List TokenId} {arangeLength : Nat}

theorem map_cells_cast (f : ι × Nat → Nat) :
    ((cells items count).map fun c => (f c : Int)) =
      (items.flatMap fun x => (range (count x)).map fun j => f (x, j)).map
        fun n : Nat => (n : Int) := by
  rw [cells, List.map_flatMap, List.map_flatMap]
  simp only [map_map]
  rfl

/-- The token of a row of the logits. -/
def sampledToken (c : RowPlace × Nat) : Nat :=
  c.1.tokenStart + c.1.numTokens - (c.1.numDrafts + 1) + c.2

/-- **`_calc_spec_decode_metadata`**: request by request, the rows of the logits are its last tokens,
its targets come before its bonus row, and its drafts are its last tokens. -/
theorem calcSpecDecodeMetadata_ok (hne : ids ≠ []) (hdrafts : ∀ id ∈ ids, d id + 1 ≤ s id)
    (harange : (ids.map s).sum ≤ arangeLength) (hinput : (ids.map s).sum ≤ inputIds.length) :
    calcSpecDecodeMetadata arangeLength inputIds (counts ids d) (cumsum (counts ids s)) = .ok {
      draftTokenIds := (rowPlaces s d 0 0 ids).flatMap fun p => p.drafts inputIds
      numDraftTokens := counts ids d
      cuNumDraftTokens := cumsum (counts ids d)
      targetLogitsIndices := ((rowPlaces s d 0 0 ids).flatMap RowPlace.targets).map
        fun n : Nat => (n : Int)
      bonusLogitsIndices := ((rowPlaces s d 0 0 ids).map RowPlace.bonus).map fun n : Nat => (n : Int)
      logitsIndices := ((rowPlaces s d 0 0 ids).flatMap RowPlace.sampled).map
        fun n : Nat => (n : Int) } := by
  have hcounts := @counts_rowPlaces s d ids 0 0
  have hsum := @sum_rowPlaces s d ids 0 0
  have htokens := @sumsFrom_tokens s d ids 0 0
  have hrows := @sumsFrom_rows s d ids 0 0
  have hcells : ∀ p ∈ rowPlaces s d 0 0 ids, ∀ j ≤ p.numDrafts,
      (cells (rowPlaces s d 0 0 ids) fun p => p.numDrafts + 1)[p.logitStart + j]? = some (p, j) :=
    fun p hp j hj => (getElem?_rows hp hj).2
  have hmem : ∀ p ∈ rowPlaces s d 0 0 ids, p.numDrafts + 1 ≤ p.numTokens ∧
      p.tokenStart + p.numTokens ≤ inputIds.length := by
    intro p hp
    obtain ⟨hid, hs, hd⟩ := mem_rowPlaces hp
    have := tokens_of_mem_rowPlaces hp
    exact ⟨hs ▸ hd ▸ hdrafts _ hid, by omega⟩
  have hneP : rowPlaces s d 0 0 ids ≠ [] := fun hnil =>
    hne ((@map_reqId_rowPlaces s d ids 0 0).symm.trans (by rw [hnil]; rfl))
  have hle : (ids.map fun id => d id + 1).sum ≤ arangeLength :=
    (List.sum_le_sum fun id hid => hdrafts id hid).trans harange
  have hle' : (ids.map d).sum ≤ arangeLength :=
    (List.sum_le_sum fun id hid => (Nat.le_succ _).trans (hdrafts id hid)).trans harange
  generalize rowPlaces s d 0 0 ids = places at *
  -- from here on the arrays are cells of the places
  have hsampled : (counts ids d).map (fun n => n + 1) = counts places fun p => p.numDrafts + 1 := by
    rw [hcounts fun n => n + 1, counts, map_map]
    exact map_congr_left fun id _ => by simp
  have hdraft : counts ids d = counts places fun p => p.numDrafts := (hcounts fun n => n).symm
  have h₁ := @getCumsumAndArange_ok _ places (fun p => p.numDrafts + 1) hneP arangeLength
    (by rw [hsum fun n => n + 1]; exact hle)
  have h₂ := @getCumsumAndArange_ok _ places (fun p => p.numDrafts) hneP arangeLength
    (by rw [hsum fun n => n]; exact hle')
  have hends : cumsum (counts ids s) = places.map fun p => (p.tokenStart : Int) + p.numTokens :=
    htokens
  have hrowEnds : cumsum (counts places fun p => p.numDrafts + 1) =
      places.map fun p => (p.logitStart : Int) + (p.numDrafts + 1) := by
    rw [hcounts fun n => n + 1]
    exact hrows
  have hlogits : zipWith (· + ·) (npRepeat (zipWith (· - ·) (cumsum (counts ids s))
      (counts places fun p => p.numDrafts + 1)) (counts places fun p => p.numDrafts + 1))
      ((cells places fun p => p.numDrafts + 1).map fun c => (c.2 : Int)) =
        (cells places fun p => p.numDrafts + 1).map fun c => (sampledToken c : Int) := by
    rw [hends, counts, zipWith_map_map, ← counts, npRepeat_eq_cells, zipWith_map_map]
    refine map_congr_left fun c hc => ?_
    have := (hmem c.1 (mem_cells.mp hc).1).1
    rw [sampledToken]
    push_cast [Nat.cast_sub (this.trans (Nat.le_add_left _ _))]
    ring
  have htargets : zipWith (· + ·) (npRepeat (zipWith (· - ·)
      (cumsum (counts places fun p => p.numDrafts + 1)) (counts places fun p => p.numDrafts + 1))
      (counts places fun p => p.numDrafts))
      ((cells places fun p => p.numDrafts).map fun c => (c.2 : Int)) =
        (cells places fun p => p.numDrafts).map fun c => ((c.1.logitStart + c.2 : Nat) : Int) := by
    rw [hrowEnds, counts, zipWith_map_map, npRepeat_eq_cells, zipWith_map_map]
    refine map_congr_left fun c _ => ?_
    push_cast
    ring
  have hbonus : (cumsum (counts places fun p => p.numDrafts + 1)).map (fun n => n - 1) =
      (places.map RowPlace.bonus).map fun n : Nat => (n : Int) := by
    rw [hrowEnds, map_map, map_map]
    refine map_congr_left fun p _ => ?_
    simp only [Function.comp_apply, RowPlace.bonus]
    push_cast
    ring
  have hsampledIds : gather inputIds ((cells places fun p => p.numDrafts + 1).map
      fun c => (sampledToken c : Int)) =
        .ok ((cells places fun p => p.numDrafts + 1).map fun c => inputIds.getD (sampledToken c) 0) := by
    refine gather_ok fun c hc => ?_
    obtain ⟨hp, hlt⟩ := mem_cells.mp hc
    have := hmem c.1 hp
    rw [List.getD_eq_getElem?_getD, List.getElem?_eq_getElem (by rw [sampledToken]; omega)]
    rfl
  have hdraftIds : gather ((cells places fun p => p.numDrafts + 1).map
      fun c => inputIds.getD (sampledToken c) 0)
      (((cells places fun p => p.numDrafts).map fun c => ((c.1.logitStart + c.2 : Nat) : Int)).map
        fun n => n + 1) =
        .ok ((cells places fun p => p.numDrafts).map
          fun c => inputIds.getD (sampledToken (c.1, c.2 + 1)) 0) := by
    have hcast : (((cells places fun p => p.numDrafts).map
        fun c => ((c.1.logitStart + c.2 : Nat) : Int)).map fun n => n + 1) =
          (cells places fun p => p.numDrafts).map
            fun c => ((c.1.logitStart + (c.2 + 1) : Nat) : Int) := by
      rw [map_map]
      refine map_congr_left fun c _ => ?_
      simp only [Function.comp_apply]
      push_cast
      ring
    rw [hcast]
    refine gather_ok fun c hc => ?_
    obtain ⟨hp, hlt⟩ := mem_cells.mp hc
    rw [List.getElem?_map, hcells c.1 hp (c.2 + 1) hlt]
    rfl
  unfold calcSpecDecodeMetadata
  rw [hsampled, bind_of_ok h₁]
  dsimp only
  rw [hdraft, bind_of_ok h₂]
  rw [hlogits, htargets, hbonus, bind_of_ok hsampledIds, bind_of_ok hdraftIds]
  refine congrArg Except.ok (SpecDecodeMetadata.mk.injEq .. |>.mpr ⟨?_, rfl, rfl, ?_, rfl, ?_⟩)
  · rw [cells, List.map_flatMap]
    refine List.flatMap_congr fun p hp => ?_
    obtain ⟨h1, h2⟩ := hmem p hp
    rw [map_map, RowPlace.drafts, RowPlace.tokens]
    refine List.ext_getElem? fun i => ?_
    rw [List.getElem?_map, List.getElem?_drop, List.getElem?_take, List.getElem?_drop]
    by_cases hi : i < p.numDrafts
    · rw [List.getElem?_range hi, if_pos (by omega), List.getElem?_eq_getElem (by omega)]
      simp only [Option.map_some, Function.comp_apply, List.getD_eq_getElem?_getD, sampledToken]
      rw [List.getElem?_eq_getElem (by omega), Option.getD_some]
      congr 2
      omega
    · rw [if_neg (by omega), List.getElem?_eq_none (by simpa using hi)]
      rfl
  · rw [map_cells_cast]
    congr 1
    refine List.flatMap_congr fun p _ => ?_
    rw [RowPlace.targets, List.range'_eq_map_range]
  · rw [map_cells_cast]
    congr 1
    refine List.flatMap_congr fun p _ => ?_
    rw [RowPlace.sampled, List.range'_eq_map_range]
    rfl

end Metadata

/-! ## The rows of the batch -/

variable {b : InputBatch} {out : SchedulerOutput} {ids : List ReqId}

/-- The targets and the bonus rows are all rows of the logits, each once. -/
theorem targets_bonus_perm (s d : ReqId → Nat) (ids : List ReqId) :
    ((rowPlaces s d 0 0 ids).flatMap RowPlace.targets ++ (rowPlaces s d 0 0 ids).map RowPlace.bonus).Perm
      (range (ids.map fun id => d id + 1).sum) := by
  rw [List.range_eq_range', ← flatMap_rows (s := s) (t := 0), List.map_eq_flatMap]
  exact List.flatMap_append_perm _ _ _

/-- The number of drafts of a request. -/
def numDraftsOf (out : SchedulerOutput) (id : ReqId) : Nat :=
  (out.scheduledSpecDecodeTokens.getD id []).length

/-- The loop over the drafts that are scheduled, on the numbers of the rows. -/
theorem setDrafts_ok (h : b.Lists ids) {l : List (ReqId × List TokenId)}
    (hnodup : (l.map Prod.fst).Nodup) (hmem : ∀ e ∈ l, e.1 ∈ ids) (g : ReqId → Int) :
    threadM (setNumDrafts b) l (ids.map g) =
      .ok (ids.map fun id => ((Dict.find l id).map fun drafts => (drafts.length : Int)).getD (g id)) := by
  induction l generalizing g with
  | nil => rfl
  | cons e l ih =>
    obtain ⟨id, drafts⟩ := e
    obtain ⟨hnot, hrestNodup⟩ := List.nodup_cons.mp hnodup
    obtain ⟨i, hi, rfl⟩ := List.getElem_of_mem (hmem _ List.mem_cons_self)
    have hindex : b.reqIdToIndex.get? ids[i] = some i :=
      (h.inverse _ _).mpr (List.getElem?_eq_getElem hi)
    -- one row is written
    have hset : (ids.map g).set i (drafts.length : Int) =
        ids.map (Function.update g ids[i] (drafts.length : Int)) := by
      refine List.ext_getElem (by simp) fun j h1 h2 => ?_
      rw [List.getElem_set, List.getElem_map, List.getElem_map, Function.update_apply]
      have hlt : j < ids.length := by simpa using h2
      have hinj : ids[j] = ids[i] ↔ j = i := h.nodup.getElem_inj_iff
      simp only [hinj, eq_comm]
    have hrest := ih hrestNodup (fun e he => hmem e (List.mem_cons_of_mem _ he))
      (Function.update g ids[i] (drafts.length : Int))
    have hstep : setNumDrafts b (ids[i], drafts) (ids.map g) =
        .ok (ids.map (Function.update g ids[i] (drafts.length : Int))) := by
      simp only [setNumDrafts, hindex, List.length_map, hi, if_true, hset]
    rw [threadM, bind_of_ok hstep]
    refine hrest.trans (congrArg Except.ok (map_congr_left fun id _ => ?_))
    rw [Dict.find]
    by_cases hid : ids[i] = id
    · subst hid
      rw [Dict.find_eq_none_iff.mpr hnot, if_pos rfl]
      simp
    · rw [if_neg hid, Function.update_of_ne (Ne.symm hid)]

theorem numDraftTokens_ok (h : b.Lists ids)
    (hdrafts : ∀ id ∈ out.scheduledSpecDecodeTokens, id ∈ ids) :
    numDraftTokens b out = .ok (counts ids (numDraftsOf out)) := by
  have hzero : List.replicate b.numReqs (0 : Int) = ids.map fun _ => 0 := by
    rw [h.numReqs, List.map_const']
  rw [numDraftTokens, hzero, setDrafts_ok h out.scheduledSpecDecodeTokens.nodup
    fun e he => hdrafts e.1 (Dict.mem_entries_fst he)]
  refine congrArg Except.ok (map_congr_left fun id _ => ?_)
  rw [numDraftsOf, Dict.getD]
  change (Option.map _ (out.scheduledSpecDecodeTokens.get? id)).getD 0 = _
  cases out.scheduledSpecDecodeTokens.get? id <;> rfl

end InferenceServer.PersistentBatch
