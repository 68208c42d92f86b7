import InferenceServer.Lib.Ragged
import InferenceServer.Sched.State
import InferenceServer.Worker.BatchRows

/-!
# Attention metadata

What every attention backend gets to know of a batch is a `CommonAttentionMetadata`
(`vllm/v1/attention/backends/utils.py`): where the tokens of each request are in the flat array of query
tokens, how long the sequences are, and the block tables. `_prepare_inputs` of the model runner builds
it, in the order of the rows of the persistent batch. A backend that treats decodes apart from prefills
looks for the boundary of the two with `split_decodes_and_prefills`, which takes it for granted that the
batch has been reordered.

A tensor and its copy on the device are one list here.

## Main results

* `prepareAttnMetadata_ok`: what the metadata of a batch says
* `splitDecodesAndPrefills_ok`
-/

namespace InferenceServer.PersistentBatch

open Outcome Ragged

/-- `CommonAttentionMetadata`. -/
structure CommonAttentionMetadata where
  queryStartLoc : List Int
  seqLens : List Int
  numComputedTokens : List Int
  numReqs : Int
  numActualTokens : Int
  maxQueryLen : Int
  blockTable : List (List Int)
  slotMapping : List Int
  causal : Bool := true
deriving DecidableEq, Repr

/-- `query_start_loc[1:] - query_start_loc[:-1]`. -/
def CommonAttentionMetadata.queryLens (m : CommonAttentionMetadata) : List Int :=
  List.zipWith (· - ·) m.queryStartLoc.tail m.queryStartLoc.dropLast

/-- `scheduler_output.num_scheduled_tokens[req_id]`, for an entry of `req_ids`. -/
def numTokensOf (out : SchedulerOutput) : Option ReqId → Except PyError Int
  | none => .error .keyError
  | some id =>
    match out.numScheduledTokens.get? id with
    | some n => .ok n
    | none => .error .keyError

/-- The metadata that `_prepare_inputs` makes for a KV cache group. -/
def prepareAttnMetadata (b : InputBatch) (out : SchedulerOutput) (group : Nat)
    (slotMapping : List Int) : Except PyError CommonAttentionMetadata := do
  require (0 < out.totalNumScheduledTokens) (.assertionError .prepareInputs)
  require (0 < b.numReqs) (.assertionError .prepareInputs)
  let tokens ← b.reqIds.mapM (numTokensOf out)
  -- `max` of an empty list
  require (tokens ≠ []) .valueError
  let rows := (List.range b.numReqs).map b.row
  let numComputed : List Int := rows.map fun row => row.numComputedTokens
  return {
    queryStartLoc := 0 :: cumsum tokens
    seqLens := List.zipWith (· + ·) numComputed tokens
    numComputedTokens := numComputed
    numReqs := b.numReqs
    numActualTokens := out.totalNumScheduledTokens
    maxQueryLen := tokens.foldl max (tokens.headD 0)
    blockTable := rows.map fun row =>
      (row.blockTables[group]?.map fun t => t.blocks.map fun block : BlockId => (block : Int)).getD []
    slotMapping }

/-- `split_decodes_and_prefills`: the numbers of decodes, prefills, decode tokens and prefill tokens. -/
def splitDecodesAndPrefills (m : CommonAttentionMetadata) (decodeThreshold : Int) :
    Except PyError (Int × Int × Int × Int) := do
  if m.maxQueryLen ≤ decodeThreshold then
    return (m.numReqs, 0, m.numActualTokens, 0)
  let isPrefill := m.queryLens.map fun n => decide (decodeThreshold < n)
  if ¬ (isPrefill.any fun x => x) then
    return (m.numReqs, 0, m.numActualTokens, 0)
  -- `argmax` is the first maximum
  let firstPrefill := isPrefill.findIdx fun x => x
  require (∀ n ∈ m.queryLens.drop firstPrefill, decodeThreshold < n)
    (.assertionError .splitDecodesAndPrefills)
  require (∀ n ∈ m.queryLens.take firstPrefill, n ≤ decodeThreshold)
    (.assertionError .splitDecodesAndPrefills)
  match m.queryStartLoc[firstPrefill]? with
  | none => .error .indexError
  | some numDecodeTokens =>
    return (firstPrefill, m.numReqs - firstPrefill, numDecodeTokens,
      m.numActualTokens - numDecodeTokens)

/-! ## The metadata of a batch -/

/-- The batch lists the requests: in its rows there are exactly these, and the index is the inverse of
the list. -/
structure InputBatch.Lists (b : InputBatch) (ids : List ReqId) : Prop where
  reqIds : b.reqIds = ids.map some
  nodup : ids.Nodup
  inverse : ∀ id i, b.reqIdToIndex.get? id = some i ↔ ids[i]? = some id

variable {b : InputBatch} {ids : List ReqId} {out : SchedulerOutput} {group : Nat}
  {slotMapping : List Int} {m : CommonAttentionMetadata} {cfg : BatchConfig}

/-- The scheduled tokens of a request. -/
def tokensOf (out : SchedulerOutput) (id : ReqId) : Int := out.numScheduledTokens.getD id 0

theorem InputBatch.Lists.numReqs (h : b.Lists ids) : b.numReqs = ids.length := by
  have hperm : b.reqIdToIndex.keys.Perm ids := by
    refine (List.perm_ext_iff_of_nodup b.reqIdToIndex.keys_nodup h.nodup).mpr fun id => ?_
    rw [← Dict.mem_iff, Dict.mem_iff_get?, List.mem_iff_getElem?]
    exact exists_congr fun i => h.inverse id i
  rw [← hperm.length_eq, Dict.keys, List.length_map]
  rfl

/-- A batch between `condense` and `refresh_metadata` lists its requests. -/
theorem Coherent.lists {active : Dict ReqId ActiveRequest} (h : Coherent cfg b active) :
    ∃ ids, b.Lists ids := by
  have hsome : ∀ x ∈ b.reqIds, ∃ id, x = some id := by
    intro x hx
    obtain ⟨i, hi, rfl⟩ := List.getElem_of_mem hx
    obtain ⟨id, -, hid⟩ := h.rows i (h.length ▸ hi)
    exact ⟨id, Option.some.inj ((List.getElem?_eq_getElem hi).symm.trans hid)⟩
  obtain ⟨ids, hids⟩ : ∃ ids : List ReqId, b.reqIds = ids.map some := by
    generalize b.reqIds = l at hsome
    induction l with
    | nil => exact ⟨[], rfl⟩
    | cons x l ih =>
      obtain ⟨id, rfl⟩ := hsome x List.mem_cons_self
      obtain ⟨ids, rfl⟩ := ih fun y hy => hsome y (List.mem_cons_of_mem _ hy)
      exact ⟨id :: ids, rfl⟩
  have hinverse : ∀ id i, b.reqIdToIndex.get? id = some i ↔ ids[i]? = some id := by
    intro id i
    rw [h.inverse, hids, List.getElem?_map]
    simp
  refine ⟨ids, hids, List.nodup_iff_getElem?_ne_getElem?.mpr fun i j hij hj heq => ?_, hinverse⟩
  -- a request has one row
  have hj' := List.getElem?_eq_getElem hj
  exact hij.ne (Option.some.inj (((hinverse _ _).mpr (heq.trans hj')).symm.trans
    ((hinverse _ _).mpr hj')))

/-! ## What the metadata says -/

theorem foldl_max_ge (l : List Int) (a : Int) : a ≤ l.foldl max a ∧ ∀ n ∈ l, n ≤ l.foldl max a := by
  induction l generalizing a with
  | nil => simp
  | cons x l ih =>
    obtain ⟨hle, hall⟩ := ih (max a x)
    refine ⟨(le_max_left a x).trans hle, fun n hn => ?_⟩
    rcases List.mem_cons.mp hn with rfl | hn
    · exact (le_max_right a n).trans hle
    · exact hall n hn

theorem foldl_max_mem (l : List Int) (a : Int) : l.foldl max a = a ∨ l.foldl max a ∈ l := by
  induction l generalizing a with
  | nil => exact .inl rfl
  | cons x l ih =>
    rcases ih (max a x) with h | h
    · rcases max_choice a x with hmax | hmax
      · exact .inl (h.trans hmax)
      · exact .inr (List.mem_cons.mpr (.inl (h.trans hmax)))
    · exact .inr (List.mem_cons_of_mem x h)

/-- **The metadata of a batch** numbers the query tokens in the order of its rows. -/
structure CommonAttentionMetadata.Describes (m : CommonAttentionMetadata) (tokens : List Int) : Prop where
  queryStartLoc : m.queryStartLoc = 0 :: cumsum tokens
  numReqs : m.numReqs = tokens.length
  numActualTokens : m.numActualTokens = tokens.sum
  le_maxQueryLen : ∀ n ∈ tokens, n ≤ m.maxQueryLen
  maxQueryLen_mem : m.maxQueryLen ∈ tokens

theorem CommonAttentionMetadata.Describes.queryLens {tokens : List Int} (h : m.Describes tokens) :
    m.queryLens = tokens := by
  rw [CommonAttentionMetadata.queryLens, h.queryStartLoc, List.tail_cons]
  exact zipWith_sub_sumsFrom 0 tokens

theorem mapM_numTokensOf (hscheduled : ∀ id ∈ ids, id ∈ out.numScheduledTokens) :
    (ids.map some).mapM (numTokensOf out) = .ok (ids.map (tokensOf out)) := by
  induction ids with
  | nil => rfl
  | cons id ids ih =>
    obtain ⟨n, hn⟩ := Dict.mem_iff_get?.mp (hscheduled id List.mem_cons_self)
    have hid : numTokensOf out (some id) = .ok (tokensOf out id) := by
      simp only [numTokensOf, hn, tokensOf, Dict.getD_of_get? hn]
    rw [List.map_cons, List.mapM_cons, hid, ih fun id' h => hscheduled id' (List.mem_cons_of_mem _ h)]
    rfl

theorem prepareAttnMetadata_ok (h : b.Lists ids)
    (hscheduled : ∀ id ∈ ids, id ∈ out.numScheduledTokens)
    (htotal : out.totalNumScheduledTokens = (ids.map (tokensOf out)).sum)
    (hpos : 0 < out.totalNumScheduledTokens) (group : Nat) (slotMapping : List Int) :
    ∃ m, prepareAttnMetadata b out group slotMapping = .ok m ∧
      m.Describes (ids.map (tokensOf out)) := by
  have hne : ids.map (tokensOf out) ≠ [] := by
    intro hnil
    rw [htotal, hnil] at hpos
    exact absurd hpos (lt_irrefl _)
  have hnum : 0 < b.numReqs := by
    rw [h.numReqs]
    exact List.length_pos_iff.mpr fun hnil => hne (by rw [hnil, List.map_nil])
  obtain ⟨n, tokens, hcons⟩ := List.exists_cons_of_ne_nil hne
  unfold prepareAttnMetadata
  rw [bind_of_ok (require_of hpos), bind_of_ok (require_of hnum), h.reqIds,
    bind_of_ok (mapM_numTokensOf hscheduled), bind_of_ok (require_of hne)]
  refine ⟨_, rfl, rfl, ?_, htotal, ?_, ?_⟩
  · simp [h.numReqs]
  · exact (foldl_max_ge _ _).2
  · rcases foldl_max_mem (ids.map (tokensOf out)) ((ids.map (tokensOf out)).headD 0) with hmax | hmax
    · dsimp only
      rw [hmax, hcons]
      exact List.mem_cons_self
    · exact hmax

/-! ## The boundary -/

/-- **The boundary of decodes and prefills** in a batch whose decodes come first. -/
theorem splitDecodesAndPrefills_ok {decodes prefills : List Int} {t : Int}
    (h : m.Describes (decodes ++ prefills)) (hdecodes : ∀ n ∈ decodes, n ≤ t)
    (hprefills : ∀ n ∈ prefills, t < n) :
    splitDecodesAndPrefills m t =
      .ok (decodes.length, prefills.length, decodes.sum, prefills.sum) := by
  -- without prefills both shortcuts count everything as a decode
  have hall : prefills = [] →
      (m.numReqs, 0, m.numActualTokens, 0) =
        ((decodes.length : Int), (prefills.length : Int), decodes.sum, prefills.sum) := by
    rintro rfl
    simp [h.numReqs, h.numActualTokens]
  rw [splitDecodesAndPrefills, h.queryLens]
  by_cases hmax : m.maxQueryLen ≤ t
  · have hnil : prefills = [] := List.eq_nil_iff_forall_not_mem.mpr fun n hn =>
      absurd (h.le_maxQueryLen n (List.mem_append_right _ hn)) (not_le.mpr (hmax.trans_lt (hprefills n hn)))
    rw [if_pos hmax, hall hnil]
    rfl
  have hany : (((decodes ++ prefills).map fun n => decide (t < n)).any fun x => x) = true := by
    simp only [List.any_map, List.any_eq_true]
    exact ⟨m.maxQueryLen, h.maxQueryLen_mem, by simpa using hmax⟩
  have hfirst : ((decodes ++ prefills).map fun n => decide (t < n)).findIdx (fun x => x) =
      decodes.length := by
    rw [List.findIdx_map, List.findIdx_append]
    have hnone : decodes.findIdx ((fun x => x) ∘ fun n => decide (t < n)) = decodes.length := by
      refine List.findIdx_eq_length.mpr fun n hn => ?_
      simpa using hdecodes n hn
    rw [if_neg (by simp [hnone])]
    cases prefills with
    | nil => simp
    | cons n prefills => simp [List.findIdx_cons, hprefills n List.mem_cons_self]
  simp only [hmax, if_false, hany, not_true_eq_false, hfirst]
  rw [List.drop_left, List.take_left, require_of hprefills, require_of hdecodes, h.queryStartLoc,
    getElem?_zero_cons_cumsum (by simp), List.take_left]
  simp [h.numReqs, h.numActualTokens]
  rfl

end InferenceServer.PersistentBatch
