import InferenceServer.Sched.GrammarStates
import InferenceServer.Worker.SpecDecodeMetadata

/-!
# The grammar mask on the logits

The scheduler computes the bitmask of the requests with structured output: for each of them a row for
every draft, and one more. It is compact, and in the scheduler's order. `apply_grammar_bitmask`
(`vllm/v1/worker/gpu_model_runner.py`) puts each of these rows into the row of the logits that it is for,
in a bitmask for all rows of the logits, and lists the rows it has filled. The kernel that masks the
logits touches only these; it is a third-party function, and a parameter.

## Main results

* `grammarBitmask_rows`
* `structOutReqBatchIndices_get?`: where the rows of a request start
* `placeRequests_ok`
-/

namespace InferenceServer.PersistentBatch

open Outcome Ragged
open List (getElem?_eq_getElem length_cons mem_cons_of_mem mem_cons_self mem_map mem_map_of_mem nodup_cons range')
open Prod (fst)

/-! ## The function -/

/-- The loop over the rows of the batch that makes `struct_out_req_batch_indices`. -/
def structOutReqBatchIndices (out : SchedulerOutput) :
    List (ReqId × Nat) → Nat → Dict ReqId Nat → Dict ReqId Nat
  | [], _, indices => indices
  | (reqId, batchIndex) :: seq, cumulativeOffset, indices =>
    let logitIndex := batchIndex + cumulativeOffset
    structOutReqBatchIndices out seq (cumulativeOffset + numDraftsOf out reqId)
      (if reqId ∈ out.structuredOutputRequestIds then indices.set reqId logitIndex else indices)

/-- The bitmask for all rows of the logits, the rows that are filled, and the rows of the compact
bitmask that are done. -/
structure SortedBitmask where
  rows : List BitmaskRow
  outIndices : List Nat
  cumulativeIndex : Nat

/-- The body of the loop over the rows of a request. -/
def placeRow (grammarBitmask : List BitmaskRow) (logitIndex : Nat) (i : Nat) (m : SortedBitmask) :
    Except PyError SortedBitmask :=
  match grammarBitmask[m.cumulativeIndex + i]? with
  | none => .error .indexError
  | some row =>
    if logitIndex + i < m.rows.length then
      .ok { m with
        rows := m.rows.set (logitIndex + i) row, outIndices := m.outIndices ++ [logitIndex + i] }
    else .error .indexError

/-- The body of the loop over the requests with structured output. -/
def placeRequest (out : SchedulerOutput) (grammarBitmask : List BitmaskRow)
    (indices : Dict ReqId Nat) (e : ReqId × Nat) (m : SortedBitmask) : Except PyError SortedBitmask :=
  match indices.get? e.1 with
  | none => .error .keyError
  | some logitIndex => do
    let numSpecTokens := numDraftsOf out e.1
    let m ← threadM (placeRow grammarBitmask logitIndex) (List.range (1 + numSpecTokens)) m
    return { m with cumulativeIndex := m.cumulativeIndex + (1 + numSpecTokens) }

/-- `apply_grammar_bitmask`, with the kernel. -/
def applyGrammarBitmask {Λ : Type} (applyTokenBitmask : List Λ → List BitmaskRow → List Nat → List Λ)
    (b : InputBatch) (out : SchedulerOutput) (grammarBitmask : Option (List BitmaskRow))
    (logits : List Λ) : Except PyError (List Λ) :=
  match grammarBitmask with
  | none => .ok logits
  | some grammarBitmask => do
    let seq := b.reqIdToIndex.entries.insertionSort fun e e' => e.2 ≤ e'.2
    let indices := structOutReqBatchIndices out seq 0 ∅
    let seq := out.structuredOutputRequestIds.entries.insertionSort fun e e' => e.2 ≤ e'.2
    let m ← threadM (placeRequest out grammarBitmask indices) seq
      ⟨List.replicate logits.length fun _ => false, [], 0⟩
    return applyTokenBitmask logits m.rows m.outIndices

/-- The kernel masks the given rows of the logits, each with its row of the bitmask, and no others. -/
structure AppliesBitmask {Λ : Type} (maskRow : BitmaskRow → Λ → Λ)
    (applyTokenBitmask : List Λ → List BitmaskRow → List Nat → List Λ) : Prop where
  getElem? : ∀ {logits : List Λ} {bitmask : List BitmaskRow} {indices : List Nat} {i : Nat}
    {row : BitmaskRow} {x : Λ}, bitmask.length = logits.length → bitmask[i]? = some row →
    logits[i]? = some x →
    (applyTokenBitmask logits bitmask indices)[i]? = some (if i ∈ indices then maskRow row x else x)

/-! ## Where the rows of a request start -/

variable {b : InputBatch} {out : SchedulerOutput} {ids : List ReqId}

/-- The rows of the batch in their order are the requests of the batch. -/
theorem InputBatch.Lists.sorted_items (h : b.Lists ids) :
    b.reqIdToIndex.entries.insertionSort (fun e e' => e.2 ≤ e'.2) = ids.zipIdx := by
  have hsnd : (ids.zipIdx.map Prod.snd).Pairwise (· < ·) := by
    rw [List.zipIdx_map_snd]
    exact List.pairwise_lt_range' _
  have hnodup : ids.zipIdx.Nodup := List.Nodup.of_map _ (hsnd.imp fun h => h.ne)
  have hperm : (b.reqIdToIndex.entries.insertionSort fun e e' => e.2 ≤ e'.2).Perm ids.zipIdx := by
    refine (List.perm_insertionSort _ _).trans
      ((List.perm_ext_iff_of_nodup (List.Nodup.of_map _ b.reqIdToIndex.nodup) hnodup).mpr fun e => ?_)
    rw [← Dict.get?_eq_some_iff (k := e.1) (v := e.2), h.inverse, List.mk_mem_zipIdx_iff_getElem?]
  -- the rows are all different, so there is one order
  have hsorted : (b.reqIdToIndex.entries.insertionSort fun e e' => e.2 ≤ e'.2).Pairwise
      fun e e' => e.2 ≤ e'.2 := List.pairwise_insertionSort _ _
  refine hperm.eq_of_pairwise (fun e e' he he' hle hle' => ?_) hsorted
    ((List.pairwise_map.mp hsnd).imp fun h => h.le)
  have hat := List.mem_zipIdx_iff_getElem?.mp (hperm.mem_iff.mp he)
  have hat' := List.mem_zipIdx_iff_getElem?.mp he'
  have hsame : e.2 = e'.2 := le_antisymm hle hle'
  exact Prod.ext (Option.some.inj (hat.symm.trans (hsame ▸ hat'))) hsame

theorem structOutReqBatchIndices_get? {s d : ReqId → Nat} (hd : d = numDraftsOf out) {t g i o : Nat}
    (hg : g = i + o) (hnodup : ids.Nodup) (indices : Dict ReqId Nat) :
    (∀ id, id ∉ ids →
      (structOutReqBatchIndices out (ids.zipIdx i) o indices).get? id = indices.get? id) ∧
    ∀ p ∈ rowPlaces s d t g ids, p.reqId ∈ out.structuredOutputRequestIds →
      (structOutReqBatchIndices out (ids.zipIdx i) o indices).get? p.reqId = some p.logitStart := by
  induction ids generalizing t g i o indices with
  | nil => exact ⟨fun _ _ => rfl, fun _ hp => nomatch hp⟩
  | cons id ids ih =>
    obtain ⟨hnot, hnodup⟩ := nodup_cons.mp hnodup
    rw [List.zipIdx_cons, structOutReqBatchIndices]
    obtain ⟨hkeep, hplace⟩ := ih (t := t + s id) (g := g + (d id + 1)) (i := i + 1)
      (o := o + numDraftsOf out id) (by rw [hg, hd]; omega) hnodup
      (if id ∈ out.structuredOutputRequestIds then indices.set id (i + o) else indices)
    refine ⟨fun id' hid' => ?_, fun p hp hstruct => ?_⟩
    · obtain ⟨hne, hid'⟩ := not_or.mp (List.mem_cons.not.mp hid')
      rw [hkeep id' hid']
      split_ifs
      · exact Dict.get?_set_ne hne
      · rfl
    · rcases List.mem_cons.mp hp with rfl | hp
      · rw [hkeep _ hnot, if_pos hstruct, Dict.get?_set, if_pos rfl, hg]
      · exact hplace p hp hstruct

/-! ## The compact bitmask -/

section Bitmask

variable {Q : Type} {S : StructuredOutputManager Q} {sched : Scheduler}
  {d d' : Dict ReqId (StructuredOutputRequest Q)}

theorem length_maskTokens {applies : Bool} {tokens : List (Option TokenId)} {g : XgrammarGrammar Q}
    {n : Nat} {rows : List BitmaskRow} {last : XgrammarGrammar Q × Nat}
    (h : S.maskTokens applies tokens g n = .ok (rows, last)) : rows.length = tokens.length := by
  induction tokens generalizing g n rows with
  | nil =>
    cases h
    rfl
  | cons token tokens ih =>
    rw [StructuredOutputManager.maskTokens] at h
    split at h
    · obtain ⟨⟨g', n'⟩, -, h⟩ := bind_eq_ok.mp h
      obtain ⟨⟨rows', last'⟩, hrows, h⟩ := bind_eq_ok.mp h
      cases h
      rw [length_cons, length_cons, ih hrows]
    · obtain ⟨⟨rows', last'⟩, hrows, h⟩ := bind_eq_ok.mp h
      cases h
      rw [length_cons, length_cons, ih hrows]

/-- The rows that `grammar_bitmask` fills for a request: one for each draft, and one more. -/
def MaskRows (S : StructuredOutputManager Q) (sched : Scheduler) (out : SchedulerOutput)
    (d : Dict ReqId (StructuredOutputRequest Q)) (id : ReqId) (rows : List BitmaskRow) : Prop :=
  ∃ record, S.maskRequest (sched.request id).promptTokenIds
    (out.scheduledSpecDecodeTokens.getD id []) (S.record d id) = .ok (rows, record)

theorem MaskRows.length {id : ReqId} {rows : List BitmaskRow} (h : MaskRows S sched out d id rows) :
    rows.length = 1 + numDraftsOf out id := by
  obtain ⟨record, h⟩ := h
  obtain ⟨⟨rows', grammar, n⟩, hrows, h⟩ := bind_eq_ok.mp h
  cases h
  rw [length_maskTokens hrows, numDraftsOf]
  simp [Nat.add_comm]

/-- **The bitmask** is the rows of the requests with structured output, one request after the other. -/
theorem grammarBitmask_rows {mask : List BitmaskRow}
    (h : S.grammarBitmask sched out d = .ok (some mask, d')) :
    ∃ rowss, mask = rowss.flatten ∧
      List.Forall₂ (fun e rows => MaskRows S sched out d e.1 rows)
        (out.structuredOutputRequestIds.entries.insertionSort fun e e' => e.2 ≤ e'.2) rowss := by
  unfold StructuredOutputManager.grammarBitmask at h
  split at h
  · cases h
  · obtain ⟨⟨rowss, d₁⟩, hrowss, h⟩ := bind_eq_ok.mp h
    cases h
    refine ⟨rowss, rfl, ?_⟩
    have hnodup : ((out.structuredOutputRequestIds.entries.insertionSort
        fun e e' => e.2 ≤ e'.2).map fst).Nodup :=
      ((List.perm_insertionSort _ _).map _).nodup_iff.mpr out.structuredOutputRequestIds.nodup
    generalize out.structuredOutputRequestIds.entries.insertionSort (fun e e' => e.2 ≤ e'.2) = seq
      at hrowss hnodup
    -- the records of the requests to come are as they were
    suffices hloop : ∀ {d₀ d₁ : Dict ReqId (StructuredOutputRequest Q)},
        (∀ e ∈ seq, S.record d₀ e.1 = S.record d e.1) →
        mapThreadM (S.maskScheduled sched out) seq d₀ = .ok (rowss, d₁) →
        List.Forall₂ (fun e rows => MaskRows S sched out d e.1 rows) seq rowss from
      hloop (fun _ _ => rfl) hrowss
    clear hrowss h
    induction seq generalizing rowss with
    | nil =>
      intro d₀ d₁ _ hloop
      cases hloop
      exact .nil
    | cons e seq ih =>
      intro d₀ d₁ hsame hloop
      obtain ⟨hnot, hnodup⟩ := nodup_cons.mp hnodup
      obtain ⟨rows, d₂, rest, hfirst, hrest, rfl⟩ := mapThreadM_cons_ok.mp hloop
      obtain ⟨-, -, hfirst⟩ := bind_eq_ok.mp hfirst
      obtain ⟨⟨rows', record⟩, hmask, hfirst⟩ := bind_eq_ok.mp hfirst
      cases hfirst
      refine .cons ⟨record, hsame e mem_cons_self ▸ hmask⟩ (ih rest hnodup (fun e' he' => ?_) hrest)
      have hne : e'.1 ≠ e.1 := fun heq => hnot (heq ▸ mem_map_of_mem he')
      rw [StructuredOutputManager.record, Dict.getD_set_ne hne]
      exact hsame e' (mem_cons_of_mem _ he')

end Bitmask

/-! ## The loop over the requests -/

theorem placeRow_ok {mask : List BitmaskRow} {logitIndex : Nat} {m : SortedBitmask} {i : Nat}
    (hmask : m.cumulativeIndex + i < mask.length) (hrows : logitIndex + i < m.rows.length) :
    placeRow mask logitIndex i m = .ok { m with
      rows := m.rows.set (logitIndex + i) mask[m.cumulativeIndex + i]
      outIndices := m.outIndices ++ [logitIndex + i] } := by
  rw [placeRow, getElem?_eq_getElem hmask]
  exact if_pos hrows

/-- The rows of a request are copied, from row `k` on. -/
theorem placeRows_ok {mask : List BitmaskRow} {logitIndex n k : Nat} {m : SortedBitmask}
    (hmask : m.cumulativeIndex + (k + n) ≤ mask.length)
    (hrows : logitIndex + (k + n) ≤ m.rows.length) :
    ∃ rows, threadM (placeRow mask logitIndex) (range' k n) m = .ok { m with
        rows, outIndices := m.outIndices ++ range' (logitIndex + k) n } ∧
      rows.length = m.rows.length ∧
      ∀ i, rows[i]? = if logitIndex + k ≤ i ∧ i < logitIndex + k + n then
        mask[m.cumulativeIndex + (i - logitIndex)]? else m.rows[i]? := by
  induction n generalizing k m with
  | zero => exact ⟨m.rows, by simp, rfl, fun i => (if_neg (by omega)).symm⟩
  | succ n ih =>
    have hlt : m.cumulativeIndex + k < mask.length := by omega
    obtain ⟨rows, hok, hlength, hat⟩ := ih (k := k + 1) (m := { m with
      rows := m.rows.set (logitIndex + k) mask[m.cumulativeIndex + k]
      outIndices := m.outIndices ++ [logitIndex + k] }) (by dsimp only; omega) (by simp; omega)
    refine ⟨rows, ?_, by simpa using hlength, fun i => ?_⟩
    · rw [List.range'_succ, threadM, bind_of_ok (placeRow_ok (by omega) (by omega)), hok]
      simp [List.range'_succ, Nat.add_assoc]
    · rw [hat i]
      by_cases hi : i = logitIndex + k
      · subst hi
        rw [if_neg (by omega), if_pos (by omega), List.getElem?_set_self (by omega),
          Nat.add_sub_cancel_left, getElem?_eq_getElem (by omega)]
      · rw [List.getElem?_set_ne (Ne.symm hi)]
        exact if_congr (by omega) rfl rfl

/-- **The loop over the requests**: every row that is for a request is filled with its row of the
bitmask, and listed; the other rows stay as they are. -/
theorem placeRequests_ok {mask : List BitmaskRow} {indices : Dict ReqId Nat} {start : ReqId → Nat}
    {seq : List (ReqId × Nat)} {rowss : List (List BitmaskRow)} {m : SortedBitmask}
    (hnodup : (seq.map fst).Nodup)
    (hindices : ∀ e ∈ seq, indices.get? e.1 = some (start e.1))
    (hlength : List.Forall₂ (fun e rows => rows.length = 1 + numDraftsOf out e.1) seq rowss)
    (hbound : ∀ e ∈ seq, start e.1 + (1 + numDraftsOf out e.1) ≤ m.rows.length)
    (hdisj : ∀ e ∈ seq, ∀ e' ∈ seq, ∀ j ≤ numDraftsOf out e.1, ∀ j' ≤ numDraftsOf out e'.1,
      start e.1 + j = start e'.1 + j' → e.1 = e'.1)
    {before : List BitmaskRow} (hmask : mask = before ++ rowss.flatten)
    (hcumulative : m.cumulativeIndex = before.length) :
    ∃ m', threadM (placeRequest out mask indices) seq m = .ok m' ∧
      m'.rows.length = m.rows.length ∧
      m'.outIndices = m.outIndices ++
        seq.flatMap (fun e => range' (start e.1) (1 + numDraftsOf out e.1)) ∧
      List.Forall₂ (fun e rows => ∀ j ≤ numDraftsOf out e.1, m'.rows[start e.1 + j]? = rows[j]?)
        seq rowss ∧
      ∀ i, (∀ e ∈ seq, ∀ j ≤ numDraftsOf out e.1, i ≠ start e.1 + j) → m'.rows[i]? = m.rows[i]? := by
  induction hlength generalizing m before with
  | nil => exact ⟨m, rfl, rfl, by simp, .nil, fun _ _ => rfl⟩
  | @cons e rows seq rowss hrows hrest ih =>
    obtain ⟨hnot, hnodup⟩ := nodup_cons.mp hnodup
    have hfits : before.length + rows.length ≤ mask.length := by
      rw [hmask, List.flatten_cons, List.length_append, List.length_append]
      omega
    have hfits' : m.cumulativeIndex + (0 + (1 + numDraftsOf out e.1)) ≤ mask.length := by omega
    have hroom : start e.1 + (0 + (1 + numDraftsOf out e.1)) ≤ m.rows.length := by
      have := hbound e mem_cons_self
      omega
    obtain ⟨rows₁, hok, hlen₁, hat₁⟩ := placeRows_ok hfits' hroom
    let m₁ : SortedBitmask := ⟨rows₁,
      m.outIndices ++ range' (start e.1 + 0) (1 + numDraftsOf out e.1),
      m.cumulativeIndex + (1 + numDraftsOf out e.1)⟩
    have hstep : placeRequest out mask indices e m = .ok m₁ := by
      rw [placeRequest, hindices e mem_cons_self]
      dsimp only
      rw [List.range_eq_range', bind_of_ok hok]
      rfl
    obtain ⟨m', hloop, hlen', houts, hfilled, hkept⟩ := ih (m := m₁) hnodup
      (fun e' he' => hindices e' (mem_cons_of_mem _ he'))
      (fun e' he' => hlen₁.symm ▸ hbound e' (mem_cons_of_mem _ he'))
      (fun e' he' e'' he'' => hdisj e' (mem_cons_of_mem _ he') e'' (mem_cons_of_mem _ he''))
      (show mask = (before ++ rows) ++ rowss.flatten by
        rw [hmask, List.flatten_cons, List.append_assoc])
      (by rw [List.length_append, ← hcumulative, hrows])
    refine ⟨m', ?_, hlen'.trans hlen₁, ?_, .cons (fun j hj => ?_) hfilled, fun i hi => ?_⟩
    · rw [threadM, bind_of_ok hstep, hloop]
    · rw [houts, List.flatMap_cons, ← List.append_assoc]
      rfl
    · -- the rows of the first request are not written again
      rw [hkept _ fun e' he' j' hj' heq => hnot ?_]
      · change rows₁[start e.1 + j]? = _
        rw [hat₁, if_pos (by omega), hmask, hcumulative, List.flatten_cons, Nat.add_sub_cancel_left,
          List.getElem?_append_right (by omega), Nat.add_sub_cancel_left,
          List.getElem?_append_left (by omega)]
      · rw [hdisj e mem_cons_self e' (mem_cons_of_mem _ he') j hj j' hj' heq]
        exact mem_map_of_mem he'
    · rw [hkept i fun e' he' => hi e' (mem_cons_of_mem _ he')]
      change rows₁[i]? = _
      rw [hat₁, if_neg fun hin => hi e mem_cons_self (i - start e.1) (by omega) (by omega)]

/-! ## The logits of a step -/

/-- Where the requests of a batch are. -/
def placesOf (out : SchedulerOutput) (ids : List ReqId) : List RowPlace :=
  rowPlaces (fun id => (tokensOf out id).toNat) (numDraftsOf out) 0 0 ids

theorem mem_placesOf {p : RowPlace} (hp : p ∈ placesOf out ids) :
    p.reqId ∈ ids ∧ p.numDrafts = numDraftsOf out p.reqId :=
  ⟨(mem_rowPlaces hp).1, (mem_rowPlaces hp).2.2⟩

theorem exists_place {id : ReqId} (hid : id ∈ ids) : ∃ p ∈ placesOf out ids, p.reqId = id := by
  have hmap : (placesOf out ids).map RowPlace.reqId = ids := map_reqId_rowPlaces
  rw [← hmap] at hid
  exact mem_map.mp hid

/-- A row of the logits is a row of one request. -/
theorem place_unique {p p' : RowPlace} (hp : p ∈ placesOf out ids) (hp' : p' ∈ placesOf out ids)
    {j j' : Nat} (hj : j ≤ p.numDrafts) (hj' : j' ≤ p'.numDrafts)
    (heq : p.logitStart + j = p'.logitStart + j') : p = p' := by
  have hat := (getElem?_rows hp hj).2
  have hat' := (getElem?_rows hp' hj').2
  rw [Nat.sub_zero] at hat hat'
  rw [heq] at hat
  exact congrArg fst (Option.some.inj (hat.symm.trans hat'))

theorem logits_bound {p : RowPlace} (hp : p ∈ placesOf out ids) :
    p.logitStart + (1 + p.numDrafts) ≤ (ids.map fun id => numDraftsOf out id + 1).sum := by
  have hat := (getElem?_rows hp le_rfl).2
  have hlt := (List.getElem?_eq_some_iff.mp hat).1
  rw [length_cells, sum_rowPlaces (fun n => n + 1)] at hlt
  omega

section Mask

variable {Q Λ : Type} {S : StructuredOutputManager Q} {sched : Scheduler}
  {d d' : Dict ReqId (StructuredOutputRequest Q)} {maskRow : BitmaskRow → Λ → Λ}
  {applyTokenBitmask : List Λ → List BitmaskRow → List Nat → List Λ} {logits : List Λ}
  {mask : Option (List BitmaskRow)}

/-- **`apply_grammar_bitmask`** masks the rows of the requests with structured output, each with the
row that `grammar_bitmask` has filled for it, and no other row. -/
theorem applyGrammarBitmask_ok (happly : AppliesBitmask maskRow applyTokenBitmask)
    (h : b.Lists ids) (hstructured : ∀ id ∈ out.structuredOutputRequestIds, id ∈ ids)
    (hmask : S.grammarBitmask sched out d = .ok (mask, d'))
    (hlogits : logits.length = (ids.map fun id => numDraftsOf out id + 1).sum) :
    ∃ final, applyGrammarBitmask applyTokenBitmask b out mask logits = .ok final ∧
      ∀ p ∈ placesOf out ids, ∀ j ≤ p.numDrafts, ∀ x, logits[p.logitStart + j]? = some x →
        if p.reqId ∈ out.structuredOutputRequestIds then
          ∃ rows row, MaskRows S sched out d p.reqId rows ∧ rows[j]? = some row ∧
            final[p.logitStart + j]? = some (maskRow row x)
        else final[p.logitStart + j]? = some x := by
  cases mask with
  | none =>
    -- no request has structured output
    refine ⟨logits, rfl, fun p _ j _ x hx => ?_⟩
    have hnil : out.structuredOutputRequestIds.entries = [] := by
      by_contra hne
      unfold StructuredOutputManager.grammarBitmask at hmask
      rw [if_neg hne] at hmask
      obtain ⟨⟨rowss, d₁⟩, -, hmask⟩ := bind_eq_ok.mp hmask
      cases hmask
    have hnot : p.reqId ∉ out.structuredOutputRequestIds := by
      rw [Dict.mem_iff, Dict.keys, hnil]
      exact List.not_mem_nil
    rwa [if_neg hnot]
  | some mask =>
    obtain ⟨rowss, rfl, hrowss⟩ := grammarBitmask_rows hmask
    have hperm := List.perm_insertionSort (fun e e' : ReqId × Nat => e.2 ≤ e'.2)
      out.structuredOutputRequestIds.entries
    unfold applyGrammarBitmask
    dsimp only
    rw [h.sorted_items]
    generalize out.structuredOutputRequestIds.entries.insertionSort (fun e e' => e.2 ≤ e'.2) = seq
      at hperm hrowss
    have hkeys : ∀ id, id ∈ out.structuredOutputRequestIds ↔ id ∈ seq.map fst := fun id =>
      (hperm.map fst).mem_iff.symm
    have hnodup : (seq.map fst).Nodup :=
      (hperm.map fst).nodup_iff.mpr out.structuredOutputRequestIds.nodup
    generalize hi : structOutReqBatchIndices out ids.zipIdx 0 ∅ = indices
    have hindices : ∀ p ∈ placesOf out ids, p.reqId ∈ out.structuredOutputRequestIds →
        indices.get? p.reqId = some p.logitStart := hi ▸
      (structOutReqBatchIndices_get? rfl (Nat.zero_add 0).symm h.nodup ∅).2
    -- the place of each request with structured output
    have hplace : ∀ e ∈ seq, ∃ p ∈ placesOf out ids, p.reqId = e.1 ∧
        indices.get? e.1 = some p.logitStart := by
      intro e he
      have hstruct := (hkeys e.1).mpr (mem_map_of_mem he)
      obtain ⟨p, hp, hpe⟩ := exists_place (hstructured e.1 hstruct)
      exact ⟨p, hp, hpe, hpe ▸ hindices p hp (hpe.symm ▸ hstruct)⟩
    let start : ReqId → Nat := fun id => indices.getD id 0
    have hstart : ∀ e ∈ seq, ∃ p ∈ placesOf out ids, p.reqId = e.1 ∧ start e.1 = p.logitStart ∧
        p.numDrafts = numDraftsOf out e.1 := by
      intro e he
      obtain ⟨p, hp, hpe, hget⟩ := hplace e he
      exact ⟨p, hp, hpe, Dict.getD_of_get? hget, hpe ▸ (mem_placesOf hp).2⟩
    obtain ⟨m', hm', hlen', houts, hfilled, hkept⟩ := @placeRequests_ok out rowss.flatten indices
      start seq rowss ⟨List.replicate logits.length fun _ => false, [], 0⟩ hnodup
      (fun e he => by
        obtain ⟨p, hp, hpe, hget⟩ := hplace e he
        rw [hget, show start e.1 = p.logitStart from Dict.getD_of_get? hget])
      (hrowss.imp fun e rows hrows => hrows.length)
      (fun e he => by
        obtain ⟨p, hp, hpe, hs, hn⟩ := hstart e he
        rw [hs, ← hn, List.length_replicate, hlogits]
        exact logits_bound hp)
      (fun e he e' he' j hj j' hj' heq => by
        obtain ⟨p, hp, hpe, hs, hn⟩ := hstart e he
        obtain ⟨p', hp', hpe', hs', hn'⟩ := hstart e' he'
        rw [hs, hs'] at heq
        rw [← hpe, ← hpe', place_unique hp hp' (hn ▸ hj) (hn' ▸ hj') heq])
      [] rfl rfl
    refine ⟨applyTokenBitmask logits m'.rows m'.outIndices, by rw [bind_of_ok hm']; rfl,
      fun p hp j hj x hx => ?_⟩
    have hlength : m'.rows.length = logits.length := by rw [hlen', List.length_replicate]
    have hlt := (List.getElem?_eq_some_iff.mp hx).1
    -- the rows that the loop has listed
    have hmem : p.logitStart + j ∈ m'.outIndices ↔ p.reqId ∈ out.structuredOutputRequestIds := by
      rw [houts, List.nil_append, List.mem_flatMap, hkeys]
      constructor
      · rintro ⟨e, he, hin⟩
        obtain ⟨p', hp', hpe', hs', hn'⟩ := hstart e he
        rw [List.mem_range'_1, hs', ← hn'] at hin
        have hj' : p.logitStart + j - p'.logitStart ≤ p'.numDrafts := by omega
        obtain rfl := place_unique hp hp' hj hj' (by omega)
        exact hpe'.symm ▸ mem_map_of_mem he
      · intro hstruct
        obtain ⟨e, he, hpe⟩ := mem_map.mp hstruct
        have hs : start e.1 = p.logitStart :=
          Dict.getD_of_get? (hpe ▸ hindices p hp ((hkeys p.reqId).mpr hstruct))
        have hn := (mem_placesOf hp).2
        exact ⟨e, he, by rw [List.mem_range'_1, hs, hpe, ← hn]; omega⟩
    split_ifs with hstruct
    · obtain ⟨e, he, hpe⟩ := mem_map.mp ((hkeys p.reqId).mp hstruct)
      obtain ⟨k, hk, rfl⟩ := List.getElem_of_mem he
      have hk' : k < rowss.length := hrowss.length_eq ▸ hk
      have hs : start seq[k].1 = p.logitStart := Dict.getD_of_get? (hpe ▸ hindices p hp hstruct)
      have hn := (mem_placesOf hp).2
      have hrows : MaskRows S sched out d seq[k].1 rowss[k] := hrowss.get hk hk'
      have hj' : j < rowss[k].length := by
        rw [hrows.length, hpe, ← hn]
        omega
      have hrow : m'.rows[p.logitStart + j]? = some rowss[k][j] := by
        rw [← getElem?_eq_getElem hj', ← hs]
        exact hfilled.get hk hk' j (by rw [List.get_eq_getElem, hpe, ← hn]; exact hj)
      refine ⟨rowss[k], rowss[k][j], hpe ▸ hrows, getElem?_eq_getElem hj', ?_⟩
      rw [happly.getElem? hlength hrow hx, if_pos (hmem.mpr hstruct)]
    · obtain ⟨row, hrow⟩ : ∃ row, m'.rows[p.logitStart + j]? = some row :=
        ⟨_, getElem?_eq_getElem (hlength ▸ hlt)⟩
      rw [happly.getElem? hlength hrow hx, if_neg (hmem.not.mpr hstruct)]

/-- **The logits of a step.** The rows of a request are for its last tokens, the targets of its drafts
first and the bonus row behind them; together they are all rows. The bitmask of the scheduler masks each
row of a request with structured output with the row filled for it, and no other row. -/
theorem logits_line_up (happly : AppliesBitmask maskRow applyTokenBitmask) (h : b.Lists ids)
    (hne : ids ≠ []) (hdrafts : ∀ id ∈ ids, (numDraftsOf out id : Int) + 1 ≤ tokensOf out id)
    (hscheduled : ∀ id ∈ out.scheduledSpecDecodeTokens, id ∈ ids)
    (hstructured : ∀ id ∈ out.structuredOutputRequestIds, id ∈ ids)
    {arangeLength : Nat} {inputIds : List TokenId}
    (harange : (ids.map (tokensOf out)).sum ≤ arangeLength)
    (hinput : (ids.map (tokensOf out)).sum ≤ inputIds.length) :
    ∃ numDrafts m, numDraftTokens b out = .ok numDrafts ∧
      calcSpecDecodeMetadata arangeLength inputIds numDrafts (cumsum (ids.map (tokensOf out))) = .ok m ∧
      m.logitsIndices =
        ((placesOf out ids).flatMap RowPlace.sampled).map (fun n : Nat => (n : Int)) ∧
      m.targetLogitsIndices =
        ((placesOf out ids).flatMap RowPlace.targets).map (fun n : Nat => (n : Int)) ∧
      m.bonusLogitsIndices = ((placesOf out ids).map RowPlace.bonus).map (fun n : Nat => (n : Int)) ∧
      (m.targetLogitsIndices ++ m.bonusLogitsIndices).Perm
        ((List.range m.logitsIndices.length).map fun n : Nat => (n : Int)) ∧
      m.draftTokenIds = (placesOf out ids).flatMap (fun p => p.drafts inputIds) ∧
      ∀ (sched : Scheduler) (d : Dict ReqId (StructuredOutputRequest Q)) mask d' (logits : List Λ),
        S.grammarBitmask sched out d = .ok (mask, d') → logits.length = m.logitsIndices.length →
        ∃ final, applyGrammarBitmask applyTokenBitmask b out mask logits = .ok final ∧
          ∀ p ∈ placesOf out ids, ∀ j ≤ p.numDrafts, ∀ x, logits[p.logitStart + j]? = some x →
            if p.reqId ∈ out.structuredOutputRequestIds then
              ∃ rows row, MaskRows S sched out d p.reqId rows ∧ rows[j]? = some row ∧
                final[p.logitStart + j]? = some (maskRow row x)
            else final[p.logitStart + j]? = some x := by
  have hnat : ∀ id ∈ ids, ((tokensOf out id).toNat : Int) = tokensOf out id := fun id hid =>
    Int.toNat_of_nonneg (by have := hdrafts id hid; omega)
  have hcounts : ids.map (tokensOf out) = counts ids fun id => (tokensOf out id).toNat :=
    List.map_congr_left fun id hid => (hnat id hid).symm
  rw [hcounts, sum_counts] at harange hinput
  rw [hcounts]
  have hlength : (((placesOf out ids).flatMap RowPlace.sampled).map fun n : Nat => (n : Int)).length =
      (ids.map fun id => numDraftsOf out id + 1).sum := by
    rw [List.length_map, List.length_flatMap, ← sum_rowPlaces fun n => n + 1]
    exact congrArg List.sum (List.map_congr_left fun p _ => by simp [RowPlace.sampled])
  refine ⟨_, _, numDraftTokens_ok h hscheduled, calcSpecDecodeMetadata_ok hne
    (fun id hid => by have := hdrafts id hid; have := hnat id hid; omega) (by exact_mod_cast harange)
    (by exact_mod_cast hinput), rfl, rfl, rfl, ?_, rfl, fun sched d mask d' logits hmask hlogits => ?_⟩
  · dsimp only
    rw [← List.map_append]
    exact (targets_bonus_perm _ _ ids).map _ |>.trans (.of_eq (by rw [← hlength]; rfl))
  · exact applyGrammarBitmask_ok happly h hstructured hmask (hlogits.trans hlength)

end Mask

/-- Three requests with 1, no and 2 drafts. The scheduler masks the last one before the first. -/
theorem logits_line_up_three :
    ∃ (b : InputBatch) (out : SchedulerOutput) (m : SpecDecodeMetadata),
      b.Lists [1, 2, 3] ∧ out.structuredOutputRequestIds.entries = [(1, 1), (3, 0)] ∧
      calcSpecDecodeMetadata 16 [10, 11, 12, 13, 20, 30, 31, 32, 33] [1, 0, 2] [4, 5, 9] = .ok m ∧
      m.logitsIndices = [2, 3, 4, 6, 7, 8] ∧ m.targetLogitsIndices = [0, 3, 4] ∧
      m.bonusLogitsIndices = [1, 2, 5] ∧ m.draftTokenIds = [13, 32, 33] := by
  let maskRow : BitmaskRow → List (Option Int) → List (Option Int) := fun row x =>
    x.zipIdx.map fun v => if row v.2 then v.1 else none
  let applyTokenBitmask : List (List (Option Int)) → List BitmaskRow → List Nat →
      List (List (Option Int)) := fun logits bitmask indices =>
    (logits.zip bitmask).zipIdx.map fun e => if e.2 ∈ indices then maskRow e.1.2 e.1.1 else e.1.1
  have happly : AppliesBitmask maskRow applyTokenBitmask := by
    constructor
    intro logits bitmask indices i row x _ hrow hx
    simp only [applyTokenBitmask, List.getElem?_map, List.getElem?_zipIdx, List.getElem?_zip_eq_some.mpr
      (show logits[i]? = some (x, row).1 ∧ bitmask[i]? = some (x, row).2 from ⟨hx, hrow⟩),
      Option.map_some, Nat.zero_add]
  let S : StructuredOutputManager Nat :=
    { acceptToken := fun q token => if token = q then some (q + 1) else none
      compileGrammar := fun _ => 30 }
  let out : SchedulerOutput :=
    { scheduledNewReqs := []
      scheduledCachedReqs := ⟨[], [], [], [], []⟩
      numScheduledTokens := Dict.ofEntries [(3, 4), (1, 4), (2, 1)]
      totalNumScheduledTokens := 9
      scheduledSpecDecodeTokens := Dict.ofEntries [(3, [32, 33]), (1, [13])]
      scheduledEncoderInputs := ∅
      numCommonPrefixBlocks := []
      finishedReqIds := []
      freeEncoderInputIds := []
      structuredOutputRequestIds := Dict.ofEntries [(1, 1), (3, 0)] }
  let b : InputBatch :=
    { row := fun _ => Row.new
        { maxNumReqs := 3, maxModelLen := 4, vocabSize := 4, maxNumBlocksPerReq := [2] }
      reqIds := [some 1, some 2, some 3]
      reqIdToIndex := Dict.ofEntries [(1, 0), (2, 1), (3, 2)] }
  have hlists : b.Lists [1, 2, 3] := by
    refine ⟨rfl, by decide, fun id i => ?_⟩
    rw [Dict.get?_eq_some_iff, show b.reqIdToIndex.entries = [(1, 0), (2, 1), (3, 2)] from rfl]
    rcases i with _ | _ | _ | i <;> simp [eq_comm]
  obtain ⟨numDrafts, m, hnum, hm, hlogits, htargets, hbonus, -, hdraftIds, -⟩ :=
    @logits_line_up b out [1, 2, 3] Nat (List (Option Int)) S maskRow applyTokenBitmask happly hlists
      (by decide) (by decide) (by decide) (by decide) 16 [10, 11, 12, 13, 20, 30, 31, 32, 33]
      (by decide) (by decide)
  obtain rfl : [1, 0, 2] = numDrafts := Except.ok.inj hnum
  exact ⟨b, out, m, hlists, rfl, hm, hlogits, htargets, hbonus, hdraftIds⟩

end InferenceServer.PersistentBatch
