import InferenceServer.Worker.ModelRunner

/-!
# Executions of the model runner

The model runner executes the outputs of the scheduler in their order. What it keeps of a request, it
keeps from the output that schedules the request for the first time, or encodes one of its items, to
the output that lists the request as finished.
-/

namespace InferenceServer

open Outcome

/-- **The states of a model runner** that has executed a list of outputs, with any samples. -/
inductive ModelRunner.Executed (isLastRank : Bool) : List SchedulerOutput → ModelRunner → Prop where
  | start : Executed isLastRank [] {}
  | next {outputs : List SchedulerOutput} {w w' : ModelRunner} {output : SchedulerOutput}
      {sampled : ReqId → List TokenId} {done : Dict ReqId PromptLogprobs}
      (h : Executed isLastRank outputs w)
      (hexec : w.executeModel output isLastRank sampled = .ok (done, w')) :
      Executed isLastRank (outputs ++ [output]) w'

namespace ModelRunner

variable {isLastRank : Bool} {w w' : ModelRunner} {output : SchedulerOutput}
  {sampled : ReqId → List TokenId} {done : Dict ReqId PromptLogprobs} {id rid : ReqId}
  {outputs : List SchedulerOutput}

/-- The last output was executed in the state after the others. -/
theorem executed_concat (h : Executed isLastRank (outputs ++ [output]) w') :
    ∃ w sampled done, Executed isLastRank outputs w ∧
      w.executeModel output isLastRank sampled = .ok (done, w') := by
  generalize hl : outputs ++ [output] = l at h
  cases h with
  | start => simp at hl
  | @next outputs₁ w _ output₁ sampled done h hexec =>
    obtain ⟨rfl, rfl⟩ := List.append_singleton_inj.mp hl
    exact ⟨w, sampled, done, h, hexec⟩

/-! ## The phases -/

theorem request_ok {r : CachedRequestState} (h : w.request rid = .ok r) :
    w.requests.get? rid = some r := by
  unfold request at h
  split at h
  next hget => rw [hget, Except.ok.inj h]
  next => cases h

/-- The cached state of one request changes. -/
theorem updateCachedRequest_ok {i : Nat} (h : updateCachedRequest output isLastRank i w = .ok w') :
    ∃ e r r', cachedRequestEntry isLastRank output.scheduledCachedReqs i = .ok e ∧
      w.requests.get? e.reqId = some r ∧ updatedState isLastRank r e = .ok r' ∧
      w' = { w with requests := w.requests.set e.reqId r' } := by
  obtain ⟨e, he, h₁⟩ := bind_eq_ok.mp h
  obtain ⟨r, hr, h₂⟩ := bind_eq_ok.mp h₁
  obtain ⟨r', hr', h₃⟩ := bind_eq_ok.mp h₂
  exact ⟨e, r, r', he, request_ok hr, hr', (pure_eq_ok.mp h₃).symm⟩

theorem addToBatch_ok (h : addToBatch rid w = .ok w') : ∃ r b, w.requests.get? rid = some r ∧
    w.inputBatch.addRequest r = .ok b ∧ w' = { w with inputBatch := b } := by
  obtain ⟨r, hr, h₁⟩ := bind_eq_ok.mp h
  obtain ⟨b, hb, h₂⟩ := bind_eq_ok.mp h₁
  exact ⟨r, b, request_ok hr, hb, (pure_eq_ok.mp h₂).symm⟩

/-- The phases of `_update_states` in front of its loops. -/
def enter (w : ModelRunner) (output : SchedulerOutput) : ModelRunner :=
  (((w.removeFinished output).freeEncoderOutputs output).removeUnscheduled output).addNewRequests
    output

/-- **`_update_states`**: the loop over the requests that have been scheduled before changes their
states, the loop over the requests to add changes the batch. -/
theorem updateStates_ok (h : w.updateStates output isLastRank = .ok w') :
    ∃ w₁, threadM (updateCachedRequest output isLastRank)
        (List.range output.scheduledCachedReqs.reqIds.length) (w.enter output) = .ok w₁ ∧
      threadM addToBatch ((w.enter output).reqIdsToAdd output) w₁ = .ok w' :=
  bind_eq_ok.mp h

theorem updateLoop_keys {l : List Nat} (h : threadM (updateCachedRequest output isLastRank) l w =
    .ok w') : w'.encoderCache = w.encoderCache ∧ w'.inputBatch = w.inputBatch ∧
      ∀ id, id ∈ w'.requests ↔ id ∈ w.requests := by
  refine threadM_invariant (I := fun _ (w' : ModelRunner) => w'.encoderCache = w.encoderCache ∧
    w'.inputBatch = w.inputBatch ∧ ∀ id, id ∈ w'.requests ↔ id ∈ w.requests)
    (fun i rest w₁ w₂ hI hstep => ?_) ⟨rfl, rfl, fun _ => Iff.rfl⟩ h
  obtain ⟨e, r, r', -, hr, -, rfl⟩ := updateCachedRequest_ok hstep
  refine ⟨hI.1, hI.2.1, fun id => ?_⟩
  rw [← hI.2.2, Dict.mem_set]
  exact or_iff_right_of_imp fun hid => hid ▸ Dict.mem_of_get? hr

theorem addLoop_keys {l : List ReqId} (h : threadM addToBatch l w = .ok w') :
    w'.encoderCache = w.encoderCache ∧ w'.requests = w.requests := by
  refine threadM_invariant (I := fun _ (w' : ModelRunner) => w'.encoderCache = w.encoderCache ∧
    w'.requests = w.requests) (fun rid rest w₁ w₂ hI hstep => ?_) ⟨rfl, rfl⟩ h
  obtain ⟨r, b, -, -, rfl⟩ := addToBatch_ok hstep
  exact hI

/-- The encoder outputs that are left after `_update_states`. -/
theorem updateStates_encoderCache (h : w.updateStates output isLastRank = .ok w') :
    w'.encoderCache = output.freeEncoderInputIds.foldl freeEncoderOutput
      (output.finishedReqIds.foldl Dict.erase w.encoderCache) := by
  obtain ⟨w₁, h₁, h₂⟩ := updateStates_ok h
  exact (addLoop_keys h₂).1.trans (updateLoop_keys h₁).1

theorem mem_foldl_ofNew {l : List NewRequestData} {d : Dict ReqId CachedRequestState} :
    id ∈ l.foldl (fun d e => d.set e.reqId (.ofNew e)) d ↔
      id ∈ l.map NewRequestData.reqId ∨ id ∈ d := by
  induction l generalizing d with
  | nil => simp
  | cons e l ih =>
    rw [List.foldl_cons, ih, Dict.mem_set, List.map_cons, List.mem_cons]
    tauto

/-- The requests with a state after `_update_states`. -/
theorem mem_updateStates (h : w.updateStates output isLastRank = .ok w') : id ∈ w'.requests ↔
    id ∈ output.scheduledNewReqs.map NewRequestData.reqId ∨
      (id ∉ output.finishedReqIds ∧ id ∈ w.requests) := by
  obtain ⟨w₁, h₁, h₂⟩ := updateStates_ok h
  rw [(addLoop_keys h₂).2, (updateLoop_keys h₁).2.2, ← Dict.mem_foldl_erase]
  exact mem_foldl_ofNew

variable {cache : Dict ReqId (Dict Nat EncoderOutput)}

theorem mem_freeEncoderOutput {e : ReqId × Nat}
    (h : id ∈ freeEncoderOutput cache e) : id ∈ cache := by
  unfold freeEncoderOutput at h
  split at h
  next => exact h
  next d hget =>
    split at h
    · exact (Dict.mem_erase.mp h).2
    · exact (Dict.mem_set.mp h).elim (fun hid => hid ▸ Dict.mem_of_get? hget) fun h => h

theorem mem_freeEncoderOutputs {l : List (ReqId × Nat)}
    (h : id ∈ l.foldl freeEncoderOutput cache) : id ∈ cache := by
  induction l generalizing cache with
  | nil => exact h
  | cons e l ih => exact mem_freeEncoderOutput (ih h)

theorem executeMmEncoder_ok (h : w.executeMmEncoder output = .ok w') :
    ∃ outputs, w.scheduledEncoderOutputs output.scheduledEncoderInputs.entries = .ok outputs ∧
      w' = { w with encoderCache := outputs.foldl cacheEncoderOutput w.encoderCache } := by
  obtain ⟨outputs, houts, h₁⟩ := bind_eq_ok.mp h
  exact ⟨outputs, houts, (pure_eq_ok.mp h₁).symm⟩

/-- The encoder runs on the inputs of the scheduled requests. -/
theorem mem_scheduledEncoderOutputs {l : List (ReqId × List Nat)}
    {outputs : List (ReqId × Nat × EncoderOutput)} (h : w.scheduledEncoderOutputs l = .ok outputs) :
    ∀ e ∈ outputs, ∃ inputs, (e.1, inputs) ∈ l ∧ e.2.1 ∈ inputs ∧ ∃ r,
      w.requests.get? e.1 = some r ∧ r.encode e.2.1 = .ok e.2.2 := by
  induction l generalizing outputs with
  | nil =>
    cases h
    simp
  | cons a l ih =>
    obtain ⟨rid, inputs⟩ := a
    obtain ⟨r, hr, h₁⟩ := bind_eq_ok.mp h
    obtain ⟨outs, houts, h₂⟩ := bind_eq_ok.mp h₁
    obtain ⟨rest, hrest, h₃⟩ := bind_eq_ok.mp h₂
    cases h₃
    intro e he
    rcases List.mem_append.mp he with he | he
    · obtain ⟨⟨i, out⟩, hmem, rfl⟩ := List.mem_map.mp he
      have hencode : r.encode i = .ok out := List.forall₂_zip (mapM_eq_ok.mp houts) hmem
      exact ⟨inputs, List.mem_cons_self, (List.of_mem_zip hmem).1, r, request_ok hr, hencode⟩
    · obtain ⟨inputs', hmem, h⟩ := ih hrest e he
      exact ⟨inputs', List.mem_cons_of_mem _ hmem, h⟩

theorem mem_cacheEncoderOutputs {l : List (ReqId × Nat × EncoderOutput)} :
    id ∈ l.foldl cacheEncoderOutput cache ↔ id ∈ l.map Prod.fst ∨ id ∈ cache := by
  induction l generalizing cache with
  | nil => simp
  | cons e l ih =>
    rw [List.foldl_cons, ih, cacheEncoderOutput, Dict.mem_set, List.map_cons, List.mem_cons]
    tauto

theorem getPromptLogprobsDict_ok (h : w.getPromptLogprobsDict output = .ok (done, w')) :
    ∃ b, w' = { w with inputBatch := b } := by
  obtain ⟨⟨inProgress, done'⟩, -, h₁⟩ := bind_eq_ok.mp h
  cases h₁
  exact ⟨_, rfl⟩

theorem cacheLoop_keys {l : List ReqId}
    (h : threadM (cacheSampledTokens output sampled) l w = .ok w') :
    w'.encoderCache = w.encoderCache ∧ ∀ id, id ∈ w'.requests ↔ id ∈ w.requests := by
  refine threadM_invariant (I := fun _ (w' : ModelRunner) => w'.encoderCache = w.encoderCache ∧
    ∀ id, id ∈ w'.requests ↔ id ∈ w.requests) (fun rid rest w₁ w₂ hI hstep => ?_)
    ⟨rfl, fun _ => Iff.rfl⟩ h
  unfold cacheSampledTokens at hstep
  split at hstep
  next => cases hstep
  next =>
    obtain ⟨r, hr, h₁⟩ := bind_eq_ok.mp hstep
    split at h₁
    · exact pure_eq_ok.mp h₁ ▸ hI
    · cases h₁
      refine ⟨hI.1, fun id => ?_⟩
      rw [← hI.2, Dict.mem_set]
      exact or_iff_right_of_imp fun hid => hid ▸ Dict.mem_of_get? (request_ok hr)

/-! ## One output -/

variable (h : w.executeModel output isLastRank sampled = .ok (done, w'))

include h

/-- **`execute_model`**, in phases. -/
theorem executeModel_ok : ∃ w₁, w.updateStates output isLastRank = .ok w₁ ∧
      ((output.totalNumScheduledTokens = 0 ∧ w' = w₁) ∨
        (output.totalNumScheduledTokens ≠ 0 ∧ ∃ w₂ slices w₃,
          w₁.executeMmEncoder output = .ok w₂ ∧ w₂.gatherMmEmbeddings output = .ok slices ∧
          w₂.getPromptLogprobsDict output = .ok (done, w₃) ∧
          threadM (cacheSampledTokens output sampled) w₃.inputBatch.reqIds w₃ = .ok w')) := by
  obtain ⟨w₁, h₁, h⟩ := bind_eq_ok.mp h
  refine ⟨w₁, h₁, ?_⟩
  split at h
  next htotal =>
    cases h
    exact .inl ⟨htotal, rfl⟩
  next htotal =>
    obtain ⟨w₂, h₂, h⟩ := bind_eq_ok.mp h
    obtain ⟨slices, h₃, h⟩ := bind_eq_ok.mp h
    obtain ⟨⟨done', w₃⟩, h₄, h⟩ := bind_eq_ok.mp h
    obtain ⟨w₄, h₅, h⟩ := bind_eq_ok.mp h
    cases h
    exact .inr ⟨htotal, w₂, slices, w₃, h₂, h₃, h₄, h₅⟩

/-- **The requests that have an entry** after an output: those of the output, and those that had one
and have not finished. -/
theorem mem_executeModel (id : ReqId) :
    (id ∈ w'.requests → id ∈ output.scheduledNewReqs.map NewRequestData.reqId ∨
      (id ∉ output.finishedReqIds ∧ id ∈ w.requests)) ∧
    (id ∈ w'.encoderCache → id ∈ output.scheduledEncoderInputs ∨
      (id ∉ output.finishedReqIds ∧ id ∈ w.encoderCache)) := by
  obtain ⟨w₁, h₁, hrest⟩ := executeModel_ok h
  have hcache : id ∈ w₁.encoderCache → id ∉ output.finishedReqIds ∧ id ∈ w.encoderCache := by
    rw [updateStates_encoderCache h₁, ← Dict.mem_foldl_erase]
    exact mem_freeEncoderOutputs
  rw [← mem_updateStates h₁]
  rcases hrest with ⟨-, rfl⟩ | ⟨-, w₂, slices, w₃, h₂, -, h₄, h₅⟩
  · exact ⟨fun h => h, fun h => .inr (hcache h)⟩
  · obtain ⟨outputs, houts, rfl⟩ := executeMmEncoder_ok h₂
    obtain ⟨b, rfl⟩ := getPromptLogprobsDict_ok h₄
    obtain ⟨henc, hreqs⟩ := cacheLoop_keys h₅
    refine ⟨(hreqs id).mp, fun hid => ?_⟩
    rw [henc, mem_cacheEncoderOutputs] at hid
    refine hid.imp (fun hid => ?_) hcache
    obtain ⟨e, he, rfl⟩ := List.mem_map.mp hid
    obtain ⟨inputs, hmem, -⟩ := mem_scheduledEncoderOutputs houts e he
    exact Dict.mem_entries_fst hmem

end ModelRunner

end InferenceServer
