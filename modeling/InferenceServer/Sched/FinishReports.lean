import InferenceServer.Sched.Placement

/-!
# The outputs of a request

`update_from_output` decides in `check_stop` whether a request is finished, and on other data whether
its client is told: an output is made if there are new tokens, a pooler output, or parameters of the
KV connector. For a request that generates, a stop comes with the token that caused it. A pooling
request has no tokens. It is also stopped by its length, and then its client is told only if the
pooler has an output for it: that is, if the step was the one that ends its prompt. A prompt of
`max_model_len` tokens in several chunks is stopped after the first one, and its client never hears of
it (`chunkedPrompt_silent`).

The second way to go wrong is the one of `SparesFinished`: a request whose blocks are kept for the
connector is still in `self.requests`, and a second step in flight gives it another output after the
one that said it was finished.

## Main results

* `reports_of_reach`, `chunkedPrompt_silent`
-/

namespace InferenceServer

open Outcome
open UpdatePass (allOutputs)

/-! ## The pooler -/

/-- A row of the input batch, for `_pool`: the request, how much of its prompt is computed after the
step, and the raw output of the pooler. -/
structure PoolRow where
  reqId : ReqId
  seqLen : Int
  promptLen : Nat
  rawOutput : List Int

/-- The entry of `pooler_output` for a row. -/
def PoolRow.output (row : PoolRow) : Option (List Int) :=
  if row.seqLen = row.promptLen then some row.rawOutput else none

/-- `_pool`. -/
def pool (rows : List PoolRow) (finishedSending finishedRecving : List ReqId) : ModelRunnerOutput where
  reqIdToIndex := rows.zipIdx.foldl (fun d e => d.set e.1.reqId e.2) ∅
  sampledTokenIds := []
  specTokenIds := none
  promptLogprobs := []
  poolerOutput := rows.map PoolRow.output
  finishedSending
  finishedRecving

/-- The computed tokens of a request before the step of an output. -/
def SchedulerOutput.numComputedTokens (output : SchedulerOutput) (id : ReqId) : Int :=
  match output.scheduledNewReqs.find? (·.reqId = id) with
  | some data => data.numComputedTokens
  | none =>
    match output.scheduledCachedReqs.reqIds.idxOf? id with
    | some i => output.scheduledCachedReqs.numComputedTokens.getD i 0
    | none => 0

/-- `seq_lens`, for a request of an output. -/
def SchedulerOutput.seqLen (output : SchedulerOutput) (id : ReqId) : Int :=
  output.numComputedTokens id + output.numScheduledTokens.getD id 0

/-- The result of the model runner is of the kind of the request. For a pooling request it is that of
`_pool`: no tokens, and a pooler output if the step ends the prompt. -/
def Request.AnsweredBy (r : Request) (output : SchedulerOutput) (m : ModelRunnerOutput) : Prop :=
  if r.poolingParams.isSome then
    m.sampledTokenIds = [] ∧ ∀ index ∈ m.reqIdToIndex.get? r.requestId,
      ∃ pooler ∈ m.poolerOutput[index]?,
        (pooler.isSome = true ↔ output.seqLen r.requestId = r.promptTokenIds.length)
  else m.poolerOutput = []

instance (r : Request) (output : SchedulerOutput) (m : ModelRunnerOutput) :
    Decidable (r.AnsweredBy output m) := by
  unfold Request.AnsweredBy
  infer_instance

/-! ## The condition and the property -/

/-- **The condition**, for one request. It arrives under a new identifier and is not aborted. Whenever
a result names it while it is in `self.requests`, it is not finished; and if it is a pooling request
whose prompt has the length of the model, the step ends the prompt. -/
def TellsClient (maxModelLen : Nat) (id : ReqId) (s : Engine) : EngineOp → Prop
  | .addRequest r => r.requestId ∉ s.added
  | .updateFromOutput _ m => ∀ output ∈ s.inFlight.head?, id ∈ output.numScheduledTokens.keys →
      id ∈ s.sched.requests →
        (s.sched.request id).AnsweredBy output m ∧ (s.sched.request id).isFinished = false ∧
        ((s.sched.request id).poolingParams.isSome = true →
          (s.sched.request id).promptTokenIds.length < maxModelLen ∨
            output.seqLen id = (s.sched.request id).promptTokenIds.length)
  | .finishRequests _ ids _ => id ∉ ids
  | .schedule _ => True

instance (maxModelLen : Nat) (id : ReqId) (s : Engine) (op : EngineOp) :
    Decidable (TellsClient maxModelLen id s op) := by
  refine op.casesOn ?_ ?_ ?_ ?_ <;> intros <;> unfold TellsClient <;> infer_instance

/-- The outputs of a request, in their order. -/
def outputsOf (id : ReqId) (outputs : List EngineCoreOutput) : List EngineCoreOutput :=
  outputs.filter (·.requestId = id)

/-- The output says that the request is finished, and carries the pooler output of a pooling request. -/
structure EngineCoreOutput.SaysFinished (o : EngineCoreOutput) (r : Request) : Prop where
  finishReason : o.finishReason = r.status.getFinishedReason
  isSome : o.finishReason.isSome = true
  poolingOutput : r.poolingParams.isSome = true → o.poolingOutput.isSome = true

/-- **What the outputs of a request say**: together they are its tokens; if it is finished, the last
one says so, and no other one does. -/
structure Engine.Reports (s : Engine) (id : ReqId) : Prop where
  tokens : (outputsOf id s.returned).flatMap (·.newTokenIds) = (s.sched.request id).outputTokenIds
  unfinished : (s.sched.request id).isFinished = false →
    ∀ o ∈ outputsOf id s.returned, o.finishReason = none
  finished : (s.sched.request id).isFinished = true →
    ∃ earlier last, outputsOf id s.returned = earlier ++ [last] ∧
      (∀ o ∈ earlier, o.finishReason = none) ∧ last.SaysFinished (s.sched.request id)

/-! ## What a call tells the client of a request -/

/-- A call has changed a request and made outputs for it. -/
structure Request.Told (r r' : Request) (outs : List EngineCoreOutput) : Prop where
  poolingParams : r'.poolingParams = r.poolingParams
  maxTokens : r'.maxTokens = r.maxTokens
  tokens : r'.outputTokenIds = r.outputTokenIds ++ outs.flatMap (·.newTokenIds)
  short : outs = [] ∨ ∃ o, outs = [o]
  unfinished : r'.isFinished = false → ∀ o ∈ outs, o.finishReason = none
  finished : r.isFinished = false → r'.isFinished = true → ∃ o, outs = [o] ∧ o.SaysFinished r'
  stays : r.isFinished = true → outs = [] ∧ r'.status = r.status

theorem Request.Told.refl (r : Request) : r.Told r [] :=
  ⟨rfl, rfl, by simp, .inl rfl, by simp, fun h h' => by simp [h] at h', fun _ => ⟨rfl, rfl⟩⟩

/-- A pooling request has no tokens, and may get one at most. -/
def Request.Pools (r : Request) : Prop :=
  r.poolingParams.isSome = true → r.maxTokens = 1 ∧ r.outputTokenIds = []

/-- The same request, to the scheduler's decision when to stop it. -/
structure Request.SameLimits (r r' : Request) : Prop where
  poolingParams : r'.poolingParams = r.poolingParams
  maxTokens : r'.maxTokens = r.maxTokens

theorem Request.SameLimits.refl (r : Request) : r.SameLimits r := ⟨rfl, rfl⟩

theorem Request.SameLimits.trans {r r' r'' : Request} (h : r.SameLimits r')
    (h' : r'.SameLimits r'') : r.SameLimits r'' :=
  ⟨h'.poolingParams.trans h.poolingParams, h'.maxTokens.trans h.maxTokens⟩

theorem RequestStatus.isSome_getFinishedReason (status : RequestStatus) :
    status.getFinishedReason.isSome = status.isFinished := by
  cases status <;> rfl

section Update

variable {H : BlockHasher} {C : SchedulerConfig} {E : Environment} {m : ModelRunnerOutput}
  {s s' : Scheduler} {u u' : UpdatePass} {rid id : ReqId} {index : Nat} {stopped : Bool}
  {generated appended : List TokenId} {pooler : Option (List Int)}

/-- New tokens come with at least one output token, and the limits stay. -/
theorem appendGenerated_limits
    (h : s.appendGenerated H C rid generated = .ok (s', appended, stopped)) :
    (s.request rid).SameLimits (s'.request rid) ∧ (stopped = true → appended ≠ []) := by
  unfold Scheduler.appendGenerated at h
  split at h
  · cases h
    exact ⟨.refl _, fun h => by simp at h⟩
  next hne =>
    obtain ⟨⟨r, ap, st⟩, hup, h⟩ := bind_eq_ok.mp h
    have hlimits : (s.request rid).SameLimits r ∧ (st = true → ap ≠ []) := by
      obtain ⟨t, ts, rfl⟩ := List.exists_cons_of_ne_nil hne
      obtain ⟨⟨st₁, r₁⟩, -, hup'⟩ := bind_eq_ok.mp hup
      have hap : ap ≠ [] := by
        cases st₁ with
        | true =>
          obtain ⟨-, rfl, -⟩ : r₁ = r ∧ [t] = ap ∧ true = st := by simpa using pure_eq_ok.mp hup'
          simp
        | false =>
          obtain ⟨⟨r₂, ts₂, st₂⟩, -, hup'⟩ := bind_eq_ok.mp hup'
          obtain ⟨-, rfl, -⟩ : r₂ = r ∧ t :: ts₂ = ap ∧ st₂ = st := by
            simpa using pure_eq_ok.mp hup'
          simp
      rcases Request.updateWithOutput_ok hup with ⟨-, -, rfl, -⟩ | ⟨-, -, ⟨status, reason, -, rfl⟩, -⟩
      · exact ⟨⟨rfl, rfl⟩, fun _ => hap⟩
      · exact ⟨⟨rfl, rfl⟩, fun _ => hap⟩
    dsimp only at h
    split at h
    · obtain ⟨_, -, h⟩ := bind_eq_ok.mp h
      split at h
      · obtain ⟨k, -, h⟩ := bind_eq_ok.mp h
        cases h
        rw [Scheduler.request_withKV, Scheduler.request_modify_self]
        exact ⟨⟨hlimits.1.poolingParams, hlimits.1.maxTokens⟩, hlimits.2⟩
      · cases h
        rw [Scheduler.request_modify_self]
        exact ⟨⟨hlimits.1.poolingParams, hlimits.1.maxTokens⟩, hlimits.2⟩
    · cases h
      rw [Scheduler.request_modify_self]
      exact hlimits

/-- The check of a pooling request: it stops if there is a pooler output, and not before its prompt
is computed if that is shorter than the model allows. -/
theorem Request.checkStop_pooling {r r' : Request} {maxModelLen : Nat}
    (hr : r.poolingParams.isSome = true) (hpools : r.Pools)
    (h : r.checkStop maxModelLen pooler = .ok (stopped, r')) :
    r.SameLimits r' ∧ (pooler.isSome = true → stopped = true) ∧
      (pooler = none → r.promptTokenIds.length < maxModelLen → stopped = false) := by
  obtain ⟨hmax, hout⟩ := hpools hr
  have hlimits : r.SameLimits r' := by
    rcases Request.checkStop_ok h with ⟨-, rfl⟩ | ⟨-, status, reason, -, rfl⟩ <;> exact ⟨rfl, rfl⟩
  unfold Request.checkStop at h
  split at h
  next hlen =>
    cases h
    refine ⟨hlimits, fun _ => rfl, fun _ hshort => ?_⟩
    simp only [Request.numTokens, Request.allTokenIds, Request.numOutputTokens, hout, hmax,
      List.append_nil, List.length_nil] at hlen
    omega
  · cases pooler with
    | some output =>
      cases h
      exact ⟨hlimits, fun _ => rfl, fun h => by cases h⟩
    | none =>
      cases h
      exact ⟨hlimits, fun h => by simp at h, fun _ _ => rfl⟩

/-- **A stop comes with something to tell**: a token, or the pooler output of a pooling request. -/
theorem stop_tells {output : SchedulerOutput} {s₁ s₂ : Scheduler} {st : Bool}
    (hname : (s.request rid).requestId = rid) (hpools : (s.request rid).Pools)
    (hanswer : (s.request rid).AnsweredBy output m)
    (hshort : (s.request rid).poolingParams.isSome = true →
      (s.request rid).promptTokenIds.length < C.maxModelLen ∨
        output.seqLen rid = (s.request rid).promptTokenIds.length)
    (hindex : m.reqIdToIndex.get? rid = some index) (hgen : m.generated index = .ok generated)
    (happ : s.appendGenerated H C rid generated = .ok (s₁, appended, st))
    (hpool : s₁.checkPooler C m rid index st = .ok (s₂, pooler, stopped)) :
    (s.request rid).SameLimits (s₂.request rid) ∧
      (stopped = true → appended ≠ [] ∨ pooler.isSome = true) ∧
      ((s.request rid).poolingParams.isSome = true →
        appended = [] ∧ (stopped = true → pooler.isSome = true)) := by
  unfold Request.AnsweredBy at hanswer
  split at hanswer
  next hr =>
    -- no tokens, so only the pooler output decides
    obtain ⟨hnone, hpooler⟩ := hanswer
    obtain ⟨p, hp, hiff⟩ := hpooler index (hname.symm ▸ hindex)
    have hgenerated : generated = [] := by
      rw [ModelRunnerOutput.generated, hnone] at hgen
      exact (Except.ok.inj hgen).symm
    subst hgenerated
    obtain ⟨rfl, rfl, rfl⟩ : s = s₁ ∧ [] = appended ∧ false = st := by
      simpa [Scheduler.appendGenerated] using happ
    unfold Scheduler.checkPooler at hpool
    split at hpool
    next hnil => simp [hnil] at hp
    next =>
      rw [Option.mem_def.mp hp] at hpool
      obtain ⟨⟨st', r'⟩, hcheck, hpool⟩ := bind_eq_ok.mp hpool
      obtain ⟨rfl, rfl, rfl⟩ := triple_of_ok hpool
      obtain ⟨hlimits, hsome, hnone⟩ := Request.checkStop_pooling hr hpools hcheck
      have hstop : st' = true → p.isSome = true := by
        intro hst
        by_contra hp'
        have hlt : (s.request rid).promptTokenIds.length < C.maxModelLen :=
          (hshort hr).resolve_right fun heq => hp' (hiff.mpr (hname.symm ▸ heq))
        simp [hnone (by simpa using hp') hlt] at hst
      rw [Scheduler.request_modify_self]
      exact ⟨hlimits, fun hst => .inr (hstop hst), fun _ => ⟨rfl, hstop⟩⟩
  next hr =>
    obtain ⟨hlimits, hne⟩ := appendGenerated_limits happ
    rw [Scheduler.checkPooler, hanswer] at hpool
    obtain ⟨rfl, rfl, rfl⟩ := triple_of_ok hpool
    exact ⟨hlimits, fun hst => .inl (hne hst), fun h => absurd h hr⟩

/-- The output that is made, if one is. -/
theorem emitOutput_told {params : Option KVTransferParams}
    (h : u.emitOutput m rid appended pooler params = .ok u') :
    ∃ outs, u'.allOutputs.Perm (u.allOutputs ++ outs) ∧
      (∀ o ∈ outs, o.requestId = rid ∧ o.newTokenIds = appended ∧
        o.finishReason = (u'.sched.request rid).status.getFinishedReason ∧
        o.poolingOutput = pooler) ∧
      ((outs = [] ∧ appended = [] ∧ pooler.isSome = false) ∨ ∃ o, outs = [o]) := by
  unfold UpdatePass.emitOutput at h
  split at h
  · cases h
    let r := u.sched.request rid
    let o : EngineCoreOutput :=
      { requestId := rid
        newTokenIds := appended
        finishReason := r.status.getFinishedReason
        poolingOutput := pooler
        stopReason := r.stopReason
        kvTransferParams := params
        numCachedTokens := r.numCachedTokens }
    refine ⟨[o], ?_, fun o' ho => ?_, .inr ⟨o, rfl⟩⟩
    · unfold allOutputs
      rw [← List.flatMap_def, ← List.flatMap_def]
      exact u.outputs.flatMap_set_append r.clientIndex o
    · obtain rfl := List.mem_singleton.mp ho
      exact ⟨rfl, rfl, rfl, rfl⟩
  next hnone =>
    obtain ⟨_, -, h⟩ := bind_eq_ok.mp h
    cases h
    push Not at hnone
    exact ⟨[], by simp, by simp, .inl ⟨rfl, hnone.1, by simpa using hnone.2.1⟩⟩

/-- **One round tells the client** of the request what has happened to it. -/
theorem applyTokens_told (output : SchedulerOutput)
    (hname : (u.sched.request rid).requestId = rid) (hpools : (u.sched.request rid).Pools)
    (hanswer : (u.sched.request rid).AnsweredBy output m)
    (hunf : (u.sched.request rid).isFinished = false)
    (hshort : (u.sched.request rid).poolingParams.isSome = true →
      (u.sched.request rid).promptTokenIds.length < C.maxModelLen ∨
        output.seqLen rid = (u.sched.request rid).promptTokenIds.length)
    (hindex : m.reqIdToIndex.get? rid = some index) (hgen : m.generated index = .ok generated)
    (h : u.applyTokens H C E m rid index generated = .ok u') :
    (u'.sched.request rid).Pools ∧ ∃ outs, u'.allOutputs.Perm (u.allOutputs ++ outs) ∧
      (∀ o ∈ outs, o.requestId = rid) ∧
      (u.sched.request rid).Told (u'.sched.request rid) outs := by
  obtain ⟨⟨s₁, appended, st⟩, happ, h⟩ := bind_eq_ok.mp h
  obtain ⟨⟨s₂, pooler, stopped⟩, hpool, h⟩ := bind_eq_ok.mp h
  obtain ⟨⟨params, u₁⟩, hfree, h⟩ := bind_eq_ok.mp h
  obtain ⟨s₄, hdrafts, h⟩ := bind_eq_ok.mp h
  obtain ⟨hlimits, htells, hpooling⟩ :=
    stop_tells hname hpools hanswer hshort hindex hgen happ hpool
  obtain ⟨-, htakes₁, hstops⟩ := appendGenerated_ok happ
  obtain ⟨-, htakes⟩ := checkPooler_ok htakes₁ hstops hpool
  obtain ⟨-, -, hobj, -, houtputs, -⟩ := freeStopped_ok hfree
  obtain ⟨-, n, hnans⟩ := recordNans_touches u₁.sched m rid
  obtain ⟨-, l, hspec⟩ := assignDrafts_ok hdrafts
  obtain ⟨hsched, -⟩ := emitOutput_ok h
  obtain ⟨outs, hperm, hout, hone⟩ := emitOutput_told h
  -- the request, up to its drafts
  have hrequest : u'.sched.request rid =
      { s₂.request rid with numNansInLogits := n, specTokenIds := l } := by
    rw [hsched, hspec, hnans, Scheduler.request_congr hobj]
  have htokens : (u'.sched.request rid).outputTokenIds =
      (u.sched.request rid).outputTokenIds ++ appended := by
    rw [hrequest]
    exact htakes.outputTokenIds
  have hlimits' : (u.sched.request rid).SameLimits (u'.sched.request rid) := by
    rw [hrequest]
    exact ⟨hlimits.poolingParams, hlimits.maxTokens⟩
  have hfinished : (u'.sched.request rid).isFinished = true → stopped = true := by
    intro hfin
    by_contra hst
    rw [hrequest] at hfin
    have hstatus := htakes.status (by simpa using hst)
    change (s₂.request rid).status.isFinished = true at hfin
    rw [hstatus] at hfin
    exact absurd hfin (by simpa [Request.isFinished] using hunf)
  have hflat : outs.flatMap (·.newTokenIds) = appended := by
    rcases hone with ⟨rfl, rfl, -⟩ | ⟨o, rfl⟩
    · rfl
    · simpa using (hout o (by simp)).2.1
  refine ⟨fun hr => ?_, outs, ?_, fun o ho => (hout o ho).1, hlimits'.poolingParams,
    hlimits'.maxTokens, htokens.trans (by rw [hflat]), hone.imp_left And.left, fun hu o ho => ?_, fun _ hfin => ?_,
    fun hfin => by simp [hunf] at hfin⟩
  · rw [hlimits'.poolingParams] at hr
    obtain ⟨hmax, hnil⟩ := hpools hr
    rw [hlimits'.maxTokens, htokens, hnil, (hpooling hr).1]
    exact ⟨hmax, rfl⟩
  · have hsame : u₁.allOutputs = u.allOutputs := by
      unfold allOutputs
      rw [houtputs]
    exact hsame ▸ hperm
  · rw [(hout o ho).2.2.1]
    have hnone := RequestStatus.isSome_getFinishedReason (u'.sched.request rid).status
    rw [show (u'.sched.request rid).status.isFinished = false from hu] at hnone
    simpa using hnone
  · have hst := hfinished hfin
    obtain ⟨o, rfl⟩ := hone.resolve_left fun hnone => by
      rcases htells hst with h | h
      · exact h hnone.2.1
      · simp [hnone.2.2] at h
    obtain ⟨-, -, hreason, hpo⟩ := hout o (by simp)
    refine ⟨o, rfl, hreason, ?_, fun hr => ?_⟩
    · rw [hreason, RequestStatus.isSome_getFinishedReason]
      exact hfin
    · rw [hpo]
      exact (hpooling (hlimits'.poolingParams ▸ hr)).2 hst

theorem Request.rejectDrafts_eq (r : Request) (drafts generated : List TokenId) :
    ∃ n, r.rejectDrafts drafts generated = { r with numComputedTokens := n } := by
  unfold Request.rejectDrafts
  split
  · exact ⟨_, rfl⟩
  · exact ⟨_, rfl⟩

theorem outputsOf_append (id : ReqId) (l l' : List EngineCoreOutput) :
    outputsOf id (l ++ l') = outputsOf id l ++ outputsOf id l' := List.filter_append ..

theorem outputsOf_eq_nil {l : List EngineCoreOutput} (h : ∀ o ∈ l, o.requestId ≠ id) :
    outputsOf id l = [] := List.filter_eq_nil_iff.mpr fun o ho => by simpa using h o ho

/-- The outputs of a round are for its request. -/
theorem applyTokens_outputs (h : u.applyTokens H C E m rid index generated = .ok u') :
    ∃ outs, u'.allOutputs.Perm (u.allOutputs ++ outs) ∧ ∀ o ∈ outs, o.requestId = rid := by
  obtain ⟨⟨s₁, appended, st⟩, -, h⟩ := bind_eq_ok.mp h
  obtain ⟨⟨s₂, pooler, stopped⟩, -, h⟩ := bind_eq_ok.mp h
  obtain ⟨⟨params, u₁⟩, hfree, h⟩ := bind_eq_ok.mp h
  obtain ⟨s₄, -, h⟩ := bind_eq_ok.mp h
  obtain ⟨-, -, -, -, houtputs, -⟩ := freeStopped_ok hfree
  obtain ⟨outs, hperm, hout, -⟩ := emitOutput_told h
  have hsame : u₁.allOutputs = u.allOutputs := by
    unfold allOutputs
    rw [houtputs]
  exact ⟨outs, hsame ▸ hperm, fun o ho => (hout o ho).1⟩

/-- What the loop has told the client of one request, with the requests `rest` still to visit. -/
structure UpdatePass.Tells (s : Scheduler) (id : ReqId) (rest : List (ReqId × Int)) (u : UpdatePass) :
    Prop where
  nodup : (rest.map Prod.fst).Nodup
  requests : ∀ id ∈ u.sched.requests, id ∈ s.requests
  absent : id ∉ s.requests → outputsOf id u.allOutputs = []
  before : id ∈ rest.map Prod.fst →
    u.sched.request id = s.request id ∧ outputsOf id u.allOutputs = []
  pools : (u.sched.request id).Pools
  told : (s.request id).Told (u.sched.request id) (outputsOf id u.allOutputs)

/-- What is required of a result for a request that it names. -/
structure Scheduler.Expects (C : SchedulerConfig) (s : Scheduler) (id : ReqId)
    (output : SchedulerOutput) (m : ModelRunnerOutput) : Prop where
  named : (s.request id).requestId = id
  answered : (s.request id).AnsweredBy output m
  unfinished : (s.request id).isFinished = false
  short : (s.request id).poolingParams.isSome = true →
    (s.request id).promptTokenIds.length < C.maxModelLen ∨
      output.seqLen id = (s.request id).promptTokenIds.length

/-- One round. -/
theorem UpdatePass.Tells.updateRequest {output : SchedulerOutput} {e : ReqId × Int}
    {rest : List (ReqId × Int)} (hok : e.1 = id → id ∈ s.requests → s.Expects C id output m)
    (h : UpdatePass.Tells s id (e :: rest) u)
    (hstep : UpdatePass.updateRequest H C E output m e u = .ok u') :
    UpdatePass.Tells s id rest u' := by
  obtain ⟨hnot, hnd⟩ := List.nodup_cons.mp h.nodup
  obtain ⟨-, ⟨-, rfl⟩ | ⟨hmem, index, generated, appended, stopped, hindex, hgen, ha⟩⟩ :=
    updateRequest_ok hstep
  · exact ⟨hnd, h.requests, h.absent, fun hid => h.before (List.mem_cons_of_mem _ hid), h.pools,
      h.told⟩
  · have hsub : ∀ id ∈ u'.sched.requests, id ∈ s.requests := fun id hid =>
      h.requests id (ha.records.kept hid).1
    by_cases hid : e.1 = id
    · subst hid
      obtain ⟨hrequest, hnil⟩ := h.before List.mem_cons_self
      have hexp := hok rfl (h.requests _ hmem)
      -- the round itself, from the request without its rejected drafts
      obtain ⟨_, -, hstep⟩ := bind_eq_ok.mp hstep
      rw [if_neg (not_not.mpr hmem), hindex] at hstep
      obtain ⟨generated', hgen', hstep⟩ := bind_eq_ok.mp hstep
      obtain ⟨n, hn⟩ := (s.request e.1).rejectDrafts_eq
        (output.scheduledSpecDecodeTokens.getD e.1 []) generated'
      have hstart : (u.sched.modify e.1 fun r => r.rejectDrafts
          (output.scheduledSpecDecodeTokens.getD e.1 []) generated').request e.1 =
            { s.request e.1 with numComputedTokens := n } := by
        rw [Scheduler.request_modify_self, hrequest, hn]
      obtain ⟨hpools, outs, hperm, houts, htold⟩ := applyTokens_told output
        (by rw [hstart]; exact hexp.named)
        (by rw [hstart]; exact hrequest ▸ h.pools) (by rw [hstart]; exact hexp.answered)
        (by rw [hstart]; exact hexp.unfinished) (by rw [hstart]; exact hexp.short) hindex hgen' hstep
      have hall : outputsOf e.1 u'.allOutputs = outs := by
        have hsame : outputsOf e.1 outs = outs :=
          List.filter_eq_self.mpr fun o ho => by simpa using houts o ho
        have hp := hperm.filter fun o => decide (o.requestId = e.1)
        rw [List.filter_append] at hp
        change (outputsOf e.1 u'.allOutputs).Perm
          (outputsOf e.1 u.allOutputs ++ outputsOf e.1 outs) at hp
        rw [hnil, hsame, List.nil_append] at hp
        rcases htold.short with rfl | ⟨o, rfl⟩
        · exact List.perm_nil.mp hp
        · exact List.perm_singleton.mp hp
      rw [hstart] at htold
      refine ⟨hnd, hsub, fun habs => absurd (h.requests _ hmem) habs, fun hmem => absurd hmem hnot,
        hpools, ?_⟩
      rw [hall]
      exact ⟨htold.poolingParams, htold.maxTokens, htold.tokens, htold.short, htold.unfinished,
        htold.finished, htold.stays⟩
    · -- the round of another request
      have hsame : u'.sched.request id = u.sched.request id := ha.others id (Ne.symm hid)
      have hall : outputsOf id u'.allOutputs = outputsOf id u.allOutputs := by
        obtain ⟨_, -, hstep⟩ := bind_eq_ok.mp hstep
        rw [if_neg (not_not.mpr hmem), hindex] at hstep
        obtain ⟨generated', -, hstep⟩ := bind_eq_ok.mp hstep
        obtain ⟨outs, hperm, houts⟩ := applyTokens_outputs hstep
        have hp := hperm.filter fun o => decide (o.requestId = id)
        rw [List.filter_append] at hp
        change (outputsOf id u'.allOutputs).Perm
          (outputsOf id u.allOutputs ++ outputsOf id outs) at hp
        have hothers : outputsOf id outs = [] := outputsOf_eq_nil fun o ho => houts o ho ▸ hid
        rw [hothers, List.append_nil] at hp
        rcases h.told.short with hnil | ⟨o, ho⟩
        · rw [hnil] at hp ⊢
          exact List.perm_nil.mp hp
        · rw [ho] at hp ⊢
          exact List.perm_singleton.mp hp
      refine ⟨hnd, hsub, fun habs => hall.trans (h.absent habs), fun hmem => ?_, hsame ▸ h.pools, ?_⟩
      · obtain ⟨hrequest, hnil⟩ := h.before (List.mem_cons_of_mem _ hmem)
        exact ⟨hsame.trans hrequest, hall.trans hnil⟩
      · rw [hsame, hall]
        exact h.told

/-- The outputs that are returned are those of the loop, in their order. -/
theorem allEngineCoreOutputs_eq {ecos : Dict Nat EngineCoreOutputs}
    (h : s.engineCoreOutputs u.outputs = (ecos, s')) : allEngineCoreOutputs ecos = u.allOutputs := by
  have hbase : allEngineCoreOutputs (u.outputs.mapValues fun outs =>
      ({ outputs := outs } : EngineCoreOutputs)) = u.allOutputs := by
    simp [allEngineCoreOutputs, allOutputs, Dict.mapValues, List.map_map,
      Function.comp_def]
  have hassign : ∀ (l : List (Nat × EngineCoreOutputs)) (client : Nat) (fin : List ReqId),
      ((Dict.assign l client { (Dict.find l client).getD {} with
        finishedRequests := some fin }).map fun e => e.2.outputs).flatten =
        (l.map fun e => e.2.outputs).flatten := by
    intro l client fin
    induction l with
    | nil => simp [Dict.assign, Dict.find]
    | cons e l ih =>
      by_cases hc : e.1 = client
      · simp [Dict.assign, Dict.find, hc]
      · simpa [Dict.assign, Dict.find, hc] using ih
  unfold Scheduler.engineCoreOutputs at h
  split at h
  · obtain ⟨rfl, -⟩ := Prod.mk.inj h
    exact hbase
  next d _ =>
    obtain ⟨rfl, -⟩ := Prod.mk.inj h
    rw [← hbase]
    generalize u.outputs.mapValues (fun outs => ({ outputs := outs } : EngineCoreOutputs)) = ecos
    induction d.entries generalizing ecos with
    | nil => rfl
    | cons e l ih =>
      rw [List.foldl_cons, ih]
      exact hassign ecos.entries e.1 e.2

/-- **A call of `update_from_output` tells the client of each request** what has happened to it. -/
theorem updateFromOutput_told {output : SchedulerOutput} {ecos : Dict Nat EngineCoreOutputs}
    (hok : id ∈ output.numScheduledTokens.keys → id ∈ s.requests → s.Expects C id output m)
    (hpools : (s.request id).Pools) (h : s.updateFromOutput H C E output m = .ok (ecos, s')) :
    (s'.request id).Pools ∧
      (s.request id).Told (s'.request id) (outputsOf id (allEngineCoreOutputs ecos)) ∧
      (id ∉ s.requests → outputsOf id (allEngineCoreOutputs ecos) = []) := by
  obtain ⟨u, hloop, h₁⟩ := bind_eq_ok.mp h
  obtain ⟨s₁, hstop, h₂⟩ := bind_eq_ok.mp h₁
  obtain ⟨s₂, hsent, h₃⟩ := bind_eq_ok.mp h₂
  have heco : s₂.engineCoreOutputs u.outputs = (ecos, s') := pure_eq_ok.mp h₃
  have hend := threadM_invariant
    (I := fun rest u => UpdatePass.Tells s id rest u ∧ ∀ e ∈ rest, e ∈ output.numScheduledTokens.entries)
    (fun e rest u u' hI hstep => ⟨hI.1.updateRequest (fun heq hmem => hok (by
        subst heq
        exact Dict.mem_entries_fst (hI.2 e List.mem_cons_self)) hmem) hstep,
      fun e' he' => hI.2 e' (List.mem_cons_of_mem _ he')⟩)
    ⟨⟨output.numScheduledTokens.nodup, fun _ h => h, fun _ => rfl, fun _ => ⟨rfl, rfl⟩, hpools,
      .refl _⟩, fun _ h => h⟩ hloop
  have hobj : s'.objects = u.sched.objects := by
    obtain ⟨w, rfl, -⟩ := removeWaiting_ok hstop
    obtain ⟨⟨d, rfl⟩, -⟩ := engineCoreOutputs_ok heco
    exact (updateFromKvXferFinished_ok hsent).objects
  rw [Scheduler.request_congr hobj, allEngineCoreOutputs_eq heco]
  exact ⟨hend.1.pools, hend.1.told, hend.1.absent⟩

end Update

/-! ## Scheduling -/

/-- Every request keeps its limits. -/
def Scheduler.SameLimits (s s' : Scheduler) : Prop :=
  ∀ id, (s.request id).SameLimits (s'.request id)

namespace Scheduler.SameLimits

variable {s s' s'' : Scheduler} {rid : ReqId} {f : Request → Request}

theorem refl (s : Scheduler) : s.SameLimits s := fun _ => .refl _

theorem trans (h : s.SameLimits s') (h' : s'.SameLimits s'') : s.SameLimits s'' :=
  fun id => (h id).trans (h' id)

theorem of_objects (h : s'.objects = s.objects) : s.SameLimits s' := fun id => by
  rw [request_congr h]
  exact .refl _

theorem of_modify (h : s'.objects = (s.modify rid f).objects)
    (hf : (s.request rid).SameLimits (f (s.request rid))) : s.SameLimits s' := fun id => by
  rw [request_congr h, request_modify]
  split
  next hid => exact hid ▸ hf
  next => exact .refl _

end Scheduler.SameLimits

section Schedule

variable {H : BlockHasher} {C : SchedulerConfig} {E : Environment} {s s' : Scheduler} {p p' : Pass}

/-- Every move keeps the limits of the requests. -/
theorem Pass.Move.sameLimits (hm : Pass.Move H C E p p') : p.sched.SameLimits p'.sched := by
  cases hm with
  | passOver => exact .refl _
  | @preempt rid v k s hat hpos halloc hv hs =>
    exact .of_modify (s := p.sched.withKV k) (Scheduler.preempt_ok hs).objects ⟨rfl, rfl⟩
  | @scheduleRunning rid blocks k hat hpos halloc =>
    refine .of_modify (s := (p.withKV k).sched) ((p.withKV k).scheduleRunning_effect rid
      (p.runningDemand C (p.sched.request rid)) blocks).objects ?_
    unfold Request.trimDrafts
    split <;> exact ⟨rfl, rfl⟩
  | recordLoras hl =>
    obtain ⟨loras, rfl⟩ := recordLoras_ok hl
    exact .refl _
  | @resolveStatus rid ready s hat hres =>
    rcases resolveStatus_ok hres with rfl | ⟨-, n, s₁, hrec, rfl⟩ | ⟨-, rfl⟩
    · exact .refl _
    · exact (Scheduler.SameLimits.of_modify hrec.objects ⟨rfl, rfl⟩).trans
        (.of_modify rfl ⟨rfl, rfl⟩)
    · exact .of_modify rfl ⟨rfl, rfl⟩
  | skip hat hskip =>
    obtain ⟨e, w, sk, -, -, rfl⟩ := skipWaiting_ok hskip
    exact .of_objects rfl
  | lookUp hat hct =>
    obtain ⟨k, rfl, -⟩ := getComputedTokens_ok hct
    exact .of_objects rfl
  | noSlots hat halloc => exact .of_objects rfl
  | @park _ rid ct s₀ d blocks k hat hct hd hasync halloc hp =>
    obtain ⟨p₁, hskip, rfl⟩ := parkRemote_ok hp
    obtain ⟨e, w, sk, -, -, rfl⟩ := skipWaiting_ok hskip
    exact .of_modify (f := fun r => r.withStatus .waitingForRemoteKvs) rfl ⟨rfl, rfl⟩
  | @admitWaiting _ rid ct s₀ d blocks k hat hct hd hasync halloc ha =>
    exact .of_modify (s := (p.withKV k).sched) (admit_ok ha).objects ⟨rfl, rfl⟩

theorem schedule_sameLimits {output : SchedulerOutput} (hn : s.running.Nodup)
    (h : s.schedule H C E = .ok (output, s')) : s.SameLimits s' := by
  obtain ⟨p, hp⟩ := schedule_ok h
  obtain ⟨p₁, hlimits, hrestore⟩ := schedulePass_invariant (I := fun p => s.SameLimits p.sched)
    hn hp.pass (.refl s) fun _ _ hI hm => hI.trans hm.move.sameLimits
  obtain ⟨w, rfl, -⟩ := restoreSkipped_ok hrestore
  refine hlimits.trans fun id => ?_
  obtain ⟨n, hreq, -⟩ := hp.advances.request id
  rw [hreq]
  exact ⟨rfl, rfl⟩

end Schedule

/-! ## Runs -/

section Runs

variable {H : BlockHasher} {C : SchedulerConfig} {s s' t : Engine} {s₀ : Scheduler} {id : ReqId}

/-- What holds of a request in every run: before it arrives there are no outputs, and from then on
its outputs say what they should. -/
structure Engine.Informs (s : Engine) (id : ReqId) : Prop where
  absent : id ∉ s.added → outputsOf id s.returned = []
  pools : (s.sched.request id).Pools
  reports : id ∈ s.added → s.Reports id

/-- The outputs still say what they should after a call that tells the client. -/
theorem Engine.Reports.told {outs : List EngineCoreOutput} (h : s.Reports id)
    (ht : (s.sched.request id).Told (s'.sched.request id) (outputsOf id outs))
    (hret : s'.returned = s.returned ++ outs) : s'.Reports id := by
  have houts : outputsOf id s'.returned = outputsOf id s.returned ++ outputsOf id outs := by
    rw [hret, outputsOf_append]
  refine ⟨?_, fun hunf o ho => ?_, fun hfin => ?_⟩
  · rw [houts, List.flatMap_append, h.tokens, ht.tokens]
  · have hunf' : (s.sched.request id).isFinished = false := by
      rw [Bool.eq_false_iff]
      intro hfin
      have hst := (ht.stays hfin).2
      rw [Request.isFinished, hst] at hunf
      exact absurd hfin (by simpa [Request.isFinished] using hunf)
    rw [houts] at ho
    rcases List.mem_append.mp ho with ho | ho
    · exact h.unfinished hunf' o ho
    · exact ht.unfinished hunf o ho
  · cases hwas : (s.sched.request id).isFinished with
    | false =>
      obtain ⟨o, ho, hsays⟩ := ht.finished hwas hfin
      exact ⟨_, o, by rw [houts, ho], h.unfinished hwas, hsays⟩
    | true =>
      obtain ⟨hnil, hst⟩ := ht.stays hwas
      obtain ⟨earlier, last, heq, hearlier, hlast⟩ := h.finished hwas
      refine ⟨earlier, last, by rw [houts, hnil, List.append_nil, heq], hearlier, ?_, hlast.isSome,
        fun hr => hlast.poolingOutput (ht.poolingParams ▸ hr)⟩
      rw [hst]
      exact hlast.finishReason

/-- A call that leaves the tokens and the status of a request, and returns nothing. -/
theorem Engine.Reports.of_same (h : s.Reports id) (hret : s'.returned = s.returned)
    (htokens : (s'.sched.request id).outputTokenIds = (s.sched.request id).outputTokenIds)
    (hfin : (s'.sched.request id).isFinished = (s.sched.request id).isFinished)
    (hstatus : (s.sched.request id).isFinished = true →
      (s'.sched.request id).status = (s.sched.request id).status)
    (hpool : (s'.sched.request id).poolingParams = (s.sched.request id).poolingParams) :
    s'.Reports id := by
  refine ⟨by rw [hret, htokens, h.tokens], fun hunf => ?_, fun hfin' => ?_⟩
  · rw [hret]
    exact h.unfinished (hfin ▸ hunf)
  · obtain ⟨earlier, last, heq, hearlier, hlast⟩ := h.finished (hfin ▸ hfin')
    refine ⟨earlier, last, hret ▸ heq, hearlier, ?_, hlast.isSome,
      fun hr => hlast.poolingOutput (hpool ▸ hr)⟩
    rw [hstatus (hfin ▸ hfin')]
    exact hlast.finishReason

/-- The request that the result names is expected. -/
theorem TellsClient.expects {E : Environment} {m : ModelRunnerOutput} {output : SchedulerOutput}
    {inFlight : List SchedulerOutput} (h : s.Placed)
    (hok : TellsClient C.maxModelLen id s (.updateFromOutput E m))
    (hin : s.inFlight = output :: inFlight) (hid : id ∈ output.numScheduledTokens.keys)
    (hreq : id ∈ s.sched.requests) : s.sched.Expects C id output m := by
  obtain ⟨hanswer, hunf, hshort⟩ := hok output (by simp [hin]) hid hreq
  exact ⟨h.places.named id (h.accounts.mem_objects id hreq), hanswer, hunf, hshort⟩

/-- **Every call that meets the condition** keeps the outputs in step with the request. -/
theorem Engine.Informs.step (h : s.Informs id) (hplaced : s.Placed) {op : EngineOp}
    (hok : TellsClient C.maxModelLen id s op) (hstep : s.step H C op = .ok s') : s'.Informs id := by
  cases Engine.step_cases hstep with
  | @addRequest r sched hadd =>
    have hrequest := (addRequest_ok hadd).request id
    rw [Request.requestId_new] at hrequest
    by_cases hid : id = r.requestId
    · subst hid
      rw [if_pos rfl] at hrequest
      have hnil := h.absent hok
      refine ⟨fun hnot => absurd (List.mem_append_right _ (by simp)) hnot, ?_, fun _ => ⟨?_, ?_, ?_⟩⟩
      · dsimp only
        rw [hrequest]
        exact fun hr => ⟨if_pos hr, rfl⟩
      · dsimp only
        rw [hnil, hrequest]
        rfl
      · intro _ o ho
        rw [hnil] at ho
        cases ho
      · intro hfin
        rw [hrequest, r.isFinished_new] at hfin
        cases hfin
    · rw [if_neg hid] at hrequest
      refine ⟨fun hnot => h.absent fun hmem => hnot (List.mem_append_left _ hmem), ?_,
        fun hmem => ?_⟩
      · dsimp only
        rw [hrequest]
        exact h.pools
      · have hmem' : id ∈ s.added := by simpa [hid] using hmem
        exact (h.reports hmem').of_same rfl (by rw [hrequest]) (by rw [hrequest])
          (fun _ => by rw [hrequest]) (by rw [hrequest])
  | schedule hsched =>
    obtain ⟨-, -, -, hreq⟩ := schedule_places hplaced.places hplaced.accounts.mem_objects hsched
    have hlimits := schedule_sameLimits hplaced.places.nodupR hsched id
    refine ⟨h.absent, fun hr => ?_, fun hmem => (h.reports hmem).of_same rfl (hreq id).outputTokenIds
      (hreq id).isFinished (hreq id).status hlimits.poolingParams⟩
    rw [hlimits.maxTokens, (hreq id).outputTokenIds]
    exact h.pools (hlimits.poolingParams ▸ hr)
  | updateFromOutput hin hup =>
    obtain ⟨hpools, htold, habsent⟩ := updateFromOutput_told
      (fun hid hreq => hok.expects hplaced hin hid hreq) h.pools hup
    refine ⟨fun hnot => ?_, hpools, fun hmem => (h.reports hmem).told htold rfl⟩
    have hreq : id ∉ s.sched.requests := fun hreq =>
      hnot ((hplaced.added id).mp (hplaced.accounts.mem_objects id hreq))
    rw [outputsOf_append, h.absent hnot, habsent hreq]
    rfl
  | @finishRequests _ _ _ sched hfin =>
    obtain ⟨-, valid, -, hvalid, w, -, hloop⟩ := finishRequests_ok hplaced.places.nodupR hfin
    have hsame : sched.request id = s.sched.request id :=
      (threadM_invariant
        (I := fun rest s₁ => s₁.request id = s.sched.request id ∧ ∀ rid ∈ rest, rid ∈ valid)
        (fun rid rest s₁ s₂ hI hstep => by
          refine ⟨?_, fun rid' hrid => hI.2 rid' (List.mem_cons_of_mem _ hrid)⟩
          have hne : id ≠ rid := by
            rintro rfl
            exact hok ((hvalid id).mp (hI.2 id List.mem_cons_self)).1
          rw [Scheduler.request_congr (finishRequest_ok hstep).1, Scheduler.request_modify_ne hne]
          exact hI.1)
        ⟨rfl, fun _ h => h⟩ hloop).1
    refine ⟨h.absent, ?_, fun hmem => (h.reports hmem).of_same rfl ?_ ?_ (fun _ => ?_) ?_⟩
    · dsimp only
      rw [hsame]
      exact h.pools
    all_goals dsimp only; rw [hsame]

theorem Engine.informs_init (hinit : Scheduler.init C = .ok s₀) (id : ReqId) :
    Engine.Informs { sched := s₀ } id := by
  have hnone : id ∉ s₀.objects := fun hid =>
    absurd (((Engine.placed_init hinit).added id).mp hid) List.not_mem_nil
  refine ⟨fun _ => rfl, ?_, fun h => absurd h List.not_mem_nil⟩
  have hdefault : s₀.request id = default := Dict.getD_of_none (Dict.get?_eq_none_iff.mpr hnone)
  rw [hdefault]
  exact fun h => by cases h

/-- **A finished request says so exactly once.** In every run that meets the condition for a request,
its outputs are its tokens, exactly the last one says that it is finished, if it is; and a call in which
it finishes makes exactly one output for it. -/
theorem reports_of_reach (hinit : Scheduler.init C = .ok s₀)
    (hs : (engineMachine H C s₀).Reach (TellsClient C.maxModelLen id) s) (hid : id ∈ s.added) :
    s.Reports id ∧ ∀ E m s', TellsClient C.maxModelLen id s (.updateFromOutput E m) →
      s.step H C (.updateFromOutput E m) = .ok s' → (s.sched.request id).isFinished = false →
      (s'.sched.request id).isFinished = true →
      ∃ outs o, s'.returned = s.returned ++ outs ∧ outputsOf id outs = [o] ∧
        o.SaysFinished (s'.sched.request id) := by
  have hfresh : ∀ (s : Engine) op, TellsClient C.maxModelLen id s op → FreshIds s op := by
    intro s op hok
    cases op with
    | addRequest r => exact hok
    | schedule | updateFromOutput | finishRequests => trivial
  obtain ⟨hplaced, hinforms⟩ := hs.invariant (I := fun s => s.Placed ∧ s.Informs id)
    ⟨Engine.placed_init hinit, Engine.informs_init hinit id⟩
    fun s op t hI hok hstep => ⟨hI.1.step (hfresh s op hok) hstep, hI.2.step hI.1 hok hstep⟩
  refine ⟨hinforms.reports hid, fun E m s' hok hstep hunf hfin => ?_⟩
  obtain ⟨output, inFlight, outputs, sched, hin, hup, rfl⟩ := Engine.step_updateFromOutput hstep
  obtain ⟨-, htold, -⟩ := updateFromOutput_told
    (fun hid hreq => hok.expects hplaced hin hid hreq) hinforms.pools hup
  obtain ⟨o, ho, hsays⟩ := htold.finished hunf hfin
  exact ⟨_, o, rfl, ho, hsays⟩

/-- A pooling request with a prompt in chunks of two tokens. -/
def chunkedPrompt (promptTokenIds : List TokenId) : List EngineOp :=
  [.addRequest { requestId := 1, promptTokenIds, poolingParams := some ⟨"embed"⟩ },
   .schedule {}, .schedule {},
   .updateFromOutput {} (pool [⟨1, 2, promptTokenIds.length, [7]⟩] [] [])]

def chunkedConfig : SchedulerConfig := { pairConfig 8 4 with longPrefillTokenThreshold := 2 }

/-- The theorem on a prompt of three tokens, with both chunks in flight at once. -/
theorem reports_chunkedPrompt :
    ∃ (s₀ : Scheduler) (s : Engine),
      (engineMachine .encoding chunkedConfig s₀).Reach (TellsClient 4 1) s ∧
      (s.sched.request 1).isFinished = true ∧ s.Reports 1 := by
  obtain ⟨s₀, s, hinit, hreach, hadded, hfin⟩ := exists_runEngine .encoding chunkedConfig
    (TellsClient 4 1)
    (chunkedPrompt [1, 2, 3] ++ [.updateFromOutput {} (pool [⟨1, 3, 3, [9]⟩] [] [])])
    (fun s => 1 ∈ s.added ∧ (s.sched.request 1).isFinished = true) (by decide +kernel)
  have hreports := (reports_of_reach hinit hreach hadded).1
  exact ⟨s₀, s, hreach, hfin, hreports⟩

/-- The results are those of the model runner, and name no finished request. -/
def AnswersRequests (s : Engine) : EngineOp → Prop
  | .updateFromOutput _ m => ∀ output ∈ s.inFlight.head?, ∀ id ∈ output.numScheduledTokens.keys,
      id ∈ s.sched.requests →
        (s.sched.request id).AnsweredBy output m ∧ (s.sched.request id).isFinished = false
  | .addRequest r => r.requestId ∉ s.added
  | .schedule _ => True
  | .finishRequests .. => False

instance (s : Engine) (op : EngineOp) : Decidable (AnswersRequests s op) := by
  refine op.casesOn ?_ ?_ ?_ ?_ <;> intros <;> unfold AnswersRequests <;> infer_instance

/-- **Without the condition**, a pooling request is finished after its first chunk, and nobody is told.
-/
theorem chunkedPrompt_silent :
    ∃ (H : BlockHasher) (C : SchedulerConfig) (s₀ : Scheduler) (s : Engine),
      Scheduler.init C = .ok s₀ ∧ (engineMachine H C s₀).Reach AnswersRequests s ∧ 1 ∈ s.added ∧
      (s.sched.request 1).promptTokenIds.length = C.maxModelLen ∧
      (s.sched.request 1).isFinished = true ∧ 1 ∉ s.sched.requests ∧
      outputsOf 1 s.returned = [] ∧ ¬s.Reports 1 := by
  obtain ⟨s₀, s, hinit, hreach, hadded, hlen, hfin, hgone, hnil⟩ := exists_runEngine .encoding
    chunkedConfig AnswersRequests (chunkedPrompt [1, 2, 3, 4]) (fun s => 1 ∈ s.added ∧
      (s.sched.request 1).promptTokenIds.length = chunkedConfig.maxModelLen ∧
      (s.sched.request 1).isFinished = true ∧ 1 ∉ s.sched.requests ∧ outputsOf 1 s.returned = [])
    (by decide +kernel)
  refine ⟨.encoding, chunkedConfig, s₀, s, hinit, hreach, hadded, hlen, hfin, hgone, hnil,
    fun hreports => ?_⟩
  obtain ⟨earlier, last, heq, -⟩ := hreports.finished hfin
  rw [hnil] at heq
  cases earlier <;> cases heq

end Runs

end InferenceServer
