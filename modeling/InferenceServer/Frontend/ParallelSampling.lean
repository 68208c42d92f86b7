import InferenceServer.Frontend.AsyncLLM
import Mathlib.Data.Set.List

/-!
# Parallel sampling

A request with `n > 1` is answered by the last of its children that finishes. `ParentRequest` keeps
the children that are outstanding, and takes the request for finished when there is none. The set is
filled by `add_request`, one child at a time, while the outputs of the children already registered are
processed: a child that finishes while it is the only one registered empties the set before the
others have entered it, and the request is reported as finished too early, and once more later.

The request completes exactly once in the interleavings in which this does not happen
(`OutstandingChildRemains`).
-/

namespace InferenceServer.Frontend

open Outcome

variable {D : Type} {I : IncrementalDetokenizer D}

/-! ## The statement -/

section Statement

variable (I) (s : AsyncLLM D) (c : CallId)

/-- The outputs with `finished = True` that the collector of the call has received. -/
def AsyncLLM.finishedOutputs : List RequestOutput :=
  ((s.received.filter fun e => e.1 = c).map Prod.snd).filter RequestOutput.finished

/-- All `n` children of the call have finished. -/
def AsyncLLM.AllFinished (n : Nat) : Prop := ∀ i < n, (c, i) ∈ s.finishedChildren

/-- The output has the completions `0, …, n - 1`, in this order. -/
def RequestOutput.Complete (o : RequestOutput) (n : Nat) : Prop :=
  ∃ l : List CompletionOutput, o.outputs = l.map some ∧ l.map CompletionOutput.index = List.range n

/-- **The request completes once**: its collector receives one finished output, when all children have
finished, and then nothing is left of the request. -/
structure CompletesOnce (p : ParentRequest) : Prop where
  before : ¬ s.AllFinished c p.n → s.finishedOutputs c = []
  after : s.AllFinished c p.n → (s.finishedOutputs c).length = 1
  complete : p.samplingParams.outputKind = .finalOnly →
    ∀ o ∈ s.finishedOutputs c, o.Complete p.n
  parentRequests : s.AllFinished c p.n → ∀ id, s.parentRequests.get? id ≠ some c
  requestStates : s.AllFinished c p.n → ∀ id rs, s.requestStates.get? id = some rs →
    rs.parentReq ≠ some c ∧ rs.queue ≠ c

/-- The output finishes the request, or the detokenizer finds a stop string. -/
def RequestState.finishes (rs : RequestState D) (o : EngineCoreOutput) : Bool :=
  match rs.detokenize I o with
  | .ok ((finishReason, _), _) => finishReason.isSome
  | .error _ => false

/-- A pooling output is one of a pooling request. -/
def AsyncLLM.Delivers (o : EngineCoreOutput) : Prop :=
  ∀ rs ∈ s.requestStates.get? o.requestId, o.poolingOutput.isSome → rs.detokenizer = none

/-- The output finishes a child of a call that is still fanning out, and no other child of the call
is outstanding. -/
def AsyncLLM.FinishesAlone (o : EngineCoreOutput) : Prop :=
  ∃ rs ∈ s.requestStates.get? o.requestId, rs.finishes I o ∧ ∃ c ∈ rs.parentReq,
    c ∈ s.fanOuts ∧ ∃ p ∈ s.parents.get? c, ∀ id ∈ p.childRequests, id = rs.requestId

/-- What holds before each round of `process_outputs`. -/
def AsyncLLM.Rounds (P : AsyncLLM D → EngineCoreOutput → Prop) :
    AsyncLLM D → List EngineCoreOutput → Prop
  | _, [] => True
  | s, o :: rest => P s o ∧
    match s.processOutput I o with
    | .ok s' => Rounds P s' rest
    | .error _ => True

/-- The outputs are of the kind of their requests. -/
def WellTypedOutputs (s : AsyncLLM D) : AsyncOp → Prop
  | .processOutputs outputs => AsyncLLM.Rounds I AsyncLLM.Delivers s outputs
  | _ => True

/-- **The condition**: while a call is fanning out, another child of it is outstanding when one
finishes. -/
def OutstandingChildRemains (s : AsyncLLM D) : AsyncOp → Prop
  | .processOutputs outputs =>
    AsyncLLM.Rounds I (fun s o => s.Delivers o ∧ ¬ s.FinishesAlone I o) s outputs
  | _ => True

instance (o : EngineCoreOutput) : Decidable (s.Delivers o) := by
  unfold AsyncLLM.Delivers
  infer_instance

instance (o : EngineCoreOutput) : Decidable (s.FinishesAlone I o) := by
  unfold AsyncLLM.FinishesAlone
  infer_instance

instance AsyncLLM.decidableRounds (P : AsyncLLM D → EngineCoreOutput → Prop)
    [∀ s o, Decidable (P s o)] : ∀ s outputs, Decidable (AsyncLLM.Rounds I P s outputs)
  | _, [] => inferInstanceAs (Decidable True)
  | s, o :: rest =>
    have : Decidable (match s.processOutput I o with
      | .ok s' => AsyncLLM.Rounds I P s' rest
      | .error _ => True) :=
      match s.processOutput I o with
      | .ok s' => AsyncLLM.decidableRounds P s' rest
      | .error _ => inferInstanceAs (Decidable True)
    inferInstanceAs (Decidable (_ ∧ _))

instance (s : AsyncLLM D) (op : AsyncOp) : Decidable (WellTypedOutputs I s op) := by
  cases op <;> unfold WellTypedOutputs <;> infer_instance

instance (s : AsyncLLM D) (op : AsyncOp) : Decidable (OutstandingChildRemains I s op) := by
  cases op <;> unfold OutstandingChildRemains <;> infer_instance

end Statement

/-! ## What the calls do -/

namespace ParentRequest

variable {p p' : ParentRequest} {c : CompletionOutput} {childId : RequestId} {i j : Nat}

theorem childReqId_inj : p.childReqId i = p.childReqId j ↔ i = j := by
  refine ⟨fun h => ?_, fun h => h ▸ rfl⟩
  have hrepr : i.repr = j.repr :=
    (String.append_left_inj _).mp ((String.append_left_inj _).mp h)
  have hdigits : Nat.toDigits 10 i = Nat.toDigits 10 j := by
    rw [← Nat.toList_repr, hrepr, Nat.toList_repr]
  rw [← @Nat.ofDigitChars_ten_toDigits i, hdigits, Nat.ofDigitChars_ten_toDigits]

/-- The identity and the parameters of the parent, which never change. -/
structure Same (p p' : ParentRequest) : Prop where
  requestId : p'.requestId = p.requestId
  samplingParams : p'.samplingParams = p.samplingParams

theorem Same.n (h : p.Same p') : p'.n = p.n := congrArg SamplingParams.n h.samplingParams

theorem Same.childReqId (h : p.Same p') : p'.childReqId = p.childReqId := funext fun i => by
  rw [ParentRequest.childReqId, h.requestId]
  rfl

/-- **What `get_child_info` does**: the child joins the set. -/
structure Adds (p : ParentRequest) (index : Nat) (p' : ParentRequest) : Prop extends
    Same p p' where
  outputAggregator : p'.outputAggregator = p.outputAggregator
  childRequests : ∀ id, id ∈ p'.childRequests ↔ id = p.childReqId index ∨ id ∈ p.childRequests

/-- The parameters that are kept for the children are those of the parent. -/
def CachesKind (p : ParentRequest) : Prop :=
  ∀ params ∈ p.cachedChildSamplingParams, params.outputKind = p.samplingParams.outputKind

theorem getChildSamplingParams_ok (index : Nat) (hc : p.CachesKind) :
    (p.getChildSamplingParams index).1.outputKind = p.samplingParams.outputKind ∧
      (p.getChildSamplingParams index).2.CachesKind ∧ ∃ cached,
        (p.getChildSamplingParams index).2 = { p with cachedChildSamplingParams := cached } := by
  unfold getChildSamplingParams
  split
  next params hcached => exact ⟨hc params hcached, hc, p.cachedChildSamplingParams, rfl⟩
  next =>
    split
    next => exact ⟨rfl, fun _ h => by cases h; rfl, _, rfl⟩
    next => exact ⟨rfl, hc, p.cachedChildSamplingParams, rfl⟩

theorem getChildInfo_ok (index : Nat) (hc : p.CachesKind) :
    (p.getChildInfo index).1.1 = p.childReqId index ∧
      (p.getChildInfo index).1.2.outputKind = p.samplingParams.outputKind ∧
      p.Adds index (p.getChildInfo index).2 ∧ (p.getChildInfo index).2.CachesKind := by
  let q := { p with childRequests := p.childRequests.insert (p.childReqId index) }
  have hq : q.CachesKind := hc
  obtain ⟨hkind, hcaches, cached, heq⟩ := getChildSamplingParams_ok index hq
  refine ⟨rfl, hkind, ?_, hcaches⟩
  change p.Adds index (q.getChildSamplingParams index).2
  rw [heq]
  exact ⟨⟨rfl, rfl⟩, rfl, fun id => List.mem_insert_iff⟩

/-- **What `get_outputs` does**: a child that has finished leaves the set, and the request has
finished when the set is empty. -/
structure Gets (p : ParentRequest) (childId : RequestId) (c : CompletionOutput)
    (outputs : List (Option CompletionOutput)) (finished : Bool) (p' : ParentRequest) : Prop extends
    Same p p' where
  cached : p'.cachedChildSamplingParams = p.cachedChildSamplingParams
  childRequests : ∀ id, id ∈ p'.childRequests ↔
    id ∈ p.childRequests ∧ (c.finishReason.isSome → id ≠ childId)
  isEmpty : finished = p'.childRequests.isEmpty
  streaming : p.samplingParams.outputKind ≠ .finalOnly →
    outputs = [some c] ∧ p'.outputAggregator = p.outputAggregator
  aggregated : p.samplingParams.outputKind = .finalOnly →
    p'.outputAggregator = p.outputAggregator.set c.index (some c) ∧
      outputs = if finished then p'.outputAggregator else []

theorem removeFinished_ok (h : p.removeFinished childId c = .ok p') :
    p' = { p with childRequests := p'.childRequests } ∧ ∀ id, id ∈ p'.childRequests ↔
      id ∈ p.childRequests ∧ (c.finishReason.isSome → id ≠ childId) := by
  unfold removeFinished at h
  split at h
  next hnone =>
    cases h
    exact ⟨rfl, fun id => by simp [Option.isNone_iff_eq_none.mp hnone]⟩
  next hsome =>
    split at h
    next =>
      cases h
      rw [Bool.not_eq_true, Option.isNone_eq_false_iff] at hsome
      exact ⟨rfl, fun id => by simp [hsome]⟩
    next => simp at h

theorem getOutputs_ok {outputs : List (Option CompletionOutput)} {finished : Bool}
    {requestId : RequestId}
    (h : p.getOutputs childId c = .ok ((requestId, outputs, finished), p')) :
    p.Gets childId c outputs finished p' := by
  obtain ⟨p₁, hp₁, h⟩ := bind_eq_ok.mp h
  obtain ⟨heq, hmem⟩ := removeFinished_ok hp₁
  split at h
  next hkind =>
    obtain ⟨⟨-, rfl, rfl⟩, rfl⟩ : ((p₁.requestId = requestId) ∧ [some c] = outputs ∧
      p₁.childRequests.isEmpty = finished) ∧ p₁ = p' := by simpa using pure_eq_ok.mp h
    rw [heq] at hkind ⊢
    exact ⟨⟨rfl, rfl⟩, rfl, hmem, rfl, fun _ => ⟨rfl, rfl⟩, fun hfinal => absurd hfinal hkind⟩
  next hkind =>
    obtain ⟨p₂, hp₂, h⟩ := bind_eq_ok.mp h
    obtain ⟨⟨-, rfl, rfl⟩, rfl⟩ : ((p₂.requestId = requestId) ∧
      (if p₁.childRequests.isEmpty then p₂.outputAggregator else []) = outputs ∧
      p₁.childRequests.isEmpty = finished) ∧ p₂ = p' := by simpa using pure_eq_ok.mp h
    unfold aggregate at hp₂
    split at hp₂
    next =>
      cases hp₂
      rw [heq] at hkind ⊢
      exact ⟨⟨rfl, rfl⟩, rfl, hmem, rfl, fun hstream => absurd (not_not.mp hkind) hstream,
        fun _ => ⟨rfl, rfl⟩⟩
    next => simp at hp₂

end ParentRequest

namespace RequestState

variable {rs rs' : RequestState D} {o : EngineCoreOutput} {finishReason : Option FinishReason}
  {stopReason : Option StopReason}

/-- Only the detokenizer of the request may have changed. -/
structure Keeps (rs rs' : RequestState D) : Prop where
  requestId : rs'.requestId = rs.requestId
  parentReq : rs'.parentReq = rs.parentReq
  requestIndex : rs'.requestIndex = rs.requestIndex
  outputKind : rs'.outputKind = rs.outputKind
  queue : rs'.queue = rs.queue
  detokenizer : rs'.detokenizer.isSome = rs.detokenizer.isSome

theorem Keeps.refl (rs : RequestState D) : rs.Keeps rs := ⟨rfl, rfl, rfl, rfl, rfl, rfl⟩

theorem Keeps.trans {rs'' : RequestState D} (h : rs.Keeps rs') (h' : rs'.Keeps rs'') :
    rs.Keeps rs'' :=
  ⟨h'.requestId.trans h.requestId, h'.parentReq.trans h.parentReq,
    h'.requestIndex.trans h.requestIndex, h'.outputKind.trans h.outputKind,
    h'.queue.trans h.queue, h'.detokenizer.trans h.detokenizer⟩

theorem detokenize_ok (h : rs.detokenize I o = .ok ((finishReason, stopReason), rs')) :
    rs.Keeps rs' ∧ rs.finishes (I := I) o = finishReason.isSome := by
  refine ⟨?_, by unfold finishes; rw [h]⟩
  unfold detokenize at h
  split at h
  next =>
    cases h
    exact .refl _
  next =>
    split at h
    next => cases h
    next d hd =>
      have hrs : ∃ d', { rs with detokenizer := some d' } = rs' := by
        dsimp only at h
        split at h <;> exact ⟨_, (Prod.mk.inj (Except.ok.inj h)).2⟩
      obtain ⟨d', rfl⟩ := hrs
      exact ⟨rfl, rfl, rfl, rfl, rfl, by simp [hd]⟩

theorem newCompletionOutput_ok {tokenIds : List TokenId} {c : CompletionOutput}
    (h : rs.newCompletionOutput I tokenIds finishReason stopReason = .ok (c, rs')) :
    rs.Keeps rs' ∧ c.index = rs.requestIndex ∧ c.finishReason = finishReason := by
  unfold newCompletionOutput at h
  split at h
  next => cases h
  next d hd =>
    cases h
    exact ⟨⟨rfl, rfl, rfl, rfl, rfl, by simp [hd]⟩, rfl, rfl⟩

/-- **What `make_request_output` answers** for a child of `p`. -/
inductive Makes (rs : RequestState D) (p : ParentRequest) (finishReason : Option FinishReason) :
    Option RequestOutput → ParentRequest → Prop where
  /-- Only the final output is asked for. -/
  | nothing : finishReason = none → rs.outputKind = .finalOnly → Makes rs p finishReason none p
  | gets {c : CompletionOutput} {outputs : List (Option CompletionOutput)} {finished : Bool}
      {p' : ParentRequest} {out : Option RequestOutput} :
      c.index = rs.requestIndex → c.finishReason = finishReason →
      ¬ (finishReason = none ∧ rs.outputKind = .finalOnly) →
      p.Gets rs.requestId c outputs finished p' →
      (out = none ∧ outputs = [] ∨
        ∃ o, out = some o ∧ outputs ≠ [] ∧ o.finished = finished ∧ o.outputs = outputs) →
      Makes rs p finishReason out p'

theorem makeRequestOutput_keeps {parent parent' : Option ParentRequest}
    {out : Option RequestOutput}
    (h : rs.makeRequestOutput I parent o finishReason stopReason = .ok (out, rs', parent')) :
    rs.Keeps rs' ∧ (parent = none → parent' = none) := by
  unfold makeRequestOutput at h
  split at h
  next =>
    cases h
    exact ⟨.refl _, id⟩
  next =>
  split at h
  next =>
    cases h
    exact ⟨.refl _, id⟩
  next =>
    obtain ⟨⟨c, rs₁⟩, hc, h⟩ := bind_eq_ok.mp h
    have hkeeps := (newCompletionOutput_ok hc).1
    cases parent with
    | none =>
      cases h
      exact ⟨hkeeps, id⟩
    | some p =>
      obtain ⟨⟨⟨requestId, outputs, finished⟩, p'⟩, -, h⟩ := bind_eq_ok.mp h
      have hrs : rs₁ = rs' := by
        dsimp only at h
        split at h
        · exact (Prod.mk.inj (Prod.mk.inj (pure_eq_ok.mp h)).2).1
        · exact (Prod.mk.inj (Prod.mk.inj (pure_eq_ok.mp h)).2).1
      exact ⟨hrs ▸ hkeeps, nofun⟩

/-- A child. -/
theorem makeRequestOutput_some {p : ParentRequest} {parent' : Option ParentRequest}
    {out : Option RequestOutput} (hpool : o.poolingOutput = none)
    (h : rs.makeRequestOutput I (some p) o finishReason stopReason = .ok (out, rs', parent')) :
    ∃ p', parent' = some p' ∧ rs.Makes p finishReason out p' := by
  unfold makeRequestOutput at h
  rw [hpool] at h
  split at h
  next hnothing =>
    obtain ⟨rfl, -, rfl⟩ := triple_of_ok h
    exact ⟨p, rfl, .nothing (Option.isNone_iff_eq_none.mp hnothing.1) hnothing.2⟩
  next hsome =>
    rw [Option.isNone_iff_eq_none] at hsome
    obtain ⟨⟨c, rs₁⟩, hc, h⟩ := bind_eq_ok.mp h
    obtain ⟨⟨⟨requestId, outputs, finished⟩, p'⟩, hgets, h⟩ := bind_eq_ok.mp h
    obtain ⟨hkeeps, hindex, hreason⟩ := newCompletionOutput_ok hc
    have hgets := ParentRequest.getOutputs_ok hgets
    dsimp only at hgets h
    rw [hkeeps.requestId] at hgets
    split at h
    next hnil =>
      obtain ⟨rfl, -, rfl⟩ := triple_of_ok h
      exact ⟨p', rfl, .gets hindex hreason hsome hgets (.inl ⟨rfl, hnil⟩)⟩
    next hnil =>
      obtain ⟨rfl, -, rfl⟩ := triple_of_ok h
      exact ⟨p', rfl, .gets hindex hreason hsome hgets (.inr ⟨_, rfl, hnil, rfl, rfl⟩)⟩

end RequestState

/-! ## The children of a call -/

section Family

variable {s s' : AsyncLLM D} {c : CallId} {p p' : ParentRequest} {k : Nat} {fanning : Bool}

/-- **The children of the call `c`**, of which `k` have been registered. If the call has ended early,
then the registration of the next child has failed. -/
structure FamilyAt (s : AsyncLLM D) (c : CallId) (p : ParentRequest) (fanning : Bool) (k : Nat) :
    Prop where
  pos : 0 < p.n
  le : k ≤ p.n
  lt : fanning → k < p.n
  caches : p.CachesKind
  entry : ∀ id rs, s.requestStates.get? id = some rs → rs.parentReq = some c →
    rs.requestIndex < k ∧ (c, rs.requestIndex) ∉ s.finishedChildren ∧
      id = p.childReqId rs.requestIndex ∧ rs.requestId = id ∧ rs.queue = c ∧
      rs.outputKind = p.samplingParams.outputKind ∧ rs.detokenizer.isSome
  queue : ∀ id rs, s.requestStates.get? id = some rs → rs.queue = c → rs.parentReq = some c
  registered : ∀ i < k, (c, i) ∉ s.finishedChildren →
    ∃ rs, s.requestStates.get? (p.childReqId i) = some rs ∧ rs.parentReq = some c
  finished : ∀ i, (c, i) ∈ s.finishedChildren → i < k
  outstanding : ∀ id, id ∈ p.childRequests ↔
    (∃ i < k, (c, i) ∉ s.finishedChildren ∧ id = p.childReqId i) ∨
      fanning = false ∧ k < p.n ∧ id = p.childReqId k
  aggregator : p.samplingParams.outputKind = .finalOnly → p.outputAggregator.length = p.n ∧
    ∀ i, (c, i) ∈ s.finishedChildren →
      ∃ o : CompletionOutput, p.outputAggregator[i]? = some (some o) ∧ o.index = i
  parent : ∀ id, s.parentRequests.get? id = some c →
    id = p.requestId ∧ ¬ s.AllFinished c p.n
  once : s.finishedOutputs c = [] ∧ ¬ s.AllFinished c p.n ∨
    s.AllFinished c p.n ∧ ∃ o, s.finishedOutputs c = [o] ∧
      (p.samplingParams.outputKind = .finalOnly → o.Complete p.n)

/-- The family has completed once. -/
theorem FamilyAt.completesOnce (h : FamilyAt s c p fanning k) : CompletesOnce s c p where
  before hnot := by
    rcases h.once with ⟨hnil, -⟩ | ⟨hall, -⟩
    · exact hnil
    · exact absurd hall hnot
  after hall := by
    rcases h.once with ⟨-, hnot⟩ | ⟨-, o, ho, -⟩
    · exact absurd hall hnot
    · rw [ho, List.length_singleton]
  complete hkind o ho := by
    rcases h.once with ⟨hnil, -⟩ | ⟨-, o', ho', hcomplete⟩
    · simp [hnil] at ho
    · obtain rfl : o = o' := by simpa [ho'] using ho
      exact hcomplete hkind
  parentRequests hall id hid := (h.parent id hid).2 hall
  requestStates hall id rs hrs := by
    have hnot : rs.parentReq ≠ some c := fun hparent => by
      obtain ⟨hlt, hunfinished, -⟩ := h.entry id rs hrs hparent
      exact hunfinished (hall _ (hlt.trans_le h.le))
    exact ⟨hnot, fun hqueue => hnot (h.queue id rs hrs hqueue)⟩

/-- **Nothing of the call has changed.** -/
structure Unaffected (c : CallId) (s s' : AsyncLLM D) : Prop where
  parents : s'.parents.get? c = s.parents.get? c
  fanOuts : s'.fanOuts.get? c = s.fanOuts.get? c
  requestStates : ∀ id rs, rs.parentReq = some c ∨ rs.queue = c →
    (s'.requestStates.get? id = some rs ↔ s.requestStates.get? id = some rs)
  parentRequests : ∀ id, s'.parentRequests.get? id = some c → s.parentRequests.get? id = some c
  finishedChildren : ∀ i, (c, i) ∈ s'.finishedChildren ↔ (c, i) ∈ s.finishedChildren
  finishedOutputs : s'.finishedOutputs c = s.finishedOutputs c

theorem Unaffected.trans {s'' : AsyncLLM D} (h : Unaffected c s s') (h' : Unaffected c s' s'') :
    Unaffected c s s'' :=
  ⟨h'.parents.trans h.parents, h'.fanOuts.trans h.fanOuts, fun id rs hrs =>
    (h'.requestStates id rs hrs).trans (h.requestStates id rs hrs), fun id hid =>
    h.parentRequests id (h'.parentRequests id hid), fun i =>
    (h'.finishedChildren i).trans (h.finishedChildren i),
    h'.finishedOutputs.trans h.finishedOutputs⟩

theorem Unaffected.allFinished (h : Unaffected c s s') {n : Nat} :
    s'.AllFinished c n ↔ s.AllFinished c n :=
  forall₂_congr fun i _ => h.finishedChildren i

theorem FamilyAt.unaffected (hf : FamilyAt s c p fanning k) (h : Unaffected c s s') :
    FamilyAt s' c p fanning k where
  pos := hf.pos
  le := hf.le
  lt := hf.lt
  caches := hf.caches
  entry id rs hrs hparent := by
    rw [h.finishedChildren]
    exact hf.entry id rs ((h.requestStates id rs (.inl hparent)).mp hrs) hparent
  queue id rs hrs hqueue := hf.queue id rs ((h.requestStates id rs (.inr hqueue)).mp hrs) hqueue
  registered i hi hnot := by
    rw [h.finishedChildren] at hnot
    obtain ⟨rs, hrs, hparent⟩ := hf.registered i hi hnot
    exact ⟨rs, (h.requestStates _ rs (.inl hparent)).mpr hrs, hparent⟩
  finished i hi := hf.finished i ((h.finishedChildren i).mp hi)
  outstanding id := by
    rw [hf.outstanding]
    simp only [h.finishedChildren]
  aggregator hkind :=
    ⟨(hf.aggregator hkind).1, fun i hi => (hf.aggregator hkind).2 i ((h.finishedChildren i).mp hi)⟩
  parent id hid := by
    rw [h.allFinished]
    exact hf.parent id (h.parentRequests id hid)
  once := by
    rw [h.allFinished, h.finishedOutputs]
    exact hf.once

/-- **Nothing refers to the call.** -/
structure Untouched (c : CallId) (s : AsyncLLM D) : Prop where
  parents : s.parents.get? c = none
  fanOuts : s.fanOuts.get? c = none
  requestStates : ∀ id rs, s.requestStates.get? id = some rs → rs.parentReq ≠ some c ∧ rs.queue ≠ c
  parentRequests : ∀ id, s.parentRequests.get? id ≠ some c
  finishedChildren : ∀ i, (c, i) ∉ s.finishedChildren
  finishedOutputs : s.finishedOutputs c = []

theorem Untouched.unaffected (hu : Untouched c s) (h : Unaffected c s s') : Untouched c s' where
  parents := h.parents.trans hu.parents
  fanOuts := h.fanOuts.trans hu.fanOuts
  requestStates id rs hrs := by
    by_contra hnot
    have href : rs.parentReq = some c ∨ rs.queue = c := by tauto
    exact hnot (hu.requestStates id rs ((h.requestStates id rs href).mp hrs))
  parentRequests id hid := hu.parentRequests id (h.parentRequests id hid)
  finishedChildren i hi := hu.finishedChildren i ((h.finishedChildren i).mp hi)
  finishedOutputs := h.finishedOutputs.trans hu.finishedOutputs

/-- A new call has no children yet. -/
theorem Untouched.family (hu : Untouched c s) (requestId : RequestId) {params : SamplingParams}
    (hn : 0 < params.n) : FamilyAt s c (.new requestId params) true 0 where
  pos := hn
  le := Nat.zero_le _
  lt _ := hn
  caches := nofun
  entry id rs hrs hparent := absurd hparent (hu.requestStates id rs hrs).1
  queue id rs hrs hqueue := absurd hqueue (hu.requestStates id rs hrs).2
  registered i hi := absurd hi (Nat.not_lt_zero i)
  finished i hi := absurd hi (hu.finishedChildren i)
  outstanding id := by simp [ParentRequest.new]
  aggregator hkind := by
    change params.outputKind = .finalOnly at hkind
    refine ⟨?_, fun i hi => absurd hi (hu.finishedChildren i)⟩
    simp [ParentRequest.new, hkind, ParentRequest.n]
  parent id hid := absurd hid (hu.parentRequests id)
  once := .inl ⟨hu.finishedOutputs, fun hall => hu.finishedChildren 0 (hall 0 hn)⟩

end Family

/-! ## Steps -/

section Steps

variable {s s' : AsyncLLM D} {c c' : CallId} {p p' : ParentRequest} {k : Nat} {fanning : Bool}
  {request : EngineCoreRequest} {prompt : Option String}

variable {index : Nat} {queue : CallId} {f : FanOut}

theorem fromNewRequest_ok {rs : RequestState D} {parentReq : Option CallId}
    (h : RequestState.fromNewRequest I request prompt parentReq index queue = .ok rs) :
    rs.requestId = request.requestId ∧ rs.parentReq = parentReq ∧ rs.requestIndex = index ∧
      rs.queue = queue ∧ ∀ params, request.samplingParams = some params →
        rs.outputKind = params.outputKind ∧ rs.detokenizer.isSome := by
  unfold RequestState.fromNewRequest at h
  split at h
  next params _ hparams =>
    cases h
    refine ⟨rfl, rfl, rfl, rfl, fun params' hparams' => ?_⟩
    rw [hparams] at hparams'
    cases hparams'
    exact ⟨rfl, rfl⟩
  next hnone _ =>
    cases h
    exact ⟨rfl, rfl, rfl, rfl, fun params hparams => by rw [hnone] at hparams; cases hparams⟩
  next => cases h

/-- **What `_add_request` does**: an entry under a new key. -/
theorem register_ok {parentReq : Option (CallId × RequestId)}
    (h : s.register I request prompt parentReq index queue = .ok s') :
    request.requestId ∉ s.requestStates ∧ ∃ rs,
      RequestState.fromNewRequest I request prompt (parentReq.map Prod.fst) index queue = .ok rs ∧
      s' = { s with
        requestStates := s.requestStates.set request.requestId rs
        parentRequests := parentReq.elim s.parentRequests fun e => s.parentRequests.set e.2 e.1
        sent := s.sent ++ [request] } := by
  obtain ⟨_, hnew, h⟩ := bind_eq_ok.mp h
  obtain ⟨rs, hrs, h⟩ := bind_eq_ok.mp h
  exact ⟨require_eq_ok.mp hnew, rs, hrs, (pure_eq_ok.mp h).symm⟩

theorem register_unaffected {parentReq : Option (CallId × RequestId)}
    (hparent : ∀ e ∈ parentReq, e.1 ≠ c) (hqueue : queue ≠ c)
    (h : s.register I request prompt parentReq index queue = .ok s') : Unaffected c s s' := by
  obtain ⟨hnew, rs, hrs, rfl⟩ := register_ok h
  obtain ⟨-, hparent', -, hqueue', -⟩ := fromNewRequest_ok hrs
  refine ⟨rfl, rfl, fun id rs' hrs' => ?_, fun id hid => ?_, fun _ => Iff.rfl, rfl⟩
  · dsimp only
    rw [Dict.get?_set]
    split
    next hid =>
      have hnone := Dict.get?_eq_none_iff.mpr hnew
      rw [hid, hnone]
      refine iff_of_false (fun heq => ?_) (by simp)
      cases heq
      rcases hrs' with hrs' | hrs'
      · rw [hparent', Option.map_eq_some_iff] at hrs'
        obtain ⟨e, he, hec⟩ := hrs'
        exact hparent e he hec
      · exact hqueue (hqueue'.symm.trans hrs')
    next => exact Iff.rfl
  · cases parentReq with
    | none => exact hid
    | some e =>
      change (s.parentRequests.set e.2 e.1).get? id = some c at hid
      rw [Dict.get?_set] at hid
      split at hid
      next => exact absurd (Option.some.inj hid) (hparent e rfl)
      next => exact hid

/-- A round of a fan-out touches no other call. -/
theorem fanOut_unaffected (hne : c' ≠ c) :
    Unaffected c' s (s.fanOut I c p f) := by
  have hparents : ∀ q, Unaffected c' s { s with parents := s.parents.set c q } := fun q =>
    ⟨Dict.get?_set_ne hne, rfl, fun _ _ _ => Iff.rfl, fun _ h => h, fun _ => Iff.rfl, rfl⟩
  unfold AsyncLLM.fanOut
  dsimp only
  split
  next s₁ hreg =>
    have hreg := register_unaffected (fun e he => by
      obtain rfl : _ = e := by simpa using he
      exact hne.symm) hne.symm hreg
    refine (hparents _).trans (hreg.trans ⟨rfl, ?_, fun _ _ _ => Iff.rfl, fun _ h => h,
      fun _ => Iff.rfl, rfl⟩)
    dsimp only
    split
    · exact Dict.get?_set_ne hne
    · exact Dict.get?_erase_ne hne
  next =>
    exact (hparents _).trans ⟨rfl, Dict.get?_erase_ne hne, fun _ _ _ => Iff.rfl, fun _ h => h,
      fun _ => Iff.rfl, rfl⟩

/-- A child is registered. -/
theorem FamilyAt.register {rs : RequestState D} (h : FamilyAt s c p true k) (hadds : p.Adds k p') (hcaches : p'.CachesKind)
    (hnew : p.childReqId k ∉ s.requestStates)
    (hrs : rs.requestId = p.childReqId k ∧ rs.parentReq = some c ∧ rs.requestIndex = k ∧
      rs.queue = c ∧ rs.outputKind = p.samplingParams.outputKind ∧ rs.detokenizer.isSome)
    (hstates : s'.requestStates = s.requestStates.set (p.childReqId k) rs)
    (hparents : s'.parentRequests = s.parentRequests.set p.requestId c)
    (hfin : s'.finishedChildren = s.finishedChildren) (hrec : s'.received = s.received) :
    FamilyAt s' c p' (decide (k + 1 < p.n)) (k + 1) := by
  have hn := hadds.toSame.n
  have hid := hadds.toSame.childReqId
  have hlt := h.lt rfl
  have hall : ¬ s.AllFinished c p.n := fun hall => absurd (h.finished k (hall k hlt)) (lt_irrefl k)
  have hall' : ¬ s'.AllFinished c p'.n := by
    unfold AsyncLLM.AllFinished at hall ⊢
    rw [hn, hfin]
    exact hall
  have hlookup : ∀ id rs', s'.requestStates.get? id = some rs' →
      id = p.childReqId k ∧ rs' = rs ∨ s.requestStates.get? id = some rs' := fun id rs' hid' => by
    rw [hstates, Dict.get?_set] at hid'
    split at hid'
    next heq => exact .inl ⟨heq, (Option.some.inj hid').symm⟩
    next => exact .inr hid'
  refine
    { pos := hn ▸ h.pos
      le := hn ▸ hlt
      lt := fun hd => hn ▸ of_decide_eq_true hd
      caches := hcaches
      entry := fun id rs' hrs' hparent => ?_
      queue := fun id rs' hrs' hqueue => ?_
      registered := fun i hi hnot => ?_
      finished := fun i hi => (h.finished i (hfin ▸ hi)).trans (Nat.lt_succ_self k)
      outstanding := fun id => ?_
      aggregator := fun hkind => ?_
      parent := fun id hparent => ?_
      once := .inl ⟨?_, hall'⟩ }
  · rw [hfin, hid, hadds.samplingParams]
    rcases hlookup id rs' hrs' with ⟨rfl, rfl⟩ | hold
    · obtain ⟨h₁, -, h₃, h₄, h₅, h₆⟩ := hrs
      rw [h₃]
      exact ⟨Nat.lt_succ_self k, fun hmem => absurd (h.finished k hmem) (lt_irrefl k), rfl, h₁, h₄,
        h₅, h₆⟩
    · obtain ⟨hi, hrest⟩ := h.entry id rs' hold hparent
      exact ⟨hi.trans (Nat.lt_succ_self k), hrest⟩
  · rcases hlookup id rs' hrs' with ⟨-, rfl⟩ | hold
    · exact hrs.2.1
    · exact h.queue id rs' hold hqueue
  · rw [hid, hstates]
    by_cases hik : i = k
    · exact ⟨rs, by rw [hik, Dict.get?_set_self], hrs.2.1⟩
    · obtain ⟨rs', hrs', hparent⟩ := h.registered i (by omega) (hfin ▸ hnot)
      refine ⟨rs', ?_, hparent⟩
      rw [Dict.get?_set_ne fun heq => hik (ParentRequest.childReqId_inj.mp heq)]
      exact hrs'
  · rw [hadds.childRequests, h.outstanding, hid, hfin, hn]
    have hk : (c, k) ∉ s.finishedChildren := fun hmem => absurd (h.finished k hmem) (lt_irrefl k)
    constructor
    · rintro (rfl | ⟨i, hi, hnot, rfl⟩ | ⟨hfalse, -⟩)
      · exact .inl ⟨k, Nat.lt_succ_self k, hk, rfl⟩
      · exact .inl ⟨i, hi.trans (Nat.lt_succ_self k), hnot, rfl⟩
      · cases hfalse
    · rintro (⟨i, hi, hnot, rfl⟩ | ⟨hfalse, hlt', -⟩)
      · rcases Nat.lt_succ_iff_lt_or_eq.mp hi with hi | rfl
        · exact .inr (.inl ⟨i, hi, hnot, rfl⟩)
        · exact .inl rfl
      · exact absurd hlt' (of_decide_eq_false hfalse)
  · rw [hadds.outputAggregator, hfin, hn]
    exact h.aggregator (hadds.samplingParams ▸ hkind)
  · refine ⟨?_, hall'⟩
    rw [hparents, Dict.get?_set] at hparent
    rw [hadds.requestId]
    split at hparent
    next heq => exact heq
    next => exact (h.parent id hparent).1
  · unfold AsyncLLM.finishedOutputs
    rw [hrec]
    exact h.once.elim And.left fun h => absurd h.1 hall

/-- The registration of a child has failed. -/
theorem FamilyAt.fail (h : FamilyAt s c p true k) (hadds : p.Adds k p') (hcaches : p'.CachesKind)
    (hstates : s'.requestStates = s.requestStates) (hparents : s'.parentRequests = s.parentRequests)
    (hfin : s'.finishedChildren = s.finishedChildren) (hrec : s'.received = s.received) :
    FamilyAt s' c p' false k := by
  have hn := hadds.toSame.n
  have hid := hadds.toSame.childReqId
  have hlt := h.lt rfl
  have hall : s'.AllFinished c p'.n ↔ s.AllFinished c p.n := by
    unfold AsyncLLM.AllFinished
    rw [hn, hfin]
  have houts : s'.finishedOutputs c = s.finishedOutputs c := by
    unfold AsyncLLM.finishedOutputs
    rw [hrec]
  refine
    { pos := hn ▸ h.pos
      le := hn ▸ h.le
      lt := nofun
      caches := hcaches
      entry := fun id rs hrs hparent => ?_
      queue := fun id rs hrs => h.queue id rs (hstates ▸ hrs)
      registered := fun i hi hnot => ?_
      finished := fun i hi => h.finished i (hfin ▸ hi)
      outstanding := fun id => ?_
      aggregator := fun hkind => ?_
      parent := fun id hparent => ?_
      once := ?_ }
  · rw [hid, hadds.samplingParams, hfin]
    exact h.entry id rs (hstates ▸ hrs) hparent
  · rw [hid, hstates]
    exact h.registered i hi (hfin ▸ hnot)
  · rw [hadds.childRequests, h.outstanding, hid, hfin, hn]
    simp only [hlt, true_and, reduceCtorEq, false_and, or_false]
    exact or_comm
  · rw [hadds.outputAggregator, hfin, hn]
    exact h.aggregator (hadds.samplingParams ▸ hkind)
  · rw [hall, hadds.requestId]
    exact h.parent id (hparents ▸ hparent)
  · rw [hall, houts, hn, hadds.samplingParams]
    exact h.once

/-- The call has `k` registered children, and its fan-out stands at the next. -/
structure Family (s : AsyncLLM D) (c : CallId) (p : ParentRequest) (k : Nat) : Prop where
  children : FamilyAt s c p (decide (c ∈ s.fanOuts)) k
  fanOut : ∀ f, s.fanOuts.get? c = some f → f.idx = k ∧ f.n = p.n

/-- **A round of the fan-out.** -/
theorem fanOut_family (h : FamilyAt s c p true f.idx) (hn : f.n = p.n) :
    ∃ p' k', (s.fanOut I c p f).parents.get? c = some p' ∧ Family (s.fanOut I c p f) c p' k' := by
  obtain ⟨hid, hkind, hadds, hcaches⟩ := ParentRequest.getChildInfo_ok f.idx h.caches
  have hn' := hadds.toSame.n
  unfold AsyncLLM.fanOut
  dsimp only
  split
  next s₁ hreg =>
    obtain ⟨hnew, rs, hrs, rfl⟩ := register_ok hreg
    obtain ⟨h₁, h₂, h₃, h₄, h₅⟩ := fromNewRequest_ok hrs
    obtain ⟨hkind', hdetok⟩ := h₅ _ rfl
    rw [hid] at hnew h₁
    refine ⟨_, f.idx + 1, Dict.get?_set_self, ?_, fun f' hf' => ?_⟩
    · have hfan : decide (c ∈ if f.idx + 1 < f.n then s.fanOuts.set c { f with idx := f.idx + 1 }
          else s.fanOuts.erase c) = decide (f.idx + 1 < p.n) := by
        rw [← hn]
        split
        next hlt => simp [hlt]
        next hlt => simp [hlt]
      rw [show decide _ = _ from hfan]
      exact h.register hadds hcaches hnew
        ⟨h₁, h₂, h₃, h₄, hkind'.trans hkind, hdetok⟩ (hid ▸ rfl) (hadds.requestId ▸ rfl) rfl rfl
    · dsimp only at hf'
      split at hf'
      next =>
        obtain rfl : _ = f' := by simpa using hf'
        exact ⟨rfl, hn.trans hn'.symm⟩
      next => simp at hf'
  next =>
    refine ⟨_, f.idx, Dict.get?_set_self, ?_, fun f' hf' => ?_⟩
    · rw [show decide (c ∈ s.fanOuts.erase c) = false by simp]
      exact h.fail hadds hcaches rfl rfl rfl rfl
    · simp at hf'

/-- **A round of `process_outputs`**, for an output of the request `rs`: `rs'` is its state after the
round, and `finishReason` says whether it has finished. -/
structure Processes (I : IncrementalDetokenizer D) (s : AsyncLLM D) (o : EngineCoreOutput)
    (rs rs' : RequestState D) (finishReason : Option FinishReason) (out : Option RequestOutput)
    (s' : AsyncLLM D) : Prop where
  lookup : s.requestStates.get? o.requestId = some rs
  keeps : rs.Keeps rs'
  finishes : rs.finishes (I := I) o = finishReason.isSome
  fanOuts : s'.fanOuts = s.fanOuts
  numCalls : s'.numCalls = s.numCalls
  parents : ∀ c, rs.parentReq ≠ some c → s'.parents.get? c = s.parents.get? c
  orphan : ∀ c, rs.parentReq = some c → s.parents.get? c = none → s'.parents.get? c = none
  makes : ∀ c p, rs.parentReq = some c → s.parents.get? c = some p → o.poolingOutput = none →
    ∃ rs₀ p', rs.Keeps rs₀ ∧ rs₀.Makes p finishReason out p' ∧ s'.parents.get? c = some p' ∧
      s'.parentRequests = if finishReason.isSome ∧ p'.childRequests = [] then
        s.parentRequests.erase p'.requestId else s.parentRequests
  requestStates : ∀ id, s'.requestStates.get? id =
    if id = o.requestId then (if finishReason.isSome then none else some rs')
    else s.requestStates.get? id
  parentRequests : ∀ id c, s'.parentRequests.get? id = some c → s.parentRequests.get? id = some c
  received : s'.received = s.received ++ out.toList.map fun out => (rs.queue, out)
  finishedChildren : s'.finishedChildren = s.finishedChildren ++
    if finishReason.isSome then rs.parentReq.toList.map fun c => (c, rs.requestIndex) else []

theorem processOutput_ok {o : EngineCoreOutput} (h : s.processOutput I o = .ok s') :
    (s.requestStates.get? o.requestId = none ∧ s' = s) ∨
      ∃ rs rs' finishReason out, Processes I s o rs rs' finishReason out s' := by
  unfold AsyncLLM.processOutput at h
  split at h
  next hnone =>
    cases h
    exact .inl ⟨hnone, rfl⟩
  next rs hrs =>
    obtain ⟨⟨⟨finishReason, stopReason⟩, rs₁⟩, hdetok, h⟩ := bind_eq_ok.mp h
    obtain ⟨⟨out, rs₂, parent'⟩, hmake, h⟩ := bind_eq_ok.mp h
    obtain ⟨hkeeps₁, hfinishes⟩ := RequestState.detokenize_ok hdetok
    obtain ⟨hkeeps₂, horphan⟩ := RequestState.makeRequestOutput_keeps hmake
    have hkeeps := hkeeps₁.trans hkeeps₂
    have hchild : ∀ c p, rs.parentReq = some c → s.parents.get? c = some p →
        o.poolingOutput = none → ∃ p', parent' = some p' ∧ rs₁.Makes p finishReason out p' :=
      fun c p hc hp hpool => by
        have hparent : s.parentOf rs₁ = some p := by
          rw [AsyncLLM.parentOf, hkeeps₁.parentReq, hc]
          exact hp
        rw [hparent] at hmake
        exact RequestState.makeRequestOutput_some hpool hmake
    have hs' := pure_eq_ok.mp h
    let s₁ := s.putOutput o rs₂ parent' out
    have hparents : ∀ c, rs.parentReq ≠ some c → s₁.parents.get? c = s.parents.get? c := fun c hc => by
      rw [← hkeeps.parentReq] at hc
      dsimp only [s₁, AsyncLLM.putOutput]
      split
      next hc' => exact Dict.get?_set_ne fun heq => hc (heq ▸ hc')
      next => rfl
    have horphan' : ∀ c, rs.parentReq = some c → s.parents.get? c = none →
        s₁.parents.get? c = none := fun c hc hp => by
      have hnone : s.parentOf rs₁ = none := by
        rw [AsyncLLM.parentOf, hkeeps₁.parentReq, hc]
        exact hp
      simpa [s₁, AsyncLLM.putOutput, horphan hnone] using hp
    have hreceived : s₁.received = s.received ++ out.toList.map fun out => (rs.queue, out) := by
      cases out <;> simp [s₁, AsyncLLM.putOutput, hkeeps.queue]
    have hset : ∀ c p, rs.parentReq = some c → parent' = some p →
        s₁.parents = s.parents.set c p := fun c p hc hp => by
      simp [s₁, AsyncLLM.putOutput, hkeeps.parentReq, hc, hp]
    have hreq : ∀ id, s₁.requestStates.get? id =
        if id = o.requestId then some rs₂ else s.requestStates.get? id := fun id =>
      Dict.get?_set _ _ _ _
    refine .inr ⟨rs, rs₂, finishReason, out, ?_⟩
    by_cases hfin : finishReason.isSome
    · rw [if_pos hfin] at hs'
      obtain rfl : s₁.freeCompleted o rs₂ = s' := hs'
      refine ⟨hrs, hkeeps, hfinishes, rfl, rfl, hparents, horphan', fun c p hc hp hpool => ?_,
        fun id => ?_, fun id c hid => ?_, hreceived, ?_⟩
      · obtain ⟨p', hp', hmakes⟩ := hchild c p hc hp hpool
        have hget : s₁.parents.get? c = some p' := by rw [hset c p' hc hp', Dict.get?_set_self]
        have hparent : s₁.parentOf rs₂ = some p' := by
          rw [AsyncLLM.parentOf, hkeeps.parentReq, hc]
          exact hget
        refine ⟨rs₁, p', hkeeps₁, hmakes, hget, ?_⟩
        simp only [AsyncLLM.freeCompleted, hparent, hfin, true_and]
        rfl
      · rw [if_pos hfin]
        change (s₁.requestStates.erase o.requestId).get? id = _
        rw [Dict.get?_erase, hreq]
        split <;> rfl
      · simp only [AsyncLLM.freeCompleted] at hid
        split at hid
        next =>
          split at hid
          next =>
            rw [Dict.get?_erase] at hid
            split at hid
            next => cases hid
            next => exact hid
          next => exact hid
        next => exact hid
      · simp only [AsyncLLM.freeCompleted]
        rw [if_pos hfin, hkeeps.parentReq, hkeeps.requestIndex]
        cases rs.parentReq <;> simp <;> rfl
    · rw [if_neg hfin] at hs'
      obtain rfl : s₁ = s' := hs'
      refine ⟨hrs, hkeeps, hfinishes, rfl, rfl, hparents, horphan', fun c p hc hp hpool => ?_,
        fun id => ?_, fun _ _ h => h, hreceived, ?_⟩
      · obtain ⟨p', hp', hmakes⟩ := hchild c p hc hp hpool
        refine ⟨rs₁, p', hkeeps₁, hmakes, by rw [hset c p' hc hp', Dict.get?_set_self], ?_⟩
        rw [if_neg fun h => hfin h.1]
        rfl
      · rw [if_neg hfin, hreq]
      · rw [if_neg hfin, List.append_nil]
        rfl

variable {o : EngineCoreOutput} {rs rs' : RequestState D} {finishReason : Option FinishReason}
  {out : Option RequestOutput}

variable (h : Processes I s o rs rs' finishReason out s')

include h

theorem Processes.finishedOutputs : s'.finishedOutputs c = s.finishedOutputs c ++
      if rs.queue = c then out.toList.filter RequestOutput.finished else [] := by
  unfold AsyncLLM.finishedOutputs
  rw [h.received, List.filter_append, List.map_append, List.filter_append]
  congr 1
  cases out with
  | none => simp
  | some out => by_cases hq : rs.queue = c <;> simp [hq, List.filter_cons]

theorem Processes.mem_finishedChildren {i : Nat} :
    (c, i) ∈ s'.finishedChildren ↔ (c, i) ∈ s.finishedChildren ∨
      finishReason.isSome ∧ rs.parentReq = some c ∧ rs.requestIndex = i := by
  rw [h.finishedChildren, List.mem_append]
  by_cases hfin : finishReason.isSome
  · cases hparent : rs.parentReq <;> simp [hfin, eq_comm]
  · simp [hfin]

/-- A round touches no other call. -/
theorem Processes.unaffected (hparent : rs.parentReq ≠ some c) (hqueue : rs.queue ≠ c) :
    Unaffected c s s' where
  parents := h.parents c hparent
  fanOuts := by rw [h.fanOuts]
  requestStates id rs₁ hrs₁ := by
    rw [h.requestStates]
    split
    next hid =>
      rw [hid, h.lookup]
      have hold : rs ≠ rs₁ := by
        rintro rfl
        exact hrs₁.elim hparent hqueue
      have hnew : rs' ≠ rs₁ := by
        rintro rfl
        rw [h.keeps.parentReq, h.keeps.queue] at hrs₁
        exact hrs₁.elim hparent hqueue
      split <;> simp [hold, hnew]
    next => exact Iff.rfl
  parentRequests id := h.parentRequests id c
  finishedChildren i := by
    rw [h.mem_finishedChildren]
    simp [hparent]
  finishedOutputs := by
    rw [h.finishedOutputs, if_neg hqueue, List.append_nil]

omit h

/-- **An output of a child** that does not finish it. -/
theorem FamilyAt.streams (hf : FamilyAt s c p fanning k) (hp : s.parents.get? c = some p)
    (h : Processes I s o rs rs' finishReason out s') (hparent : rs.parentReq = some c)
    (hpool : o.poolingOutput = none) (hfin : finishReason = none) :
    ∃ p', s'.parents.get? c = some p' ∧ p'.n = p.n ∧ FamilyAt s' c p' fanning k := by
  obtain ⟨rs₀, p', hkeeps, hmakes, hp', hparents⟩ := h.makes c p hparent hp hpool
  have hentry := hf.entry _ _ h.lookup hparent
  -- the parent is as before, and no output is a finished one
  have hsame : p.Same p' ∧ p'.cachedChildSamplingParams = p.cachedChildSamplingParams ∧
      (∀ id, id ∈ p'.childRequests ↔ id ∈ p.childRequests) ∧
      (p.samplingParams.outputKind = .finalOnly → p'.outputAggregator = p.outputAggregator) ∧
      out.toList.filter RequestOutput.finished = [] := by
    cases hmakes with
    | nothing => exact ⟨⟨rfl, rfl⟩, rfl, fun _ => Iff.rfl, fun _ => rfl, rfl⟩
    | gets hindex hreason hkind hgets hout =>
      have hmem : ∀ id, id ∈ p'.childRequests ↔ id ∈ p.childRequests := fun id => by
        rw [hgets.childRequests, hreason, hfin]
        simp
      refine ⟨hgets.toSame, hgets.cached, hmem, fun hfinal => ?_, ?_⟩
      · rw [hkeeps.outputKind] at hkind
        exact absurd ⟨hfin, hentry.2.2.2.2.2.1.trans hfinal⟩ hkind
      · have hchild : rs.requestId ∈ p'.childRequests := by
          rw [hmem, hf.outstanding]
          exact .inl ⟨_, hentry.1, hentry.2.1, hentry.2.2.2.1.trans hentry.2.2.1⟩
        have hnot := hgets.isEmpty.trans
          (List.isEmpty_eq_false_iff.mpr (List.ne_nil_of_mem hchild))
        rcases hout with ⟨rfl, -⟩ | ⟨out', rfl, -, hfinished, -⟩
        · rfl
        · simp [hfinished, hnot]
  obtain ⟨hsame, hcached, hmem, hagg, hout⟩ := hsame
  have hn := hsame.n
  have hid := hsame.childReqId
  have hmem' : ∀ i, (c, i) ∈ s'.finishedChildren ↔ (c, i) ∈ s.finishedChildren := fun i => by
    rw [h.mem_finishedChildren, hfin]
    simp
  have hall : s'.AllFinished c p'.n ↔ s.AllFinished c p.n := by
    rw [hn]
    exact forall₂_congr fun i _ => hmem' i
  have houts : s'.finishedOutputs c = s.finishedOutputs c := by
    rw [h.finishedOutputs, hout, ite_self, List.append_nil]
  have hlookup : ∀ id rs₁, s'.requestStates.get? id = some rs₁ →
      ∃ rs₂ : RequestState D, s.requestStates.get? id = some rs₂ ∧ rs₂.Keeps rs₁ :=
    fun id rs₁ hrs₁ => by
      rw [h.requestStates, hfin] at hrs₁
      split at hrs₁
      next heq =>
        obtain rfl : rs' = rs₁ := by simpa using hrs₁
        exact ⟨rs, heq ▸ h.lookup, h.keeps⟩
      next => exact ⟨rs₁, hrs₁, .refl _⟩
  refine ⟨p', hp', hn,
    { pos := hn ▸ hf.pos
      le := hn ▸ hf.le
      lt := fun hd => hn ▸ hf.lt hd
      caches := ?_
      entry := fun id rs₁ hrs₁ hparent₁ => ?_
      queue := fun id rs₁ hrs₁ hqueue => ?_
      registered := fun i hi hnot => ?_
      finished := fun i hi => hf.finished i ((hmem' i).mp hi)
      outstanding := fun id => ?_
      aggregator := fun hkind => ?_
      parent := fun id hid => ?_
      once := ?_ }⟩
  · unfold ParentRequest.CachesKind
    rw [hcached, hsame.samplingParams]
    exact hf.caches
  · obtain ⟨rs₂, hrs₂, hk⟩ := hlookup id rs₁ hrs₁
    rw [hid, hsame.samplingParams, hmem', hk.requestIndex, hk.requestId, hk.queue, hk.outputKind,
      hk.detokenizer]
    exact hf.entry id rs₂ hrs₂ (hk.parentReq.symm.trans hparent₁)
  · obtain ⟨rs₂, hrs₂, hk⟩ := hlookup id rs₁ hrs₁
    rw [hk.parentReq]
    exact hf.queue id rs₂ hrs₂ (hk.queue.symm.trans hqueue)
  · rw [hmem'] at hnot
    obtain ⟨rs₁, hrs₁, hparent₁⟩ := hf.registered i hi hnot
    rw [hid, h.requestStates, hfin]
    split
    next => exact ⟨rs', rfl, h.keeps.parentReq.trans hparent⟩
    next => exact ⟨rs₁, hrs₁, hparent₁⟩
  · rw [hmem, hid, hn, hf.outstanding]
    simp only [hmem']
  · rw [hsame.samplingParams] at hkind
    rw [hagg hkind, hn]
    exact ⟨(hf.aggregator hkind).1, fun i hi => (hf.aggregator hkind).2 i ((hmem' i).mp hi)⟩
  · rw [hall, hsame.requestId]
    exact hf.parent id (h.parentRequests id c hid)
  · rw [hall, houts, hn, hsame.samplingParams]
    exact hf.once

/-- The set of outstanding children is empty when all have finished, and, during the fan-out, only if no
other child was outstanding. -/
theorem FamilyAt.outstanding_nil {i : Nat} (hf : FamilyAt s c p fanning k)
    (hsame : p.Same p') (hi : i < k) (hnot : (c, i) ∉ s.finishedChildren)
    (hmem : ∀ j, (c, j) ∈ s'.finishedChildren ↔ (c, j) ∈ s.finishedChildren ∨ j = i)
    (hleft : ∀ id, id ∈ p'.childRequests ↔ id ∈ p.childRequests ∧ id ≠ p.childReqId i)
    (hremains : fanning → ∃ id ∈ p.childRequests, id ≠ p.childReqId i) :
    p'.childRequests = [] ↔ s'.AllFinished c p'.n := by
  rw [List.eq_nil_iff_forall_not_mem, hsame.n]
  constructor
  · intro hnil
    have hfan : fanning = false := Bool.eq_false_iff.mpr fun hfan => by
      obtain ⟨id, hid, hne⟩ := hremains hfan
      exact hnil id ((hleft id).mpr ⟨hid, hne⟩)
    have hk : k = p.n := by
      by_contra hne
      refine hnil (p.childReqId k) ((hleft _).mpr ⟨?_, fun heq => ?_⟩)
      · exact (hf.outstanding _).mpr (.inr ⟨hfan, lt_of_le_of_ne hf.le hne, rfl⟩)
      · exact hi.ne' (ParentRequest.childReqId_inj.mp heq)
    intro j hj
    rw [hmem]
    by_contra hunfinished
    obtain ⟨hj', hji⟩ := not_or.mp hunfinished
    refine hnil (p.childReqId j) ((hleft _).mpr ⟨?_, fun heq => ?_⟩)
    · exact (hf.outstanding _).mpr (.inl ⟨j, hk ▸ hj, hj', rfl⟩)
    · exact hji (ParentRequest.childReqId_inj.mp heq)
  · intro hall id hid
    obtain ⟨hid, hne⟩ := (hleft id).mp hid
    rcases (hf.outstanding id).mp hid with ⟨j, hj, hj', rfl⟩ | ⟨-, hk, -⟩
    · rcases (hmem j).mp (hall j (hj.trans_le hf.le)) with h | rfl
      · exact hj' h
      · exact hne rfl
    · -- the child that could not be registered has not finished
      rcases (hmem k).mp (hall k hk) with h | rfl
      · exact absurd (hf.finished k h) (lt_irrefl k)
      · exact absurd hi (lt_irrefl _)

/-- The completions are all there when all children have finished. -/
theorem complete_of_aggregator {agg : List (Option CompletionOutput)} {n : Nat}
    (hlen : agg.length = n)
    (h : ∀ i < n, ∃ o : CompletionOutput, agg[i]? = some (some o) ∧ o.index = i) :
    ∃ l : List CompletionOutput, agg = l.map some ∧ l.map CompletionOutput.index = List.range n := by
  have hsome : agg ∈ Set.range (List.map (some : CompletionOutput → _)) := by
    rw [Set.range_list_map]
    intro a ha
    obtain ⟨i, hi, rfl⟩ := List.getElem_of_mem ha
    obtain ⟨o, ho, -⟩ := h i (hlen ▸ hi)
    exact ⟨o, by simpa [hi] using ho.symm⟩
  obtain ⟨l, rfl⟩ := hsome
  rw [List.length_map] at hlen
  refine ⟨l, rfl, List.ext_getElem (by simp [hlen]) fun i hi _ => ?_⟩
  rw [List.length_map] at hi
  obtain ⟨o, ho, hindex⟩ := h i (hlen ▸ hi)
  obtain rfl : l[i] = o := by simpa [hi] using ho
  simpa using hindex

/-- **A child finishes.** While the call is fanning out, another child is outstanding. -/
theorem FamilyAt.finishes (hf : FamilyAt s c p fanning k) (hp : s.parents.get? c = some p)
    (h : Processes I s o rs rs' finishReason out s') (hparent : rs.parentReq = some c)
    (hpool : o.poolingOutput = none) (hfin : finishReason.isSome)
    (hremains : fanning → ∃ id ∈ p.childRequests, id ≠ rs.requestId) :
    ∃ p', s'.parents.get? c = some p' ∧ p'.n = p.n ∧ FamilyAt s' c p' fanning k := by
  obtain ⟨rs₀, p', hkeeps, hmakes, hp', hparents⟩ := h.makes c p hparent hp hpool
  obtain ⟨hi, hnot, hkey, hreqid, hqueue, hkind, -⟩ := hf.entry _ _ h.lookup hparent
  cases hmakes with
  | nothing hnone => simp [hnone] at hfin
  | @gets comp outputs finished _ _ hindex hreason _ hgets hout =>
  have hsame := hgets.toSame
  have hn := hsame.n
  have hid := hsame.childReqId
  have hkey' : rs₀.requestId = p.childReqId rs.requestIndex :=
    hkeeps.requestId.trans (hreqid.trans hkey)
  have hleft : ∀ id, id ∈ p'.childRequests ↔
      id ∈ p.childRequests ∧ id ≠ p.childReqId rs.requestIndex := fun id => by
    rw [hgets.childRequests, hreason, hkey']
    simp [hfin]
  have hmem : ∀ j, (c, j) ∈ s'.finishedChildren ↔
      (c, j) ∈ s.finishedChildren ∨ j = rs.requestIndex := fun j => by
    rw [h.mem_finishedChildren]
    simp [hfin, hparent, eq_comm]
  have hnil := hf.outstanding_nil hsame hi hnot hmem hleft (hreqid.trans hkey ▸ hremains)
  have hall : ¬ s.AllFinished c p.n := fun hall => hnot (hall _ (hi.trans_le hf.le))
  have hnone : s.finishedOutputs c = [] := hf.once.elim And.left fun h => absurd h.1 hall
  have hagg : p.samplingParams.outputKind = .finalOnly → p'.outputAggregator.length = p'.n ∧
      ∀ j, (c, j) ∈ s'.finishedChildren →
        ∃ o : CompletionOutput, p'.outputAggregator[j]? = some (some o) ∧ o.index = j :=
    fun hfinal => by
      obtain ⟨hlen, hslots⟩ := hf.aggregator hfinal
      rw [(hgets.aggregated hfinal).1, List.length_set, hn, hindex, hkeeps.requestIndex]
      refine ⟨hlen, fun j hj => ?_⟩
      by_cases heq : j = rs.requestIndex
      · exact ⟨comp, by rw [heq, List.getElem?_set_self (hlen ▸ hi.trans_le hf.le)],
          (hindex.trans hkeeps.requestIndex).trans heq.symm⟩
      · rw [List.getElem?_set_ne (Ne.symm heq)]
        exact hslots j (((hmem j).mp hj).resolve_right heq)
  -- the entry of the child is gone, and every other is as it was
  have hlookup : ∀ id rs₁, s'.requestStates.get? id = some rs₁ →
      s.requestStates.get? id = some rs₁ ∧ id ≠ o.requestId := fun id rs₁ hrs₁ => by
    rw [h.requestStates, if_pos hfin] at hrs₁
    split at hrs₁
    next => cases hrs₁
    next hne => exact ⟨hrs₁, hne⟩
  have houts : s'.finishedOutputs c = out.toList.filter RequestOutput.finished := by
    rw [h.finishedOutputs, hnone, if_pos hqueue, List.nil_append]
  refine ⟨p', hp', hn,
    { pos := hn ▸ hf.pos
      le := hn ▸ hf.le
      lt := fun hd => hn ▸ hf.lt hd
      caches := ?_
      entry := fun id rs₁ hrs₁ hparent₁ => ?_
      queue := fun id rs₁ hrs₁ => hf.queue id rs₁ (hlookup id rs₁ hrs₁).1
      registered := fun j hj hunfinished => ?_
      finished := fun j hj => ((hmem j).mp hj).elim (hf.finished j) fun hj => hj ▸ hi
      outstanding := fun id => ?_
      aggregator := fun hfinal => hagg (hsame.samplingParams ▸ hfinal)
      parent := fun id hid => ?_
      once := ?_ }⟩
  · unfold ParentRequest.CachesKind
    rw [hgets.cached, hsame.samplingParams]
    exact hf.caches
  · obtain ⟨hold, hne⟩ := hlookup id rs₁ hrs₁
    obtain ⟨hlt, hunfinished, hid₁, hrest⟩ := hf.entry id rs₁ hold hparent₁
    rw [hid, hsame.samplingParams, hmem]
    refine ⟨hlt, not_or.mpr ⟨hunfinished, fun heq => hne ?_⟩, hid₁, hrest⟩
    rw [hid₁, hkey, heq]
  · obtain ⟨hunfinished, hne⟩ := not_or.mp (mt (hmem j).mpr hunfinished)
    obtain ⟨rs₁, hrs₁, hparent₁⟩ := hf.registered j hj hunfinished
    refine ⟨rs₁, ?_, hparent₁⟩
    rw [hid, h.requestStates, if_neg fun heq =>
      hne (ParentRequest.childReqId_inj.mp (heq.trans hkey))]
    exact hrs₁
  · rw [hleft, hid, hn, hf.outstanding]
    constructor
    · rintro ⟨⟨j, hj, hunfinished, rfl⟩ | hk, hne⟩
      · refine .inl ⟨j, hj, fun hfinished => ?_, rfl⟩
        rcases (hmem j).mp hfinished with h | rfl
        · exact hunfinished h
        · exact hne rfl
      · exact .inr hk
    · rintro (⟨j, hj, hunfinished, rfl⟩ | ⟨hfan, hk, rfl⟩)
      · obtain ⟨hunfinished, hne⟩ := not_or.mp (mt (hmem j).mpr hunfinished)
        exact ⟨.inl ⟨j, hj, hunfinished, rfl⟩,
          fun heq => hne (ParentRequest.childReqId_inj.mp heq)⟩
      · exact ⟨.inr ⟨hfan, hk, rfl⟩, fun heq => hi.ne' (ParentRequest.childReqId_inj.mp heq)⟩
  · obtain ⟨hid₁, -⟩ := hf.parent id (h.parentRequests id c hid)
    refine ⟨hid₁.trans hsame.requestId.symm, fun hfinished => ?_⟩
    rw [hparents, if_pos ⟨hfin, hnil.mpr hfinished⟩, hid₁, ← hsame.requestId] at hid
    simp at hid
  · rw [houts]
    by_cases hfinished : s'.AllFinished c p'.n
    · right
      have hempty : finished = true := by
        rw [hgets.isEmpty, hnil.mpr hfinished]
        rfl
      have hfill : p.samplingParams.outputKind = .finalOnly → ∃ l : List CompletionOutput,
          p'.outputAggregator = l.map some ∧ l.map CompletionOutput.index = List.range p'.n :=
        fun hfinal => complete_of_aggregator (hagg hfinal).1 fun j hj =>
          (hagg hfinal).2 j (hfinished j hj)
      have houtputs : outputs ≠ [] := fun hnil' => by
        by_cases hfinal : p.samplingParams.outputKind = .finalOnly
        · have hlen := (hagg hfinal).1
          rw [(hgets.aggregated hfinal).2, if_pos hempty] at hnil'
          rw [hnil', List.length_nil, hn] at hlen
          exact absurd hlen hf.pos.ne
        · rw [(hgets.streaming hfinal).1] at hnil'
          cases hnil'
      obtain ⟨out', rfl, -, hout', houtputs'⟩ :=
        hout.resolve_left fun h => houtputs h.2
      refine ⟨hfinished, out', by simp [hout', hempty], fun hfinal => ?_⟩
      rw [hsame.samplingParams] at hfinal
      unfold RequestOutput.Complete
      rw [houtputs', (hgets.aggregated hfinal).2, if_pos hempty]
      exact hfill hfinal
    · refine .inl ⟨?_, hfinished⟩
      have hempty : finished = false := by
        rw [hgets.isEmpty, List.isEmpty_eq_false_iff]
        exact fun h => hfinished (hnil.mp h)
      rcases hout with ⟨rfl, -⟩ | ⟨out', rfl, -, hout', -⟩
      · rfl
      · simp [hout', hempty]

/-! ## Runs -/

/-- **The invariant**: every call with children has a family, and nothing refers to a call that has
not been made. -/
structure Families (s : AsyncLLM D) : Prop where
  untouched : ∀ c, s.numCalls ≤ c → Untouched c s
  family : ∀ c p, s.parents.get? c = some p → ∃ k, Family s c p k

theorem Families.init : Families ({} : AsyncLLM D) where
  untouched _ _ := ⟨rfl, rfl, nofun, nofun, nofun, rfl⟩
  family _ _ := nofun

/-- A step that concerns the call `c₀` only keeps what it does not touch. -/
theorem Families.step {c₀ : CallId} (h : Families s) (hcalls : s.numCalls ≤ s'.numCalls)
    (hc₀ : c₀ < s'.numCalls)
    (hothers : ∀ c, c ≠ c₀ → s.numCalls ≤ c ∨ c ∈ s'.parents → Unaffected c s s')
    (hfamily : ∀ p, s'.parents.get? c₀ = some p → ∃ k, Family s' c₀ p k) : Families s' where
  untouched c hc :=
    (h.untouched c (hcalls.trans hc)).unaffected
      (hothers c (hc₀.trans_le hc).ne' (.inl (hcalls.trans hc)))
  family c p hp := by
    by_cases hc : c = c₀
    · subst hc
      exact hfamily p hp
    · have hun := hothers c hc (.inr (Dict.mem_of_get? hp))
      obtain ⟨k, hchildren, hfan⟩ := h.family c p (hun.parents ▸ hp)
      have hmem : (c ∈ s'.fanOuts) ↔ c ∈ s.fanOuts := by
        rw [Dict.mem_iff_get?, Dict.mem_iff_get?, hun.fanOuts]
      refine ⟨k, ?_, fun f hf => hfan f (hun.fanOuts ▸ hf)⟩
      simp only [hmem]
      exact hchildren.unaffected hun

/-- A call that has a parent request has been made. -/
theorem Families.lt_numCalls (h : Families s) (hp : s.parents.get? c = some p) :
    c < s.numCalls := by
  by_contra hle
  rw [(h.untouched c (not_lt.mp hle)).parents] at hp
  cases hp

theorem numCalls_fanOut : (s.fanOut I c p f).numCalls = s.numCalls := by
  unfold AsyncLLM.fanOut
  dsimp only
  split
  next s₁ hreg =>
    obtain ⟨-, rs, -, rfl⟩ := register_ok hreg
    rfl
  next => rfl

theorem unaffected_newCall (c : CallId) (s : AsyncLLM D) :
    Unaffected c s { s with numCalls := s.numCalls + 1 } :=
  ⟨rfl, rfl, fun _ _ _ => Iff.rfl, fun _ h => h, fun _ => Iff.rfl, rfl⟩

theorem Families.newCall (h : Families s) : Families { s with numCalls := s.numCalls + 1 } := by
  refine h.step (Nat.le_succ _) (Nat.lt_succ_self _)
    (fun c _ _ => unaffected_newCall c s) fun p hp => ?_
  change s.parents.get? s.numCalls = some p at hp
  rw [(h.untouched s.numCalls (le_refl _)).parents] at hp
  cases hp

/-- A request without children. -/
theorem Families.register (h : Families s) (hqueue : queue < s.numCalls)
    (hnone : s.parents.get? queue = none) :
    Families ((s.register I request prompt none 0 queue).toOption.getD s) := by
  cases hreg : s.register I request prompt none 0 queue with
  | error e => exact h
  | ok s₁ =>
    have hsame : s₁.numCalls = s.numCalls ∧ s₁.parents = s.parents := by
      obtain ⟨-, rs, -, rfl⟩ := register_ok hreg
      exact ⟨rfl, rfl⟩
    change Families s₁
    refine h.step hsame.1.ge (hsame.1 ▸ hqueue)
      (fun c hc _ => register_unaffected (by simp) (Ne.symm hc) hreg) fun p hp => ?_
    rw [hsame.2, hnone] at hp
    cases hp

/-- A new call. -/
theorem Families.addRequest (h : Families s) : Families (s.addRequest I request prompt) := by
  have hnew := h.untouched s.numCalls (le_refl _)
  have hempty := h.newCall
  have hsingle := @Families.register D I _ request prompt s.numCalls hempty
    (Nat.lt_succ_self s.numCalls) hnew.parents
  unfold AsyncLLM.addRequest
  split
  next => exact hsingle
  next params hparams =>
  split
  next => exact hsingle
  next =>
  split
  next => exact hempty
  next hpos =>
    have hfamily := (hnew.unaffected (unaffected_newCall _ s)).family request.requestId
      (Nat.pos_of_ne_zero hpos)
    obtain ⟨p', k', hp', hfamily'⟩ := fanOut_family (I := I)
      (f := { request, prompt, n := params.n, idx := 0 }) hfamily rfl
    refine h.step ?_ ?_ (fun c hc _ =>
      (unaffected_newCall c s).trans (fanOut_unaffected hc)) fun p hp => ?_
    · rw [numCalls_fanOut]
      exact Nat.le_succ _
    · rw [numCalls_fanOut]
      exact Nat.lt_succ_self _
    · obtain rfl := Option.some.inj (hp'.symm.trans hp)
      exact ⟨k', hfamily'⟩

theorem Families.resume (h : Families s) (hres : s.resume I c = .ok s') : Families s' := by
  unfold AsyncLLM.resume at hres
  split at hres
  next f p hf hp =>
    cases hres
    obtain ⟨k, hchildren, hfan⟩ := h.family c p hp
    obtain ⟨rfl, hn⟩ := hfan f hf
    rw [show decide (c ∈ s.fanOuts) = true by simp [Dict.mem_of_get? hf]] at hchildren
    obtain ⟨p', k', hp', hfamily⟩ := fanOut_family (I := I) hchildren hn
    refine h.step numCalls_fanOut.ge (by rw [numCalls_fanOut]; exact h.lt_numCalls hp)
      (fun c' hc' _ => fanOut_unaffected hc') fun q hq => ?_
    obtain rfl := Option.some.inj (hp'.symm.trans hq)
    exact ⟨k', hfamily⟩
  next => cases hres

theorem Families.processOutput (h : Families s) (hdelivers : s.Delivers o)
    (hremains : ¬ s.FinishesAlone I o) (hs' : s.processOutput I o = .ok s') : Families s' := by
  rcases processOutput_ok hs' with ⟨-, rfl⟩ | ⟨rs, rs', finishReason, out, hproc⟩
  · exact h
  -- the call the request belongs to has been made
  have hmade : ∀ c, rs.parentReq = some c ∨ rs.queue = c → c < s.numCalls := fun c hc => by
    by_contra hle
    have hun := (h.untouched c (not_lt.mp hle)).requestStates _ _ hproc.lookup
    exact hc.elim hun.1 hun.2
  cases hparent : rs.parentReq with
  | none =>
    refine h.step hproc.numCalls.ge (hproc.numCalls ▸ hmade _ (.inr rfl))
      (fun c hc _ => hproc.unaffected (by simp [hparent]) hc.symm) fun p hp => ?_
    rw [hproc.parents _ (by simp [hparent])] at hp
    obtain ⟨k, hchildren, -⟩ := h.family _ p hp
    rw [hchildren.queue _ _ hproc.lookup rfl] at hparent
    cases hparent
  | some c₀ =>
    refine h.step hproc.numCalls.ge (hproc.numCalls ▸ hmade _ (.inl hparent))
      (fun c hc hc' => hproc.unaffected (fun heq => hc ?_) fun hqueue => hc ?_) fun p hp => ?_
    · exact Option.some.inj (heq.symm.trans hparent)
    · rcases hc' with hle | hmem
      · exact absurd (hmade c (.inr hqueue)) (not_lt.mpr hle)
      · obtain ⟨p, hp⟩ := Dict.mem_iff_get?.mp hmem
        rw [hproc.parents c fun heq => hc (Option.some.inj (heq.symm.trans hparent))] at hp
        obtain ⟨k, hchildren, -⟩ := h.family c p hp
        have := hchildren.queue _ _ hproc.lookup hqueue
        exact Option.some.inj (this.symm.trans hparent)
    · cases hold : s.parents.get? c₀ with
      | none =>
        rw [hproc.orphan c₀ hparent hold] at hp
        cases hp
      | some p₀ =>
        obtain ⟨k, hchildren, hfan⟩ := h.family c₀ p₀ hold
        obtain ⟨-, -, -, -, -, -, hdetok⟩ := hchildren.entry _ _ hproc.lookup hparent
        have hpool : o.poolingOutput = none := by
          by_contra hne
          have := hdelivers rs hproc.lookup (Option.isSome_iff_ne_none.mpr hne)
          simp [this] at hdetok
        have hnew : ∃ p', s'.parents.get? c₀ = some p' ∧ p'.n = p₀.n ∧
            FamilyAt s' c₀ p' (decide (c₀ ∈ s.fanOuts)) k := by
          by_cases hfin : finishReason.isSome
          · refine hchildren.finishes hold hproc hparent hpool hfin fun hfan => ?_
            by_contra hnone
            push Not at hnone
            exact hremains ⟨rs, hproc.lookup, hproc.finishes.trans hfin, c₀, hparent,
              of_decide_eq_true hfan, p₀, hold, hnone⟩
          · exact hchildren.streams hold hproc hparent hpool (by simpa using hfin)
        obtain ⟨p', hp', hn, hchildren'⟩ := hnew
        obtain rfl := Option.some.inj (hp'.symm.trans hp)
        refine ⟨k, hproc.fanOuts ▸ hchildren', fun f hf => ?_⟩
        rw [hproc.fanOuts] at hf
        exact ⟨(hfan f hf).1, (hfan f hf).2.trans hn.symm⟩

theorem Families.processOutputs {outputs : List EngineCoreOutput} (h : Families s)
    (hok : AsyncLLM.Rounds I (fun s o => s.Delivers o ∧ ¬ s.FinishesAlone I o) s outputs)
    (hs' : s.processOutputs I outputs = .ok s') : Families s' := by
  induction outputs generalizing s with
  | nil =>
    obtain rfl : s = s' := by simpa [AsyncLLM.processOutputs] using hs'
    exact h
  | cons o rest ih =>
    obtain ⟨s₁, hs₁, hrest⟩ := threadM_cons_ok.mp hs'
    obtain ⟨⟨hdelivers, hremains⟩, hok⟩ := hok
    rw [hs₁] at hok
    exact ih (h.processOutput hdelivers hremains hs₁) hok hrest

theorem families_of_reach (hs : (asyncMachine I).Reach (OutstandingChildRemains I) s) :
    Families s := by
  refine hs.invariant .init fun s op s' h hok hstep => ?_
  change s.step I op = .ok s' at hstep
  cases op with
  | addRequest request prompt =>
    obtain rfl : s.addRequest I request prompt = s' := by simpa [AsyncLLM.step] using hstep
    exact h.addRequest
  | resume c => exact h.resume hstep
  | processOutputs outputs => exact h.processOutputs hok hstep

/-- **A request that is fanned out completes exactly once**, in every interleaving in which another
child is outstanding whenever a child finishes before all of them have been registered. -/
theorem completesOnce_of_reach (hs : (asyncMachine I).Reach (OutstandingChildRemains I) s)
    (hp : s.parents.get? c = some p) : CompletesOnce s c p := by
  obtain ⟨k, hfamily⟩ := (families_of_reach hs).family c p hp
  exact hfamily.children.completesOnce

end Steps

/-! ## Two children -/

/-- A request for two completions, all at the end. -/
def twoSamples : EngineCoreRequest :=
  { requestId := "r"
    promptTokenIds := [1, 2]
    samplingParams := some { maxTokens := 1, n := 2, outputKind := .finalOnly } }

/-- The last output of a request. -/
def lastOutput (requestId : RequestId) (tokenId : TokenId) : EngineCoreOutput :=
  { requestId, newTokenIds := [tokenId], finishReason := some .length }

/-- Both children are registered before one of them finishes. -/
theorem completesOnce_twoSamples :
    ∃ s p, (asyncMachine .base).Reach (OutstandingChildRemains .base) s ∧
      s.parents.get? 0 = some p ∧ CompletesOnce s 0 p := by
  obtain ⟨s, hreach, hmem⟩ := (asyncMachine .base).exists_reach (OutstandingChildRemains .base)
    [.addRequest twoSamples none, .resume 0, .processOutputs [lastOutput "0_r" 3,
      lastOutput "1_r" 4]] (fun s => 0 ∈ s.parents) (by decide +kernel)
  obtain ⟨p, hp⟩ := Dict.mem_iff_get?.mp hmem
  exact ⟨s, p, hreach, hp, completesOnce_of_reach hreach hp⟩

/-- **The first child is too fast**: it finishes before the second has been registered, and the
collector gets a finished output without the second completion, and later another one. -/
theorem not_completesOnce_twoSamples :
    ∃ s p, (asyncMachine .base).Reach (WellTypedOutputs .base) s ∧
      s.parents.get? 0 = some p ∧ (s.finishedOutputs 0).length = 2 ∧
      (∃ o ∈ s.finishedOutputs 0, ¬ o.Complete p.n) ∧ ¬ CompletesOnce s 0 p := by
  have hrun : ((asyncMachine .base).execIf (WellTypedOutputs .base)
      [.addRequest twoSamples none, .processOutputs [lastOutput "0_r" 3], .resume 0,
        .processOutputs [lastOutput "1_r" 4]] {}).any (fun s =>
      (s.parents.get? 0).any fun p => decide ((s.finishedOutputs 0).length = 2 ∧
        (∃ o ∈ s.finishedOutputs 0, none ∈ o.outputs) ∧ ∀ i < p.n,
          (0, i) ∈ s.finishedChildren)) = true := by
    decide +kernel
  obtain ⟨s, hs, hp⟩ := Option.any_eq_true .. |>.mp hrun
  obtain ⟨p, hp, hchecks⟩ := Option.any_eq_true .. |>.mp hp
  obtain ⟨hlen, ⟨o, ho, hnone⟩, hall⟩ := of_decide_eq_true hchecks
  refine ⟨s, p, Machine.reach_execIf .start hs, hp, hlen, ⟨o, ho, ?_⟩, fun h => ?_⟩
  · rintro ⟨l, hl, -⟩
    rw [hl] at hnone
    simp at hnone
  · rw [h.after hall] at hlen
    exact absurd hlen (by decide)

end InferenceServer.Frontend
