import InferenceServer.Frontend.ParallelSampling

/-!
# Rejected requests

`OutputProcessor.add_request` raises a `ValueError` if a request of the same identifier is running, and
`generate` hands it on to the client without an abort. A request that is not fanned out has then left
nothing behind. The children of a request with `n > 1`, however, are checked, registered and sent one at
a time, under identifiers that a client can also choose: if a later one is taken, those before it have
already been sent to the engine core, and run without anyone waiting for them.

So a rejected request leaves nothing behind unless the first child that is taken is a later one.
-/

namespace InferenceServer.Frontend

open Outcome
open List (range)

variable {D : Type} {I : IncrementalDetokenizer D}

namespace AsyncLLM

/-! ## The call -/

section Call

variable (I) (c : CallId) (request : EngineCoreRequest) (prompt : Option String)

/-- The loop of `add_request` over the children: the exception it ends with, if any, and the state. -/
def addChildren : ParentRequest → List Nat → AsyncLLM D → Option PyError × AsyncLLM D
  | _, [], s => (none, s)
  | p, idx :: idxs, s =>
    let ((childId, params), p) := p.getChildInfo idx
    let child := { request with requestId := childId, samplingParams := some params }
    match s.register I child prompt (some (c, p.requestId)) idx c with
    | .ok s => addChildren p idxs s
    | .error e => (some e, s)

/-- A call of `add_request` during which no other task runs: the exception it raises, if any, and the
state. -/
def addRequestCall (s : AsyncLLM D) : Option PyError × AsyncLLM D :=
  let c := s.numCalls
  let s := { s with numCalls := s.numCalls + 1 }
  let single :=
    match s.register I request prompt none 0 c with
    | .ok s => (none, s)
    | .error e => (some e, s)
  match request.samplingParams with
  | none => single
  | some params =>
    if params.n = 1 then single
    else s.addChildren I c request prompt (.new request.requestId params) (List.range params.n)

end Call

/-- Two states with the same requests: those of the `OutputProcessor`, and those sent to the engine
core. -/
structure SameBooks (s s' : AsyncLLM D) : Prop where
  requestStates : s'.requestStates = s.requestStates
  parentRequests : s'.parentRequests = s.parentRequests
  sent : s'.sent = s.sent

theorem SameBooks.refl (s : AsyncLLM D) : SameBooks s s := ⟨rfl, rfl, rfl⟩

/-! ## A single request -/

section Register

variable {request : EngineCoreRequest}

/-- **A request with sampling parameters** is rejected exactly if its identifier is taken. -/
theorem register_cases {params : SamplingParams} (hparams : request.samplingParams = some params)
    (s : AsyncLLM D) (prompt : Option String) (parentReq : Option (CallId × RequestId)) (index : Nat)
    (queue : CallId) :
    (request.requestId ∈ s.requestStates ∧
        s.register I request prompt parentReq index queue = .error .valueError) ∨
      (request.requestId ∉ s.requestStates ∧ ∃ rs,
        RequestState.fromNewRequest I request prompt (parentReq.map Prod.fst) index queue = .ok rs ∧
        s.register I request prompt parentReq index queue = .ok { s with
          requestStates := s.requestStates.set request.requestId rs
          parentRequests := parentReq.elim s.parentRequests fun e => s.parentRequests.set e.2 e.1
          sent := s.sent ++ [request] }) := by
  by_cases hmem : request.requestId ∈ s.requestStates
  · refine .inl ⟨hmem, ?_⟩
    rw [register, require, if_neg (not_not.mpr hmem)]
    rfl
  · obtain ⟨rs, hrs⟩ : ∃ rs, RequestState.fromNewRequest I request prompt
        (parentReq.map Prod.fst) index queue = .ok rs := by
      rw [RequestState.fromNewRequest, hparams]
      exact ⟨_, rfl⟩
    refine .inr ⟨hmem, rs, hrs, ?_⟩
    rw [register, bind_of_ok (require_of hmem), bind_of_ok hrs]
    rfl

end Register

/-! ## What is left behind -/

section Rejected

variable {s : AsyncLLM D} {c : CallId} {p : ParentRequest} {request : EngineCoreRequest}
  {prompt : Option String}

theorem getChildInfo_same (p : ParentRequest) (index : Nat) :
    p.Same (p.getChildInfo index).2 ∧ (p.getChildInfo index).1.1 = p.childReqId index := by
  refine ⟨?_, rfl⟩
  rw [ParentRequest.getChildInfo, ParentRequest.getChildSamplingParams]
  cases p.cachedChildSamplingParams with
  | some params => exact ⟨rfl, rfl⟩
  | none =>
    cases p.samplingParams.seed with
    | some seed => exact ⟨rfl, rfl⟩
    | none => exact ⟨rfl, rfl⟩

/-- One round of the loop: the child is rejected, or it joins the requests and is sent. -/
theorem addChildren_cons (p : ParentRequest) (idx : Nat) (idxs : List Nat) (s : AsyncLLM D) :
    (p.childReqId idx ∈ s.requestStates ∧
        addChildren I c request prompt p (idx :: idxs) s = (some .valueError, s)) ∨
      (p.childReqId idx ∉ s.requestStates ∧ ∃ s' p' child, p.Same p' ∧
        (∀ id, id ∈ s'.requestStates ↔ id = p.childReqId idx ∨ id ∈ s.requestStates) ∧
        s'.sent = s.sent ++ [child] ∧
        addChildren I c request prompt p (idx :: idxs) s =
          addChildren I c request prompt p' idxs s') := by
  obtain ⟨hsame, hid⟩ := getChildInfo_same p idx
  rw [addChildren]
  generalize p.getChildInfo idx = info at *
  obtain ⟨⟨childId, params⟩, p'⟩ := info
  dsimp only at hid hsame ⊢
  have hparams : ({ request with requestId := childId, samplingParams := some params } :
      EngineCoreRequest).samplingParams = some params := rfl
  rcases register_cases (I := I) hparams s prompt (some (c, p'.requestId)) idx c with
    ⟨hmem, hs⟩ | ⟨hnew, rs, -, hs⟩
  · rw [hs]
    exact .inl ⟨hid ▸ hmem, rfl⟩
  · rw [hs]
    refine .inr ⟨hid ▸ hnew, _, p', _, hsame, fun id => ?_, rfl, rfl⟩
    rw [← hid]
    exact Dict.mem_set

theorem length_sent_addChildren (p : ParentRequest) (idxs : List Nat) (s : AsyncLLM D) :
    s.sent.length ≤ (addChildren I c request prompt p idxs s).2.sent.length := by
  induction idxs generalizing p s with
  | nil => exact le_rfl
  | cons idx idxs ih =>
    rcases addChildren_cons (I := I) (c := c) p idx idxs s with
      ⟨-, hadd⟩ | ⟨-, s', p', child, -, -, hsent, hadd⟩
    · rw [hadd]
    · rw [hadd]
      have hle := ih p' s'
      rw [hsent, List.length_append] at hle
      omega

/-- **The loop raises** the exception exactly if the identifier of a child is taken. -/
theorem addChildren_raises_iff {idxs : List Nat} (hnodup : idxs.Nodup) :
    (addChildren I c request prompt p idxs s).1 = some .valueError ↔
      ∃ i ∈ idxs, p.childReqId i ∈ s.requestStates := by
  induction idxs generalizing p s with
  | nil => simp [addChildren]
  | cons idx idxs ih =>
    obtain ⟨hidx, hnodup⟩ := List.nodup_cons.mp hnodup
    rcases addChildren_cons (I := I) (c := c) p idx idxs s with
      ⟨hmem, hadd⟩ | ⟨hnew, s', p', child, hsame, hstates, -, hadd⟩
    · rw [hadd]
      exact iff_of_true rfl ⟨idx, List.mem_cons_self, hmem⟩
    · rw [hadd, ih hnodup, hsame.childReqId]
      constructor
      · rintro ⟨i, hi, hmem⟩
        rcases (hstates _).mp hmem with heq | hmem
        · -- the children have different identifiers
          obtain rfl := ParentRequest.childReqId_inj.mp heq
          exact absurd hi hidx
        · exact ⟨i, List.mem_cons_of_mem _ hi, hmem⟩
      · rintro ⟨i, hi, hmem⟩
        rcases List.mem_cons.mp hi with rfl | hi
        · exact absurd hmem hnew
        · exact ⟨i, hi, (hstates _).mpr (.inr hmem)⟩

/-- If the first child is registered and a later one is not, the first one stays. -/
theorem addChildren_leaves_nothing_iff (p : ParentRequest) (n : Nat) (s : AsyncLLM D) :
    ((addChildren I c request prompt p (range n) s).1 = some .valueError →
        s.SameBooks (addChildren I c request prompt p (range n) s).2) ↔
      ((∃ i < n, p.childReqId i ∈ s.requestStates) → p.childReqId 0 ∈ s.requestStates) := by
  have hraises : (addChildren I c request prompt p (range n) s).1 = some .valueError ↔
      ∃ i ∈ range n, p.childReqId i ∈ s.requestStates := addChildren_raises_iff List.nodup_range
  simp only [List.mem_range] at hraises
  rw [hraises]
  cases n with
  | zero =>
    have hnone : ¬ ∃ i < 0, p.childReqId i ∈ s.requestStates := by
      rintro ⟨i, hi, -⟩
      exact Nat.not_lt_zero i hi
    exact iff_of_true (fun h => absurd h hnone) fun h => absurd h hnone
  | succ n =>
    rw [List.range_succ_eq_map]
    rcases addChildren_cons (I := I) (c := c) p 0 ((range n).map Nat.succ) s with
      ⟨hmem, hadd⟩ | ⟨hnew, s', p', child, -, -, hsent, hadd⟩
    · rw [hadd]
      exact iff_of_true (fun _ => .refl s) fun _ => hmem
    · -- the first child has been sent
      refine imp_congr_right fun _ => iff_of_false (fun hbooks => ?_) hnew
      have hle := @length_sent_addChildren D I c request prompt p'
        ((range n).map Nat.succ) s'
      rw [← hadd, hbooks.sent, hsent, List.length_append, List.length_singleton] at hle
      omega

end Rejected

end AsyncLLM

/-- **The condition**: the request is not fanned out, or no identifier of a child is taken, or that of the
first child is. -/
def FirstChildDecides {D : Type} (s : AsyncLLM D) (request : EngineCoreRequest) : Prop :=
  ∀ params, request.samplingParams = some params → params.n ≠ 1 →
    (∃ i < params.n, (ParentRequest.new request.requestId params).childReqId i ∈ s.requestStates) →
      (ParentRequest.new request.requestId params).childReqId 0 ∈ s.requestStates

/-- **A rejected request leaves nothing behind** exactly if the request is not fanned out, or the first
child is rejected whenever one of the children is. -/
theorem rejected_leaves_nothing_iff {D : Type} (I : IncrementalDetokenizer D) (s : AsyncLLM D)
    (request : EngineCoreRequest) (prompt : Option String) :
    ((s.addRequestCall I request prompt).1 = some .valueError →
        s.SameBooks (s.addRequestCall I request prompt).2) ↔
      FirstChildDecides s request := by
  have hsingle : ∀ s' : AsyncLLM D, s.SameBooks s' →
      (match s'.register I request prompt none 0 s.numCalls with
        | .ok s => ((none : Option PyError), s)
        | .error e => (some e, s')).1 = some .valueError →
      s.SameBooks (match s'.register I request prompt none 0 s.numCalls with
        | .ok s => ((none : Option PyError), s)
        | .error e => (some e, s')).2 := by
    intro s' hsame hraise
    cases hreg : s'.register I request prompt none 0 s.numCalls with
    | ok t =>
      rw [hreg] at hraise
      exact nomatch hraise
    | error e => exact hsame
  rw [FirstChildDecides, AsyncLLM.addRequestCall]
  cases hparams : request.samplingParams with
  | none => exact iff_of_true (hsingle _ ⟨rfl, rfl, rfl⟩) fun _ hc => nomatch hc
  | some params =>
    dsimp only
    by_cases hone : params.n = 1
    · rw [if_pos hone]
      refine iff_of_true (hsingle _ ⟨rfl, rfl, rfl⟩) fun params' hc hne => ?_
      exact absurd (Option.some.inj hc ▸ hone) hne
    · rw [if_neg hone]
      have hiff := @AsyncLLM.addChildren_leaves_nothing_iff D I s.numCalls request prompt
        (.new request.requestId params) params.n { s with numCalls := s.numCalls + 1 }
      refine Iff.trans ⟨fun h hraise => ?_, fun h hraise => ?_⟩ (hiff.trans ⟨fun h => ?_, fun h => ?_⟩)
      · exact ⟨(h hraise).requestStates, (h hraise).parentRequests, (h hraise).sent⟩
      · exact ⟨(h hraise).requestStates, (h hraise).parentRequests, (h hraise).sent⟩
      · rintro params' hc -
        obtain rfl := Option.some.inj hc
        exact h
      · exact h params rfl hone

/-! ## A taken identifier -/

/-- A request that is running under the identifier of a second child. -/
def takenSecond : AsyncLLM (List TokenId) :=
  (({} : AsyncLLM (List TokenId)).addRequestCall .base
    { requestId := "1_r", promptTokenIds := [5], samplingParams := some { maxTokens := 1 } } none).2

/-- The second child of a request is rejected, and the first one has been sent. -/
theorem not_rejected_leaves_nothing :
    (takenSecond.addRequestCall .base twoSamples none).1 = some .valueError ∧
      ¬ takenSecond.SameBooks (takenSecond.addRequestCall .base twoSamples none).2 ∧
      "0_r" ∈ (takenSecond.addRequestCall .base twoSamples none).2.requestStates ∧
      "r" ∈ (takenSecond.addRequestCall .base twoSamples none).2.parentRequests := by
  refine ⟨by decide +kernel, fun h => ?_, by decide +kernel, by decide +kernel⟩
  have hlen : (takenSecond.addRequestCall .base twoSamples none).2.sent.length =
      takenSecond.sent.length + 1 := by decide +kernel
  rw [h.sent] at hlen
  omega

end InferenceServer.Frontend
