import InferenceServer.MultiModal.InputCache

/-!
# The mirrored caches agree

The invariant is that the engine core's cache will be the front end's once it has received what is in
flight, and that it will have found every input that was withheld (`Serves`). A request whose message
is sent once keeps it: both sides make the same uses and the same assignments in the same order.

Two kinds of steps do not. A call that raises after it has updated the front end's cache sends
nothing, be it for an identifier that is running or for an input larger than the cache. And the later
children of a request send the same inputs again, while the front end has used them only once. Such
a step does no harm if the inputs are the last ones the front end has used, in this order; then using
them again changes nothing.
-/

namespace InferenceServer.Frontend

open Outcome LRUCache
open Prod (fst snd)

section

variable {κ ν : Type} [DecidableEq κ] {size : ν → Nat} {capacity : Nat} {useCache : Bool}
  {input : κ → ν} {c c' : LRUCache κ ν}

/-! ## The two updates -/

/-- The cache holds inputs under their hashes, and each of them fits. -/
def Holds (size : ν → Nat) (capacity : Nat) (input : κ → ν) (c : LRUCache κ ν) : Prop :=
  ∀ h v, c.get? h = some v → v = input h ∧ size v ≤ capacity

theorem Holds.touch (hc : Holds size capacity input c) (h : κ) :
    Holds size capacity input (c.touch h) := by
  intro j v hj
  rw [get?_touch] at hj
  exact hc j v hj

theorem Holds.setItem {h : κ} (hc : Holds size capacity input c)
    (hs : c.setItem size capacity h (input h) = some c') : Holds size capacity input c' := by
  have hfit : size (input h) ≤ capacity := by
    by_contra hlarge
    rw [setItem_eq_none (by omega)] at hs
    cases hs
  intro j v hj
  rcases get?_of_setItem hs hj with ⟨rfl, rfl⟩ | hj
  · exact ⟨rfl, hfit⟩
  · exact hc j v hj

/-- What the engine core makes of a message. -/
def inputsOf (input : κ → ν) (message : MmMessage κ ν) : List ν := message.map fun e => input e.1

/-- The inputs that are sent are those of their hashes; without the cache none is withheld. -/
def Labelled (useCache : Bool) (input : κ → ν) (message : MmMessage κ ν) : Prop :=
  ∀ e ∈ message, e.2 = some (input e.1) ∨ e.2 = none ∧ useCache = true

/-- **The updates mirror each other.** From one cache, the engine core takes the message of the front
end to the inputs, and both end with one cache. -/
theorem updateClient_ok {hashes : List κ} {message : MmMessage κ ν}
    (hc : Holds size capacity input c)
    (h : updateClient size capacity input c hashes = (.ok message, c')) :
    message.map fst = hashes ∧ Labelled true input message ∧ Holds size capacity input c' ∧
      updateServer size capacity c message = .ok (inputsOf input message, c') := by
  induction hashes generalizing c message with
  | nil =>
    obtain ⟨hmessage, rfl⟩ := Prod.mk.inj h
    cases hmessage
    exact ⟨rfl, nofun, hc, rfl⟩
  | cons hash hashes ih =>
    unfold updateClient at h
    cases hget : c.get? hash with
    | some v =>
      simp only [hget] at h
      obtain ⟨hmessage, rfl⟩ := Prod.mk.inj h
      cases hrest : (updateClient size capacity input (c.touch hash) hashes).1 with
      | error e =>
        rw [hrest] at hmessage
        cases hmessage
      | ok rest =>
        rw [hrest] at hmessage
        cases hmessage
        obtain ⟨hkeys, hlabelled, hholds, hserver⟩ := ih (hc.touch hash) (Prod.ext hrest rfl)
        refine ⟨by rw [List.map_cons, hkeys], ?_, hholds, ?_⟩
        · rintro e he
          rcases List.mem_cons.mp he with rfl | he
          · exact .inr ⟨rfl, rfl⟩
          · exact hlabelled e he
        · obtain ⟨rfl, -⟩ := hc hash v hget
          simp only [updateServer, hget, hserver]
          rfl
    | none =>
      simp only [hget] at h
      cases hset : c.setItem size capacity hash (input hash) with
      | none => simp [hset] at h
      | some d =>
        simp only [hset] at h
        obtain ⟨hmessage, rfl⟩ := Prod.mk.inj h
        cases hrest : (updateClient size capacity input d hashes).1 with
        | error e =>
          rw [hrest] at hmessage
          cases hmessage
        | ok rest =>
          rw [hrest] at hmessage
          cases hmessage
          obtain ⟨hkeys, hlabelled, hholds, hserver⟩ := ih (hc.setItem hset) (Prod.ext hrest rfl)
          refine ⟨by rw [List.map_cons, hkeys], ?_, hholds, ?_⟩
          · rintro e he
            rcases List.mem_cons.mp he with rfl | he
            · exact .inl rfl
            · exact hlabelled e he
          · simp only [updateServer, hset, hserver]
            rfl

/-- The inputs the front end gets to before one that is larger than its cache. -/
def charged (size : ν → Nat) (capacity : Nat) (input : κ → ν) (hashes : List κ) : List κ :=
  hashes.takeWhile fun h => decide (size (input h) ≤ capacity)

theorem charged_cons_of_le {h : κ} {hashes : List κ} (hle : size (input h) ≤ capacity) :
    charged size capacity input (h :: hashes) = h :: charged size capacity input hashes := by
  simp [charged, hle]

/-- If everything fits, nothing is raised. -/
theorem updateClient_isOk {hashes : List κ} (hfit : charged size capacity input hashes = hashes) :
    ∃ message, (updateClient size capacity input c hashes).1 = .ok message := by
  induction hashes generalizing c with
  | nil => exact ⟨_, rfl⟩
  | cons h hashes ih =>
    have hle : size (input h) ≤ capacity := by
      by_contra hlarge
      simp [charged, hlarge] at hfit
    have hrest : charged size capacity input hashes = hashes := by
      rw [charged_cons_of_le hle] at hfit
      exact (List.cons.inj hfit).2
    unfold updateClient
    cases hget : c.get? h with
    | some v =>
      obtain ⟨message, hmessage⟩ := ih (c := c.touch h) hrest
      exact ⟨(h, none) :: message, by simp [hmessage, Except.map]⟩
    | none =>
      obtain ⟨d, hd⟩ := Option.isSome_iff_exists.mp (setItem_isSome (c := c) (k := h) hle)
      obtain ⟨message, hmessage⟩ := ih (c := d) hrest
      exact ⟨(h, some (input h)) :: message, by simp [hd, hmessage, Except.map]⟩

variable (hc : Holds size capacity input c)

include hc

/-- If the front end has everything it gets to, it uses it, and does nothing else. -/
theorem updateClient_present {hashes : List κ}
    (hpresent : ∀ h ∈ charged size capacity input hashes, ∃ v, c.get? h = some v) :
    (updateClient size capacity input c hashes).2 =
      (charged size capacity input hashes).foldl touch c := by
  induction hashes generalizing c with
  | nil => rfl
  | cons h hashes ih =>
    unfold updateClient
    by_cases hle : size (input h) ≤ capacity
    · rw [charged_cons_of_le hle] at hpresent ⊢
      obtain ⟨v, hv⟩ := hpresent h List.mem_cons_self
      simp only [hv, List.foldl_cons]
      refine ih (hc.touch h) fun j hj => ?_
      rw [get?_touch]
      exact hpresent j (List.mem_cons_of_mem _ hj)
    · -- a larger input is not in the cache, and is refused
      have hnone : c.get? h = none := by
        cases hget : c.get? h with
        | none => rfl
        | some v =>
          obtain ⟨rfl, hfit⟩ := hc h v hget
          exact absurd hfit hle
      simp [hnone, setItem_eq_none (Nat.lt_of_not_le hle), charged, hle]

theorem updateClient_steady {hashes : List κ}
    (hsteady : c.Steady (charged size capacity input hashes)) :
    (updateClient size capacity input c hashes).2 = c := by
  rw [updateClient_present hc fun h hh => hsteady.get? hh, foldl_touch_steady hsteady]

/-- If the engine core has everything in a message, it uses it, and does nothing else. -/
theorem updateServer_present {message : MmMessage κ ν} (hlabelled : Labelled true input message)
    (hpresent : ∀ h ∈ message.map fst, ∃ v, c.get? h = some v) :
    updateServer size capacity c message =
      .ok (inputsOf input message, (message.map fst).foldl touch c) := by
  induction message generalizing c with
  | nil => rfl
  | cons e message ih =>
    obtain ⟨h, payload⟩ := e
    obtain ⟨v, hv⟩ := hpresent h (by simp)
    obtain ⟨rfl, hfit⟩ := hc h v hv
    have hrest := ih (hc.touch h) (fun e he => hlabelled e (List.mem_cons_of_mem _ he)) fun j hj => by
      rw [get?_touch]
      exact hpresent j (by simp [hj])
    rcases hlabelled (h, payload) List.mem_cons_self with hp | ⟨hp, -⟩
    · obtain rfl : payload = some (input h) := hp
      simp only [updateServer, setItem_present hv hfit, hrest]
      rfl
    · obtain rfl : payload = none := hp
      simp only [updateServer, hv, hrest]
      rfl

/-- **Sending the last inputs again changes nothing.** -/
theorem updateServer_steady {message : MmMessage κ ν}
    (hlabelled : Labelled true input message) (hsteady : c.Steady (message.map fst)) :
    updateServer size capacity c message = .ok (inputsOf input message, c) := by
  rw [updateServer_present hc hlabelled fun h hh => hsteady.get? hh, foldl_touch_steady hsteady]

omit hc

/-! ## What is in flight -/

variable (size capacity useCache input)

/-- The engine core takes the messages to the inputs, and its cache from `c` to `c'`. -/
inductive Serves : LRUCache κ ν → List (MmMessage κ ν) → LRUCache κ ν → Prop where
  | nil (c : LRUCache κ ν) : Serves c [] c
  | cons {c d c' : LRUCache κ ν} {message : MmMessage κ ν} {channel : List (MmMessage κ ν)}
    (h : getAndUpdateP1 size capacity useCache c message = .ok (inputsOf input message, d))
    (hs : Serves d channel c') : Serves c (message :: channel) c'

variable {size capacity useCache input}

theorem Serves.concat {channel : List (MmMessage κ ν)} {message : MmMessage κ ν}
    {d : LRUCache κ ν} (hs : Serves size capacity useCache input c channel d)
    (h : getAndUpdateP1 size capacity useCache d message = .ok (inputsOf input message, c')) :
    Serves size capacity useCache input c (channel ++ [message]) c' := by
  induction hs with
  | nil c => exact .cons h (.nil _)
  | cons h' _ ih => exact .cons h' (ih h)

/-- A message that changes nothing may be sent any number of times. -/
theorem Serves.replicate {channel : List (MmMessage κ ν)} {message : MmMessage κ ν}
    {d : LRUCache κ ν} (hs : Serves size capacity useCache input c channel d)
    (h : getAndUpdateP1 size capacity useCache d message = .ok (inputsOf input message, d))
    (n : Nat) : Serves size capacity useCache input c (channel ++ List.replicate n message) d := by
  induction n with
  | zero => simpa using hs
  | succ n ih =>
    rw [List.replicate_succ', ← List.append_assoc]
    exact ih.concat h

/-- Without the cache every input is sent. -/
theorem getAndUpdateP1_noCache {message : MmMessage κ ν} (hlabelled : Labelled false input message) :
    getAndUpdateP1 size capacity false c message = .ok (inputsOf input message, c) := by
  have hmap : message.mapM (fun e : κ × Option ν =>
      e.2.elim (.error (.assertionError .getAndUpdateP1)) Except.ok) =
        (Except.ok (inputsOf input message) : Except PyError (List ν)) := by
    rw [mapM_eq_ok, inputsOf, List.forall₂_map_right_iff, List.forall₂_same]
    intro e he
    rcases hlabelled e he with hp | ⟨-, hfalse⟩
    · rw [hp]; rfl
    · cases hfalse
  unfold getAndUpdateP1
  rw [if_neg (by decide), hmap]
  rfl

end

/-! ## What the front end sends -/

namespace AsyncLLM

variable {D : Type} {I : IncrementalDetokenizer D} {s s' : AsyncLLM D}
  {request : EngineCoreRequest} {prompt : Option String} {parentReq : Option (CallId × RequestId)}
  {index : Nat} {queue : CallId}

/-- A request that is running is not registered again. -/
theorem register_running (h : request.requestId ∈ s.requestStates) :
    s.register I request prompt parentReq index queue = .error .valueError := by
  simp [register, require, h]
  rfl

/-- A request that is registered is sent. -/
theorem register_sends (h : request.requestId ∉ s.requestStates)
    (hparams : request.samplingParams ≠ none ∨ request.poolingParams ≠ none) :
    ∃ s', s.register I request prompt parentReq index queue = .ok s' ∧
      s'.sent = s.sent ++ [request] := by
  obtain ⟨rs, hrs⟩ : ∃ rs, RequestState.fromNewRequest I request prompt
      (parentReq.map fst) index queue = .ok rs := by
    unfold RequestState.fromNewRequest
    cases hs : request.samplingParams with
    | some params => exact ⟨_, rfl⟩
    | none =>
      cases hp : request.poolingParams with
      | some params => exact ⟨_, rfl⟩
      | none => simp [hs, hp] at hparams
  exact ⟨_, by simp only [register, require, h, not_false_eq_true, if_true, hrs]; rfl, rfl⟩

/-- The call sends a request that is registered. -/
theorem sent_register_getD
    (hparams : request.samplingParams ≠ none ∨ request.poolingParams ≠ none) :
    ((s.register I request prompt parentReq index queue).toOption.getD s).sent.length =
      s.sent.length + if request.requestId ∈ s.requestStates then 0 else 1 := by
  by_cases hid : request.requestId ∈ s.requestStates
  · rw [register_running hid, if_pos hid]
    rfl
  · obtain ⟨s', hs', hsent⟩ : ∃ s', s.register I request prompt parentReq index queue = .ok s' ∧
        s'.sent = s.sent ++ [request] := register_sends hid hparams
    rw [hs', if_neg hid]
    simp [Except.toOption, hsent]

/-- A child is sent unless its identifier is running. -/
theorem sent_fanOut (c : CallId) (p : ParentRequest) (f : FanOut) :
    (s.fanOut I c p f).sent.length =
      s.sent.length + if p.childReqId f.idx ∈ s.requestStates then 0 else 1 := by
  have hchild : ∃ params p', p.getChildInfo f.idx = ((p.childReqId f.idx, params), p') := ⟨_, _, rfl⟩
  obtain ⟨params, p', hchild⟩ := hchild
  unfold fanOut
  simp only [hchild]
  by_cases hid : p.childReqId f.idx ∈ s.requestStates
  · rw [register_running hid, if_pos hid]
    rfl
  · obtain ⟨s', hs', hsent⟩ : ∃ s', ({ s with parents := s.parents.set c p' } : AsyncLLM D).register I
        { f.request with requestId := p.childReqId f.idx, samplingParams := some params } f.prompt
        (some (c, p'.requestId)) f.idx c = .ok s' ∧ s'.sent = s.sent ++ [_] :=
      register_sends hid (.inl (Option.some_ne_none params))
    rw [hs', if_neg hid]
    simp [hsent]

/-- The identifier of the first request that a call would send, if it would send one. -/
def firstId (request : EngineCoreRequest) : Option RequestId :=
  match request.samplingParams with
  | none => if request.poolingParams = none then none else some request.requestId
  | some params =>
    if params.n = 1 then some request.requestId
    else if params.n = 0 then none
    else some ((ParentRequest.new request.requestId params).childReqId 0)

/-- A call of `add_request` sends a request before it is suspended, or ends. -/
def Accepts (s : AsyncLLM D) (request : EngineCoreRequest) : Prop :=
  ∃ id, firstId request = some id ∧ id ∉ s.requestStates

theorem sent_addRequest_of_accepts (h : s.Accepts request) :
    (s.addRequest I request prompt).sent.length = s.sent.length + 1 := by
  obtain ⟨id, hid, hnew⟩ := h
  unfold firstId at hid
  unfold addRequest
  cases hparams : request.samplingParams with
  | none =>
    simp only [hparams] at hid ⊢
    split_ifs at hid with hpooling
    cases hid
    rw [sent_register_getD (.inr hpooling), if_neg hnew]
  | some params =>
    simp only [hparams] at hid ⊢
    have hsome : request.samplingParams ≠ none := by simp [hparams]
    split_ifs at hid ⊢ with hone hzero
    · cases hid
      rw [sent_register_getD (.inl hsome), if_neg hnew]
    · cases hid
      rw [sent_fanOut, if_neg hnew]

/-- A child whose identifier is running is not sent. -/
theorem sent_resume_of_running {c : CallId} (h : s.resume I c = .ok s')
    (hrun : ∀ f p, s.fanOuts.get? c = some f → s.parents.get? c = some p →
      p.childReqId f.idx ∈ s.requestStates) : s'.sent.length = s.sent.length := by
  unfold resume at h
  split at h
  next f p hf hp =>
    cases h
    rw [sent_fanOut, if_pos (hrun f p hf hp), Nat.add_zero]
  next => cases h

end AsyncLLM

/-! ## Runs -/

section

variable {D κ ν : Type} [DecidableEq κ] {I : IncrementalDetokenizer D} {size : ν → Nat}
  {capacity : Nat} {useCache : Bool} {input : κ → ν} {s s' : Mirror D κ ν}

/-- The condition on a step. A call sends its inputs, with none larger than the cache, or the front
end has used those it gets to last, in this order; the later children of a request are not sent, or
the inputs they share are the last ones the front end has used. -/
def InStep (size : ν → Nat) (capacity : Nat) (useCache : Bool) (input : κ → ν) (s : Mirror D κ ν) :
    MirrorOp κ → Prop
  | .addRequest request _ hashes =>
    useCache = false ∨
      (charged size capacity input hashes = hashes ∧ s.front.Accepts request) ∨
      s.client.Steady (charged size capacity input hashes)
  | .resume c =>
    useCache = false ∨
      (∀ f p, s.front.fanOuts.get? c = some f → s.front.parents.get? c = some p →
        p.childReqId f.idx ∈ s.front.requestStates) ∨
      ∀ message, s.callInputs.get? c = some message → s.client.Steady (message.map Prod.fst)
  | .processOutputs _ | .receive => True

/-- **The invariant.** Once the engine core has received what is in flight, the caches agree. -/
structure Lockstep (size : ν → Nat) (capacity : Nat) (useCache : Bool) (input : κ → ν)
    (s : Mirror D κ ν) : Prop where
  holds : Holds size capacity input s.client
  labelled : ∀ c message, s.callInputs.get? c = some message → Labelled useCache input message
  serves : Serves size capacity useCache input s.server s.channel s.client

namespace Lockstep

variable (h : Lockstep size capacity useCache input s)

include h

/-- Inputs that may be sent again are. -/
theorem send {message : MmMessage κ ν} (front : AsyncLLM D)
    (hagain : front.sent.length = s.front.sent.length ∨
      getAndUpdateP1 size capacity useCache s.client message =
        .ok (inputsOf input message, s.client)) :
    Lockstep size capacity useCache input (s.send front message) := by
  refine ⟨h.holds, h.labelled, ?_⟩
  rcases hagain with hnone | hagain
  · simpa [Mirror.send, hnone] using h.serves
  · exact h.serves.replicate hagain _

theorem processOutputs (front : AsyncLLM D) :
    Lockstep size capacity useCache input { s with front } :=
  ⟨h.holds, h.labelled, h.serves⟩

theorem labelled_set {message : MmMessage κ ν}
    (hlabelled : Labelled useCache input message) (j c : CallId) (message' : MmMessage κ ν)
    (hget : (s.callInputs.set j message).get? c = some message') :
    Labelled useCache input message' := by
  rw [Dict.get?_set] at hget
  split_ifs at hget
  · cases hget
    exact hlabelled
  · exact h.labelled c message' hget

theorem setCallInputs {message : MmMessage κ ν}
    (hlabelled : Labelled useCache input message) (c : CallId) :
    Lockstep size capacity useCache input
      { s with callInputs := s.callInputs.set c message } :=
  ⟨h.holds, h.labelled_set hlabelled c, h.serves⟩

omit h

/-- A call of `add_request` without the cache. -/
theorem addRequest_noCache (h : Lockstep size capacity false input s)
    (request : EngineCoreRequest) (prompt : Option String) (hashes : List κ) :
    Lockstep size capacity false input
      (s.addRequest I size capacity false input request prompt hashes) := by
  have hlabelled : Labelled false input (hashes.map fun h => (h, some (input h))) := by
    intro e he
    obtain ⟨hash, -, rfl⟩ := List.mem_map.mp he
    exact .inl rfl
  exact (h.setCallInputs hlabelled s.front.numCalls).send (s.front.addRequest I request prompt)
    (.inr (getAndUpdateP1_noCache hlabelled))

/-- A call of `add_request` that meets the condition. -/
theorem addRequest (h : Lockstep size capacity true input s) {request : EngineCoreRequest}
    {prompt : Option String} {hashes : List κ}
    (hok : (charged size capacity input hashes = hashes ∧ s.front.Accepts request) ∨
      s.client.Steady (charged size capacity input hashes)) :
    Lockstep size capacity true input
      (s.addRequest I size capacity true input request prompt hashes) := by
  cases hupdate : updateClient size capacity input s.client hashes with
  | mk result client =>
    cases result with
    | error e =>
      -- an input is too large, and the front end has used what came before it last
      have hclient : client = s.client := by
        rcases hok with ⟨hfit, -⟩ | hsteady
        · obtain ⟨message, hmessage⟩ := updateClient_isOk (c := s.client) hfit
          rw [hupdate] at hmessage
          cases hmessage
        · exact (congrArg snd hupdate).symm.trans (updateClient_steady h.holds hsteady)
      have hstep : s.addRequest I size capacity true input request prompt hashes =
          { s with client } := by
        simp only [Mirror.addRequest, getAndUpdateP0, if_true, hupdate]
      rw [hstep, hclient]
      exact h
    | ok message =>
      obtain ⟨-, hlabelled, hholds, hserver⟩ := updateClient_ok h.holds hupdate
      have hstep : s.addRequest I size capacity true input request prompt hashes =
          Mirror.send { s with
            client, callInputs := s.callInputs.set s.front.numCalls message }
            (s.front.addRequest I request prompt) message := by
        simp only [Mirror.addRequest, getAndUpdateP0, if_true, hupdate]
      rw [hstep]
      rcases hok with ⟨-, haccepts⟩ | hsteady
      · -- the message is sent once
        refine ⟨hholds, h.labelled_set hlabelled s.front.numCalls, ?_⟩
        simp only [Mirror.send, AsyncLLM.sent_addRequest_of_accepts haccepts,
          Nat.add_sub_cancel_left, List.replicate_one]
        exact h.serves.concat hserver
      · obtain rfl : client = s.client :=
          (congrArg snd hupdate).symm.trans (updateClient_steady h.holds hsteady)
        exact (h.setCallInputs hlabelled s.front.numCalls).send
          (s.front.addRequest I request prompt) (.inr hserver)

/-- A suspended call that meets the condition goes on. -/
theorem resume (h : Lockstep size capacity useCache input s) {c : CallId} {message : MmMessage κ ν}
    {front : AsyncLLM D} (hmessage : s.callInputs.get? c = some message)
    (hfront : s.front.resume I c = .ok front)
    (hok : InStep size capacity useCache input s (.resume c)) :
    Lockstep size capacity useCache input (s.send front message) := by
  have hlabelled := h.labelled c message hmessage
  refine h.send front ?_
  cases useCache with
  | false => exact .inr (getAndUpdateP1_noCache hlabelled)
  | true =>
    rcases hok with hfalse | hrun | hsteady
    · cases hfalse
    · exact .inl (AsyncLLM.sent_resume_of_running hfront hrun)
    · exact .inr (updateServer_steady h.holds hlabelled (hsteady message hmessage))

theorem apply (h : Lockstep size capacity useCache input s) {op : MirrorOp κ}
    (hok : InStep size capacity useCache input s op)
    (hs : s.apply I size capacity useCache input op = .ok s') :
    Lockstep size capacity useCache input s' := by
  cases op with
  | addRequest request prompt hashes =>
    cases hs
    cases useCache with
    | false => exact h.addRequest_noCache request prompt hashes
    | true => exact h.addRequest (hok.resolve_left (by decide))
  | resume c =>
    simp only [Mirror.apply] at hs
    cases hmessage : s.callInputs.get? c with
    | none => simp [hmessage] at hs
    | some message =>
      simp only [hmessage] at hs
      obtain ⟨front, hfront, hs⟩ := bind_eq_ok.mp hs
      cases hs
      exact h.resume hmessage hfront hok
  | processOutputs outputs =>
    obtain ⟨front, -, hs⟩ := bind_eq_ok.mp hs
    cases hs
    exact h.processOutputs front
  | receive =>
    simp only [Mirror.apply] at hs
    cases hchannel : s.channel with
    | nil => simp [hchannel] at hs
    | cons message channel =>
      simp only [hchannel] at hs
      obtain ⟨⟨inputs, server⟩, hserver, hs⟩ := bind_eq_ok.mp hs
      cases hs
      have hserves := h.serves
      rw [hchannel] at hserves
      cases hserves with
      | cons hfound hrest =>
        rw [hserver] at hfound
        cases hfound
        exact ⟨h.holds, h.labelled, hrest⟩

end Lockstep

/-- **The engine core finds every input.** In a run whose steps meet the condition, the message it
receives next gives it the inputs of all hashes. -/
theorem withheldInputs_found
    (h : (mirrorMachine I size capacity useCache input).Reach
      (InStep size capacity useCache input) s)
    {message : MmMessage κ ν} {channel : List (MmMessage κ ν)}
    (hchannel : s.channel = message :: channel) :
    ∃ server, getAndUpdateP1 size capacity useCache s.server message =
      .ok (message.map fun e => input e.1, server) := by
  have hlockstep : Lockstep size capacity useCache input s := by
    refine h.invariant ⟨nofun, nofun, .nil _⟩ fun s op s' hs hok hst => hs.apply hok hst
  have hserves := hlockstep.serves
  rw [hchannel] at hserves
  cases hserves with
  | cons hfound _ => exact ⟨_, hfound⟩

end

/-! ## Two runs -/

/-- A request for `n` samples. -/
def samples (requestId : RequestId) (n : Nat) : EngineCoreRequest where
  requestId
  promptTokenIds := [1]
  samplingParams := some { maxTokens := 1, n }

/-- A cache for two inputs, which are their own hashes. -/
def pairMachine : Machine (Mirror (List TokenId) Nat Nat) (MirrorOp Nat) PyError :=
  mirrorMachine .base (fun _ => 1) 2 true id

/-- A call that sends its inputs, as a computable condition; nothing is fanned out. -/
def sendsInputs (s : Mirror (List TokenId) Nat Nat) : MirrorOp Nat → Prop
  | .addRequest request _ hashes =>
    charged (fun _ => 1) 2 id hashes = hashes ∧
      (AsyncLLM.firstId request).any fun id => decide (id ∉ s.front.requestStates)
  | .resume _ => False
  | .processOutputs _ | .receive => True

instance (s : Mirror (List TokenId) Nat Nat) (op : MirrorOp Nat) : Decidable (sendsInputs s op) := by
  cases op <;> unfold sendsInputs <;> infer_instance

theorem inStep_of_sendsInputs {s : Mirror (List TokenId) Nat Nat} {op : MirrorOp Nat}
    (h : sendsInputs s op) : InStep (fun _ => 1) 2 true id s op := by
  cases op with
  | addRequest request prompt hashes =>
    obtain ⟨hfit, haccepts⟩ := h
    obtain ⟨id, hid, hnew⟩ := (Option.any_eq_true ..).mp haccepts
    exact .inr (.inl ⟨hfit, id, hid, of_decide_eq_true hnew⟩)
  | resume c => exact h.elim
  | processOutputs _ | receive => trivial

/-- Two requests with one input: the second message withholds it, and the engine core finds it. -/
theorem repeatedInput_found :
    ∃ s server, pairMachine.Reach (InStep (fun _ => 1) 2 true id) s ∧ s.channel = [[(7, none)]] ∧
      getAndUpdateP1 (fun _ => 1) 2 true s.server [(7, none)] = .ok ([7], server) := by
  obtain ⟨s, hreach, hchannel⟩ := pairMachine.exists_reach sendsInputs
    [.addRequest (samples "a" 1) none [7], .addRequest (samples "b" 1) none [7], .receive]
    (fun s => s.channel = [[(7, none)]]) (by decide +kernel)
  have hreach := hreach.mono fun _ _ => inStep_of_sendsInputs
  obtain ⟨server, hserver⟩ := withheldInputs_found hreach hchannel
  exact ⟨s, server, hreach, hchannel, hserver⟩

/-- **A call that raises leaves an input behind**: the third one withholds the input that only the
second one had, which raised. -/
theorem duplicateId_keyError :
    ∃ s message channel, pairMachine.Reach (fun _ _ => True) s ∧ s.channel = message :: channel ∧
      getAndUpdateP1 (fun _ => 1) 2 true s.server message = .error .keyError := by
  obtain ⟨s, hreach, hchannel, herror⟩ := pairMachine.exists_reach (fun _ _ => True)
    [.addRequest (samples "a" 1) none [7], .receive, .addRequest (samples "a" 1) none [8],
      .addRequest (samples "b" 1) none [8]] (fun s => s.channel = [[(8, none)]] ∧
      getAndUpdateP1 (fun _ => 1) 2 true s.server [(8, none)] = .error .keyError)
    (by decide +kernel)
  exact ⟨s, _, _, hreach, hchannel, herror⟩

end InferenceServer.Frontend
