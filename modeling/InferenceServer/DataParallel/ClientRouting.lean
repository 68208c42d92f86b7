import InferenceServer.Basic
import InferenceServer.Lib.Dict
import InferenceServer.Lib.Run

/-!
# Routing requests and aborts

A client of several engines chooses an engine for each request (`DPLBAsyncMPClient` in
`vllm/v1/engine/core_client.py`): the one the request names, or the one with the least load. It records
the choice, since an abort has to go to the engine that has the request, and forgets it when that engine
reports the request as finished. The loads come from the coordinator; before they have come for the
first time, a request goes to the first engine, and this choice is not recorded.

What the client hands to its socket goes out in order. A call of `abort_requests_async` with requests of
several engines sends one message to each, and other coroutines may run between them; what the messages
say is decided when the call begins. An engine that dies ends the client and is left out.
-/

namespace InferenceServer.Routing

/-- The identity of an engine. -/
abbrev EngineIdentity := Nat

/-- The waiting and the running requests of an engine. -/
structure LoadCounts where
  waiting : Nat
  running : Nat
  deriving DecidableEq, Repr

/-- Lists are compared by their first elements that differ. -/
def LoadCounts.lt (a b : LoadCounts) : Prop :=
  a.waiting < b.waiting ∨ a.waiting = b.waiting ∧ a.running < b.running

instance (a b : LoadCounts) : Decidable (a.lt b) := by
  unfold LoadCounts.lt
  infer_instance

/-- The load after one more request. -/
def LoadCounts.adjusted (counts : LoadCounts) : LoadCounts :=
  if counts.waiting ≠ 0 then { counts with waiting := counts.waiting + 1 }
  else { counts with running := counts.running + 1 }

/-- `sys.maxsize`. -/
def maxsize : Nat := 2 ^ 63 - 1

/-- The client: what takes part in the routing. -/
structure DPLBAsyncMPClient where
  coreEngines : List EngineIdentity
  clientIndex : Nat := 0
  lbEngines : List LoadCounts := []
  reqsInFlight : Dict ReqId EngineIdentity := ∅
  deriving DecidableEq

namespace DPLBAsyncMPClient

/-- The loop of `get_core_engine_for_request` over the engines: the least load, and the number of its
engine, if one is below the initial load. -/
def leastLoad (c : DPLBAsyncMPClient) : LoadCounts × Option Nat :=
  (List.range c.lbEngines.length).foldl (fun best i =>
    let idx := (c.clientIndex + i) % c.lbEngines.length
    let counts := c.lbEngines.getD idx best.1
    if counts.lt best.1 then (counts, some idx) else best) (⟨maxsize, maxsize⟩, none)

/-- The engine of least load. Its load is adjusted until the next ones come. -/
def pickEngine (c : DPLBAsyncMPClient) : Nat × DPLBAsyncMPClient :=
  match c.leastLoad with
  | (_, none) => (0, c)
  | (counts, some idx) => (idx, { c with lbEngines := c.lbEngines.set idx counts.adjusted })

/-- The engine with a number is chosen, and the choice is recorded. -/
def recordEngine (c : DPLBAsyncMPClient) (requestId : ReqId) (engIndex : Nat) :
    Except PyError (EngineIdentity × DPLBAsyncMPClient) :=
  match c.coreEngines[engIndex]? with
  | none => .error .indexError
  | some engine =>
    .ok (engine, { c with reqsInFlight := c.reqsInFlight.set requestId engine })

/-- `get_core_engine_for_request`. -/
def getCoreEngineForRequest (c : DPLBAsyncMPClient) (requestId : ReqId)
    (dataParallelRank : Option Nat) : Except PyError (EngineIdentity × DPLBAsyncMPClient) :=
  match dataParallelRank with
  | some engIndex => c.recordEngine requestId engIndex
  | none =>
    if c.lbEngines = [] then
      -- no loads have come yet: `core_engine`, without a record
      match c.coreEngines.head? with
      | none => .error .indexError
      | some engine => .ok (engine, c)
    else c.pickEngine.2.recordEngine requestId c.pickEngine.1

/-- `process_engine_outputs`. -/
def processEngineOutputs (c : DPLBAsyncMPClient) (finishedRequests : List ReqId) :
    DPLBAsyncMPClient :=
  if finishedRequests ≠ [] ∧ c.reqsInFlight.keys ≠ [] then
    { c with reqsInFlight := finishedRequests.foldl Dict.erase c.reqsInFlight }
  else c

/-- The ids of each engine: `by_engine`. -/
def byEngine (c : DPLBAsyncMPClient) (requestIds : List ReqId) : Dict EngineIdentity (List ReqId) :=
  requestIds.foldl (fun d id =>
    match c.reqsInFlight.get? id with
    | some engine => d.set engine (d.getD engine [] ++ [id])
    | none => d) ∅

/-- The messages of `abort_requests_async`: engines, and the ids for each. -/
def abortMessages (c : DPLBAsyncMPClient) (requestIds : List ReqId) :
    List (EngineIdentity × List ReqId) :=
  match requestIds with
  | [] => []
  | [id] =>
    match c.reqsInFlight.get? id with
    | some engine => [(engine, [id])]
    | none => []
  | _ => (c.byEngine requestIds).entries

end DPLBAsyncMPClient

/-! ## Runs -/

/-- What the client sends to an engine. -/
inductive EngineMessage where
  | add (requestId : ReqId)
  | abort (requestIds : List ReqId)
  deriving DecidableEq, Repr

/-- The engine and the ids of a message that aborts requests. -/
def abort? (m : EngineIdentity × EngineMessage) : Option (EngineIdentity × List ReqId) :=
  match m.2 with
  | .abort ids => some (m.1, ids)
  | .add _ => none

/-- The client, the requests sent to an engine that has not reported them finished, the calls of
`abort_requests_async` with the messages they have left, and all messages so far. -/
structure RoutingState where
  client : DPLBAsyncMPClient
  inFlight : List (ReqId × EngineIdentity) := []
  aborting : List (List (EngineIdentity × List ReqId)) := []
  sent : List (EngineIdentity × EngineMessage) := []
  /-- What the calls of `abort_requests_async` have decided to send. -/
  decided : List (EngineIdentity × List ReqId) := []

inductive RoutingOp where
  | addRequest (requestId : ReqId) (dataParallelRank : Option Nat)
  | statsUpdate (counts : List LoadCounts)
  /-- Outputs of an engine. -/
  | engineOutputs (engine : EngineIdentity) (finishedRequests : List ReqId)
  | abortRequests (requestIds : List ReqId)
  /-- A call of `abort_requests_async` sends its next message. -/
  | sendAbort (call : Nat)
  deriving DecidableEq, Repr

/-- All runs of a client of the given engines. -/
def routingMachine (coreEngines : List EngineIdentity) (clientIndex : Nat) :
    Machine RoutingState RoutingOp PyError where
  init := { client := { coreEngines, clientIndex } }
  step s
    | .addRequest requestId rank =>
      match s.client.getCoreEngineForRequest requestId rank with
      | .error e => .error e
      | .ok (engine, client) => .ok { s with
        client
        inFlight := s.inFlight ++ [(requestId, engine)]
        sent := s.sent ++ [(engine, .add requestId)] }
    | .statsUpdate counts => .ok { s with client := { s.client with lbEngines := counts } }
    | .engineOutputs engine finished => .ok { s with
        client := s.client.processEngineOutputs finished
        inFlight := s.inFlight.filter fun p => ¬ (p.2 = engine ∧ p.1 ∈ finished) }
    | .abortRequests requestIds => .ok { s with
        aborting := s.aborting ++ [s.client.abortMessages requestIds]
        decided := s.decided ++ s.client.abortMessages requestIds }
    | .sendAbort call =>
      match s.aborting[call]? with
      | some ((engine, ids) :: rest) => .ok { s with
          aborting := s.aborting.set call rest
          sent := s.sent ++ [(engine, .abort ids)] }
      | _ => .error .indexError

namespace RoutingOp

/-- An engine reports requests that it has. -/
def Admitted (s : RoutingState) : RoutingOp → Prop
  | engineOutputs engine finished => ∀ id ∈ finished, (id, engine) ∈ s.inFlight
  | _ => True

/-- The request names its engine or there are loads, and no engine has a request with its id. -/
def Routed (s : RoutingState) : RoutingOp → Prop
  | addRequest requestId rank =>
    (rank.isSome ∨ s.client.lbEngines ≠ []) ∧ ∀ p ∈ s.inFlight, p.1 ≠ requestId
  | _ => True

instance (s : RoutingState) (op : RoutingOp) : Decidable (op.Admitted s) := by
  cases op <;> unfold Admitted <;> infer_instance

instance (s : RoutingState) (op : RoutingOp) : Decidable (op.Routed s) := by
  cases op <;> unfold Routed <;> infer_instance

end RoutingOp

namespace RoutingState

/-- To abort a request that an engine has, among others, is to send a message that names it to this
engine, and to no other. -/
def AbortsReach (s : RoutingState) : Prop :=
  ∀ ids, ∀ p ∈ s.inFlight, p.1 ∈ ids →
    (∃ named, (p.2, named) ∈ s.client.abortMessages ids ∧ p.1 ∈ named) ∧
      ∀ m ∈ s.client.abortMessages ids, p.1 ∈ m.2 → m.1 = p.2

/-- No request is retained that its engine has reported finished. -/
def Forgets (s : RoutingState) : Prop :=
  ∀ id engine, s.client.reqsInFlight.get? id = some engine → (id, engine) ∈ s.inFlight

/-- The messages that have been sent to abort requests. -/
def abortsSent (s : RoutingState) : List (EngineIdentity × List ReqId) := s.sent.filterMap abort?

/-- What the calls have decided to send has been sent, or is what they have left. -/
def SendsDecided (s : RoutingState) : Prop := s.decided.Perm (s.abortsSent ++ s.aborting.flatten)

/-- The record is right: it has exactly the requests that engines have. -/
def Recorded (s : RoutingState) : Prop :=
  ∀ id engine, (id, engine) ∈ s.inFlight ↔ s.client.reqsInFlight.get? id = some engine

end RoutingState

/-! ## Aborts -/

namespace DPLBAsyncMPClient

variable {c : DPLBAsyncMPClient} {ids : List ReqId} {id : ReqId} {engine : EngineIdentity}

theorem getD_byEngine (c : DPLBAsyncMPClient) (ids : List ReqId) (engine : EngineIdentity) :
    (c.byEngine ids).getD engine [] =
      ids.filter fun id => c.reqsInFlight.get? id = some engine := by
  unfold byEngine
  induction ids using List.reverseRecOn with
  | nil => rfl
  | append_singleton ids id ih =>
    rw [List.foldl_append, List.filter_append, List.foldl_cons, List.foldl_nil]
    cases hid : c.reqsInFlight.get? id with
    | none => simp [hid, ih]
    | some e =>
      by_cases he : e = engine
      · subst he
        simp [hid, ih]
      · rw [Dict.getD_set_ne (Ne.symm he), ih]
        simp [hid, he]

/-- The ids that are sent to an engine are those that it has. -/
theorem mem_byEngine {named : List ReqId} (h : (engine, named) ∈ (c.byEngine ids).entries) :
    id ∈ named ↔ id ∈ ids ∧ c.reqsInFlight.get? id = some engine := by
  have hnamed := getD_byEngine c ids engine
  rw [Dict.getD_of_get? (Dict.get?_eq_some_iff.mpr h)] at hnamed
  rw [hnamed, List.mem_filter, decide_eq_true_iff]

/-- An engine that has one of the ids gets a message. -/
theorem exists_byEngine (hid : id ∈ ids) (hengine : c.reqsInFlight.get? id = some engine) :
    ∃ named, (engine, named) ∈ (c.byEngine ids).entries := by
  have hmem : engine ∈ c.byEngine ids := by
    unfold byEngine
    induction ids using List.reverseRecOn with
    | nil => cases hid
    | append_singleton ids id' ih =>
      rw [List.foldl_append, List.foldl_cons, List.foldl_nil]
      rcases List.mem_append.mp hid with hid | hid
      · cases c.reqsInFlight.get? id' with
        | none => exact ih hid
        | some e => exact Dict.mem_set.mpr (.inr (ih hid))
      · obtain rfl := List.mem_singleton.mp hid
        simp only [hengine, Dict.mem_set, true_or]
  obtain ⟨named, hnamed⟩ := Dict.mem_iff_get?.mp hmem
  exact ⟨named, Dict.get?_eq_some_iff.mp hnamed⟩

/-- **The messages of an abort**: an id is sent to the engine that is recorded for it. -/
theorem mem_abortMessages (hid : id ∈ ids) (hengine : c.reqsInFlight.get? id = some engine) :
    (∃ named, (engine, named) ∈ c.abortMessages ids ∧ id ∈ named) ∧
      ∀ m ∈ c.abortMessages ids, id ∈ m.2 → m.1 = engine := by
  match ids, hid with
  | [id'], hid =>
    obtain rfl := List.mem_singleton.mp hid
    simp only [abortMessages, hengine]
    refine ⟨⟨[id], List.mem_singleton_self _, List.mem_singleton_self _⟩, fun m hm _ => ?_⟩
    rw [List.mem_singleton.mp hm]
  | id₁ :: id₂ :: ids, hid =>
    obtain ⟨named, hnamed⟩ := exists_byEngine hid hengine
    refine ⟨⟨named, hnamed, (mem_byEngine hnamed).mpr ⟨hid, hengine⟩⟩, fun m hm hidm => ?_⟩
    exact Option.some.inj (((mem_byEngine hm).mp hidm).2.symm.trans hengine)

/-- Routing a request with loads or to a given engine records the engine that is chosen. -/
theorem getCoreEngineForRequest_ok {rank : Option Nat} {c' : DPLBAsyncMPClient}
    (hrouted : rank.isSome ∨ c.lbEngines ≠ [])
    (h : c.getCoreEngineForRequest id rank = .ok (engine, c')) :
    c'.reqsInFlight = c.reqsInFlight.set id engine := by
  have hrecord : ∀ {c₀ : DPLBAsyncMPClient} {i : Nat}, c₀.recordEngine id i = .ok (engine, c') →
      c'.reqsInFlight = c₀.reqsInFlight.set id engine := by
    intro c₀ i h
    unfold recordEngine at h
    cases hi : c₀.coreEngines[i]? with
    | none =>
      simp only [hi] at h
      cases h
    | some e =>
      simp only [hi] at h
      cases h
      rfl
  cases rank with
  | some i => exact hrecord h
  | none =>
    have hloads : c.lbEngines ≠ [] := hrouted.resolve_left (by simp)
    have hpick : c.pickEngine.2.reqsInFlight = c.reqsInFlight := by
      unfold pickEngine
      split <;> rfl
    simp only [getCoreEngineForRequest, if_neg hloads] at h
    rw [hrecord h, hpick]

theorem get?_processEngineOutputs (finished : List ReqId) :
    (c.processEngineOutputs finished).reqsInFlight.get? id =
      if id ∈ finished then none else c.reqsInFlight.get? id := by
  unfold processEngineOutputs
  by_cases hpop : finished ≠ [] ∧ c.reqsInFlight.keys ≠ []
  · rw [if_pos hpop]
    exact Dict.get?_foldl_erase _ _ _
  · rw [if_neg hpop]
    split_ifs with hid
    · have hkeys : c.reqsInFlight.keys = [] := by
        by_contra hne
        exact hpop ⟨List.ne_nil_of_mem hid, hne⟩
      refine Dict.get?_eq_none_iff.mpr fun hmem => ?_
      rw [Dict.mem_iff, hkeys] at hmem
      cases hmem
    · rfl

end DPLBAsyncMPClient

/-! ## The record -/

namespace RoutingState

variable {s s' : RoutingState}

theorem Recorded.abortsReach (h : s.Recorded) : s.AbortsReach :=
  fun _ p hp hid => DPLBAsyncMPClient.mem_abortMessages hid ((h p.1 p.2).mp hp)

theorem Recorded.forgets (h : s.Recorded) : s.Forgets := fun id engine => (h id engine).mpr

/-- **One step** keeps the record right. -/
theorem Recorded.step {coreEngines : List EngineIdentity} {clientIndex : Nat} {op : RoutingOp}
    (h : s.Recorded) (hadmitted : op.Admitted s) (hrouted : op.Routed s)
    (hstep : (routingMachine coreEngines clientIndex).step s op = .ok s') : s'.Recorded := by
  cases op with
  | addRequest id rank =>
    simp only [routingMachine] at hstep
    cases hchoice : s.client.getCoreEngineForRequest id rank with
    | error e =>
      simp only [hchoice] at hstep
      cases hstep
    | ok r =>
      obtain ⟨engine, client⟩ := r
      simp only [hchoice] at hstep
      cases hstep
      intro id' engine'
      change (id', engine') ∈ s.inFlight ++ [(id, engine)] ↔ client.reqsInFlight.get? id' = some engine'
      rw [DPLBAsyncMPClient.getCoreEngineForRequest_ok hrouted.1 hchoice, Dict.get?_set,
        List.mem_append, List.mem_singleton, Prod.mk.injEq]
      by_cases hid : id' = id
      · -- no engine has had a request with this id
        rw [if_pos hid, Option.some.injEq]
        constructor
        · rintro (hold | ⟨-, rfl⟩)
          · exact absurd hid (hrouted.2 _ hold)
          · rfl
        · rintro rfl
          exact .inr ⟨hid, rfl⟩
      · rw [if_neg hid, ← h id' engine']
        exact or_iff_left fun hnew => hid hnew.1
  | statsUpdate counts =>
    cases hstep
    exact h
  | engineOutputs engine finished =>
    cases hstep
    intro id' engine'
    change (id', engine') ∈ s.inFlight.filter _ ↔
      (s.client.processEngineOutputs finished).reqsInFlight.get? id' = some engine'
    rw [DPLBAsyncMPClient.get?_processEngineOutputs, List.mem_filter, decide_eq_true_iff,
      h id' engine']
    by_cases hid : id' ∈ finished
    · -- the engine that reports a request is the one that has it
      have hengine := (h id' engine).mp (hadmitted id' hid)
      rw [if_pos hid]
      refine iff_of_false ?_ (fun hnone => nomatch hnone)
      rintro ⟨hget, hnot⟩
      exact hnot ⟨Option.some.inj (hget.symm.trans hengine), hid⟩
    · rw [if_neg hid]
      exact and_iff_left fun hboth => hid hboth.2
  | abortRequests ids =>
    cases hstep
    exact h
  | sendAbort call =>
    simp only [routingMachine] at hstep
    split at hstep
    · cases hstep
      exact h
    · cases hstep

theorem perm_flatten_set {α : Type} {l : List (List α)} {i : Nat} {a : α} {rest : List α}
    (h : l[i]? = some (a :: rest)) : l.flatten.Perm (a :: (l.set i rest).flatten) := by
  induction l generalizing i with
  | nil => cases h
  | cons b l ih =>
    cases i with
    | zero =>
      obtain rfl : b = a :: rest := Option.some.inj h
      exact .refl _
    | succ i =>
      rw [List.set_cons_succ, List.flatten_cons, List.flatten_cons]
      exact ((ih h).append_left b).trans List.perm_middle

/-- **One step** sends what has been decided. -/
theorem SendsDecided.step {coreEngines : List EngineIdentity} {clientIndex : Nat} {op : RoutingOp}
    (h : s.SendsDecided) (hstep : (routingMachine coreEngines clientIndex).step s op = .ok s') :
    s'.SendsDecided := by
  cases op with
  | addRequest id rank =>
    simp only [routingMachine] at hstep
    split at hstep
    · cases hstep
    · cases hstep
      change s.decided.Perm ((s.sent ++ _).filterMap abort? ++ s.aborting.flatten)
      rw [List.filterMap_append]
      change s.decided.Perm (s.abortsSent ++ [] ++ s.aborting.flatten)
      rw [List.append_nil]
      exact h
  | statsUpdate counts =>
    cases hstep
    exact h
  | engineOutputs engine finished =>
    cases hstep
    exact h
  | abortRequests ids =>
    cases hstep
    change (s.decided ++ _).Perm (s.abortsSent ++ (s.aborting ++ [_]).flatten)
    rw [List.flatten_append, List.flatten_singleton, ← List.append_assoc]
    exact h.append_right _
  | sendAbort call =>
    simp only [routingMachine] at hstep
    split at hstep
    · rename_i engine ids rest hcall
      cases hstep
      change s.decided.Perm ((s.sent ++ _).filterMap abort? ++ (s.aborting.set call rest).flatten)
      rw [List.filterMap_append, List.append_assoc]
      exact h.trans ((perm_flatten_set hcall).append_left _)
    · cases hstep

end RoutingState

/-- **Aborts reach the engine that has the request**, and finished requests are forgotten, in all runs in
which there are loads or the requests name their engines, and in which ids are new. -/
theorem aborts_reach {coreEngines : List EngineIdentity} {clientIndex : Nat} {s : RoutingState}
    (h : (routingMachine coreEngines clientIndex).Reach (fun s op => op.Admitted s ∧ op.Routed s) s) :
    s.AbortsReach ∧ s.SendsDecided ∧ s.Forgets := by
  obtain ⟨hrecorded, hsends⟩ := h.invariant (I := fun s => s.Recorded ∧ s.SendsDecided)
    ⟨fun id engine => iff_of_false (fun hmem => nomatch hmem) (fun hget => nomatch hget), .nil⟩
    fun _ _ _ hs hop hstep => ⟨hs.1.step hop.1 hop.2 hstep, hs.2.step hstep⟩
  exact ⟨hrecorded.abortsReach, hsends, hrecorded.forgets⟩

/-- Three requests on two engines, of which two are aborted and one finishes. -/
def threeRequests : List RoutingOp :=
  [.statsUpdate [⟨0, 1⟩, ⟨0, 0⟩], .addRequest 1 none, .addRequest 2 (some 0), .addRequest 3 none,
    .abortRequests [1, 2], .sendAbort 0, .engineOutputs 11 [1], .sendAbort 0]

theorem aborts_reach_three :
    ∃ s, (routingMachine [10, 11] 0).Reach (fun s op => op.Admitted s ∧ op.Routed s) s ∧
      s.inFlight = [(2, 10), (3, 10)] ∧ s.abortsSent = [(11, [1]), (10, [2])] ∧
      s.AbortsReach ∧ s.SendsDecided ∧ s.Forgets := by
  obtain ⟨s, hreach, hfinal⟩ := (routingMachine [10, 11] 0).exists_reach
    (fun s op => op.Admitted s ∧ op.Routed s) threeRequests
    (fun s => s.inFlight = [(2, 10), (3, 10)] ∧ s.abortsSent = [(11, [1]), (10, [2])])
    (by decide +kernel)
  exact ⟨s, hreach, hfinal.1, hfinal.2, aborts_reach hreach⟩

/-- A request is sent before loads have come: to abort it sends nothing. -/
theorem aborts_lost :
    ∃ s, (routingMachine [10, 11] 0).Reach (fun s op => op.Admitted s) s ∧
      s.sent = [(10, .add 1)] ∧ s.inFlight = [(1, 10)] ∧ s.client.abortMessages [1] = [] ∧
      ¬ s.AbortsReach := by
  obtain ⟨s, hreach, hsent, hflight, hnone⟩ := (routingMachine [10, 11] 0).exists_reach
    (fun s op => op.Admitted s) [.addRequest 1 none]
    (fun s => s.sent = [(10, .add 1)] ∧ s.inFlight = [(1, 10)] ∧ s.client.abortMessages [1] = [])
    (by decide +kernel)
  refine ⟨s, hreach, hsent, hflight, hnone, fun h => ?_⟩
  obtain ⟨⟨named, hnamed, -⟩, -⟩ := h [1] (1, 10) (by rw [hflight]; decide) (by decide)
  rw [hnone] at hnamed
  cases hnamed

end InferenceServer.Routing
