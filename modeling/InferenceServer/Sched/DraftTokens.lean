import InferenceServer.Sched.StructuredOutput

/-!
# Draft tokens

What the two calls of the scheduler do with the draft tokens of a request, and with the tokens that
its result brings. `schedule` lists a request with structured output with its position, and hands out
a prefix of its drafts; `update_from_output` appends the new tokens and replaces the drafts, as the
structured output manager answers.
-/

namespace InferenceServer

open Outcome
open Scheduler (request_congr request_modify request_modify_self)

/-! ## Scheduling -/

/-- What a step hands out, while it is made: the requests with structured output have a position,
and the drafts are those of the request. -/
structure Pass.HandsOut (s : Scheduler) (p : Pass) : Prop where
  sameInputs : s.SameInputs p.sched
  specTokenIds : ∀ id, (p.sched.request id).specTokenIds <+: (s.request id).specTokenIds
  position : ∀ id ∈ p.numScheduledTokens, (s.request id).useStructuredOutput = true →
    id ∈ p.structuredOutputRequestIds
  scheduled : ∀ id ∈ p.structuredOutputRequestIds,
    id ∈ p.numScheduledTokens ∧ (s.request id).useStructuredOutput = true
  drafts : ∀ id drafts, p.scheduledSpecDecodeTokens.get? id = some drafts →
    drafts <+: (p.sched.request id).specTokenIds

section Schedule

variable {H : BlockHasher} {C : SchedulerConfig} {E : Environment} {s s' : Scheduler} {p p' : Pass}
  {rid : ReqId}

theorem Request.SameInputs.useStructuredOutput {r r' : Request} (h : r.SameInputs r') :
    r'.useStructuredOutput = r.useStructuredOutput := by
  unfold Request.useStructuredOutput
  rw [h.samplingParams]

/-- A move that schedules nothing, and leaves the drafts alone. -/
theorem Pass.HandsOut.idle (h : p.HandsOut s) (hinputs : p.sched.SameInputs p'.sched)
    (hspec : ∀ id, (p'.sched.request id).specTokenIds = (p.sched.request id).specTokenIds)
    (hnum : p'.numScheduledTokens = p.numScheduledTokens)
    (hpos : p'.structuredOutputRequestIds = p.structuredOutputRequestIds)
    (hdrafts : p'.scheduledSpecDecodeTokens = p.scheduledSpecDecodeTokens) : p'.HandsOut s := by
  refine ⟨h.sameInputs.trans hinputs, fun id => ?_, ?_, ?_, fun id drafts hid => ?_⟩
  · rw [hspec]
    exact h.specTokenIds id
  · rw [hnum, hpos]
    exact h.position
  · rw [hnum, hpos]
    exact h.scheduled
  · rw [hspec]
    exact h.drafts id drafts (hdrafts ▸ hid)

/-- A move that changes a request, but not its inputs and drafts. -/
theorem Pass.HandsOut.modify (h : p.HandsOut s) (rid : ReqId) (f : Request → Request)
    (hobj : p'.sched.objects = (p.sched.modify rid f).objects)
    (hf : ∀ r : Request, r.SameInputs (f r)) (hspec : ∀ r, (f r).specTokenIds = r.specTokenIds)
    (hnum : p'.numScheduledTokens = p.numScheduledTokens)
    (hpos : p'.structuredOutputRequestIds = p.structuredOutputRequestIds)
    (hdrafts : p'.scheduledSpecDecodeTokens = p.scheduledSpecDecodeTokens) : p'.HandsOut s := by
  refine h.idle (.of_modify hobj hf) (fun id => ?_) hnum hpos hdrafts
  rw [request_congr hobj, request_modify]
  split
  next hid => rw [hspec, hid]
  next => rfl

/-- A request gets tokens, and a position if its output is structured. -/
theorem Pass.HandsOut.turn (h : p.HandsOut s) (rid : ReqId) (n : Int) (i : Nat)
    (hinputs : p.sched.SameInputs p'.sched)
    (hspec : ∀ id, (p'.sched.request id).specTokenIds <+: (p.sched.request id).specTokenIds)
    (hnum : p'.numScheduledTokens = p.numScheduledTokens.set rid n)
    (hpos : p'.structuredOutputRequestIds =
      if (p.sched.request rid).useStructuredOutput then p.structuredOutputRequestIds.set rid i
      else p.structuredOutputRequestIds)
    (hdrafts : ∀ id drafts, p'.scheduledSpecDecodeTokens.get? id = some drafts →
      drafts <+: (p'.sched.request id).specTokenIds) : p'.HandsOut s := by
  refine ⟨h.sameInputs.trans hinputs, fun id => (hspec id).trans (h.specTokenIds id),
    fun id hid huse => ?_, fun id hid => ?_, hdrafts⟩
  · rw [hpos]
    rw [hnum, Dict.mem_set] at hid
    rcases hid with rfl | hid
    · rw [if_pos ((h.sameInputs id).useStructuredOutput.trans huse)]
      exact Dict.mem_set.mpr (.inl rfl)
    · have hmem := h.position id hid huse
      split_ifs
      · exact Dict.mem_set.mpr (.inr hmem)
      · exact hmem
  · rw [hnum, Dict.mem_set]
    rw [hpos] at hid
    split_ifs at hid with huse
    · rcases Dict.mem_set.mp hid with rfl | hid
      · exact ⟨.inl rfl, (h.sameInputs id).useStructuredOutput ▸ huse⟩
      · exact (h.scheduled id hid).imp_left .inr
    · exact (h.scheduled id hid).imp_left .inr

/-- **Every move** keeps what a step hands out right. -/
theorem Pass.HandsOut.move (h : p.HandsOut s) (hm : Pass.Move H C E p p') : p'.HandsOut s := by
  cases hm with
  | passOver => exact h.idle (.refl _) (fun _ => rfl) rfl rfl rfl
  | @preempt rid v k s' hat hpos halloc hv hs =>
    exact h.modify v Request.preempted (Scheduler.preempt_ok hs).objects
      (fun _ => ⟨rfl, rfl, rfl, rfl, rfl, rfl, rfl⟩) (fun _ => rfl) rfl rfl rfl
  | @scheduleRunning rid blocks k hat hpos halloc =>
    let d := p.runningDemand C (p.sched.request rid)
    have heff := (p.withKV k).scheduleRunning_effect rid d blocks
    have hobj : ((p.withKV k).scheduleRunning rid d blocks).sched.objects =
      (p.sched.modify rid fun r => r.trimDrafts d.numNewTokens).objects := heff.objects
    have hreq := fun id => request_congr hobj id
    have htrim : ∀ r : Request, (r.trimDrafts d.numNewTokens).specTokenIds <+: r.specTokenIds := by
      intro r
      unfold Request.trimDrafts Request.scheduledDrafts
      dsimp only
      split_ifs
      · exact List.take_prefix _ _
      · exact List.prefix_rfl
    refine h.turn rid d.numNewTokens p.reqIndex
      (.of_modify hobj fun r => r.sameInputs_trimDrafts _) (fun id => ?_) heff.numScheduledTokens ?_
      fun id drafts hid => ?_
    · rw [hreq, request_modify]
      split
      next hid => exact hid ▸ htrim _
      next => exact List.prefix_rfl
    · unfold Pass.scheduleRunning
      obtain ⟨m, inputs, budget, heq⟩ := Pass.allocateEncoder_eq _ rid d
      rw [heq]
      rfl
    · rw [hreq, request_modify]
      rw [heff.scheduledSpecDecodeTokens] at hid
      -- the request and the output get the same drafts
      have hsame : ((p.withKV k).sched.request rid).scheduledDrafts d.numNewTokens =
          (p.sched.request rid).scheduledDrafts d.numNewTokens := rfl
      rw [hsame] at hid
      unfold Request.trimDrafts
      cases hdrafts : (p.sched.request rid).scheduledDrafts d.numNewTokens with
      | none =>
        rw [hdrafts] at hid
        split
        next heq => exact heq ▸ h.drafts id drafts hid
        next => exact h.drafts id drafts hid
      | some l =>
        rw [hdrafts, Dict.get?_set] at hid
        split
        next heq =>
          rw [if_pos heq] at hid
          cases hid
          exact List.prefix_rfl
        next hne =>
          rw [if_neg hne] at hid
          exact h.drafts id drafts hid
  | recordLoras hl =>
    obtain ⟨loras, rfl⟩ := recordLoras_ok hl
    exact h.idle (.refl _) (fun _ => rfl) rfl rfl rfl
  | @resolveStatus rid ready s' hat hres =>
    rcases resolveStatus_ok hres with rfl | ⟨-, n, s₁, hrec, rfl⟩ | ⟨-, rfl⟩
    · exact h.idle (.refl _) (fun _ => rfl) rfl rfl rfl
    · have h₁ : Pass.HandsOut s { p with sched := s₁ } :=
        h.modify rid (fun r => r.withComputed n) hrec.objects
          (fun _ => ⟨rfl, rfl, rfl, rfl, rfl, rfl, rfl⟩) (fun _ => rfl) rfl rfl rfl
      exact h₁.modify rid (fun r => r.withStatus .waiting) rfl
        (fun _ => ⟨rfl, rfl, rfl, rfl, rfl, rfl, rfl⟩) (fun _ => rfl) rfl rfl rfl
    · exact h.modify rid (fun r => r.withStatus .waiting) rfl
        (fun _ => ⟨rfl, rfl, rfl, rfl, rfl, rfl, rfl⟩) (fun _ => rfl) rfl rfl rfl
  | skip hat hskip =>
    obtain ⟨e, w, sk, -, -, rfl⟩ := skipWaiting_ok hskip
    exact h.idle (.refl _) (fun _ => rfl) rfl rfl rfl
  | lookUp hat hct =>
    obtain ⟨k, rfl, -⟩ := getComputedTokens_ok hct
    exact h.idle (.refl _) (fun _ => rfl) rfl rfl rfl
  | noSlots hat halloc => exact h.idle (.refl _) (fun _ => rfl) rfl rfl rfl
  | @park _ rid ct s₀ d blocks k hat hct hd hasync halloc hp =>
    obtain ⟨p₁, hskip, rfl⟩ := parkRemote_ok hp
    obtain ⟨e, w, sk, -, -, rfl⟩ := skipWaiting_ok hskip
    exact h.modify rid (fun r => r.withStatus .waitingForRemoteKvs) rfl
      (fun _ => ⟨rfl, rfl, rfl, rfl, rfl, rfl, rfl⟩) (fun _ => rfl) rfl rfl rfl
  | @admitWaiting _ rid ct s₀ d blocks k hat hct hd hasync halloc ha =>
    have hadmits := admit_ok ha
    have hobj : p'.sched.objects =
      (p.sched.modify rid fun r => r.admitted ct.numComputedTokens).objects := hadmits.objects
    have hspec : ∀ id, (p'.sched.request id).specTokenIds = (p.sched.request id).specTokenIds := by
      intro id
      rw [request_congr hobj, request_modify]
      split
      next hid => rw [hid]; rfl
      next => rfl
    refine h.turn rid d.numNewTokens p.reqIndex
      (.of_modify hobj fun _ => ⟨rfl, rfl, rfl, rfl, rfl, rfl, rfl⟩)
      (fun id => hspec id ▸ List.prefix_rfl) hadmits.numScheduledTokens ?_ fun id drafts hid => ?_
    · obtain ⟨⟨e, w⟩, -, ha⟩ := bind_eq_ok.mp ha
      obtain ⟨_, -, ha⟩ := bind_eq_ok.mp ha
      cases ha
      obtain ⟨m, inputs, budget, heq⟩ := Pass.allocateEncoder_eq _ rid d
      rw [heq]
      rfl
    · rw [hspec]
      exact h.drafts id drafts (hadmits.scheduledSpecDecodeTokens ▸ hid)

/-- **What a step hands out**: the requests with structured output that it schedules have a position,
and the drafts are a prefix of those of the request. -/
theorem schedule_handsOut {output : SchedulerOutput} (hn : s.running.Nodup)
    (h : s.schedule H C E = .ok (output, s')) :
    s.SameInputs s' ∧
      (∀ id, (s'.request id).specTokenIds <+: (s.request id).specTokenIds) ∧
      (∀ id ∈ output.numScheduledTokens, (s.request id).useStructuredOutput = true →
        id ∈ output.structuredOutputRequestIds) ∧
      (∀ id ∈ output.numScheduledTokens, id ∈ s'.requests) ∧
      (∀ id ∈ output.structuredOutputRequestIds,
        id ∈ output.numScheduledTokens ∧ (s.request id).useStructuredOutput = true) ∧
      ∀ id, output.scheduledSpecDecodeTokens.getD id [] <+: (s'.request id).specTokenIds := by
  obtain ⟨p, hp⟩ := schedule_ok h
  obtain ⟨p₁, hhands, hrestore⟩ := schedulePass_invariant (I := fun p => p.HandsOut s) hn hp.pass
    ⟨.refl s, fun _ => List.prefix_rfl, fun id hid => absurd hid (Dict.notMem_empty id),
      fun id hid => absurd hid (Dict.notMem_empty id), fun id drafts hid => by simp [Pass.start] at hid⟩
    fun _ _ hI hm => hI.move hm.move
  obtain ⟨w, rfl, -⟩ := restoreSkipped_ok hrestore
  obtain ⟨common, rfl⟩ := hp.output
  have hspec : ∀ id, (s'.request id).specTokenIds = (p₁.sched.request id).specTokenIds := by
    intro id
    obtain ⟨n, hreq, -⟩ := hp.advances.request id
    rw [hreq]
    rfl
  refine ⟨hhands.sameInputs.trans hp.advances.sameInputs, fun id => hspec id ▸ hhands.specTokenIds id,
    hhands.position, fun id hid => ?_, hhands.scheduled, fun id => ?_⟩
  · have hledger := congrArg Scheduler.Ledger.requests hp.advances.ledger
    change s'.requests = p₁.sched.requests at hledger
    rw [hledger]
    exact hp.advances.scheduled_mem id hid
  · change p₁.scheduledSpecDecodeTokens.getD id [] <+: _
    rw [hspec]
    cases hget : p₁.scheduledSpecDecodeTokens.get? id with
    | none =>
      rw [Dict.getD_of_none hget]
      exact List.nil_prefix
    | some drafts =>
      rw [Dict.getD_of_get? hget]
      exact hhands.drafts id drafts hget

end Schedule

/-! ## Results -/

/-- A request after a result that adds the tokens `new` to it. New drafts are validated as the
environment answers for the request with its new tokens. -/
structure Request.Receives (E : Environment) (m : ModelRunnerOutput) (id : ReqId)
    (new : List TokenId) (r r' : Request) : Prop where
  sameInputs : r.SameInputs r'
  outputTokenIds : r'.outputTokenIds = r.outputTokenIds ++ new
  kept : m.specTokenIds = none → r'.specTokenIds = r.specTokenIds
  drafts : m.specTokenIds.isSome = true → ∃ drafts asked, m.drafts id = some drafts ∧
    r.SameInputs asked ∧ asked.outputTokenIds = r.outputTokenIds ++ new ∧
    r'.specTokenIds = if asked.useStructuredOutput = true ∧ E.shouldAdvance asked = true then
      E.validateTokens id drafts else drafts

section Update

variable {H : BlockHasher} {C : SchedulerConfig} {E : Environment} {m : ModelRunnerOutput}
  {s s' : Scheduler} {u u' : UpdatePass} {rid id : ReqId} {index : Nat} {stopped : Bool}
  {generated appended : List TokenId}

theorem Request.checkStop_withComputed (r : Request) (n : Int) (maxModelLen : Nat)
    (pooler : Option (List Int)) :
    (r.withComputed n).checkStop maxModelLen pooler =
      (r.checkStop maxModelLen pooler).map fun x => (x.1, x.2.withComputed n) := by
  unfold Request.checkStop
  by_cases hlen : maxModelLen ≤ r.numTokens ∨ r.maxTokens ≤ r.numOutputTokens
  · rw [if_pos hlen, if_pos (by exact hlen)]
    rfl
  · rw [if_neg hlen, if_neg (by exact hlen)]
    by_cases hpool : r.poolingParams.isSome = true
    · rw [if_pos hpool, if_pos (by exact hpool)]
      cases pooler <;> rfl
    · rw [if_neg hpool, if_neg (by exact hpool)]
      cases hs : r.samplingParams with
      | none =>
        have hs' : (r.withComputed n).samplingParams = none := hs
        rw [hs']
        rfl
      | some sampling =>
        have hs' : (r.withComputed n).samplingParams = some sampling := hs
        rw [hs']
        cases hl : r.outputTokenIds.getLast? with
        | none =>
          have hl' : (r.withComputed n).outputTokenIds.getLast? = none := hl
          rw [hl']
          rfl
        | some last =>
          have hl' : (r.withComputed n).outputTokenIds.getLast? = some last := hl
          rw [hl']
          change (if sampling.ignoreEos = false ∧ r.eosTokenId = some last then _ else _) = _
          dsimp only
          split_ifs <;> rfl

/-- The tokens that stop a request do not depend on how many of them are computed. -/
theorem Request.updateWithOutput_withComputed (r : Request) (n : Int) (maxModelLen : Nat)
    (l : List TokenId) :
    (r.withComputed n).updateWithOutput maxModelLen l =
      (r.updateWithOutput maxModelLen l).map fun x => (x.1.withComputed n, x.2) := by
  induction l generalizing r with
  | nil => rfl
  | cons t ts ih =>
    have happ : (r.withComputed n).appendOutputTokenIds [t] =
      (r.appendOutputTokenIds [t]).withComputed n := rfl
    rw [updateWithOutput, updateWithOutput, happ, Request.checkStop_withComputed]
    cases (r.appendOutputTokenIds [t]).checkStop maxModelLen none with
    | error e => rfl
    | ok x =>
      obtain ⟨st, r'⟩ := x
      cases st with
      | true => rfl
      | false =>
        change ((r'.withComputed n).updateWithOutput maxModelLen ts >>= _) =
          Except.map _ (r'.updateWithOutput maxModelLen ts >>= _)
        rw [ih]
        cases r'.updateWithOutput maxModelLen ts <;> rfl

/-- The tokens that are appended to a request. -/
theorem appendGenerated_appended
    (h : s.appendGenerated H C rid generated = .ok (s', appended, stopped)) :
    (s'.request rid).specTokenIds = (s.request rid).specTokenIds ∧
      ∃ r, (s.request rid).updateWithOutput C.maxModelLen generated = .ok (r, appended, stopped) := by
  unfold Scheduler.appendGenerated at h
  split at h
  next hnil =>
    cases h
    exact ⟨rfl, s.request rid, by rw [hnil]; rfl⟩
  next hne =>
    obtain ⟨⟨r, ap, st⟩, hup, h⟩ := bind_eq_ok.mp h
    have hspec : r.specTokenIds = (s.request rid).specTokenIds := by
      rcases Request.updateWithOutput_ok hup with ⟨-, -, rfl, -⟩ | ⟨-, -, ⟨_, _, -, rfl⟩, -⟩ <;> rfl
    dsimp only at h
    split at h
    · obtain ⟨_, -, h⟩ := bind_eq_ok.mp h
      split at h
      · obtain ⟨k, -, h⟩ := bind_eq_ok.mp h
        cases h
        rw [Scheduler.request_withKV, request_modify_self]
        exact ⟨hspec, r, hup⟩
      · cases h
        rw [request_modify_self]
        exact ⟨hspec, r, hup⟩
    · cases h
      rw [request_modify_self]
      exact ⟨hspec, r, hup⟩

theorem checkPooler_specTokenIds {st : Bool} {pooler : Option (List Int)}
    (h : s.checkPooler C m rid index st = .ok (s', pooler, stopped)) :
    (s'.request rid).specTokenIds = (s.request rid).specTokenIds := by
  unfold Scheduler.checkPooler at h
  split at h
  · cases h
    rfl
  · split at h
    · simp at h
    · obtain ⟨⟨st', r'⟩, hcheck, h⟩ := bind_eq_ok.mp h
      cases h
      rw [request_modify_self]
      rcases Request.checkStop_ok hcheck with ⟨-, rfl⟩ | ⟨-, status, reason, -, rfl⟩ <;> rfl

/-- One round, for its request. -/
theorem applyTokens_receives (hindex : m.reqIdToIndex.get? rid = some index)
    (h : u.applyTokens H C E m rid index generated = .ok u') :
    ∃ new r stopped, (u.sched.request rid).updateWithOutput C.maxModelLen generated =
        .ok (r, new, stopped) ∧
      (u.sched.request rid).Receives E m rid new (u'.sched.request rid) := by
  obtain ⟨⟨s₁, new, st⟩, happ, h⟩ := bind_eq_ok.mp h
  obtain ⟨⟨s₂, pooler, stopped⟩, hpool, h⟩ := bind_eq_ok.mp h
  obtain ⟨⟨params, u₁⟩, hfree, h⟩ := bind_eq_ok.mp h
  obtain ⟨s₄, hdrafts, h⟩ := bind_eq_ok.mp h
  obtain ⟨hspec₁, r, hup⟩ := appendGenerated_appended happ
  have hspec₂ := checkPooler_specTokenIds hpool
  obtain ⟨-, htakes₁, hstops⟩ := appendGenerated_ok happ
  obtain ⟨-, htakes⟩ := checkPooler_ok htakes₁ hstops hpool
  obtain ⟨-, -, hobj, -⟩ := freeStopped_ok hfree
  obtain ⟨-, n, hnans⟩ := recordNans_touches u₁.sched m rid
  obtain ⟨hsched, -⟩ := emitOutput_ok h
  -- the request when the second question is asked
  let asked : Request := { s₂.request rid with numNansInLogits := n }
  have hasked : (u₁.sched.recordNans m rid).request rid = asked := by
    rw [hnans, request_congr hobj]
  have hsame : (u.sched.request rid).SameInputs asked :=
    htakes.sameInputs.trans ⟨rfl, rfl, rfl, rfl, rfl, rfl, rfl⟩
  have hout : asked.outputTokenIds = (u.sched.request rid).outputTokenIds ++ new :=
    htakes.outputTokenIds
  refine ⟨new, r, st, hup, ?_⟩
  rw [hsched]
  change (u.sched.request rid).Receives E m rid new (s₄.request rid)
  unfold Scheduler.assignDrafts at hdrafts
  split at hdrafts
  next hnone =>
    cases hdrafts
    rw [hasked]
    exact ⟨hsame, hout, fun _ => hspec₂.trans hspec₁, fun hsome => by simp [hnone] at hsome⟩
  next l hl =>
    split at hdrafts
    next => simp at hdrafts
    next drafts hget =>
      cases hdrafts
      rw [request_modify_self, hasked]
      refine ⟨hsame.trans ⟨rfl, rfl, rfl, rfl, rfl, rfl, rfl⟩, hout, fun hnone => by simp [hnone] at hl,
        fun _ => ⟨drafts, asked, ?_, hsame, hout, rfl⟩⟩
      rw [ModelRunnerOutput.drafts, hl, hindex]
      exact hget

theorem Request.rejectDrafts_withComputed (r : Request) (drafts generated : List TokenId) :
    ∃ n, r.rejectDrafts drafts generated = r.withComputed n := by
  unfold Request.rejectDrafts
  split
  · exact ⟨_, rfl⟩
  · exact ⟨_, rfl⟩

/-- What the loop has done to one request, with the requests `rest` still to visit. -/
structure UpdatePass.Delivers (C : SchedulerConfig) (E : Environment) (s : Scheduler)
    (output : SchedulerOutput) (m : ModelRunnerOutput) (id : ReqId) (rest : List (ReqId × Int))
    (u : UpdatePass) : Prop where
  nodup : (rest.map Prod.fst).Nodup
  before : id ∈ rest.map Prod.fst → u.sched.request id = s.request id ∧
    (id ∈ s.requests ↔ id ∈ u.sched.requests)
  after : id ∉ rest.map Prod.fst → id ∈ output.numScheduledTokens.keys → id ∈ s.requests →
    (s.request id).Receives E m id (s.newTokenIds C m id) (u.sched.request id)
  absent : id ∉ output.numScheduledTokens.keys ∨ id ∉ s.requests →
    u.sched.request id = s.request id

/-- One round. -/
theorem UpdatePass.Delivers.updateRequest {output : SchedulerOutput} {e : ReqId × Int}
    {rest : List (ReqId × Int)} (h : UpdatePass.Delivers C E s output m id (e :: rest) u)
    (hkey : e.1 ∈ output.numScheduledTokens.keys)
    (hstep : UpdatePass.updateRequest H C E output m e u = .ok u') :
    UpdatePass.Delivers C E s output m id rest u' := by
  obtain ⟨hnot, hnd⟩ := List.nodup_cons.mp h.nodup
  obtain ⟨-, ⟨hnone, rfl⟩ | ⟨hmem, index, generated, appended, stopped, hindex, hgen, ha⟩⟩ :=
    updateRequest_ok hstep
  · refine ⟨hnd, fun hid => h.before (List.mem_cons_of_mem _ hid), fun hid hk hreq => ?_, h.absent⟩
    by_cases heq : id = e.1
    · subst heq
      exact absurd ((h.before List.mem_cons_self).2.mp hreq) hnone
    · exact h.after (by simpa [heq] using hid) hk hreq
  · by_cases heq : id = e.1
    · subst heq
      obtain ⟨hrequest, hiff⟩ := h.before List.mem_cons_self
      refine ⟨hnd, fun hid => absurd hid hnot, fun _ _ _ => ?_, fun habs => ?_⟩
      · -- the round itself, from the request without its rejected drafts
        obtain ⟨_, -, hstep⟩ := bind_eq_ok.mp hstep
        rw [if_neg (not_not.mpr hmem), hindex] at hstep
        obtain ⟨generated', hgen', hstep⟩ := bind_eq_ok.mp hstep
        obtain ⟨n, hn⟩ := (s.request e.1).rejectDrafts_withComputed
          (output.scheduledSpecDecodeTokens.getD e.1 []) generated'
        obtain ⟨new, r, st, hup, hrec⟩ := applyTokens_receives hindex hstep
        rw [request_modify_self, hrequest, hn] at hup hrec
        rw [Request.updateWithOutput_withComputed] at hup
        have hnew : s.newTokenIds C m e.1 = new := by
          unfold Scheduler.newTokenIds
          rw [hindex]
          dsimp only
          rw [hgen']
          dsimp only
          cases hw : (s.request e.1).updateWithOutput C.maxModelLen generated' with
          | error e => simp [hw, Except.map] at hup
          | ok x =>
            rw [hw] at hup
            obtain ⟨-, heq⟩ := Prod.mk.inj (Except.ok.inj hup)
            exact (Prod.mk.inj heq).1
        rw [hnew]
        have hinputs : (s.request e.1).SameInputs ((s.request e.1).withComputed n) :=
          ⟨rfl, rfl, rfl, rfl, rfl, rfl, rfl⟩
        refine ⟨hinputs.trans hrec.sameInputs, hrec.outputTokenIds, hrec.kept, fun hsome => ?_⟩
        obtain ⟨drafts, asked, hd, hsame, hout, hspec⟩ := hrec.drafts hsome
        exact ⟨drafts, asked, hd, hinputs.trans hsame, hout, hspec⟩
      · exact (habs.elim (· hkey) (· (hiff.mpr hmem))).elim
    · -- the round of another request
      have hsame : u'.sched.request id = u.sched.request id := ha.others id heq
      have hkept : id ∈ u.sched.requests ↔ id ∈ u'.sched.requests := by
        cases hst : stopped with
        | false => rw [show u'.sched.requests = u.sched.requests from
            congrArg Scheduler.Ledger.requests (ha.records.unstopped hst)]
        | true =>
          obtain ⟨delay, -, hledger, -⟩ := ha.records.stopped hst
          have hreq := congrArg Scheduler.Ledger.requests hledger
          change u'.sched.requests = if delay then u.sched.requests
            else u.sched.requests.filter (· ≠ e.1) at hreq
          rw [hreq]
          split_ifs
          · rfl
          · simp [heq]
      refine ⟨hnd, fun hid => ?_, fun hid hk hreq => ?_, fun habs => hsame.trans (h.absent habs)⟩
      · obtain ⟨hrequest, hiff⟩ := h.before (List.mem_cons_of_mem _ hid)
        exact ⟨hsame.trans hrequest, hiff.trans hkept⟩
      · rw [hsame]
        exact h.after (by simpa [heq] using hid) hk hreq

/-- **What `update_from_output` does to the tokens of a request**: if it is named, and is still in
`self.requests`, it receives its new tokens and drafts. Else it stays as it is. -/
theorem updateFromOutput_request {output : SchedulerOutput} {ecos : Dict Nat EngineCoreOutputs}
    (h : s.updateFromOutput H C E output m = .ok (ecos, s')) (id : ReqId) :
    (id ∈ output.numScheduledTokens.keys → id ∈ s.requests →
      (s.request id).Receives E m id (s.newTokenIds C m id) (s'.request id)) ∧
    (id ∉ output.numScheduledTokens.keys ∨ id ∉ s.requests → s'.request id = s.request id) := by
  obtain ⟨u, hu, -⟩ := updateFromOutput_ok h
  have hend := threadM_invariant
    (I := fun rest u => UpdatePass.Delivers C E s output m id rest u ∧
      ∀ e ∈ rest, e ∈ output.numScheduledTokens.entries)
    (fun e rest u u' hI hstep => ⟨hI.1.updateRequest
        (Dict.mem_entries_fst (hI.2 e List.mem_cons_self)) hstep,
      fun e' he' => hI.2 e' (List.mem_cons_of_mem _ he')⟩)
    ⟨⟨output.numScheduledTokens.nodup, fun _ => ⟨rfl, Iff.rfl⟩, fun hid hk => absurd hk hid,
      fun _ => rfl⟩, fun _ h => h⟩ hu.loop
  rw [request_congr hu.objects]
  exact ⟨hend.1.after List.not_mem_nil, hend.1.absent⟩

/-- `finish_requests` leaves the tokens of the requests alone. -/
theorem finishRequests_tokens {ids : List ReqId} {status : RequestStatus} (hn : s.running.Nodup)
    (h : s.finishRequests C E ids status = .ok s') (id : ReqId) :
    (s'.request id).outputTokenIds = (s.request id).outputTokenIds ∧
      (s'.request id).specTokenIds = (s.request id).specTokenIds := by
  obtain ⟨-, valid, -, -, w, -, hloop⟩ := finishRequests_ok hn h
  refine threadM_invariant (I := fun _ s₁ =>
    (s₁.request id).outputTokenIds = (s.request id).outputTokenIds ∧
      (s₁.request id).specTokenIds = (s.request id).specTokenIds)
    (fun rid rest s₁ s₂ hI hstep => ?_) ⟨rfl, rfl⟩ hloop
  rw [request_congr (finishRequest_ok hstep).1, request_modify]
  split
  next hid => exact hid ▸ hI
  next => exact hI

end Update

end InferenceServer
