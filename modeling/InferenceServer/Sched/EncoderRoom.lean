import InferenceServer.Sched.EncoderBooks

/-!
# The room in the encoder cache

The books of the encoder cache agree in every run (`encoderBooks_of_reach`): the free slots are the
size of the cache less the tokens of the recorded inputs, and only unfinished requests have recorded
inputs.

The number of free slots may become negative. `_try_schedule_encoder_inputs` asks for each input of a
request whether there is room for it, but takes the room only when the request has got its blocks: the
inputs that a request schedules in one step are each compared with the same count, and nothing
compares their sum with it. The room is kept in the runs in which the inputs of every grant fit
together (`AllocatesWithinRoom`).
-/

namespace InferenceServer

open Outcome

/-! ## The books of a scheduler -/

/-- The encoder tokens of an input of a request. -/
def Scheduler.encoderWeight (s : Scheduler) (rid : ReqId) (i : Nat) : Nat :=
  (s.request rid).getNumEncoderTokens i

/-- **The books of the scheduler**: they agree, and only unfinished requests have recorded inputs. -/
structure Scheduler.EncoderBooks (s : Scheduler) : Prop where
  books : s.encoderCacheManager.Books s.encoderWeight
  live : ∀ rid, s.encoderCacheManager.cachedOf rid ≠ [] →
    rid ∈ s.objects ∧ (s.request rid).isFinished = false

section Weight

variable {s s' : Scheduler} {r : Request} {rid : ReqId}

theorem Request.SameInputs.getNumEncoderTokens {r r' : Request} (h : r.SameInputs r') (i : Nat) :
    r'.getNumEncoderTokens i = r.getNumEncoderTokens i := by
  unfold Request.getNumEncoderTokens
  rw [h.mmPositions]

theorem Scheduler.SameInputs.encoderWeight (h : s.SameInputs s') :
    s'.encoderWeight = s.encoderWeight :=
  funext fun rid => funext fun i => (h rid).getNumEncoderTokens i

/-- The weight of the inputs of a request that is the same as one of the scheduler. -/
theorem Scheduler.encoderWeight_of_sameInputs (h : (s.request rid).SameInputs r)
    (hnamed : r.requestId = rid) (i : Nat) :
    s.encoderWeight r.requestId i = r.getNumEncoderTokens i := by
  rw [Scheduler.encoderWeight, hnamed, h.getNumEncoderTokens]

end Weight

/-! ## A scheduling step -/

/-- The inputs of the grant fit together. -/
def Grant.FitsEncoder (g : Grant) : Prop :=
  ((g.demand.encoderInputs.map g.request.getNumEncoderTokens).sum : Int) ≤
    g.pass.sched.encoderCacheManager.numFreeSlots

instance (g : Grant) : Decidable g.FitsEncoder := by
  unfold Grant.FitsEncoder
  infer_instance

/-- The encoder cache once the inputs of the grant are recorded. -/
def Grant.encoderCache (g : Grant) : EncoderCacheManager :=
  g.pass.sched.encoderCacheManager.allocateAll g.request g.demand.encoderInputs

theorem Grant.numFreeSlots_encoderCache (g : Grant) :
    0 ≤ g.encoderCache.numFreeSlots ↔ g.FitsEncoder := by
  have halloc := g.pass.sched.encoderCacheManager.allocateAll_ok g.request g.demand.encoderInputs
  rw [Grant.encoderCache, halloc.numFreeSlots]
  exact Int.sub_nonneg

/-- **The books in the middle of a step** that started in `s`. -/
structure Pass.EncoderBooks (s : Scheduler) (p : Pass) : Prop where
  inputs : s.SameInputs p.sched
  books : p.sched.encoderCacheManager.Books s.encoderWeight
  cached : ∀ rid, p.sched.encoderCacheManager.cachedOf rid ≠ [] →
    s.encoderCacheManager.cachedOf rid ≠ [] ∨ rid ∈ p.numScheduledTokens

section Step

variable {H : BlockHasher} {C : SchedulerConfig} {E : Environment} {s s' : Scheduler}
  {p p' : Pass} {G : List Grant}

theorem Pass.EncoderBooks.quiet (h : p.EncoderBooks s) (hq : p.Quiet p') :
    p'.EncoderBooks s := by
  refine ⟨h.inputs.trans hq.inputs, ?_, ?_⟩
  · rw [hq.encoderCacheManager]
    exact h.books
  · rw [hq.encoderCacheManager, hq.numScheduledTokens]
    exact h.cached

/-- The inputs of a grant are not recorded yet. -/
theorem Pass.EncoderBooks.encoderCache {g : Grant} {n : Int} (h : g.pass.EncoderBooks s)
    (hnamed : g.request.requestId = g.rid) (hasks : g.Asks C n) :
    g.encoderCache.Books s.encoderWeight := by
  obtain ⟨n₀, budget, hasks⟩ := hasks
  have hok := tryScheduleEncoderInputs_ok hasks
  exact h.books.allocateAll (Scheduler.encoderWeight_of_sameInputs (h.inputs g.rid) hnamed)
    hok.nodup hok.uncached

/-- A grant keeps the books. -/
theorem Pass.EncoderBooks.grant {g : Grant} {n m : Int} (h : g.pass.EncoderBooks s)
    (hnamed : g.request.requestId = g.rid) (hasks : g.Asks C n)
    (hrec : g.pass.RecordsInputs g.rid g.demand.encoderInputs p')
    (hinputs : g.pass.sched.SameInputs p'.sched)
    (hset : p'.numScheduledTokens = g.pass.numScheduledTokens.set g.rid m) :
    p'.EncoderBooks s := by
  have halloc := g.pass.sched.encoderCacheManager.allocateAll_ok g.request g.demand.encoderInputs
  have hm : p'.sched.encoderCacheManager = g.encoderCache := hrec.encoderCacheManager
  refine ⟨h.inputs.trans hinputs, hm ▸ h.encoderCache hnamed hasks, fun rid hrid => ?_⟩
  rw [hset, Dict.mem_set]
  by_cases heq : rid = g.rid
  · exact .inr (.inl heq)
  · rw [hm, Grant.encoderCache, halloc.others rid fun h => heq (h.trans hnamed)] at hrid
    exact (h.cached rid hrid).imp_right .inr

/-- **The books of a whole step.** -/
theorem Pass.Turns.encoderBooks (h : p.Turns C G p') (hstart : p.EncoderBooks s) :
    p'.EncoderBooks s := by
  induction h with
  | refl => exact hstart
  | tail _ hturn ih =>
    cases hturn with
    | quiet hq => exact ih.quiet hq
    | recordLoras hl =>
      obtain ⟨loras, rfl⟩ := recordLoras_ok hl
      exact ⟨ih.inputs, ih.books, ih.cached⟩
    | @running _ g blocks hg hadmits hnamed hq hrid hasks =>
      have he := g.pass.scheduleRunning_effect g.rid g.demand blocks
      exact (ih.quiet hq).grant hnamed hasks (scheduleRunning_records _ _ _ blocks)
        (.of_modify he.objects fun r => r.sameInputs_trimDrafts _) he.numScheduledTokens
    | admitWaiting hg hadmits hnamed hpre hlora hasks hadmitted =>
      have ha := admit_ok hadmitted
      exact ih.grant hnamed hasks (admit_records hadmitted)
        (.of_modify ha.objects fun _ => ⟨rfl, rfl, rfl, rfl, rfl, rfl, rfl⟩) ha.numScheduledTokens

/-- **The room of a whole step**, if the inputs of every grant fit. -/
theorem Pass.Turns.room (h : p.Turns C G p') (hfits : ∀ g ∈ G, g.FitsEncoder)
    (hstart : 0 ≤ p.sched.encoderCacheManager.numFreeSlots) :
    0 ≤ p'.sched.encoderCacheManager.numFreeSlots := by
  have hgrant : ∀ g ∈ G, ∀ q : Pass, g.pass.RecordsInputs g.rid g.demand.encoderInputs q →
      0 ≤ q.sched.encoderCacheManager.numFreeSlots := fun g hg q hrec => by
    rw [hrec.encoderCacheManager]
    exact g.numFreeSlots_encoderCache.mpr (hfits g hg)
  induction h with
  | refl => exact hstart
  | tail _ hturn ih =>
    cases hturn with
    | quiet hq => exact hq.encoderCacheManager ▸ ih
    | recordLoras hl =>
      obtain ⟨loras, rfl⟩ := recordLoras_ok hl
      exact ih
    | running hg => exact hgrant _ hg _ (scheduleRunning_records _ _ _ _)
    | admitWaiting hg _ _ _ _ _ hadmitted => exact hgrant _ hg _ (admit_records hadmitted)

variable (hplaces : s.Places s.running s.waiting.ids)

include hplaces

/-- What a step schedules has not finished. -/
theorem scheduled_unfinished (hacc : s.Accounts)
    {output : SchedulerOutput} (hp : s.Schedules H C E p output s') {id : ReqId}
    (hid : id ∈ p.numScheduledTokens) : id ∈ s.objects ∧ (s.request id).isFinished = false := by
  obtain ⟨-, hkeeps⟩ := schedulePass_places hplaces hp.pass
  refine ⟨hacc.mem_objects id (hkeeps.frame.requests ▸ hp.advances.scheduled_mem id hid), ?_⟩
  obtain ⟨p₁, hbooks, hrestore⟩ := schedulePass_invariant hplaces.nodupR hp.pass
    (Pass.books_start hplaces) fun _ _ h hm => Pass.Books.move h hm.move
  obtain ⟨w, rfl, -⟩ := restoreSkipped_ok hrestore
  have hun : (p₁.sched.request id).isFinished = false := by
    rcases hbooks.scheduled id hid with hrun | hpre
    · have hplace := ((Scheduler.Places.running hbooks.untouched.placed id).mp hrun).2
      exact Request.isFinished_of_place (by simp [hplace])
    · rw [Request.isFinished, (hbooks.preempted id hpre).2]
      rfl
  rcases hkeeps.request id with hsame | ⟨-, hres⟩
  · exact hsame ▸ hun
  · exact hres.unfinished

/-- What a step frees at its end gives room back. -/
theorem Scheduler.Schedules.givesBack {output : SchedulerOutput}
    (hacc : s.Accounts)
    (hp : s.Schedules H C E p output s') (h : p.EncoderBooks s) :
    EncoderCacheManager.GivesBack s.encoderWeight p.sched.encoderCacheManager.getFreedIds.2
      s'.encoderCacheManager := by
  obtain ⟨hplaces', hkeeps⟩ := schedulePass_places hplaces hp.pass
  have hbooks : p.sched.encoderCacheManager.getFreedIds.2.Books s.encoderWeight :=
    ⟨h.books.exact, h.books.nodup⟩
  rw [hp.encoder.1]
  refine EncoderCacheManager.GivesBack.foldl
    (f := fun m (e : ReqId × Int) => m.freeComputed ((p.sched.request e.1).advanced e.2))
    (fun e he m hm => ?_) hbooks
  have hid := hp.advances.scheduled_mem e.1 (Dict.mem_entries_fst he)
  rw [hkeeps.frame.requests] at hid
  have hnamed : (p.sched.request e.1).requestId = e.1 :=
    hplaces'.named e.1 ((hkeeps.mem_objects e.1).mpr (hacc.mem_objects e.1 hid))
  have hsame : (s.request e.1).SameInputs ((p.sched.request e.1).advanced e.2) :=
    (h.inputs e.1).trans ⟨rfl, rfl, rfl, rfl, rfl, rfl, rfl⟩
  exact hm.freeInputs (Scheduler.encoderWeight_of_sameInputs hsame hnamed)
    ((hm.nodup _).filter _) fun i hi => List.mem_of_mem_filter hi

/-- **`schedule` keeps the books**, and the room if the inputs of every grant fit. -/
theorem schedule_encoderBooks (hacc : s.Accounts) (h : s.EncoderBooks) {output : SchedulerOutput}
    (hsched : s.schedule H C E = .ok (output, s')) :
    s'.EncoderBooks ∧ ((∀ g ∈ s.grants H C E, g.FitsEncoder) →
      0 ≤ s.encoderCacheManager.numFreeSlots → 0 ≤ s'.encoderCacheManager.numFreeSlots) := by
  obtain ⟨p, hp⟩ := schedule_ok hsched
  have hturns := schedulePass_turns hplaces hp.pass
  have hbooks := hturns.encoderBooks (s := s) ⟨.refl s, h.books, fun _ h => .inl h⟩
  have hback := hp.givesBack hplaces hacc hbooks
  obtain ⟨-, -, hobj, hreq⟩ := schedule_places hplaces hacc.mem_objects hsched
  refine ⟨⟨?_, fun rid hrid => ?_⟩, fun hfits hroom => ?_⟩
  · rw [(hbooks.inputs.trans hp.advances.sameInputs).encoderWeight]
    exact hback.books
  · rw [hobj, (hreq rid).isFinished]
    have hne : p.sched.encoderCacheManager.cachedOf rid ≠ [] := fun hnil =>
      hrid (List.eq_nil_iff_forall_not_mem.mpr fun i hi => by
        have hmem : i ∈ p.sched.encoderCacheManager.cachedOf rid := hback.cachedOf rid hi
        simp [hnil] at hmem)
    exact (hbooks.cached rid hne).elim (h.live rid) (scheduled_unfinished hplaces hacc hp)
  · exact (hturns.room hfits hroom).trans hback.numFreeSlots

omit hplaces

end Step

/-! ## The other calls -/

section Calls

variable {H : BlockHasher} {C : SchedulerConfig} {E : Environment} {m : ModelRunnerOutput}
  {s s' : Scheduler} {u u' : UpdatePass} {rid : ReqId} {r : Request}

/-- No request ends. -/
theorem Scheduler.EncoderBooks.congr (h : s.EncoderBooks) (hinputs : s.SameInputs s')
    (hobj : ∀ id ∈ s.objects, id ∈ s'.objects)
    (hfin : ∀ id, (s'.request id).isFinished = (s.request id).isFinished)
    (henc : s'.encoderCacheManager = s.encoderCacheManager) : s'.EncoderBooks := by
  refine ⟨?_, fun rid hrid => ?_⟩
  · rw [hinputs.encoderWeight, henc]
    exact h.books
  · rw [henc] at hrid
    rw [hfin]
    exact (h.live rid hrid).imp_left (hobj rid)

/-- A request ends: its inputs are freed. -/
theorem Scheduler.EncoderBooks.free (h : s.EncoderBooks) (hinputs : s.SameInputs s')
    (hobj : ∀ id ∈ s.objects, id ∈ s'.objects)
    (hfin : ∀ id, id ≠ rid → (s'.request id).isFinished = (s.request id).isFinished)
    (hr : (s.request rid).SameInputs r) (hnamed : (s.request rid).requestId = rid)
    (henc : s'.encoderCacheManager = s.encoderCacheManager.free r) :
    s'.EncoderBooks ∧
      s.encoderCacheManager.numFreeSlots ≤ s'.encoderCacheManager.numFreeSlots := by
  have hr' : r.requestId = rid := hr.requestId.trans hnamed
  obtain ⟨hback, hnil⟩ := h.books.free (Scheduler.encoderWeight_of_sameInputs hr hr')
  rw [henc]
  refine ⟨⟨?_, fun id hid => ?_⟩, hback.numFreeSlots⟩
  · rw [hinputs.encoderWeight, henc]
    exact hback.books
  · rw [henc] at hid
    have hne : id ≠ rid := by
      rintro rfl
      exact hid (hr' ▸ hnil)
    rw [hfin id hne]
    refine (h.live id fun hold => hid ?_).imp_left (hobj id)
    exact List.eq_nil_iff_forall_not_mem.mpr fun i hi => by
      simpa [hold] using hback.cachedOf id hi

/-- The books are kept, and room is only given back. -/
abbrev Scheduler.GivesBack (s s' : Scheduler) : Prop :=
  s'.EncoderBooks ∧ s.encoderCacheManager.numFreeSlots ≤ s'.encoderCacheManager.numFreeSlots

/-- One round of the loop of `update_from_output`. -/
theorem UpdatePass.Applies.givesBack {drafts generated appended : List TokenId} {stopped : Bool}
    (h : u.sched.EncoderBooks) (hnamed : (u.sched.request rid).requestId = rid)
    (ha : u.Applies C rid ((u.sched.request rid).rejectDrafts drafts generated) generated appended
      stopped u') : u.sched.GivesBack u'.sched := by
  obtain ⟨r, hr, hends⟩ := ha.ends
  have hfin : ∀ id, id ≠ rid →
      (u'.sched.request id).isFinished = (u.sched.request id).isFinished :=
    fun id hid => by rw [ha.others id hid]
  cases stopped with
  | true =>
    exact h.free ha.sameInputs ha.objects_mem hfin
      ((Request.sameInputs_rejectDrafts _ _ _).trans hr) hnamed hends.encoderCacheManager
  | false =>
    have henc : u'.sched.encoderCacheManager = u.sched.encoderCacheManager :=
      hends.encoderCacheManager
    refine ⟨h.congr ha.sameInputs ha.objects_mem (fun id => ?_) henc, henc ▸ le_refl _⟩
    by_cases hid : id = rid
    · unfold Request.isFinished
      rw [hid, ha.request.status rfl, Request.status_rejectDrafts]
    · exact hfin id hid

variable (hplaces : s.Places s.running s.waiting.ids)

include hplaces

/-- **`update_from_output` keeps the books**, and takes no room. -/
theorem updateFromOutput_givesBack {output : SchedulerOutput}
    {ecos : Dict Nat EngineCoreOutputs}
    (hacc : s.Accounts) (h : s.EncoderBooks)
    (hup : s.updateFromOutput H C E output m = .ok (ecos, s')) : s.GivesBack s' := by
  obtain ⟨u, hu, -⟩ := updateFromOutput_ok hup
  have hloop : u.Placed ∧ u.sched.Accounts ∧ s.GivesBack u.sched := by
    refine threadM_invariant (I := fun _ u => u.Placed ∧ u.sched.Accounts ∧ s.GivesBack u.sched)
      ?_ ⟨UpdatePass.placed_start hplaces, hacc, h, le_refl _⟩ hu.loop
    rintro e rest u u' ⟨hplaced, hacc, hbooks, hroom⟩ hstep
    obtain ⟨hplaced', hacc', -⟩ := updateRequest_places hplaced hacc hstep
    obtain ⟨-, ⟨-, rfl⟩ | ⟨hmem, index, generated, appended, stopped, -, -, ha⟩⟩ :=
      updateRequest_ok hstep
    · exact ⟨hplaced', hacc', hbooks, hroom⟩
    · have hback := ha.givesBack hbooks
        (Scheduler.Places.named hplaced e.1 (hacc.mem_objects e.1 hmem))
      exact ⟨hplaced', hacc', hback.1, hroom.trans hback.2⟩
  have henc : s'.encoderCacheManager = u.sched.encoderCacheManager := hu.ends.encoderCacheManager
  refine ⟨hloop.2.2.1.congr (.of_objects hu.objects) (fun id hid => hu.objects ▸ hid)
    (fun id => by rw [Scheduler.request_congr hu.objects]) henc, ?_⟩
  rw [henc]
  exact hloop.2.2.2

/-- **`finish_requests` keeps the books**, and takes no room. -/
theorem finishRequests_givesBack {ids : List ReqId} {status : RequestStatus}
    (hacc : s.Accounts) (h : s.EncoderBooks)
    (hfin : s.finishRequests C E ids status = .ok s') : s.GivesBack s' := by
  obtain ⟨-, valid, -, hvalid, w, -, hloop⟩ := finishRequests_ok hplaces.nodupR hfin
  have hmem : ∀ id ∈ valid, id ∈ s.objects := fun id hid =>
    hacc.mem_objects id ((hvalid id).mp hid).2
  refine (threadM_invariant (I := fun rest s₁ => (∀ id ∈ rest, id ∈ s₁.objects) ∧
    (∀ id ∈ s₁.objects, (s₁.request id).requestId = id) ∧ s.GivesBack s₁)
    (fun rid rest s₁ s₂ hI hstep => ?_) ?start hloop).2.2
  case start =>
    exact ⟨hmem, hplaces.named, h.congr (.of_objects rfl) (fun _ h => h) (fun _ => rfl) rfl,
      le_refl _⟩
  obtain ⟨hrest, hnamed, hbooks, hroom⟩ := hI
  obtain ⟨hobj, -, -, -, hends⟩ := finishRequest_ok hstep
  have hinputs : s₁.SameInputs s₂ := .of_modify hobj fun _ => ⟨rfl, rfl, rfl, rfl, rfl, rfl, rfl⟩
  have hmem₂ : ∀ id, id ∈ s₂.objects ↔ id = rid ∨ id ∈ s₁.objects := fun id => by
    rw [hobj, Scheduler.mem_objects_modify]
  have hrid := hrest rid List.mem_cons_self
  have hfin : ∀ id, id ≠ rid → (s₂.request id).isFinished = (s₁.request id).isFinished :=
    fun id hid => by rw [Scheduler.request_congr hobj, Scheduler.request_modify_ne hid]
  have hback := hbooks.free hinputs (fun id hid => (hmem₂ id).mpr (.inr hid)) hfin
    ⟨rfl, rfl, rfl, rfl, rfl, rfl, rfl⟩ (hnamed rid hrid) hends.encoderCacheManager
  refine ⟨fun id hid => (hmem₂ id).mpr (.inr (hrest id (List.mem_cons_of_mem _ hid))),
    fun id hid => ?_, hback.1, hroom.trans hback.2⟩
  rw [(hinputs id).requestId]
  rcases (hmem₂ id).mp hid with rfl | hid
  · exact hnamed _ hrid
  · exact hnamed id hid

/-- **`add_request` keeps the books**: a request under the identifier of an old one finds none of its
inputs. -/
theorem addRequest_encoderBooks (h : s.EncoderBooks)
    (hR : r.requestId ∉ s.running) (hW : r.requestId ∉ s.waiting.ids)
    (hadd : s.addRequest r.new = .ok s') :
    s'.EncoderBooks ∧ s'.encoderCacheManager = s.encoderCacheManager := by
  have ha := addRequest_ok hadd
  have henc : s'.encoderCacheManager = s.encoderCacheManager := by
    obtain ⟨w, -, h₁⟩ := bind_eq_ok.mp hadd
    cases h₁
    rfl
  -- a request with recorded inputs is in one of the lists
  have hne : ∀ rid, s.encoderCacheManager.cachedOf rid ≠ [] → rid ≠ r.requestId := by
    rintro rid hrid rfl
    obtain ⟨hobj, hun⟩ := h.live _ hrid
    rcases Request.place_of_unfinished hun with hp | hp
    · exact hR ((hplaces.running _).mpr ⟨hobj, hp⟩)
    · exact hW ((hplaces.queue _).mpr ⟨hobj, hp⟩)
  have hsame : ∀ rid, s.encoderCacheManager.cachedOf rid ≠ [] →
      s'.request rid = s.request rid := fun rid hrid => by
    rw [ha.request, Request.requestId_new, if_neg (hne rid hrid)]
  refine ⟨⟨?_, fun rid hrid => ?_⟩, henc⟩
  · rw [henc]
    exact h.books.congr fun rid hrid => funext fun i => by
      rw [Scheduler.encoderWeight, hsame rid hrid]
      rfl
  · rw [henc] at hrid
    rw [hsame rid hrid]
    refine (h.live rid hrid).imp_left fun hobj => ?_
    rw [ha.objects]
    exact Dict.mem_set.mpr (.inr hobj)

omit hplaces

end Calls

/-! ## Runs -/

section Definitions

variable (H : BlockHasher) (C : SchedulerConfig)

/-- **The condition**: the inputs that a request schedules in a step fit together. -/
def AllocatesWithinRoom (s : Engine) : EngineOp → Prop
  | .schedule E => ∀ g ∈ s.sched.grants H C E, g.FitsEncoder
  | _ => True

instance (s : Engine) (op : EngineOp) : Decidable (AllocatesWithinRoom H C s op) := by
  refine op.casesOn ?_ ?_ ?_ ?_ <;> intros <;> unfold AllocatesWithinRoom <;> infer_instance

/-- Requests arrive under identifiers not in use, and take room that is there. -/
abbrev UnusedAndWithinRoom (s : Engine) (op : EngineOp) : Prop :=
  UnusedIds s op ∧ AllocatesWithinRoom H C s op

/-- The free slots are those that no recorded input takes, and they are not negative. -/
structure EncoderCacheManager.Exact (w : ReqId → Nat → Nat) (m : EncoderCacheManager) : Prop where
  exact : m.numFreeSlots = m.cacheSize - m.tokens w
  nonneg : 0 ≤ m.numFreeSlots

/-- **The encoder cache does not over-commit**: neither now nor at any grant of the next call of
`schedule`. -/
structure NeverOvercommits (E : Environment) (s : Scheduler) : Prop where
  between : s.encoderCacheManager.Exact s.encoderWeight
  within : ∀ g ∈ s.grants H C E, g.encoderCache.Exact s.encoderWeight

end Definitions

section Runs

variable {H : BlockHasher} {C : SchedulerConfig} {s : Engine} {s₀ : Scheduler}

variable (hinit : Scheduler.init C = .ok s₀)

include hinit

theorem encoderBooks_init : s₀.EncoderBooks ∧ 0 ≤ s₀.encoderCacheManager.numFreeSlots := by
  obtain ⟨_, -, h₁⟩ := bind_eq_ok.mp hinit
  obtain ⟨k, -, h₂⟩ := bind_eq_ok.mp h₁
  cases h₂
  exact ⟨⟨⟨by simp [EncoderCacheManager.init, EncoderCacheManager.tokens],
    fun _ => List.nodup_nil⟩, fun rid hrid => absurd rfl hrid⟩, Int.natCast_nonneg _⟩

/-- **The books agree in every run**, whether the inputs fit or not. -/
theorem encoderBooks_of_reach (hs : (engineMachine H C s₀).Reach UnusedIds s) :
    s.sched.EncoderBooks := by
  induction hs with
  | start => exact (encoderBooks_init hinit).1
  | @next s s' op hs hok hstep ih =>
    obtain ⟨hplaces, hacc⟩ := Engine.places_of_reach hinit hs
    cases Engine.step_cases hstep with
    | addRequest hadd =>
      exact (addRequest_encoderBooks hplaces ih hok.1 hok.2 hadd).1
    | schedule hsched =>
      exact (schedule_encoderBooks hplaces hacc ih hsched).1
    | updateFromOutput _ hup =>
      exact (updateFromOutput_givesBack hplaces hacc ih hup).1
    | finishRequests hfin =>
      exact (finishRequests_givesBack hplaces hacc ih hfin).1

/-- The room in a run in which the inputs of every grant fit together. -/
theorem numFreeSlots_of_reach (hs : (engineMachine H C s₀).Reach (UnusedAndWithinRoom H C) s) :
    0 ≤ s.sched.encoderCacheManager.numFreeSlots := by
  induction hs with
  | start => exact (encoderBooks_init hinit).2
  | @next s s' op hs hok hstep ih =>
    have hs₁ : (engineMachine H C s₀).Reach UnusedIds _ := hs.mono fun _ _ h => h.1
    obtain ⟨hplaces, hacc⟩ := Engine.places_of_reach hinit hs₁
    have hbooks := encoderBooks_of_reach hinit hs₁
    cases Engine.step_cases hstep with
    | @addRequest _ sched hadd =>
      have henc := (addRequest_encoderBooks hplaces hbooks hok.1.1 hok.1.2 hadd).2
      change 0 ≤ sched.encoderCacheManager.numFreeSlots
      rw [henc]
      exact ih
    | schedule hsched =>
      exact (schedule_encoderBooks hplaces hacc hbooks hsched).2 hok.2 ih
    | updateFromOutput _ hup =>
      exact ih.trans (updateFromOutput_givesBack hplaces hacc hbooks hup).2
    | finishRequests hfin =>
      exact ih.trans (finishRequests_givesBack hplaces hacc hbooks hfin).2

omit hinit

/-- **The encoder cache does not over-commit** exactly if, in the run and in the next call, the inputs
of every grant fit together. -/
theorem neverOvercommits_iff (hinit : Scheduler.init C = .ok s₀)
    (hs : (engineMachine H C s₀).Reach (UnusedAndWithinRoom H C) s) {E : Environment} :
    NeverOvercommits H C E s.sched ↔ AllocatesWithinRoom H C s (.schedule E) := by
  have hs₁ : (engineMachine H C s₀).Reach UnusedIds _ := hs.mono fun _ _ h => h.1
  obtain ⟨hplaces, -⟩ := Engine.places_of_reach hinit hs₁
  have hbooks := encoderBooks_of_reach hinit hs₁
  constructor
  · exact fun h g hg => g.numFreeSlots_encoderCache.mp (h.within g hg).nonneg
  · refine fun hfits => ⟨⟨hbooks.books.exact, numFreeSlots_of_reach hinit hs⟩, fun g hg => ?_⟩
    obtain ⟨hturns, hnamed, n, hasks⟩ := grants_occur hplaces hg
    have hpass := hturns.encoderBooks (s := s.sched) ⟨.refl _, hbooks.books, fun _ h => .inl h⟩
    exact ⟨(hpass.encoderCache hnamed hasks).exact, g.numFreeSlots_encoderCache.mpr (hfits g hg)⟩

/-- Three requests may run, by priority, each with four tokens of its prompt in a step. -/
def encoderConfig (encoderCacheSize : Nat) : SchedulerConfig :=
  { pairConfig 10 32 with
    policy := .priority
    maxNumRunningReqs := 3
    maxNumScheduledTokens := 16
    longPrefillTokenThreshold := 4
    maxNumEncoderInputTokens := 8
    encoderCacheSize }

/-- A request with placeholders of the given offsets and lengths. -/
def mmRequest (requestId : ReqId) (promptTokenIds : List TokenId) (items : List (Nat × Nat)) :
    Request :=
  { textRequest requestId promptTokenIds with
    mmHashes := items.map fun _ => "image"
    mmPositions := items.map fun e => ⟨e.1, e.2⟩ }

/-- A request whose third chunk has two items of two tokens each; it is preempted after that chunk. -/
def twoItemsRun : List EngineOp :=
  [.addRequest { mmRequest 1 (List.range 14) [(8, 2), (10, 2)] with priority := 5 }, .schedule {},
   .addRequest (textRequest 2 (List.range' 20 8)),
   .addRequest { textRequest 3 [1, 2] with arrivalTime := 1 }, .schedule {}]

/-- The two items fit into a cache of four tokens. -/
theorem neverOvercommits_twoItemsRun :
    ∃ s₀ s, Scheduler.init (encoderConfig 4) = .ok s₀ ∧
      (engineMachine .encoding (encoderConfig 4) s₀).Reach
        (UnusedAndWithinRoom .encoding (encoderConfig 4)) s ∧
      NeverOvercommits .encoding (encoderConfig 4) {} s.sched := by
  obtain ⟨s₀, s, hinit, hreach, hchecks⟩ := exists_runEngine .encoding (encoderConfig 4)
    (UnusedAndWithinRoom .encoding (encoderConfig 4)) twoItemsRun
    (fun s => AllocatesWithinRoom .encoding (encoderConfig 4) s (.schedule {})) (by decide +kernel)
  exact ⟨s₀, s, hinit, hreach,
    (neverOvercommits_iff hinit hreach).mpr hchecks⟩

/-- **Two items for the room of one**: each fits into a cache of three tokens, and both are recorded.
The number of free slots is negative after the call. -/
theorem not_neverOvercommits_twoItemsRun :
    ∃ s₀ s, Scheduler.init (encoderConfig 3) = .ok s₀ ∧
      (engineMachine .encoding (encoderConfig 3) s₀).Reach UnusedIds s ∧
      s.sched.encoderCacheManager.numFreeSlots = -1 ∧
      ¬ NeverOvercommits .encoding (encoderConfig 3) {} s.sched := by
  obtain ⟨s₀, s, hinit, hreach, hneg⟩ := exists_runEngine .encoding (encoderConfig 3) UnusedIds
    (twoItemsRun ++ [.schedule {}]) (fun s => s.sched.encoderCacheManager.numFreeSlots = -1)
    (by decide +kernel)
  refine ⟨s₀, s, hinit, hreach, hneg, fun h => ?_⟩
  have := h.between.nonneg
  omega

end Runs

end InferenceServer
