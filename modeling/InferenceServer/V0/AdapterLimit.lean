import InferenceServer.V0.AdaptersInUse

/-!
# Batches and the slots for adapters

A batch of the scheduler of V0 has to make do with the slots for adapters. The set of the adapters in use
is what the passes over the swapped and the waiting groups rely on for it. This asks when the set has the
adapters of all groups that go on running, and what becomes of the batches if it has not.

**A group makes way for itself.** The pass over the running groups takes the adapter of a group without
room out of the set. If it is the group itself that is preempted in the end, and a group that was scheduled
before has the same adapter, then the set lacks an adapter of the batch.

**Groups that are left.** With chunked prefill the set starts empty. If the tokens do not suffice for all
running groups, then the adapters of those left are not in the set. They go on running: the pass over the
running groups of the next step does not ask whether there is a slot.

A step in which one of the two happens does no harm by itself. It does if, in the same step, a group with
one more adapter is taken in.

## Main results

* `schedule_meets`, `card_lorasOf_schedule`
-/

namespace InferenceServer.V0

open Outcome
open List (mem_append mem_filter mem_map mem_map_of_mem)
open Finset (card_le_card union_subset)

variable {M : Type} {E : SchedulerEnvironment M} {m : Nat} {s : Scheduler M}

/-! ## When the set is right -/

namespace RunningPass

variable (E) in
/-- A group makes way for itself, and one that was scheduled before has the same adapter. -/
def GivesUpShared (enableChunking : Bool) (metadata : Option PartialPrefillMetadata)
    (p : RunningPass M) : Prop :=
  ∃ q r id rest, Visits E enableChunking metadata p q ∧ q.queue = id :: rest ∧
    q.step E enableChunking metadata id rest = .ok (.noRoom, r) ∧
      0 < E.loraIntId id ∧ ∃ x ∈ groupsOf q.scheduled, E.loraIntId x = E.loraIntId id

variable (E) in
/-- With chunked prefill, the adapter of a group that is left is not that of a group scheduled. -/
def LeavesUncounted (metadata : Option PartialPrefillMetadata) (p : RunningPass M) : Prop :=
  ∃ q, scheduleRunning E true metadata p = .ok q ∧
    ¬ E.lorasOf q.queue ⊆ E.lorasOf (groupsOf q.scheduled)

variable {p q r : RunningPass M} {id : GroupId} {rest running : List GroupId}
  {verdict : RunningVerdict} {enableChunking : Bool} {metadata : Option PartialPrefillMetadata}

variable (E) in
/-- The pass has to do with some groups only, and so has the set. -/
structure Within (running : List GroupId) (p : RunningPass M) : Prop where
  queue : ∀ x ∈ p.queue, x ∈ running
  scheduled : ∀ x ∈ groupsOf p.scheduled, x ∈ running
  isSome : p.currLoras.isSome
  inUse : inUse p.currLoras ⊆ E.lorasOf running

theorem Within.after (h : Within E running q) (hqueue : q.queue = id :: rest)
    (hr : After E id rest q verdict r) : Within E running r := by
  have hid : id ∈ running := h.queue id (by simp [hqueue])
  have hrest (x : GroupId) (hx : x ∈ rest) : x ∈ running := h.queue x (by simp [hqueue, hx])
  cases verdict with
  | noBudget =>
    obtain ⟨hq, hsched, hloras⟩ := hr
    exact ⟨hq ▸ h.queue, hsched ▸ h.scheduled, hloras ▸ h.isSome, hloras ▸ h.inUse⟩
  | asyncStopped =>
    obtain ⟨hq, hsched, hloras⟩ := hr
    exact ⟨hq ▸ hrest, hsched ▸ h.scheduled, hloras ▸ h.isSome, hloras ▸ h.inUse⟩
  | noRoom =>
    obtain ⟨hq, hsched, hsome, hloras⟩ := hr
    refine ⟨by simp [hq], hsched ▸ h.scheduled, hsome.trans h.isSome, ?_⟩
    rcases hloras with hloras | hloras
    · exact hloras ▸ h.inUse
    · exact hloras ▸ Finset.sdiff_subset.trans h.inUse
  | scheduled =>
    obtain ⟨hq, hmem, hsome, hloras⟩ := hr
    refine ⟨fun x hx => hrest x (hq x hx), fun x hx => ?_, hsome.trans h.isSome, ?_⟩
    · rcases (hmem x).mp hx with hx | rfl
      · exact h.scheduled x hx
      · exact hid
    · rw [hloras h.isSome]
      exact union_subset h.inUse (lorasOf_mono (by simpa using hid))

variable (E) in
/-- The set has the adapters of the groups scheduled and, where this is asked for, of those in the
queue. -/
structure Counts (queued : Prop) (p : RunningPass M) : Prop where
  isSome : p.currLoras.isSome
  scheduled : E.lorasOf (groupsOf p.scheduled) ⊆ inUse p.currLoras
  queue : queued → E.lorasOf p.queue ⊆ inUse p.currLoras

theorem Counts.after {queued : Prop} (h : Counts E queued q) (hqueue : q.queue = id :: rest)
    (hr : After E id rest q verdict r)
    (hkeep : verdict = .noRoom → 0 < E.loraIntId id →
      ∀ x ∈ groupsOf q.scheduled, E.loraIntId x ≠ E.loraIntId id) : Counts E queued r := by
  have hrest (hqueued : queued) : E.lorasOf rest ⊆ V0.inUse q.currLoras := by
    refine (lorasOf_mono fun x hx => ?_).trans (h.queue hqueued)
    exact hqueue ▸ List.mem_cons_of_mem _ hx
  cases verdict with
  | noBudget =>
    obtain ⟨hq, hsched, hloras⟩ := hr
    exact ⟨hloras ▸ h.isSome, hsched ▸ hloras ▸ h.scheduled, fun hqueued => hq ▸ hloras ▸ h.queue hqueued⟩
  | asyncStopped =>
    obtain ⟨hq, hsched, hloras⟩ := hr
    exact ⟨hloras ▸ h.isSome, hsched ▸ hloras ▸ h.scheduled, fun hqueued => hq ▸ hloras ▸ hrest hqueued⟩
  | noRoom =>
    obtain ⟨hq, hsched, hsome, hloras⟩ := hr
    refine ⟨hsome.trans h.isSome, ?_, fun _ => by simp [hq]⟩
    rw [hsched]
    rcases hloras with hloras | hloras
    · rw [hloras]
      exact h.scheduled
    · rw [hloras]
      -- the adapter that is lost is of no group scheduled
      refine Finset.subset_sdiff.mpr ⟨h.scheduled, Finset.disjoint_left.mpr fun a ha hlost => ?_⟩
      obtain ⟨_, x, hx, hxa⟩ := mem_lorasOf.mp ha
      obtain ⟨hpos, hid⟩ := mem_lorasOf_singleton.mp hlost
      exact hkeep rfl (hid ▸ hpos) x hx (hxa.trans hid.symm)
  | scheduled =>
    obtain ⟨hq, hmem, hsome, hloras⟩ := hr
    have hloras := hloras h.isSome
    refine ⟨hsome.trans h.isSome, fun a ha => ?_, fun hqueued => ?_⟩
    · obtain ⟨hpos, x, hx, rfl⟩ := mem_lorasOf.mp ha
      rw [hloras, Finset.mem_union]
      rcases (hmem x).mp hx with hx | rfl
      · exact .inl (h.scheduled (loraIntId_mem_lorasOf hx hpos))
      · exact .inr (loraIntId_mem_lorasOf (by simp) hpos)
    · rw [hloras]
      exact (lorasOf_mono hq).trans ((hrest hqueued).trans Finset.subset_union_left)

/-- The pass over the running groups has to do with them only. -/
theorem Within.scheduleRunning (h : Within E running p) :
    Meets (scheduleRunning E enableChunking metadata p) (Within E running) fun _ => True :=
  scheduleRunning_invariant (fun _ _ _ _ _ _ hqueue hr _ hq => hq.after hqueue hr) h

/-- If no group makes way for itself that shares its adapter, the set is right after the pass. -/
theorem Counts.scheduleRunning {queued : Prop} (h : Counts E queued p)
    (hshared : ¬ GivesUpShared E enableChunking metadata p) :
    Meets (scheduleRunning E enableChunking metadata p) (Counts E queued) fun _ => True := by
  refine scheduleRunning_invariant (fun q r id rest verdict hvisit hqueue hr hstep hq => ?_) h
  refine hq.after hqueue hr fun hv hpos x hx heq => ?_
  subst hv
  exact hshared ⟨q, r, id, rest, hvisit, hqueue, hstep, hpos, x, hx, heq⟩

end RunningPass

/-! ## The groups taken in -/

/-- What a step returns, when the running groups that go on have the adapters `kept` and the groups taken
in have the adapters `new`. -/
structure TakesIn (E : SchedulerEnvironment M) (kept new : Finset Nat)
    (r : SchedulerOutputs × Scheduler M) : Prop where
  batch : E.lorasOf (groupsOf r.1.scheduledSeqGroups) ⊆ kept ∪ new
  new_subset : new ⊆ E.lorasOf (groupsOf r.1.scheduledSeqGroups)
  running : E.lorasOf r.2.running = kept ∪ new

/-- Sorting does not change which groups are scheduled. -/
theorem postInit_meets (w : World M) (out : SchedulerOutputs) :
    Meets (SchedulerOutputs.postInit E w out) (fun out' =>
      E.lorasOf (groupsOf out'.scheduledSeqGroups) = E.lorasOf (groupsOf out.scheduledSeqGroups))
      fun _ => True := by
  refine meets_bind_any (fun _ => trivial) fun _ => ?_
  split_ifs
  · refine Finset.Subset.antisymm (lorasOf_mono fun x => ?_) (lorasOf_mono fun x => ?_)
    · exact ((List.perm_insertionSort _ _).map _).mem_iff.mp
    · exact ((List.perm_insertionSort _ _).map _).mem_iff.mpr
  · rfl

namespace Scheduler

theorem promptOutputs_meets (waiting : List GroupId) (clock : PromptClock) (p : PrefillPass M) :
    Meets (s.promptOutputs E waiting clock p)
      (TakesIn E (E.lorasOf s.running) (E.lorasOf (groupsOf p.seqGroups))) fun _ => True := by
  refine meets_bind_any (fun _ => trivial) fun _ => ?_
  refine (postInit_meets _ _).bind fun out hout => ⟨?_, hout.ge, lorasOf_append⟩
  exact hout.le.trans Finset.subset_union_right

theorem sameEmbeds_subset (l : List ScheduledSequenceGroup) :
    E.lorasOf (groupsOf (sameEmbeds E l true)) ⊆ E.lorasOf (groupsOf l) := by
  refine lorasOf_mono fun id hid => ?_
  obtain ⟨x, hx, rfl⟩ := mem_map.mp hid
  refine mem_map_of_mem ?_
  cases l with
  | nil => exact hx
  | cons y l => exact (mem_filter.mp hx).1

theorem decodeOutputs_meets (waiting : List GroupId) (clock : PromptClock) (ignored : List GroupId)
    (p : RunningPass M) (swapped : List GroupId) (q : SwappedPass M) :
    Meets (decodeOutputs E waiting clock ignored p swapped q)
      (TakesIn E (E.lorasOf (p.queue ++ groupsOf p.scheduled)) (E.lorasOf (groupsOf q.scheduled)))
      fun _ => True := by
  refine meets_bind_any (fun _ => trivial) fun _ => ?_
  refine meets_bind_require (fun _ => trivial) fun hp => ?_
  refine meets_bind_require (fun _ => trivial) fun hq => ?_
  refine (postInit_meets _ _).bind fun out hout => ?_
  rw [groupsOf_append, lorasOf_append] at hout
  rw [RunningPass.scheduled, hp, List.nil_append, SwappedPass.scheduled, hq, List.nil_append]
  refine ⟨?_, ?_, lorasOf_append⟩
  · rw [hout, lorasOf_append]
    exact Finset.union_subset_union_left ((sameEmbeds_subset _).trans Finset.subset_union_right)
  · rw [hout]
    exact Finset.subset_union_right

theorem lorasOf_orderFinishing (w : World M) (l : List ScheduledSequenceGroup) :
    E.lorasOf (orderFinishingPrefillsFirst w l) = E.lorasOf (groupsOf l) := by
  unfold orderFinishingPrefillsFirst
  refine Finset.Subset.antisymm (lorasOf_mono fun id hid => ?_) (lorasOf_mono fun id hid => ?_)
  · rw [← groupsOf_append] at hid
    obtain ⟨x, hx, rfl⟩ := mem_map.mp hid
    rcases mem_append.mp hx with hx | hx
    · exact mem_map_of_mem (mem_filter.mp hx).1
    · exact mem_map_of_mem (mem_filter.mp hx).1
  · rw [← groupsOf_append]
    obtain ⟨x, hx, rfl⟩ := mem_map.mp hid
    refine mem_map_of_mem (mem_append.mpr ?_)
    by_cases hfin : decide (getNumUncomputedTokens (w.groups x.seqGroup) = x.tokenChunkSize) = true
    · exact .inl (mem_filter.mpr ⟨hx, hfin⟩)
    · exact .inr (mem_filter.mpr ⟨hx, by simpa using hfin⟩)

theorem chunkedOutputs_meets (p : RunningPass M) (swapped : List GroupId) (q : SwappedPass M)
    (waiting : List GroupId) (clock : PromptClock) (r : PrefillPass M) :
    Meets (chunkedOutputs E p swapped q waiting clock r)
      (TakesIn E (E.lorasOf (p.queue ++ groupsOf p.scheduled))
        (E.lorasOf (groupsOf q.scheduled) ∪ E.lorasOf (groupsOf r.seqGroups))) fun _ => True := by
  refine meets_bind_any (fun _ => trivial) fun _ => ?_
  refine (postInit_meets _ _).bind fun out hout => ?_
  simp only [groupsOf_append, lorasOf_append] at hout
  refine ⟨?_, ?_, ?_⟩
  · rw [hout]
    simp only [RunningPass.scheduled, SwappedPass.scheduled, groupsOf_append, lorasOf_append]
    grind
  · rw [hout]
    simp only [SwappedPass.scheduled, groupsOf_append, lorasOf_append]
    grind
  · simp only [RunningPass.scheduled, SwappedPass.scheduled, groupsOf_append, lorasOf_append,
      lorasOf_orderFinishing]
    grind

/-! ## A step -/

/-- Priorities do not bring groups into the running queue. -/
theorem priorityLoop_meets (id : GroupId) (uncached : Int) (numNewSeqs : Nat)
    (victims : List GroupId) (p : PriorityPass M) :
    Meets (PriorityPass.loop E id uncached numNewSeqs victims p) (fun r => ∀ x ∈ r.1, x ∈ victims)
      fun _ => True := by
  induction victims generalizing p with
  | nil => exact fun _ hx => hx
  | cons victim victims ih =>
    unfold PriorityPass.loop
    split_ifs
    · exact fun _ hx => hx
    refine meets_bind_any (fun _ => trivial) fun hasRoom => ?_
    split_ifs
    · exact fun _ hx => hx
    refine meets_bind_any (fun _ => trivial) fun p => ?_
    exact (ih p).imp (fun r hr x hx => List.mem_cons_of_mem _ (hr x hx)) fun _ h => h

theorem schedulePriorityPreemption_meets (running : List GroupId) (p : PriorityPass M) :
    Meets (schedulePriorityPreemption E running p) (fun r => ∀ x ∈ r.1, x ∈ running)
      fun _ => True := by
  have hsort (x : GroupId) : x ∈ running.insertionSort E.precedes ↔ x ∈ running :=
    (List.perm_insertionSort _ _).mem_iff
  unfold schedulePriorityPreemption
  cases p.waiting with
  | nil => exact fun x => (hsort x).mp
  | cons id waiting =>
    refine meets_bind_any (fun _ => trivial) fun ((uncached, _), world) => ?_
    refine (priorityLoop_meets _ _ _ _ _).bind fun (victims, q) hvictims => ?_
    refine meets_bind_any (fun _ => trivial) fun world => fun x hx => ?_
    exact (hsort x).mp (List.mem_reverse.mp (hvictims x (List.mem_reverse.mp hx)))

/-- The pass over the running groups starts with some of them, and with the set that it is given. -/
theorem startDecodes_meets (waiting : List GroupId) (prefills : PrefillPass M) :
    Meets (s.startDecodes E waiting prefills)
      (fun r => (∀ x ∈ r.2.queue, x ∈ s.running) ∧ r.2.scheduled = [] ∧
        r.2.currLoras = prefills.currLoras) fun _ => True := by
  unfold startDecodes
  split_ifs
  · exact (schedulePriorityPreemption_meets _ _).bind fun (running, q) hq => ⟨hq, rfl, rfl⟩
  · exact ⟨fun _ hx => hx, rfl, rfl⟩

theorem swapInAfter_admits (hE : E.config.maxLoras = some m) {p : RunningPass M}
    (hc : p.currLoras.isSome) (hm : (inUse p.currLoras).card ≤ m) :
    Meets (s.swapInAfter E p)
      (fun r => Admits E m p.currLoras r.2.currLoras (groupsOf r.2.scheduled)) fun _ => True := by
  unfold swapInAfter
  split_ifs
  · exact scheduleSwapped_admits hE _ (.start hc hm)
  · exact .start hc hm

variable (E) in
/-- In a step, the adapters of the running groups that go on are in the set: no group makes way for
itself that shares its adapter, and with chunked prefill, the groups left use no other one. -/
def CountsAdapters (s : Scheduler M) (now : Nat → ℚ) : Prop :=
  if E.config.chunkedPrefillEnabled then
    ¬ (s.startChunked E).GivesUpShared E true (some (s.partialPrefills E)) ∧
      ¬ (s.startChunked E).LeavesUncounted E (some (s.partialPrefills E))
  else ∀ waiting clock prefills waiting' start, s.promptsFirst E now = .ok (waiting, clock, prefills) →
    prefills.seqGroups = [] → s.startDecodes E waiting prefills = .ok (waiting', start) →
      ¬ start.GivesUpShared E false none

/-- What is known of a step: the groups that go on were running, and the slots suffice if the adapters are
counted. -/
def Fits (E : SchedulerEnvironment M) (m : Nat) (s : Scheduler M) (counted : Prop)
    (r : SchedulerOutputs × Scheduler M) : Prop :=
  ∃ kept new, TakesIn E kept new r ∧ kept ⊆ E.lorasOf s.running ∧ (counted → (kept ∪ new).card ≤ m)

variable (hE : E.config.maxLoras = some m)

include hE

theorem scheduleDefault_meets (hs : (E.lorasOf s.running).card ≤ m) (now : Nat → ℚ) {counted : Prop}
    (hcounted : counted → ∀ waiting clock prefills waiting' start,
      s.promptsFirst E now = .ok (waiting, clock, prefills) → prefills.seqGroups = [] →
        s.startDecodes E waiting prefills = .ok (waiting', start) →
          ¬ start.GivesUpShared E false none) :
    Meets (s.scheduleDefault E now) (Fits E m s counted) fun _ => True := by
  have hprompts : Meets (s.promptsFirst E now) (fun r => Admits E m (some (E.lorasOf s.running))
      r.2.2.currLoras (groupsOf r.2.2.seqGroups)) fun _ => True := by
    unfold promptsFirst
    simp only [hE, Option.isSome_some, if_true]
    split_ifs
    · exact schedulePrefills_admits hE _ _ _ _ _ (.start rfl hs)
    · exact .start rfl hs
  unfold scheduleDefault
  cases hp : s.promptsFirst E now with
  | error e => trivial
  | ok r =>
    obtain ⟨waiting, clock, prefills⟩ := r
    have hadmits := hprompts.of_ok hp
    refine meets_bind_of_ok rfl ?_
    dsimp only at hadmits ⊢
    split_ifs with hnone
    · refine (promptOutputs_meets waiting clock prefills).imp (fun r hr => ?_) fun _ h => h
      refine ⟨_, _, hr, subset_rfl, fun _ => ?_⟩
      exact hadmits.inUse_eq ▸ hadmits.card_le
    have hnone : prefills.seqGroups = [] := not_not.mp hnone
    have hset : inUse prefills.currLoras = E.lorasOf s.running := by
      rw [hadmits.inUse_eq, hnone, groupsOf, List.map_nil, lorasOf_nil, Finset.union_empty]
      rfl
    cases hd : s.startDecodes E waiting prefills with
    | error e => trivial
    | ok r =>
      obtain ⟨waiting', start⟩ := r
      obtain ⟨hqueue, hsched, hloras⟩ := (startDecodes_meets waiting prefills).of_ok hd
      refine meets_bind_of_ok rfl ?_
      have hwithin : RunningPass.Within E s.running start :=
        ⟨hqueue, by simp [hsched, groupsOf], hloras ▸ hadmits.isSome, by rw [hloras, hset]⟩
      cases hr : scheduleRunning E false none start with
      | error e => trivial
      | ok p =>
        have hp' := hwithin.scheduleRunning.of_ok hr
        have hcard : (inUse p.currLoras).card ≤ m := (card_le_card hp'.inUse).trans hs
        refine meets_bind_of_ok rfl ?_
        refine (swapInAfter_admits hE hp'.isSome hcard).bind fun r hq => ?_
        obtain ⟨swapped, q⟩ := r
        refine (decodeOutputs_meets _ _ _ _ _ _).imp (fun r hr' => ⟨_, _, hr', ?_, fun hc => ?_⟩)
          fun _ h => h
        · refine lorasOf_mono fun x hx => ?_
          rcases mem_append.mp hx with hx | hx
          · exact hp'.queue x hx
          · exact hp'.scheduled x hx
        · have hstart : RunningPass.Counts E True start :=
            ⟨hwithin.isSome, by simp [hsched, groupsOf], fun _ => by
              rw [hloras, hset]
              exact lorasOf_mono hqueue⟩
          have hcounts := (hstart.scheduleRunning
            (hcounted hc waiting clock prefills waiting' start hp hnone hd)).of_ok hr
          refine (card_le_card ?_).trans hq.card_le
          rw [hq.inUse_eq, lorasOf_append]
          exact Finset.union_subset_union_left
            (union_subset (hcounts.queue trivial) hcounts.scheduled)

theorem scheduleChunkedPrefill_meets (hs : (E.lorasOf s.running).card ≤ m) (now : Nat → ℚ)
    {counted : Prop}
    (hcounted : counted → ¬ (s.startChunked E).GivesUpShared E true (some (s.partialPrefills E)) ∧
      ¬ (s.startChunked E).LeavesUncounted E (some (s.partialPrefills E))) :
    Meets (s.scheduleChunkedPrefill E now) (Fits E m s counted) fun _ => True := by
  unfold scheduleChunkedPrefill
  have hwithin : RunningPass.Within E s.running (s.startChunked E) :=
    ⟨fun _ hx => hx, by simp [startChunked, RunningPass.scheduled, groupsOf], rfl,
      Finset.empty_subset _⟩
  dsimp only
  cases hr : scheduleRunning E true (some (s.partialPrefills E)) (s.startChunked E) with
  | error e => trivial
  | ok p =>
    have hp := hwithin.scheduleRunning.of_ok hr
    have hcard : (inUse p.currLoras).card ≤ m := (card_le_card hp.inUse).trans hs
    refine meets_bind_of_ok rfl ?_
    refine (swapInAfter_admits hE hp.isSome hcard).bind fun r hq => ?_
    obtain ⟨swapped, q⟩ := r
    refine (schedulePrefills_admits hE true _ now _ _ (.start hq.isSome hq.card_le)).bind
      fun r hr' => ?_
    obtain ⟨waiting, clock, r⟩ := r
    dsimp only at hq hr'
    refine (chunkedOutputs_meets _ _ _ _ _ _).imp (fun r hout => ⟨_, _, hout, ?_, fun hc => ?_⟩)
      fun _ h => h
    · refine lorasOf_mono fun x hx => ?_
      rcases mem_append.mp hx with hx | hx
      · exact hp.queue x hx
      · exact hp.scheduled x hx
    · obtain ⟨hshared, hleft⟩ := hcounted hc
      have hstart : RunningPass.Counts E False (s.startChunked E) :=
        ⟨rfl, by simp [startChunked, RunningPass.scheduled, groupsOf], False.elim⟩
      have hcounts := (hstart.scheduleRunning hshared).of_ok hr
      have hqueue : E.lorasOf p.queue ⊆ E.lorasOf (groupsOf p.scheduled) := by
        by_contra hnot
        exact hleft ⟨p, hr, hnot⟩
      refine (card_le_card ?_).trans hr'.card_le
      rw [hr'.inUse_eq, hq.inUse_eq, lorasOf_append, Finset.union_assoc (inUse p.currLoras)]
      refine Finset.union_subset_union_left (union_subset ?_ hcounts.scheduled)
      exact hqueue.trans hcounts.scheduled

/-- **A step.** -/
theorem schedule_meets (hs : (E.lorasOf s.running).card ≤ m) (now : Nat → ℚ) :
    Meets (s.schedule E now) (Fits E m s (s.CountsAdapters E now)) fun _ => True := by
  unfold schedule
  split_ifs with hchunked
  · refine scheduleChunkedPrefill_meets hE hs now fun hc => ?_
    rwa [CountsAdapters, if_pos hchunked] at hc
  · refine scheduleDefault_meets hE hs now fun hc => ?_
    rwa [CountsAdapters, if_neg hchunked] at hc

omit hE

/-! ## Runs -/

variable (E) in
/-- A step takes in a group with an adapter that no running group has. -/
def BringsAdapter (s : Scheduler M) (now : Nat → ℚ) : Prop :=
  ∃ r, s.schedule E now = .ok r ∧
    ¬ E.lorasOf (groupsOf r.1.scheduledSeqGroups) ⊆ E.lorasOf s.running

end Scheduler

/-- A step that brings in an adapter counts the others; the other operations are free. -/
def CountsBeforeItBrings (E : SchedulerEnvironment M) (s : Scheduler M) : SchedulerOp M → Prop
  | .schedule now => s.BringsAdapter E now → s.CountsAdapters E now
  | _ => True

/-- A step from a state in which the slots suffice for the running groups. -/
theorem card_lorasOf_step (hE : E.config.maxLoras = some m) (hs : (E.lorasOf s.running).card ≤ m)
    {now : Nat → ℚ} (hok : CountsBeforeItBrings E s (.schedule now))
    {r : SchedulerOutputs × Scheduler M} (hr : s.schedule E now = .ok r) :
    (E.lorasOf (groupsOf r.1.scheduledSeqGroups)).card ≤ m ∧ (E.lorasOf r.2.running).card ≤ m := by
  obtain ⟨kept, new, htakes, hkept, hcounted⟩ := (Scheduler.schedule_meets hE hs now).of_ok hr
  by_cases hbrings : s.BringsAdapter E now
  · have hcard := hcounted (hok hbrings)
    exact ⟨(card_le_card htakes.batch).trans hcard, htakes.running ▸ hcard⟩
  · have hbatch : E.lorasOf (groupsOf r.1.scheduledSeqGroups) ⊆ E.lorasOf s.running := by
      by_contra hnot
      exact hbrings ⟨r, hr, hnot⟩
    refine ⟨(card_le_card hbatch).trans hs, ?_⟩
    rw [htakes.running]
    exact (card_le_card (union_subset hkept (htakes.new_subset.trans hbatch))).trans hs

/-- The slots suffice for the running groups, over all runs. -/
theorem card_lorasOf_running (hE : E.config.maxLoras = some m) {world : World M}
    (h : (scheduler E world).Reach (CountsBeforeItBrings E) s) : (E.lorasOf s.running).card ≤ m := by
  refine h.invariant (I := fun s => (E.lorasOf s.running).card ≤ m) (Nat.zero_le _) ?_
  intro s op t hs hok hstep
  -- the other operations do not bring groups into the running queue
  have hfewer (ht : ∀ x ∈ t.running, x ∈ s.running) : (E.lorasOf t.running).card ≤ m :=
    (card_le_card (lorasOf_mono ht)).trans hs
  cases op with
  | addSeqGroup id =>
    cases hstep
    exact hfewer fun _ hx => hx
  | abortSeqGroup aborted =>
    obtain ⟨world, _, hworld⟩ := bind_eq_ok.mp hstep
    cases hworld
    exact hfewer fun x hx => (mem_filter.mp hx).1
  | freeFinishedSeqGroups =>
    obtain ⟨world, _, hrest⟩ := bind_eq_ok.mp hstep
    obtain ⟨world', _, hrest⟩ := bind_eq_ok.mp hrest
    cases hrest
    exact hfewer fun x hx => (mem_filter.mp hx).1
  | schedule now =>
    obtain ⟨r, hr, hrest⟩ := bind_eq_ok.mp hstep
    cases hrest
    exact (card_lorasOf_step hE hs hok hr).2
  | update change =>
    cases hstep
    exact hs

/-- **Batches and slots.** Over all runs in which no step that brings in an adapter has left out another
one, a batch has at most as many adapters as there are slots. -/
theorem card_lorasOf_schedule (hE : E.config.maxLoras = some m) {world : World M}
    (h : (scheduler E world).Reach (CountsBeforeItBrings E) s) {now : Nat → ℚ}
    (hok : CountsBeforeItBrings E s (.schedule now)) {r : SchedulerOutputs × Scheduler M}
    (hr : s.schedule E now = .ok r) : (E.lorasOf (groupsOf r.1.scheduledSeqGroups)).card ≤ m :=
  (card_lorasOf_step hE (card_lorasOf_running hE h) hok hr).1

/-! ### Two groups with one adapter -/

theorem four_tokens_pos : 0 < 4 := by decide

/-- There is a slot for one adapter. The groups 1 and 2 have the first adapter, group 3 the second one.
-/
def oneSlot : SchedulerEnvironment BlockManager where
  config := {
    chunkedPrefillEnabled := true, maxNumBatchedTokens := 64, maxNumSeqs := 8, maxModelLen := 64
    blockSize := 4, maxLoras := some 1 }
  attributes id := { loraIntId := if id ≤ 2 then 1 else 2, arrivalTime := id }
  blockSpaceManager := .withoutCpu {
    blockSize := 4, enableCaching := false, hashFunction := ⟨fun _ _ _ _ => 0, 0⟩, pos := four_tokens_pos
    numGpuBlocks := 4, numCpuBlocks := 0 }

/-- A group with a prompt of a length. -/
def promptOf (id : GroupId) (len : Nat) : SequenceGroup where
  requestId := id
  seqs := [{ seqId := id, tokenIds := List.replicate len 0, status := .waiting }]
  nodup := by simp

/-- The prompts have 4, 7 and 3 tokens. -/
def threePrompts : World BlockManager where
  groups id := promptOf id (if id = 1 then 4 else if id = 2 then 7 else 3)
  blockManager := .create {
    blockSize := 4, enableCaching := false, hashFunction := ⟨fun _ _ _ _ => 0, 0⟩, pos := four_tokens_pos
    numGpuBlocks := 4, numCpuBlocks := 0 }

/-- The prompts of the groups 1 and 2 are computed, and they have one more token. -/
def afterPrompts (w : World BlockManager) : World BlockManager :=
  { w with groups := fun id =>
      if id ≤ 2 then
        (w.groups id).mapSeqs (fun seq => { seq with
          tokenIds := seq.tokenIds ++ [0], numComputedTokens := seq.tokenIds.length
          isPrefill := false }) fun _ => rfl
      else w.groups id }

/-- With chunked prefill, a step without running groups counts all adapters. -/
theorem Scheduler.countsAdapters_of_running_nil (hE : E.config.chunkedPrefillEnabled = true)
    (hs : s.running = []) (now : Nat → ℚ) : s.CountsAdapters E now := by
  have hwithin : RunningPass.Within E [] (s.startChunked E) :=
    ⟨fun x hx => hs ▸ hx, by simp [startChunked, RunningPass.scheduled, groupsOf], rfl,
      Finset.empty_subset _⟩
  rw [CountsAdapters, if_pos hE]
  constructor
  · rintro ⟨q, r, id, rest, hvisit, hqueue, -⟩
    have hq : RunningPass.Within E [] q := by
      clear hqueue
      induction hvisit with
      | start => exact hwithin
      | next _ hqueue hstep ih => exact ih.after hqueue (RunningPass.step_after.of_ok hstep)
    exact List.not_mem_nil (hq.queue id (by simp [hqueue]))
  · rintro ⟨q, hq, hnot⟩
    exact hnot (lorasOf_mono fun x hx => absurd ((hwithin.scheduleRunning.of_ok hq).queue x hx)
      List.not_mem_nil)

theorem card_lorasOf_schedule_oneSlot : ∃ s r,
    (scheduler oneSlot threePrompts).Reach (CountsBeforeItBrings oneSlot) s ∧
    s.schedule oneSlot (fun _ => 0) = .ok r ∧ groupsOf r.1.scheduledSeqGroups = [1, 2] ∧
    (oneSlot.lorasOf (groupsOf r.1.scheduledSeqGroups)).card ≤ 1 := by
  have hbatch : ((({ world := threePrompts, waiting := [1, 2] } : Scheduler BlockManager).schedule
      oneSlot fun _ => 0).toOption.any fun r =>
        decide (groupsOf r.1.scheduledSeqGroups = [1, 2])) = true := by
    decide +kernel
  obtain ⟨r, hr, hbatch⟩ := (Option.any_eq_true ..).mp hbatch
  have hreach : (scheduler oneSlot threePrompts).Reach (CountsBeforeItBrings oneSlot)
      { world := threePrompts, waiting := [1, 2] } :=
    .next (i := .addSeqGroup 2) (.next (i := .addSeqGroup 1) .start trivial rfl) trivial rfl
  refine ⟨_, r, hreach, toOption_eq_some.mp hr, of_decide_eq_true hbatch, ?_⟩
  exact card_lorasOf_schedule rfl hreach
    (fun _ => Scheduler.countsAdapters_of_running_nil rfl rfl _) (toOption_eq_some.mp hr)

/-- The group 1 takes the last block, the group 2 makes way for itself, and the group 3 is taken in. -/
theorem oneSlot_exceeded : ∃ s r, (scheduler oneSlot threePrompts).Reach (fun _ _ => True) s ∧
    s.schedule oneSlot (fun _ => 0) = .ok r ∧
    oneSlot.config.maxLoras = some 1 ∧
    groupsOf r.1.scheduledSeqGroups = [3, 1] ∧
    (oneSlot.lorasOf (groupsOf r.1.scheduledSeqGroups)).card = 2 := by
  have hrun : ((scheduler oneSlot threePrompts).execIf (fun _ _ => True)
      [.addSeqGroup 1, .addSeqGroup 2, .schedule fun _ => 0, .update afterPrompts, .addSeqGroup 3]
      (scheduler oneSlot threePrompts).init).any (fun s =>
        (s.schedule oneSlot fun _ => 0).toOption.any fun r =>
          decide (groupsOf r.1.scheduledSeqGroups = [3, 1] ∧
            (oneSlot.lorasOf (groupsOf r.1.scheduledSeqGroups)).card = 2)) = true := by
    decide +kernel
  obtain ⟨s, hs, hbatch⟩ := (Option.any_eq_true ..).mp hrun
  obtain ⟨r, hr, hbatch⟩ := (Option.any_eq_true ..).mp hbatch
  obtain ⟨hgroups, hcard⟩ := of_decide_eq_true hbatch
  exact ⟨s, r, Machine.reach_execIf .start hs, toOption_eq_some.mp hr, rfl, hgroups, hcard⟩

end InferenceServer.V0
