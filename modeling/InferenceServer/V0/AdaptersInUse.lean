import InferenceServer.Lib.Meets
import InferenceServer.V0.Scheduler

/-!
# The set of the adapters in use

The passes of the scheduler of V0 share a set of adapters. This says, for each pass, which groups the
set speaks of when the pass is over, if it spoke of the right ones before.

**Taking in.** A group is swapped in, or its prompt scheduled, only if its adapter is in the set or the set
is not full; then its adapter is in the set. So the set has the adapters of all groups taken in, and is
never larger than the number of slots (`Admits`).

**Running groups.** An iteration of the pass over the running groups ends in one of four ways
(`RunningPass.After`). The set grows by the adapter of the group if it is scheduled, and loses this adapter
if the group has made way for itself; the other groups that make way do not change the set.

## Main results

* `scheduleSwapped_admits`, `schedulePrefills_admits`, `RunningPass.step_after`,
  `scheduleRunning_invariant`
-/

namespace InferenceServer.V0

open Outcome

variable {M : Type} {E : SchedulerEnvironment M} {c c₀ : Option (Finset Nat)} {id : GroupId}
  {ids ids' : List GroupId} {m : Nat}

/-! ## Sets of adapters -/

/-- The adapters in the set, if there is one. -/
def inUse (c : Option (Finset Nat)) : Finset Nat := c.getD ∅

theorem mem_lorasOf {a : Nat} : a ∈ E.lorasOf ids ↔ 0 < a ∧ ∃ id ∈ ids, E.loraIntId id = a := by
  simp only [SchedulerEnvironment.lorasOf, List.mem_toFinset, List.mem_filter, List.mem_map,
    decide_eq_true_eq]
  exact and_comm

theorem loraIntId_mem_lorasOf (hid : id ∈ ids) (hpos : 0 < E.loraIntId id) :
    E.loraIntId id ∈ E.lorasOf ids :=
  mem_lorasOf.mpr ⟨hpos, id, hid, rfl⟩

@[simp] theorem lorasOf_nil : E.lorasOf [] = ∅ := rfl

@[simp] theorem lorasOf_append : E.lorasOf (ids ++ ids') = E.lorasOf ids ∪ E.lorasOf ids' := by
  ext a
  simp only [Finset.mem_union, mem_lorasOf, List.mem_append, or_and_right, exists_or, and_or_left]

/-- Of more groups, there are more adapters. -/
theorem lorasOf_mono (h : ∀ id ∈ ids, id ∈ ids') : E.lorasOf ids ⊆ E.lorasOf ids' := by
  intro a ha
  obtain ⟨hpos, id, hid, rfl⟩ := mem_lorasOf.mp ha
  exact loraIntId_mem_lorasOf (h id hid) hpos

theorem mem_lorasOf_singleton {a : Nat} : a ∈ E.lorasOf [id] ↔ 0 < a ∧ E.loraIntId id = a := by
  simp [mem_lorasOf]

theorem isSome_addLora : (addLora E c id).isSome = c.isSome := by
  unfold addLora
  split_ifs <;> simp

theorem inUse_addLora (hc : c.isSome) : inUse (addLora E c id) = inUse c ∪ E.lorasOf [id] := by
  obtain ⟨loras, rfl⟩ := Option.isSome_iff_exists.mp hc
  ext a
  rw [Finset.mem_union, mem_lorasOf_singleton]
  unfold addLora
  split_ifs with hpos
  · simp only [inUse, Option.map_some, Option.getD_some, Finset.mem_insert]
    grind
  · grind

/-! ## Taking in -/

/-- A pass that starts with the set `c₀` has taken in the groups `ids`, and the set is `c`. -/
structure Admits (E : SchedulerEnvironment M) (m : Nat) (c₀ c : Option (Finset Nat))
    (ids : List GroupId) : Prop where
  isSome : c.isSome
  card_le : (inUse c).card ≤ m
  inUse_eq : inUse c = inUse c₀ ∪ E.lorasOf ids

namespace Admits

theorem start (hc : c.isSome) (hm : (inUse c).card ≤ m) : Admits E m c c [] :=
  ⟨hc, hm, by simp⟩

/-- One more group. -/
theorem addLora (hE : E.config.maxLoras = some m) (h : Admits E m c₀ c ids)
    (hslot : noSlotForLora E c id = false) (hids : E.lorasOf ids' = E.lorasOf ids ∪ E.lorasOf [id]) :
    Admits E m c₀ (addLora E c id) ids' := by
  refine ⟨by rw [isSome_addLora]; exact h.isSome, ?_, ?_⟩
  · rw [inUse_addLora h.isSome]
    obtain ⟨loras, rfl⟩ := Option.isSome_iff_exists.mp h.isSome
    have hslot : ¬ (0 < E.loraIntId id ∧ E.loraIntId id ∉ loras ∧ m ≤ loras.card) := by
      simpa [noSlotForLora, hE] using hslot
    have hle : loras.card ≤ m := h.card_le
    -- the adapter of the group is in the set, or there is room for it
    by_cases hnew : E.lorasOf [id] ⊆ loras
    · rwa [inUse, Option.getD_some, Finset.union_eq_left.mpr hnew]
    · obtain ⟨a, ha, hnot⟩ := Finset.not_subset.mp hnew
      obtain ⟨hpos, rfl⟩ := mem_lorasOf_singleton.mp ha
      have hroom : loras.card < m := by
        by_contra hfull
        exact hslot ⟨hpos, hnot, not_lt.mp hfull⟩
      have hone : E.lorasOf [id] ⊆ {E.loraIntId id} := by
        intro a ha
        rw [Finset.mem_singleton, (mem_lorasOf_singleton.mp ha).2]
      calc (loras ∪ E.lorasOf [id]).card
        _ ≤ loras.card + (E.lorasOf [id]).card := Finset.card_union_le _ _
        _ ≤ loras.card + 1 := Nat.add_le_add_left (Finset.card_le_card hone) _
        _ ≤ m := hroom
  · rw [inUse_addLora h.isSome, h.inUse_eq, hids, Finset.union_assoc]

end Admits

theorem groupsOf_append (l l' : List ScheduledSequenceGroup) :
    groupsOf (l ++ l') = groupsOf l ++ groupsOf l' :=
  List.map_append

namespace SwappedPass

variable {p : SwappedPass M}

/-- The groups of the pass, in which order they are does not matter. -/
theorem lorasOf_scheduled : E.lorasOf (groupsOf p.scheduled) =
    E.lorasOf (groupsOf p.prefillSeqGroups) ∪ E.lorasOf (groupsOf p.decodeSeqGroups) := by
  rw [scheduled, groupsOf_append, lorasOf_append]

variable (hE : E.config.maxLoras = some m)

include hE

theorem takeIn_admits (h : Admits E m c₀ p.currLoras (groupsOf p.scheduled))
    (hslot : noSlotForLora E p.currLoras id = false) (isPrefill : Bool) (uncached cached : Int) :
    Meets (p.takeIn E id isPrefill uncached cached)
      (fun q => Admits E m c₀ q.currLoras (groupsOf q.scheduled)) fun _ => True := by
  refine meets_bind_any (fun _ => trivial) fun (_, world) => ?_
  refine meets_bind_any (fun _ => trivial) fun (_, world) => ?_
  refine meets_bind_any (fun _ => trivial) fun budget => ?_
  have hmore (x : ScheduledSequenceGroup) (hx : x.seqGroup = id) :
      E.lorasOf (groupsOf p.scheduled) ∪ E.lorasOf [id] = E.lorasOf (groupsOf p.prefillSeqGroups) ∪
        E.lorasOf (groupsOf p.decodeSeqGroups) ∪ E.lorasOf (groupsOf [x]) := by
    rw [lorasOf_scheduled, ← hx]
    rfl
  split_ifs with hprefill
  · refine h.addLora hE hslot ?_
    rw [hmore ⟨id, uncached + cached⟩ rfl, lorasOf_scheduled, groupsOf_append, lorasOf_append,
      Finset.union_right_comm]
  · refine h.addLora hE hslot ?_
    rw [hmore ⟨id, 1⟩ rfl, lorasOf_scheduled, groupsOf_append, lorasOf_append, Finset.union_assoc]

theorem step_admits (h : Admits E m c₀ p.currLoras (groupsOf p.scheduled)) :
    Meets (p.step E id) (fun r => Admits E m c₀ r.2.currLoras (groupsOf r.2.scheduled))
      fun _ => True := by
  refine meets_bind_any (fun _ => trivial) fun status => ?_
  cases status with
  | later => exact h
  | never => exact h
  | ok =>
    split_ifs with hslot
    · exact h
    refine meets_bind_any (fun _ => trivial) fun ((uncached, cached), world) => ?_
    refine meets_bind_any (fun _ => trivial) fun room => ?_
    split_ifs with hroom
    · refine (takeIn_admits (p := { p with world }) hE h (by simpa using hslot) _ _ _).bind ?_
      exact fun _ hq => hq
    · exact meets_bind_any (fun _ => trivial) fun _ => h

/-- The loop over the swapped groups. -/
theorem loop_admits (swapped : List GroupId)
    (h : Admits E m c₀ p.currLoras (groupsOf p.scheduled)) :
    Meets (p.loop E swapped) (fun r => Admits E m c₀ r.2.currLoras (groupsOf r.2.scheduled))
      fun _ => True := by
  induction swapped generalizing p with
  | nil => exact h
  | cons id swapped ih =>
    refine (step_admits hE h).bind fun (goesOn, q) hq => ?_
    dsimp only
    split_ifs
    · exact ih hq
    · exact hq

end SwappedPass

/-- **The pass over the swapped groups.** -/
theorem scheduleSwapped_admits (hE : E.config.maxLoras = some m) (swapped : List GroupId)
    {p : SwappedPass M} (h : Admits E m c₀ p.currLoras (groupsOf p.scheduled)) :
    Meets (scheduleSwapped E swapped p)
      (fun r => Admits E m c₀ r.2.currLoras (groupsOf r.2.scheduled)) fun _ => True := by
  exact (SwappedPass.loop_admits hE swapped h).bind fun _ hr => hr

namespace PrefillPass

variable {p : PrefillPass M}

variable (hE : E.config.maxLoras = some m)

include hE

theorem takeIn_admits (h : Admits E m c₀ p.currLoras (groupsOf p.seqGroups))
    (hslot : noSlotForLora E p.currLoras id = false) (enableChunking : Bool) (uncached cached : Int) :
    Meets (p.takeIn E enableChunking id uncached cached)
      (fun q => Admits E m c₀ q.currLoras (groupsOf q.seqGroups)) fun _ => True := by
  refine meets_bind_any (fun _ => trivial) fun world => ?_
  refine meets_bind_any (fun _ => trivial) fun (cows, world) => ?_
  refine meets_bind_any (fun _ => trivial) fun _ => ?_
  refine meets_bind_any (fun _ => trivial) fun budget => ?_
  refine h.addLora hE hslot ?_
  rw [groupsOf_append, lorasOf_append]
  rfl

theorem step_admits (enableChunking : Bool)
    (h : Admits E m c₀ p.currLoras (groupsOf p.seqGroups)) :
    Meets (p.step E enableChunking id)
      (fun r => Admits E m c₀ r.2.currLoras (groupsOf r.2.seqGroups)) fun _ => True := by
  refine meets_bind_any (fun _ => trivial) fun (verdict, (uncached, cached), world) => ?_
  cases verdict with
  | stop => exact h
  | leave => exact h
  | ignore => exact h
  | go =>
    dsimp only
    generalize (if p.seqGroups.length = 0 then (E.attributes id).usesPromptEmbeds
      else p.usingPromptEmbeds) = usingPromptEmbeds
    split_ifs with hleft
    · unfold leave
      rw [bind_assoc]
      exact meets_bind_any (fun _ => trivial) fun _ => h
    refine meets_bind_any (fun _ => trivial) fun room => ?_
    split_ifs with hroom
    · have hslot : noSlotForLora E p.currLoras id = false := by simpa using (not_or.mp hleft).2
      refine (takeIn_admits (p := { p with world, usingPromptEmbeds }) hE h hslot _ _ _).bind ?_
      exact fun _ hq => hq
    · exact meets_bind_any (fun _ => trivial) fun _ => h

/-- The loop over the waiting groups. -/
theorem loop_admits (enableChunking anyRunning : Bool)
    (now : Nat → ℚ) (i : Nat) (waiting : List GroupId) (clock : PromptClock)
    (h : Admits E m c₀ p.currLoras (groupsOf p.seqGroups)) :
    Meets (p.loop E enableChunking anyRunning now i waiting clock)
      (fun r => Admits E m c₀ r.2.2.currLoras (groupsOf r.2.2.seqGroups)) fun _ => True := by
  induction waiting generalizing i clock p with
  | nil => exact h
  | cons id waiting ih =>
    unfold loop
    dsimp only
    split_ifs
    · refine (step_admits hE enableChunking h).bind fun (goesOn, q) hq => ?_
      split_ifs
      · exact ih _ _ hq
      · exact hq
    · exact h

end PrefillPass

/-- **The pass over the waiting groups.** -/
theorem schedulePrefills_admits (hE : E.config.maxLoras = some m) (enableChunking anyRunning : Bool)
    (now : Nat → ℚ) (waiting : List GroupId) (clock : PromptClock) {p : PrefillPass M}
    (h : Admits E m c₀ p.currLoras (groupsOf p.seqGroups)) :
    Meets (schedulePrefills E enableChunking anyRunning now waiting clock p)
      (fun r => Admits E m c₀ r.2.2.currLoras (groupsOf r.2.2.seqGroups)) fun _ => True := by
  unfold schedulePrefills
  split_ifs
  · exact h
  · exact (PrefillPass.loop_admits hE enableChunking anyRunning now 0 waiting clock h).bind
      fun _ hr => hr

/-! ## Running groups -/

namespace RunningPass

variable {p q : RunningPass M} {enableChunking : Bool} {metadata : Option PartialPrefillMetadata}
  {rest : List GroupId}

/-- The groups scheduled are the same, and so is the set. -/
def SameBatch (p q : RunningPass M) : Prop :=
  q.scheduled = p.scheduled ∧ q.currLoras = p.currLoras

/-- The groups scheduled are the same, and the set has lost the adapter of a group, or nothing. -/
def MadeRoom (E : SchedulerEnvironment M) (id : GroupId) (p q : RunningPass M) : Prop :=
  q.scheduled = p.scheduled ∧ q.currLoras.isSome = p.currLoras.isSome ∧
    (inUse q.currLoras = inUse p.currLoras ∨
      inUse q.currLoras = inUse p.currLoras \ E.lorasOf [id])

/-- What an iteration does to the queue, the groups scheduled and the set. -/
def After (E : SchedulerEnvironment M) (id : GroupId) (rest : List GroupId) (p : RunningPass M) :
    RunningVerdict → RunningPass M → Prop
  | .noBudget, q => q.queue = p.queue ∧ SameBatch p q
  | .asyncStopped, q => q.queue = rest ∧ SameBatch p q
  | .noRoom, q => q.queue = [] ∧ MadeRoom E id p q
  | .scheduled, q => (∀ x ∈ q.queue, x ∈ rest) ∧
      (∀ x, x ∈ groupsOf q.scheduled ↔ x ∈ groupsOf p.scheduled ∨ x = id) ∧
      q.currLoras.isSome = p.currLoras.isSome ∧
      (p.currLoras.isSome → inUse q.currLoras = inUse p.currLoras ∪ E.lorasOf [id])

theorem preemptVictim_meets (p : RunningPass M) (victim : GroupId) :
    Meets (p.preemptVictim E victim) (fun q => q.queue = p.queue ∧ SameBatch p q)
      fun _ => True := by
  unfold preemptVictim
  dsimp only
  split_ifs
  · exact meets_bind_any (fun _ => trivial) fun _ => ⟨rfl, rfl, rfl⟩
  · refine meets_bind_any (fun _ => trivial) fun (mode, mapping, world) => ?_
    cases mode with
    | recompute => exact ⟨rfl, rfl, rfl⟩
    | swap => exact ⟨rfl, rfl, rfl⟩

theorem inUse_takeBack (numRunningTokens : Int) :
    inUse (p.takeBack E id numRunningTokens).currLoras = inUse p.currLoras \ E.lorasOf [id] := by
  unfold takeBack
  ext a
  rw [Finset.mem_sdiff, mem_lorasOf_singleton]
  cases hc : p.currLoras with
  | none => simp [inUse]
  | some loras =>
    split_ifs with hpos
    · simp only [inUse, Option.map_some, Option.getD_some, Finset.mem_erase]
      grind
    · grind

theorem isSome_takeBack (numRunningTokens : Int) :
    (p.takeBack E id numRunningTokens).currLoras.isSome = p.currLoras.isSome := by
  unfold takeBack
  split_ifs <;> simp

/-- A group preempts another one, or itself. -/
theorem takeBack_preemptVictim (numRunningTokens : Int) (victim : GroupId) :
    Meets ((p.takeBack E id numRunningTokens).preemptVictim E victim)
      (fun q => q.queue = p.queue ∧ q.scheduled = p.scheduled ∧
        q.currLoras.isSome = p.currLoras.isSome ∧
        inUse q.currLoras = inUse p.currLoras \ E.lorasOf [id]) fun _ => True := by
  refine (preemptVictim_meets _ victim).imp ?_ fun _ h => h
  rintro q ⟨hqueue, hsched, hloras⟩
  refine ⟨hqueue, hsched, ?_, ?_⟩
  · rw [hloras, isSome_takeBack]
  · rw [hloras, inUse_takeBack]

/-- Room is made at the expense of the groups at the end of the queue. -/
theorem makeRoom_meets (numRunningTokens : Int) (victims : List GroupId) :
    Meets (p.makeRoom E enableChunking id numRunningTokens victims)
      (fun r => (∀ x ∈ r.2.queue, x ∈ victims) ∧ (r.1 = false → r.2.queue = []) ∧
        MadeRoom E id p r.2) fun _ => True := by
  induction victims generalizing p with
  | nil =>
    refine meets_bind_any (fun _ => trivial) fun fits => ?_
    split_ifs
    · exact ⟨by simp, fun _ => rfl, rfl, rfl, .inl rfl⟩
    · refine (takeBack_preemptVictim numRunningTokens id).bind fun q ⟨_, hsched, hsome, hloras⟩ => ?_
      exact ⟨by simp, fun _ => rfl, hsched, hsome, .inr hloras⟩
  | cons victim victims ih =>
    refine meets_bind_any (fun _ => trivial) fun fits => ?_
    split_ifs
    · exact ⟨fun x => List.mem_reverse.mp, fun h => by simp at h, rfl, rfl, .inl rfl⟩
    · refine (takeBack_preemptVictim numRunningTokens victim).bind
        fun q ⟨_, hsched, hsome, hloras⟩ => ?_
      refine ih.imp ?_ fun _ h => h
      rintro ⟨fits, r⟩ ⟨hqueue, hnone, hsched', hsome', hloras'⟩
      refine ⟨fun x hx => List.mem_cons_of_mem _ (hqueue x hx), hnone, hsched'.trans hsched,
        hsome'.trans hsome, .inr ?_⟩
      rcases hloras' with h | h
      · rw [h, hloras]
      · rw [h, hloras, Finset.sdiff_idem]

/-- A group with room enters its adapter. -/
theorem scheduleGroup_meets (numRunningTokens : Int) :
    Meets (p.scheduleGroup E enableChunking id numRunningTokens)
      (fun q => q.queue = p.queue ∧
        (∀ x, x ∈ groupsOf q.scheduled ↔ x ∈ groupsOf p.scheduled ∨ x = id) ∧
        q.currLoras = addLora E p.currLoras id) fun _ => True := by
  refine meets_bind_any (fun _ => trivial) fun (cows, world) => ?_
  refine meets_bind_any (fun _ => trivial) fun budget => ?_
  refine ⟨rfl, fun x => ?_, rfl⟩
  dsimp only [scheduled]
  split_ifs
  · simp only [groupsOf, List.map_append, List.mem_append, List.map_singleton, List.mem_singleton]
    exact or_right_comm
  · simp only [groupsOf, List.map_append, List.mem_append, List.map_singleton, List.mem_singleton]
    exact or_assoc.symm

/-- **An iteration** of the pass over the running groups. -/
theorem step_after :
    Meets (p.step E enableChunking metadata id rest) (fun r => After E id rest p r.1 r.2)
      fun _ => True := by
  refine meets_bind_any (fun _ => trivial) fun ((numRunningTokens, _), world) => ?_
  dsimp only
  split_ifs
  · exact ⟨rfl, rfl, rfl⟩
  · exact ⟨rfl, rfl, rfl⟩
  refine (makeRoom_meets numRunningTokens rest.reverse).bind ?_
  rintro ⟨fits, q⟩ ⟨hqueue, hnone, hsched, hsome, hloras⟩
  split_ifs with hfits
  · refine (scheduleGroup_meets numRunningTokens).bind ?_
    rintro r ⟨hr, hmem, hadd⟩
    refine ⟨fun x hx => ?_, fun x => ?_, ?_, fun hc => ?_⟩
    · rw [hr] at hx
      exact List.mem_reverse.mp (hqueue x hx)
    · rw [hmem, hsched]
      rfl
    · rw [hadd, isSome_addLora, hsome]
    · rw [hadd, inUse_addLora (hsome.trans hc)]
      rcases hloras with h | h
      · rw [h]
      · rw [h, Finset.sdiff_union_self_eq_union]
  · exact ⟨hnone (by simpa using hfits), hsched, hsome, hloras⟩

/-- The iterations of the pass that starts with `p` may have come to `q`. -/
inductive Visits (E : SchedulerEnvironment M) (enableChunking : Bool)
    (metadata : Option PartialPrefillMetadata) (p : RunningPass M) : RunningPass M → Prop where
  | start : Visits E enableChunking metadata p p
  | next {q r : RunningPass M} {id : GroupId} {rest : List GroupId} {verdict : RunningVerdict} :
      Visits E enableChunking metadata p q → q.queue = id :: rest →
        q.step E enableChunking metadata id rest = .ok (verdict, r) →
          Visits E enableChunking metadata p r

/-- **The invariant rule** for the loop over the running groups. -/
theorem loop_invariant {I : RunningPass M → Prop}
    (step : ∀ q r id rest verdict, Visits E enableChunking metadata p q → q.queue = id :: rest →
      q.step E enableChunking metadata id rest = .ok (verdict, r) → I q → I r) (fuel : Nat)
    (hq : Visits E enableChunking metadata p q) (hI : I q) :
    Meets (q.loop E enableChunking metadata fuel) I fun _ => True := by
  induction fuel generalizing q with
  | zero => exact hI
  | succ fuel ih =>
    unfold loop
    cases hqueue : q.queue with
    | nil => exact hI
    | cons id rest =>
      dsimp only
      cases hstep : q.step E enableChunking metadata id rest with
      | error e => trivial
      | ok r =>
        obtain ⟨verdict, r⟩ := r
        have hr : I r := step q r id rest verdict hq hqueue hstep hI
        have hvisit := hq.next hqueue hstep
        cases verdict with
        | noBudget => exact hr
        | asyncStopped => exact ih hvisit hr
        | noRoom => exact ih hvisit hr
        | scheduled => exact ih hvisit hr

end RunningPass

/-- What holds when the pass over the running groups starts and is kept by its iterations, holds when
it is over. -/
theorem scheduleRunning_invariant {p : RunningPass M} {enableChunking : Bool}
    {metadata : Option PartialPrefillMetadata} {I : RunningPass M → Prop}
    (step : ∀ q r id rest verdict, RunningPass.Visits E enableChunking metadata p q →
      q.queue = id :: rest → RunningPass.After E id rest q verdict r →
        q.step E enableChunking metadata id rest = .ok (verdict, r) → I q → I r) (hI : I p) :
    Meets (scheduleRunning E enableChunking metadata p) I fun _ => True := by
  refine meets_bind_any (fun _ => trivial) fun _ => ?_
  refine RunningPass.loop_invariant (fun q r id rest verdict hq hqueue hstep => ?_) _ .start hI
  exact step q r id rest verdict hq hqueue (RunningPass.step_after.of_ok hstep) hstep

end InferenceServer.V0
