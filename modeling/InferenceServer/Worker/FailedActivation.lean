import InferenceServer.Worker.LoRATranslation
import InferenceServer.Worker.PinnedAdapters

/-!
# Activations that fail

The activation of an adapter enters it into the cache of the device and into the slot table, and then
loads its modules into the slot, one after the other. An adapter that is not registered is missed
after the first of these steps, and a bias that is not enabled raises in the middle of the last. What
is then left behind is an adapter that counts as active: the next activation returns without loading
anything, and the modules after the one that failed keep the weights of the adapter that had the slot
before.

So an activation leaves no trace exactly if it does not get that far, or does not fail there: if the
adapter is active already, if no room can be made for it or no slot is free, or if it is registered
and has no bias that is not enabled.
-/

namespace InferenceServer.Worker

open Raising PinnedManager

variable {W : Type} {C : LoRAConfig} {modules : List String}

section Statement

/-- The adapter has a slot, with its weights in every module. -/
def Loaded (modules : List String) (s : LoRAManager W) (id : LoRAId) : Prop :=
  ∃ (i : Nat) (lora : LoRAModel W), s.loraIndexToId[i]? = some (some id) ∧
    s.registered.get? id = some lora ∧ ∀ m ∈ modules, s.slotWeights i m = lora.weights m

/-- The adapter is not active and has no slot, and the next activation raises or loads it. -/
def LeavesNoTrace (C : LoRAConfig) (modules : List String) (s : PinnedManager W) (id : LoRAId) : Prop :=
  s.manager.isActive id = false ∧ some id ∉ s.manager.loraIndexToId ∧
    ∀ result s', activateAdapter C modules id s = .ok result s' → Loaded modules s'.manager id

/-- The two ways in which the activation of an adapter fails. -/
inductive ActivationFailure (id : LoRAId) : PinError → Prop where
  | notRegistered : ActivationFailure id (.lora (.keyError id))
  | bias (moduleName : String) : ActivationFailure id (.lora (.biasNotEnabled moduleName))

/-- The adapters in the cache of the device that can be evicted. -/
def PinnedManager.unpinned (s : PinnedManager W) : List LoRAId :=
  s.manager.active.keys.filter fun id => decide (id ∉ s.pinnedActive)

/-- No slot is free, and none becomes free if the cache is full and its oldest adapter goes. -/
def PinnedManager.NoFreeSlot (C : LoRAConfig) (s : PinnedManager W) : Prop :=
  none ∉ s.manager.loraIndexToId ∧ (C.maxLoras ≤ s.manager.active.length →
    ∀ id ∈ oldestUnpinned s.manager.active.keys s.pinnedActive, some id ∉ s.manager.loraIndexToId)

/-- None of the weights comes with a bias that is not enabled. -/
def LoRAModel.BiasAllowed (C : LoRAConfig) (modules : List String) (lora : LoRAModel W) : Prop :=
  C.biasEnabled = true ∨ ∀ m ∈ modules, lora.weights m ≠ none → lora.bias m = false

/-- The adapter is active already, or there are too few adapters to evict for it, or no slot is free,
or it is registered and has no bias that is not enabled. -/
def CannotFail (C : LoRAConfig) (modules : List String) (s : PinnedManager W) (id : LoRAId) : Prop :=
  s.manager.isActive id = true ∨
  s.unpinned.length < s.manager.active.length + 1 - C.maxLoras ∨
  s.NoFreeSlot C ∨
  ∃ lora, s.manager.registered.get? id = some lora ∧ lora.BiasAllowed C modules

end Statement

/-! ## The loop over the modules -/

/-- The loop ends without an error exactly if no bias is in the way, and does not change what is
active. -/
theorem setModules_ends {index : Nat} {lora : LoRAModel W} {m : LoRAManager W} :
    Ends (modules.forM (LoRAManager.setModule C index lora)) m
      (fun _ _ => lora.BiasAllowed C modules)
      (fun e m' => (∃ moduleName, e = .biasNotEnabled moduleName) ∧ m'.active = m.active ∧
        ¬ lora.BiasAllowed C modules) := by
  let J : List String → LoRAManager W → Prop := fun done m' =>
    m'.active = m.active ∧ lora.BiasAllowed C done
  refine (Ends.forM (J := J) ?_ ⟨rfl, .inr fun _ h => (by cases h)⟩).mono
    (fun _ _ h => h.2) fun _ _ h => h
  rintro done name rest m' hl ⟨hactive, hdone⟩
  unfold LoRAManager.setModule
  cases hw : lora.weights name with
  | none =>
    refine .modify ⟨hactive, hdone.imp_right fun hdone m hm hne => ?_⟩
    rcases List.mem_append.mp hm with hm | hm
    · exact hdone m hm hne
    · obtain rfl := List.mem_singleton.mp hm
      exact absurd hw hne
  | some w =>
    by_cases hbias : lora.bias name = true ∧ C.biasEnabled = false
    · dsimp only
      rw [if_pos hbias]
      refine .of_error rfl ⟨⟨name, rfl⟩, hactive, ?_⟩
      rintro (henabled | hnone)
      · rw [hbias.2] at henabled
        cases henabled
      · have hmem : name ∈ modules := by
          rw [← hl]
          exact List.mem_append_right _ List.mem_cons_self
        rw [hnone name hmem (by simp [hw])] at hbias
        cases hbias.1
    · dsimp only
      rw [if_neg hbias]
      refine .modify ⟨hactive, ?_⟩
      cases henabled : C.biasEnabled with
      | true => exact .inl henabled
      | false =>
        have hno : lora.bias name = false := by simpa [henabled] using hbias
        refine .inr fun m hm hne => ?_
        rcases List.mem_append.mp hm with hm | hm
        · refine hdone.resolve_left ?_ m hm hne
          rw [henabled]
          simp
        · obtain rfl := List.mem_singleton.mp hm
          exact hno

/-! ## Making room -/

variable {s : PinnedManager W} {id : LoRAId}

/-- What an eviction leaves: one adapter less that can be evicted, and nothing else of concern. -/
structure EvictedOne (s s' : PinnedManager W) : Prop where
  unpinned : s'.unpinned.length + 1 = s.unpinned.length
  length : s'.manager.active.length + 1 = s.manager.active.length
  active : ∀ id, s'.manager.isActive id = true → s.manager.isActive id = true
  registered : s'.manager.registered = s.manager.registered
  slots : ∃ id ∈ oldestUnpinned s.manager.active.keys s.pinnedActive,
    s'.manager.loraIndexToId =
      s.manager.loraIndexToId.set (s.manager.loraIndexToId.idxOf (some id)) none

theorem popActive_evictedOne (h : id ∈ oldestUnpinned s.manager.active.keys s.pinnedActive) :
    EvictedOne s (s.popActive id) := by
  have hmem : id ∈ s.manager.active.keys := List.mem_of_find?_eq_some h
  have hunpinned : id ∉ s.pinnedActive := by simpa using List.find?_some h
  have hact : s.manager.isActive id = true := LRUCache.mem_keys_iff.mp hmem
  have hpop : s.popActive id =
      { s with manager := { s.manager with active := s.manager.active.erase id }.freeSlot id } := by
    rw [popActive, if_pos hact, LoRAManager.popActive, if_pos hact,
      Finset.erase_eq_of_notMem hunpinned]
  rw [hpop]
  refine ⟨?_, LRUCache.length_erase hmem, ?_, rfl, id, h, rfl⟩
  · have hkeys : (s.manager.active.erase id).keys.filter (fun j => decide (j ∉ s.pinnedActive)) =
        s.unpinned.erase id := by
      rw [LRUCache.keys_erase, List.filter_filter, unpinned,
        (s.manager.active.nodup_keys.filter _).erase_eq_filter, List.filter_filter]
      refine List.filter_congr fun j _ => ?_
      by_cases hj : j = id <;> simp [hj]
    have hid : id ∈ s.unpinned := List.mem_filter.mpr ⟨hmem, by simpa using hunpinned⟩
    have hpos := List.length_pos_of_mem hid
    change ((s.manager.active.erase id).keys.filter _).length + 1 = _
    rw [hkeys, List.length_erase_of_mem hid]
    omega
  · intro j hj
    change ((s.manager.active.erase id).get? j).isSome = true at hj
    rw [LRUCache.get?_erase] at hj
    split_ifs at hj with hid
    · cases hj
    · exact hj

/-- **An eviction** raises exactly if there is no adapter to evict. -/
theorem popitemActive_ends : Ends popitemActive s (fun _ s' => EvictedOne s s')
    (fun e _ => e = .allPinned ∧ s.unpinned.length = 0) := by
  apply Ends.get
  cases holdest : oldestUnpinned s.manager.active.keys s.pinnedActive with
  | none =>
    refine .of_error rfl ⟨rfl, ?_⟩
    rw [List.length_eq_zero_iff, unpinned, List.filter_eq_nil_iff]
    exact List.find?_eq_none.mp holdest
  | some id => exact popActive_evictedOne holdest

theorem popitemsActive_ends (l : List Nat) : Ends (l.forM fun _ => popitemActive) s
    (fun _ s' => l.length ≤ s.unpinned.length ∧ s'.manager.registered = s.manager.registered)
    (fun e _ => e = .allPinned ∧ s.unpinned.length < l.length) := by
  induction l generalizing s with
  | nil => exact ⟨Nat.zero_le _, rfl⟩
  | cons n l ih =>
    refine Ends.bind (popitemActive_ends.mono (fun _ _ h => h) fun _ _ h => ⟨h.1, ?_⟩) ?_
    · rw [h.2]
      exact Nat.succ_pos _
    · intro _ s' hs'
      have hcount := hs'.unpinned
      refine ih.mono (fun _ t ht => ⟨?_, ht.2.trans hs'.registered⟩) fun e _ h => ⟨h.1, ?_⟩
      · have hle := ht.1
        rw [List.length_cons]
        omega
      · have hlt := h.2
        rw [List.length_cons]
        omega

/-- The cache of the device has room, or the evictions that make room. -/
theorem activate_ends (hid : s.manager.isActive id = false) : Ends (activate C id) s
    (fun _ s' => s.manager.active.length + 1 - C.maxLoras ≤ s.unpinned.length ∧
      s'.manager.registered = s.manager.registered ∧ s'.manager.isActive id = true)
    (fun e _ => e = .allPinned ∧
      s.unpinned.length < s.manager.active.length + 1 - C.maxLoras) := by
  apply Ends.get
  have hloop := popitemsActive_ends (s := s)
    (List.range (s.manager.active.length + 1 - C.maxLoras))
  rw [List.length_range] at hloop
  refine Ends.ite_bind (fun _ => hloop) (fun hnot => absurd hid hnot) ?_
  intro s' hs'
  refine .modify ⟨hs'.1, hs'.2, ?_⟩
  unfold LoRAManager.isActive
  rw [LRUCache.get?_put, if_pos rfl]
  rfl

/-! ## The whole activation -/

/-- How an activation ends: it returns, it fails with the adapter active, or it is turned down
before. -/
def EndsAs (C : LoRAConfig) (modules : List String) (s : PinnedManager W) (id : LoRAId) (e : PinError)
    (s' : PinnedManager W) : Prop :=
  (ActivationFailure id e ∧ s'.manager.isActive id = true ∧ ¬ CannotFail C modules s id) ∨
    (¬ ActivationFailure id e ∧ CannotFail C modules s id)

/-- The room that an activation has made for an adapter that is not active. -/
structure RoomMade (C : LoRAConfig) (id : LoRAId) (s s' : PinnedManager W) : Prop where
  inactive : s'.manager.isActive id = false
  registered : s'.manager.registered = s.manager.registered
  unpinned : s'.manager.active.length + 1 - C.maxLoras ≤ s'.unpinned.length ↔
    s.manager.active.length + 1 - C.maxLoras ≤ s.unpinned.length
  slots : none ∈ s'.manager.loraIndexToId ↔ ¬ s.NoFreeSlot C

theorem roomMade_refl (hid : s.manager.isActive id = false)
    (hroom : ¬ C.maxLoras ≤ s.manager.active.length) : RoomMade C id s s where
  inactive := hid
  registered := rfl
  unpinned := Iff.rfl
  slots := by
    constructor
    · exact fun h hno => hno.1 h
    · intro h
      by_contra hnone
      exact h ⟨hnone, fun hfull => absurd hfull hroom⟩

theorem none_mem_set {l : List (Option LoRAId)} :
    none ∈ l.set (l.idxOf (some id)) none ↔ none ∈ l ∨ some id ∈ l := by
  constructor
  · intro h
    rcases List.mem_or_eq_of_mem_set h with h | -
    · exact .inl h
    · by_cases hmem : some id ∈ l
      · exact .inr hmem
      · rw [List.idxOf_eq_length hmem, List.set_eq_of_length_le le_rfl] at h
        exact .inl h
  · intro h
    by_cases hmem : some id ∈ l
    · exact List.mem_set (List.idxOf_lt_length_of_mem hmem) none
    · rw [List.idxOf_eq_length hmem, List.set_eq_of_length_le le_rfl]
      exact h.resolve_right hmem

theorem EvictedOne.roomMade {s' : PinnedManager W} (h : EvictedOne s s')
    (hid : s.manager.isActive id = false) (hfull : C.maxLoras ≤ s.manager.active.length) :
    RoomMade C id s s' where
  inactive := by
    rw [← Bool.not_eq_true] at hid ⊢
    exact mt (h.active id) hid
  registered := h.registered
  unpinned := by
    have hlength := h.length
    have hunpinned := h.unpinned
    omega
  slots := by
    obtain ⟨oldest, holdest, hslots⟩ := h.slots
    rw [hslots, none_mem_set]
    constructor
    · rintro (hnone | hsome) ⟨hno, hother⟩
      · exact hno hnone
      · exact hother hfull oldest holdest hsome
    · intro hfree
      by_contra hboth
      obtain ⟨hnone, hsome⟩ := not_or.mp hboth
      refine hfree ⟨hnone, fun _ other hother => ?_⟩
      obtain rfl := Option.mem_unique holdest hother
      exact hsome

/-- The first step: room in the cache of the device. -/
theorem removeOldestActive_ends (hid : s.manager.isActive id = false)
    (hfull : C.maxLoras ≤ s.manager.active.length) :
    Ends removeOldestActive s (fun _ s' => RoomMade C id s s') (EndsAs C modules s id) := by
  have hpos := C.pos
  apply Ends.get
  rw [if_neg (by omega)]
  refine popitemActive_ends.mono (fun _ _ h => h.roomMade hid hfull) ?_
  rintro _ s' ⟨rfl, hnone⟩
  refine .inr ⟨fun h => (by cases h), .inr (.inl ?_)⟩
  omega

/-- **The second step**: from the free slot on, an adapter that is not there or has a bias fails. -/
theorem activateInFreeSlot_ends {s' : PinnedManager W} (hid : s.manager.isActive id = false)
    (h : RoomMade C id s s') : Ends (activateInFreeSlot C modules id) s'
      (fun _ _ => CannotFail C modules s id) (EndsAs C modules s id) := by
  apply Ends.get
  rw [h.inactive, if_neg Bool.false_ne_true]
  cases hfree : s'.manager.loraIndexToId.idxOf? none with
  | none =>
    have hnot := List.idxOf?_eq_none_iff.mp hfree
    exact .of_error rfl (.inr ⟨fun h => (by cases h),
      .inr (.inr (.inl (not_not.mp fun hno => hnot (h.slots.mpr hno))))⟩)
  | some index =>
    have hslot : ¬ s.NoFreeSlot C :=
      h.slots.mp (List.mem_of_getElem? (LoRAManager.getElem?_of_idxOf?_none hfree))
    refine Ends.bind (activate_ends h.inactive |>.mono (fun _ _ h => h) ?_) ?_
    · rintro e _ ⟨rfl, hfew⟩
      have hmany := mt h.unpinned.mpr
      exact .inr ⟨fun h => (by cases h), .inr (.inl (by omega))⟩
    · rintro - t ⟨hmany, hregistered, hactive⟩
      have hmany' := h.unpinned.mp hmany
      -- what is left of the condition is the adapter itself
      have hfails : (∀ lora, s.manager.registered.get? id = some lora →
          ¬ lora.BiasAllowed C modules) → ¬ CannotFail C modules s id := by
        rintro hlora (hact | hfew | hno | ⟨lora, hget, hallowed⟩)
        · rw [hid] at hact
          cases hact
        · omega
        · exact hslot hno
        · exact hlora lora hget hallowed
      rw [← h.registered, ← hregistered] at hfails
      apply Ends.get
      cases hget : t.manager.registered.get? id with
      | none =>
        refine .of_error rfl (.inl ⟨.notRegistered, hactive, hfails fun lora h => ?_⟩)
        rw [hget] at h
        cases h
      | some lora =>
        refine Ends.bind (Ends.modify (Q := fun _ u => u.manager.active = t.manager.active) rfl) ?_
        intro _ u hu
        refine Ends.bind (Q := fun _ _ => lora.BiasAllowed C modules)
          (onManager_ends (setModules_ends.mono (fun _ _ h => h) ?_)) ?_
        · rintro _ m ⟨⟨moduleName, rfl⟩, hm, hbias⟩
          refine .inl ⟨.bias moduleName, ?_, hfails fun lora' h => ?_⟩
          · unfold LoRAManager.isActive at hactive ⊢
            rw [hm, hu]
            exact hactive
          · rw [hget] at h
            cases h
            exact hbias
        · intro _ _ hallowed
          refine .inr (.inr (.inr ⟨lora, ?_, hallowed⟩))
          rw [← h.registered, ← hregistered]
          exact hget

/-- An adapter that is active is not loaded again. -/
theorem activateInFreeSlot_active (hid : s.manager.isActive id = true) :
    activateInFreeSlot C modules id s = .ok false s := by
  change (ite _ _ _ : EStateM PinError (PinnedManager W) Bool) s = _
  rw [if_pos hid]
  rfl

/-- The activation of an adapter that is active is a use of it, and nothing else. -/
theorem activateAdapter_active (hid : s.manager.isActive id = true) :
    activateAdapter C modules id s = .ok false { s with
      manager := { s.manager with active := s.manager.active.touch id } } := by
  have hroom : ¬ (s.manager.isActive id = false ∧ C.maxLoras ≤ s.manager.active.length) := by
    rintro ⟨hnot, -⟩
    rw [hid] at hnot
    cases hnot
  refine bind_ok.mpr ⟨s, s, rfl, ?_⟩
  rw [if_neg hroom]
  exact bind_ok.mpr ⟨false, s, activateInFreeSlot_active hid, rfl⟩

/-- **How an activation ends.** -/
theorem activateAdapter_ends : Ends (activateAdapter C modules id) s
    (fun _ _ => CannotFail C modules s id) (EndsAs C modules s id) := by
  cases hid : s.manager.isActive id with
  | true => exact .of_ok (activateAdapter_active hid) (.inl hid)
  | false =>
    apply Ends.get
    refine Ends.ite_bind (R := fun _ s' => RoomMade C id s s')
      (fun h => removeOldestActive_ends hid h.2) (fun h => roomMade_refl hid ?_) ?_
    · exact fun hfull => h ⟨hid, hfull⟩
    · intro s' hs'
      exact Ends.bind (activateInFreeSlot_ends hid hs') fun _ _ h =>
        Ends.bind (Ends.modify h) fun _ _ h => h

/-! ## Main result -/

/-- **An activation that fails leaves a trace.** It leaves none exactly in the states in which it does
not fail. -/
theorem activateAdapter_leavesNoTrace_iff :
    (∀ e s', activateAdapter C modules id s = .error e s' → ActivationFailure id e →
      LeavesNoTrace C modules s' id) ↔ CannotFail C modules s id := by
  have hends : Ends (activateAdapter C modules id) s (fun _ _ => CannotFail C modules s id)
      (EndsAs C modules s id) := activateAdapter_ends
  constructor
  · intro h
    by_contra hcan
    cases hrun : activateAdapter C modules id s with
    | ok result s' => exact hcan (hends.ok hrun)
    | error e s' =>
      rcases hends.error hrun with ⟨hfailure, hactive, -⟩ | ⟨-, hcan'⟩
      · have hinactive := (h e s' hrun hfailure).1
        rw [hactive] at hinactive
        cases hinactive
      · exact hcan hcan'
  · intro hcan e s' hrun hfailure
    rcases hends.error hrun with ⟨-, -, hnot⟩ | ⟨hnot, -⟩
    · exact absurd hcan hnot
    · exact absurd hfailure hnot

section Example

/-- One slot, two adapters on the host, and biases are not enabled. -/
def oneSlot : LoRAConfig := { maxLoras := 1, maxCpuLoras := 2, pos := Nat.one_pos, le := Nat.two_pos }

/-- The weights of an adapter are its id, and adapter 2 has a bias in the second module. -/
def biasLoader : LoRALoader Nat where
  load id := { id, weights := fun _ => some id, bias := fun m => decide (id = 2 ∧ m = "o_proj") }
  load_id _ := rfl

/-- Adapter 1 is in the slot, and adapter 2 in the cache of the host. -/
def beforeFailure : PinnedManager Nat :=
  after (addToCache oneSlot (biasLoader.load 2))
    (after (addAdapter oneSlot biasLoader ["qkv_proj", "o_proj"] 1)
      { manager := { loraIndexToId := [none] } })

/-- The activation of adapter 2 has raised. -/
def afterFailure : PinnedManager Nat :=
  after (activateAdapter oneSlot ["qkv_proj", "o_proj"] 2) beforeFailure

/-- The next activation has returned. -/
def afterRetry : PinnedManager Nat :=
  after (activateAdapter oneSlot ["qkv_proj", "o_proj"] 2) afterFailure

/-- The activation of adapter 2 raises, and leaves it active; the next one loads nothing, and its slot
has weights of adapter 1. -/
theorem afterFailure_trace :
    activateAdapter oneSlot ["qkv_proj", "o_proj"] 2 beforeFailure =
      .error (.lora (.biasNotEnabled "o_proj")) afterFailure ∧
    ¬ LeavesNoTrace oneSlot ["qkv_proj", "o_proj"] afterFailure 2 ∧
    activateAdapter oneSlot ["qkv_proj", "o_proj"] 2 afterFailure = .ok false afterRetry ∧
    afterRetry.manager.loraIndexToId = [some 2] ∧
    afterRetry.manager.slotWeights 0 "qkv_proj" = some 2 ∧
    afterRetry.manager.slotWeights 0 "o_proj" = some 1 := by
  have hactive : afterFailure.manager.isActive 2 = true := by decide +kernel
  have hrun : activateAdapter oneSlot ["qkv_proj", "o_proj"] 2 beforeFailure =
      .error (.lora (.biasNotEnabled "o_proj")) afterFailure :=
    error_of_raised (by decide +kernel)
  have hretry : activateAdapter oneSlot ["qkv_proj", "o_proj"] 2 afterFailure =
      .ok false afterRetry := by
    rw [afterRetry, after_of_ok (activateAdapter_active hactive)]
    exact activateAdapter_active hactive
  refine ⟨hrun, ?_, hretry, by decide +kernel, by decide +kernel, by decide +kernel⟩
  rintro ⟨hinactive, -⟩
  rw [hactive] at hinactive
  cases hinactive

end Example

end InferenceServer.Worker
