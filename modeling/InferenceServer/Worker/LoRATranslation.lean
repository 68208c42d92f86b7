import InferenceServer.Lib.Outcome
import InferenceServer.Worker.LoRAManager

/-!
# Tokens use their own adapter

A slot of the device belongs to one adapter, and holds its weights: an adapter that leaves one of the
caches gives its slot back, and a slot that is given to an adapter gets the weights of the adapter in
every module. The translation of the LoRA ids of a batch into slots is made from the slots as they
are. But it is only made if the LoRA ids are not those of the batch before. An adapter that was
evicted and loaded again in between may have another slot, and its old slot may belong to another
adapter; the kernels then still use the old slots.

So the slots of a batch are right if its LoRA ids are new, or if its adapters still are in the slots
that the kernels were given. And an adapter with a bias that is not enabled must not be loaded: its
activation raises after the slot is taken, and the adapter counts as active from then on.

## Main results

* `LoRAManager.addAdapter_keeps`, `LoRAManager.sheds_removeAdapter`: every operation keeps the slots
* `consistent_of_reach`, `usesOwnAdapters_of_reach`
-/

namespace InferenceServer.Worker

open Raising

variable {W : Type} {C : LoRAConfig} {L : LoRALoader W} {modules : List String}

/-! ## What the batch is promised -/

section Statement

/-- The slot that is used for a LoRA id is -1 for no LoRA, and else the slot of the adapter, with the
weights of the adapter in every module. -/
def UsesSlot (L : LoRALoader W) (modules : List String) (s : LoRAManager W) (id : LoRAId) (index : Int) :
    Prop :=
  if id = 0 then index = -1
  else ∃ i : Nat, index = i ∧ s.loraIndexToId[i]? = some (some id) ∧
    ∀ m ∈ modules, s.slotWeights i m = (L.load id).weights m

/-- What the kernels were given last is right for every token and every prompt. -/
def UsesOwnAdapters (L : LoRALoader W) (modules : List String) (mapping : LoRAMapping)
    (s : LoRAManager W) : Prop :=
  ∃ indices, s.punica = some indices ∧
    List.Forall₂ (UsesSlot L modules s) mapping.indexMapping indices.tokenLoraIndices ∧
    List.Forall₂ (UsesSlot L modules s) mapping.promptMapping indices.samplerIndices

/-- The LoRA ids of a batch are those of its adapters. -/
def LoRAOp.WellFormed : LoRAOp → Prop
  | .setActiveAdapters requests mapping => ∀ id, id ∈ requests ↔
      id ≠ 0 ∧ (id ∈ mapping.indexMapping ∨ id ∈ mapping.promptMapping)
  | _ => True

/-- The index is still the slot of the LoRA id. -/
def InSlot (loraIndexToId : List (Option LoRAId)) (id : LoRAId) (index : Int) : Prop :=
  if id = 0 then index = -1 else 0 ≤ index ∧ loraIndexToId[index.toNat]? = some (some id)

/-- The kernels were given the slots in which the adapters of the mapping are. -/
def LoRAManager.Settled (s : LoRAManager W) (mapping : LoRAMapping) : Prop :=
  match s.punica with
  | none => False
  | some indices =>
    List.Forall₂ (InSlot s.loraIndexToId) mapping.indexMapping indices.tokenLoraIndices ∧
      List.Forall₂ (InSlot s.loraIndexToId) mapping.promptMapping indices.samplerIndices

/-- The adapter has no bias, or biases are enabled. -/
def LoRAConfig.AllowsBias (C : LoRAConfig) (L : LoRALoader W) (modules : List String) (id : LoRAId) :
    Prop :=
  C.biasEnabled = true ∨ ∀ m ∈ modules, (L.load id).bias m = false

/-- An operation loads no adapter with a bias that is not enabled, and if the mapping of a batch is that
of the batch before, its adapters are in the slots that the kernels were given. -/
def LoRAOp.Settled (C : LoRAConfig) (L : LoRALoader W) (modules : List String) (s : LoRAManager W) :
    LoRAOp → Prop
  | .addAdapter id => C.AllowsBias L modules id
  | .setActiveAdapters requests mapping =>
    (∀ id ∈ requests, C.AllowsBias L modules id) ∧
      (s.lastMapping = some mapping → s.Settled mapping)
  | _ => True

end Statement

/-! ## Letting go of adapters -/

namespace LoRAManager

variable {s s' s'' : LoRAManager W} {id j : LoRAId} {i : Nat}

/-- No adapter has two slots. -/
def OneSlot (s : LoRAManager W) : Prop := ∀ (i j : Nat) (id : LoRAId),
  s.loraIndexToId[i]? = some (some id) → s.loraIndexToId[j]? = some (some id) → i = j

/-- An operation only lets go of adapters: those that keep a slot stay active, and those that stay
active stay registered. -/
structure Sheds (s s' : LoRAManager W) : Prop where
  slots : ∀ (i : Nat) (id : LoRAId), s'.loraIndexToId[i]? = some (some id) →
    s.loraIndexToId[i]? = some (some id)
  active : ∀ (i : Nat) (id : LoRAId), s'.loraIndexToId[i]? = some (some id) →
    s.isActive id = true → s'.isActive id = true
  was : ∀ id, s'.isActive id = true → s.isActive id = true
  registered : ∀ id, s'.isActive id = true → s.isRegistered id = true → s'.isRegistered id = true
  contents : ∀ id lora, s'.registered.get? id = some lora → s.registered.get? id = some lora
  slotWeights : s'.slotWeights = s.slotWeights

namespace Sheds

theorem refl : Sheds s s :=
  ⟨fun _ _ h => h, fun _ _ _ h => h, fun _ h => h, fun _ _ h => h, fun _ _ h => h, rfl⟩

theorem trans (h : Sheds s s') (h' : Sheds s' s'') : Sheds s s'' where
  slots i id hi := h.slots i id (h'.slots i id hi)
  active i id hi hact := h'.active i id hi (h.active i id (h'.slots i id hi) hact)
  was id hact := h.was id (h'.was id hact)
  registered id hact hreg := h'.registered id hact (h.registered id (h'.was id hact) hreg)
  contents id lora hget := h.contents id lora (h'.contents id lora hget)
  slotWeights := h'.slotWeights.trans h.slotWeights

theorem oneSlot (h : Sheds s s') (hone : s.OneSlot) : s'.OneSlot :=
  fun i j id hi hj => hone i j id (h.slots i id hi) (h.slots j id hj)

/-- A loop of operations that let go of adapters. -/
theorem foldl {α : Type} {f : LoRAManager W → α → LoRAManager W}
    (hf : ∀ s a, s.OneSlot → Sheds s (f s a)) (l : List α) (hone : s.OneSlot) :
    Sheds s (l.foldl f s) := by
  induction l generalizing s with
  | nil => exact refl
  | cons a l ih =>
    have ha := hf s a hone
    exact ha.trans (ih (ha.oneSlot hone))

end Sheds

theorem isActive_erase : ({ s with active := s.active.erase id } : LoRAManager W).isActive j =
    (decide (j ≠ id) && s.isActive j) := by
  unfold isActive
  rw [LRUCache.get?_erase]
  by_cases hj : j = id <;> simp [hj]

/-- A slot that is given back. -/
theorem getElem?_freeSlot (h : (s.freeSlot id).loraIndexToId[i]? = some (some j)) :
    s.loraIndexToId[i]? = some (some j) := by
  unfold freeSlot at h
  rw [List.getElem?_set] at h
  split_ifs at h
  · cases h
  · exact h

theorem ne_of_freeSlot (hone : s.OneSlot)
    (h : (s.freeSlot id).loraIndexToId[i]? = some (some j)) : j ≠ id := by
  rintro rfl
  have hi := getElem?_freeSlot h
  have hmem : some j ∈ s.loraIndexToId := List.mem_of_getElem? hi
  -- the slot that was given back is the only one
  have hfirst : s.loraIndexToId[s.loraIndexToId.idxOf (some j)]? = some (some j) := by
    rw [List.getElem?_eq_getElem (List.idxOf_lt_length_of_mem hmem), List.getElem_idxOf]
  have hidx : s.loraIndexToId.idxOf (some j) = i := hone _ _ j hfirst hi
  unfold freeSlot at h
  rw [List.getElem?_set, if_pos hidx] at h
  split_ifs at h
  cases h

theorem sheds_freeSlot : Sheds s (s.freeSlot id) :=
  ⟨fun _ _ h => getElem?_freeSlot h, fun _ _ _ h => h, fun _ h => h, fun _ _ h => h,
    fun _ _ h => h, rfl⟩

theorem sheds_popActive (hone : s.OneSlot) : Sheds s (s.popActive id) := by
  unfold popActive
  split_ifs with hact
  · refine ⟨fun i j h => getElem?_freeSlot h, ?_, ?_, fun _ _ h => h, fun _ _ h => h, rfl⟩
    · intro i j h hj
      have hne : j ≠ id := ne_of_freeSlot (s := { s with active := s.active.erase id }) hone h
      exact isActive_erase.trans (by simp [hne, hj])
    · intro j h
      have hj := isActive_erase.symm.trans h
      simp only [Bool.and_eq_true] at hj
      exact hj.2
  · exact .refl

theorem sheds_removeOldestActive (hone : s.OneSlot) : Sheds s s.removeOldestActive := by
  unfold removeOldestActive
  split
  · exact .refl
  · exact sheds_popActive hone

theorem sheds_deactivateAdapter (hone : s.OneSlot) : Sheds s (s.deactivateAdapter id) := by
  unfold deactivateAdapter
  split_ifs
  · exact sheds_freeSlot.trans (sheds_popActive (sheds_freeSlot.oneSlot hone))
  · exact .refl

theorem isActive_deactivateAdapter : (s.deactivateAdapter id).isActive id = false := by
  unfold deactivateAdapter
  split_ifs with hact
  · have hact' : (s.freeSlot id).isActive id = true := hact
    unfold popActive
    rw [if_pos hact']
    exact (isActive_erase (s := s.freeSlot id)).trans (by simp)
  · simpa using hact

/-- What leaves the cache of the host is deactivated. -/
theorem sheds_popRegistered (hone : s.OneSlot) : Sheds s (s.popRegistered id) := by
  unfold popRegistered
  split_ifs
  · let t : LoRAManager W := { s with registered := s.registered.erase id }
    have ht : Sheds t (t.deactivateAdapter id) := sheds_deactivateAdapter hone
    have herase : ∀ j, t.registered.get? j = if j = id then none else s.registered.get? j :=
      fun j => LRUCache.get?_erase
    refine ⟨ht.slots, ht.active, ht.was, ?_, ?_, ht.slotWeights⟩
    · intro j hact hreg
      have hne : j ≠ id := by
        rintro rfl
        rw [isActive_deactivateAdapter] at hact
        cases hact
      apply ht.registered j hact
      unfold isRegistered at hreg ⊢
      rwa [herase, if_neg hne]
    · intro j lora hget
      have hget := ht.contents j lora hget
      rw [herase] at hget
      split_ifs at hget
      exact hget
  · exact .refl

theorem sheds_removeOldestAdapter (hone : s.OneSlot) : Sheds s s.removeOldestAdapter := by
  unfold removeOldestAdapter
  split
  · exact .refl
  · exact sheds_popRegistered hone

theorem sheds_removeAdapter (hone : s.OneSlot) : Sheds s (s.removeAdapter id) :=
  have h := sheds_deactivateAdapter hone
  h.trans (sheds_popRegistered (h.oneSlot hone))

theorem sheds_removeAllAdapters (hone : s.OneSlot) : Sheds s (s.removeAllAdapters C) := by
  have h₁ : Sheds s (s.registered.keys.foldl popRegistered s) :=
    .foldl (fun _ _ hone => sheds_popRegistered hone) _ hone
  refine h₁.trans ?_
  have h₂ : Sheds (s.registered.keys.foldl popRegistered s)
      { s.registered.keys.foldl popRegistered s with
        loraIndexToId := List.replicate C.maxLoras none } := by
    have hnone : ∀ (i : Nat) (id : LoRAId),
        (List.replicate C.maxLoras (none : Option LoRAId))[i]? = some (some id) → False := by
      intro i id h
      rw [List.getElem?_replicate] at h
      split_ifs at h
      cases h
    exact ⟨fun i id h => (hnone i id h).elim, fun i id h => (hnone i id h).elim, fun _ h => h,
      fun _ _ h => h, fun _ _ h => h, rfl⟩
  exact h₂.trans (.foldl (fun _ _ hone => sheds_popActive hone) _ (h₂.oneSlot (h₁.oneSlot hone)))

/-! ## The slots -/

/-- An adapter with a slot is active, an active adapter is registered, the adapters registered are
those that can be loaded, and a slot holds the weights of its adapter. -/
structure Consistent (L : LoRALoader W) (modules : List String) (s : LoRAManager W) : Prop where
  oneSlot : s.OneSlot
  active : ∀ (i : Nat) (id : LoRAId), s.loraIndexToId[i]? = some (some id) → s.isActive id = true
  registered : ∀ id, s.isActive id = true → s.isRegistered id = true
  contents : ∀ id lora, s.registered.get? id = some lora → lora = L.load id
  slotWeights : ∀ (i : Nat) (id : LoRAId), s.loraIndexToId[i]? = some (some id) →
    ∀ m ∈ modules, s.slotWeights i m = (L.load id).weights m

theorem Sheds.consistent (h : Sheds s s') (hc : s.Consistent L modules) :
    s'.Consistent L modules where
  oneSlot := h.oneSlot hc.oneSlot
  active i id hi := h.active i id hi (hc.active i id (h.slots i id hi))
  registered id hact := h.registered id hact (hc.registered id (h.was id hact))
  contents id lora hget := hc.contents id lora (h.contents id lora hget)
  slotWeights i id hi := by
    rw [h.slotWeights]
    exact hc.slotWeights i id (h.slots i id hi)

/-- A use of a registered adapter changes the order of the cache only. -/
theorem Consistent.touchRegistered (hc : s.Consistent L modules) :
    ({ s with registered := s.registered.touch id } : LoRAManager W).Consistent L modules where
  oneSlot := hc.oneSlot
  active := hc.active
  registered j hact := by
    have hreg := hc.registered j hact
    unfold isRegistered at hreg ⊢
    rwa [LRUCache.get?_touch]
  contents j lora hget := hc.contents j lora (by rwa [LRUCache.get?_touch] at hget)
  slotWeights := hc.slotWeights

theorem isActive_touch :
    ({ s with active := s.active.touch id } : LoRAManager W).isActive j = s.isActive j := by
  unfold isActive
  rw [LRUCache.get?_touch]

theorem isRegistered_touch :
    ({ s with registered := s.registered.touch id } : LoRAManager W).isRegistered j =
      s.isRegistered j := by
  unfold isRegistered
  rw [LRUCache.get?_touch]

theorem Consistent.touchActive (hc : s.Consistent L modules) :
    ({ s with active := s.active.touch id } : LoRAManager W).Consistent L modules where
  oneSlot := hc.oneSlot
  active i j hi := isActive_touch.trans (hc.active i j hi)
  registered j hact := hc.registered j (isActive_touch.symm.trans hact)
  contents := hc.contents
  slotWeights := hc.slotWeights

variable {index : Nat} {lora : LoRAModel W} {requests : List LoRAId}

/-- The first slot that is free is a slot that is free. -/
theorem getElem?_of_idxOf?_none {l : List (Option LoRAId)}
    (h : l.idxOf? none = some index) : l[index]? = some none := by
  obtain ⟨hlt, hnone, -⟩ := List.idxOf?_eq_some_iff.mp h
  rw [List.getElem?_eq_getElem hlt]
  exact congrArg some (by simpa using hnone)

/-- The loop over the modules sets the weights of every module in the slot. -/
theorem setModules_ok (index : Nat) {l : List String}
    (hbias : C.biasEnabled = true ∨ ∀ m ∈ l, lora.bias m = false) :
    ∃ s', l.forM (setModule C index lora) s = .ok ⟨⟩ s' ∧
      s' = { s with slotWeights := s'.slotWeights } ∧
      ∀ i m, s'.slotWeights i m =
        if i = index ∧ m ∈ l then lora.weights m else s.slotWeights i m := by
  induction l generalizing s with
  | nil => exact ⟨s, rfl, rfl, fun i m => by simp⟩
  | cons m l ih =>
    have hset : setModule C index lora m s = .ok ⟨⟩ (s.setWeights index m (lora.weights m)) := by
      unfold setModule
      cases hw : lora.weights m with
      | none => rfl
      | some w =>
        have hallowed : ¬ (lora.bias m = true ∧ C.biasEnabled = false) := by
          rintro ⟨hb, hdisabled⟩
          rcases hbias with henabled | hnone
          · rw [henabled] at hdisabled
            cases hdisabled
          · rw [hnone m List.mem_cons_self] at hb
            cases hb
        dsimp only
        rw [if_neg hallowed]
        rfl
    obtain ⟨s', hrun, hs', hweights⟩ := ih (s := s.setWeights index m (lora.weights m))
      (hbias.imp_right fun hnone m hm => hnone m (List.mem_cons_of_mem _ hm))
    refine ⟨s', ?_, hs', ?_⟩
    · exact bind_ok.mpr ⟨⟨⟩, _, hset, hrun⟩
    · intro i m'
      rw [hweights i m']
      by_cases hi : i = index
      · subst hi
        by_cases hm' : m' ∈ l
        · simp [hm']
        · by_cases hmm : m' = m
          · subst hmm
            simp [setWeights, hm']
          · simp [setWeights, hm', hmm]
      · simp [setWeights, hi]

theorem registered_popActive : (s.popActive id).registered = s.registered := by
  unfold popActive
  split_ifs <;> rfl

theorem registered_removeOldestActive : s.removeOldestActive.registered = s.registered := by
  unfold removeOldestActive
  split
  · rfl
  · exact registered_popActive

/-- An adapter becomes active, and others may go. -/
theorem activate_eq (hone : s.OneSlot) : ∃ t, Sheds s t ∧ t.registered = s.registered ∧
    s.activate C id = { t with active := t.active.put id () } := by
  unfold activate
  by_cases hact : s.isActive id = true
  · exact ⟨s, .refl, rfl, by rw [if_pos hact]⟩
  · have hloop : ∀ (l : List Nat) (s : LoRAManager W),
        (l.foldl (fun s _ => s.removeOldestActive) s).registered = s.registered := by
      intro l
      induction l with
      | nil => exact fun _ => rfl
      | cons _ l ih => exact fun s => (ih _).trans registered_removeOldestActive
    rw [if_neg hact]
    exact ⟨_, .foldl (fun _ _ hone => sheds_removeOldestActive hone) _ hone, hloop _ s, rfl⟩

/-- An adapter without a slot gets a free one, with its weights. -/
theorem Consistent.place {t : LoRAManager W} (ht : t.Consistent L modules)
    (hnone : ∀ i : Nat, t.loraIndexToId[i]? ≠ some (some id)) (hreg : t.isRegistered id = true)
    (hs' : s' = { t with
      active := t.active.put id ()
      registered := t.registered.touch id
      loraIndexToId := t.loraIndexToId.set index (some id)
      slotWeights := s'.slotWeights })
    (hweights : ∀ i m, s'.slotWeights i m =
      if i = index ∧ m ∈ modules then (L.load id).weights m else t.slotWeights i m) :
    s'.Consistent L modules := by
  have hslots : ∀ (i : Nat) (j : LoRAId), s'.loraIndexToId[i]? = some (some j) →
      i = index ∧ j = id ∨ i ≠ index ∧ t.loraIndexToId[i]? = some (some j) := by
    intro i j hi
    rw [hs', List.getElem?_set] at hi
    split_ifs at hi with hindex hlt
    · obtain rfl := Option.some.inj (Option.some.inj hi)
      exact .inl ⟨hindex.symm, rfl⟩
    · exact .inr ⟨Ne.symm hindex, hi⟩
  have hactive : ∀ j, s'.isActive j = true ↔ j = id ∨ t.isActive j = true := by
    intro j
    rw [hs']
    unfold isActive
    rw [LRUCache.get?_put]
    split_ifs with hj <;> simp [hj]
  have hregistered : ∀ j, s'.isRegistered j = t.isRegistered j := by
    intro j
    rw [hs']
    exact isRegistered_touch
  refine ⟨?_, ?_, ?_, ?_, ?_⟩
  · intro i i' j hi hi'
    rcases hslots i j hi with ⟨rfl, rfl⟩ | ⟨-, hi⟩ <;>
      rcases hslots i' _ hi' with ⟨rfl, hj⟩ | ⟨-, hi'⟩
    · rfl
    · exact absurd hi' (hnone i')
    · exact absurd (hj ▸ hi) (hnone i)
    · exact ht.oneSlot i i' j hi hi'
  · intro i j hi
    rw [hactive]
    rcases hslots i j hi with ⟨-, rfl⟩ | ⟨-, hi⟩
    · exact .inl rfl
    · exact .inr (ht.active i j hi)
  · intro j hact
    rw [hregistered]
    rcases (hactive j).mp hact with rfl | hact
    · exact hreg
    · exact ht.registered j hact
  · intro j lora hget
    rw [hs', LRUCache.get?_touch] at hget
    exact ht.contents j lora hget
  · intro i j hi m hm
    rw [hweights]
    rcases hslots i j hi with ⟨rfl, rfl⟩ | ⟨hne, hi⟩
    · rw [if_pos ⟨rfl, hm⟩]
    · rw [if_neg fun h => hne h.1]
      exact ht.slotWeights i j hi m hm

/-- What is activated has had no slot, and gets a free one. -/
theorem Consistent.activateInFreeSlot (hc : s.Consistent L modules)
    (hreg : s.isRegistered id = true) (hbias : C.AllowsBias L modules id) :
    (after (activateInFreeSlot C modules id) s).Consistent L modules := by
  change (after (ite _ _ _) s).Consistent L modules
  split_ifs with hact
  · exact hc
  cases hfree : s.loraIndexToId.idxOf? none with
  | none => exact hc
  | some index =>
    obtain ⟨t, hsheds, hreg_t, ht⟩ : ∃ t, Sheds s t ∧ t.registered = s.registered ∧
        s.activate C id = { t with active := t.active.put id () } := activate_eq hc.oneSlot
    have hct := hsheds.consistent hc
    obtain ⟨lora, hget⟩ := Option.isSome_iff_exists.mp hreg
    obtain rfl := hc.contents id lora hget
    have hget' : (s.activate C id).registered.get? id = some (L.load id) := by
      rw [ht]
      exact (congrArg (fun c => LRUCache.get? c id) hreg_t).trans hget
    obtain ⟨s', hrun, hs', hweights⟩ := setModules_ok (s := { s.activate C id with
        registered := (s.activate C id).registered.touch id
        loraIndexToId := (s.activate C id).loraIndexToId.set index (some (L.load id).id) })
      index hbias
    dsimp only
    rw [after_modify_bind, after_get_bind, hget']
    dsimp only
    rw [after_modify_bind, after_bind, hrun]
    change s'.Consistent L modules
    have hnone : ∀ i : Nat, t.loraIndexToId[i]? ≠ some (some id) :=
      fun i hi => hact (hc.active i id (hsheds.slots i id hi))
    rw [ht, L.load_id] at hs' hweights
    apply hct.place hnone _ hs' hweights
    unfold isRegistered
    rw [hreg_t]
    exact hreg

/-- A slot with its adapter; the adapter is in the cache of the host. -/
def Ready (L : LoRALoader W) (modules : List String) (id : LoRAId) (s : LoRAManager W) : Prop :=
  s.Consistent L modules ∧ s.isRegistered id = true

/-- `activate_adapter` of an adapter that is in the cache of the host. -/
theorem Ready.activateAdapter (h : s.Ready L modules id) (hbias : C.AllowsBias L modules id) :
    (after (activateAdapter C modules id) s).Consistent L modules := by
  have hroom : ∀ t : LoRAManager W, t.Ready L modules id →
      (after (LoRAManager.activateInFreeSlot C modules id >>= fun result => do
        modify fun s => { s with active := s.active.touch id }
        return result) t).Consistent L modules := by
    intro t ht
    have hc := ht.1.activateInFreeSlot ht.2 hbias
    rw [after] at hc
    rw [after_bind]
    cases hrun : LoRAManager.activateInFreeSlot C modules id t with
    | ok result s' =>
      rw [hrun] at hc
      exact hc.touchActive
    | error e s' =>
      rw [hrun] at hc
      exact hc
  obtain ⟨hc, hreg⟩ := h
  apply hroom (if s.isActive id = false ∧ C.maxLoras ≤ s.active.length then s.removeOldestActive
    else s)
  split_ifs
  · refine ⟨(sheds_removeOldestActive hc.oneSlot).consistent hc, ?_⟩
    unfold isRegistered
    rw [registered_removeOldestActive]
    exact hreg
  · exact ⟨hc, hreg⟩

theorem isRegistered_put :
    ({ s with registered := s.registered.put id lora } : LoRAManager W).isRegistered j =
      (decide (j = id) || s.isRegistered j) := by
  unfold isRegistered
  rw [LRUCache.get?_put]
  by_cases hj : j = id <;> simp [hj]

/-- An adapter that is registered is in the cache of the host. -/
theorem Consistent.register (hc : s.Consistent L modules) :
    (s.register C (L.load id)).Ready L modules id := by
  have hroom : (if s.isRegistered (L.load id).id then s else
      (List.range (s.registered.length + 1 - C.maxCpuLoras)).foldl
        (fun s _ => s.removeOldestAdapter) s).Consistent L modules := by
    split_ifs
    · exact hc
    · exact (Sheds.foldl (fun _ _ hone => sheds_removeOldestAdapter hone) _
        hc.oneSlot).consistent hc
  unfold LoRAManager.register
  generalize (if s.isRegistered (L.load id).id then s else _) = t at hroom ⊢
  rw [L.load_id]
  refine ⟨⟨hroom.oneSlot, hroom.active, ?_, ?_, hroom.slotWeights⟩, ?_⟩
  · intro j hact
    rw [isRegistered_put, hroom.registered j hact, Bool.or_true]
  · intro j lora hget
    rw [LRUCache.get?_put] at hget
    split_ifs at hget with hj
    · rw [hj]
      exact (Option.some.inj hget).symm
    · exact hroom.contents j lora hget
  · rw [isRegistered_put]
    simp

theorem Consistent.addToCache (C : LoRAConfig) (id : LoRAId) (hc : s.Consistent L modules) :
    ∃ loaded s', addToCache C (L.load id) s = .ok loaded s' ∧ s'.Ready L modules id := by
  by_cases hreg : s.isRegistered (L.load id).id = true
  · refine ⟨false, { s with registered := s.registered.touch (L.load id).id }, ?_,
      hc.touchRegistered, ?_⟩
    · change (ite _ _ _ : EStateM LoRAError (LoRAManager W) Bool) s = _
      rw [if_pos hreg]
      rfl
    · rw [isRegistered_touch]
      rwa [L.load_id] at hreg
  · refine ⟨true, s.register C (L.load id), ?_, hc.register⟩
    change (ite _ _ _ : EStateM LoRAError (LoRAManager W) Bool) s = _
    rw [if_neg hreg]
    rfl

theorem Consistent.cacheAdapter (C : LoRAConfig) (id : LoRAId) (hc : s.Consistent L modules) :
    ∃ loaded s', cacheAdapter C L id s = .ok loaded s' ∧ s'.Ready L modules id := by
  by_cases hreg : s.isRegistered id = true
  · refine ⟨true, { s with registered := s.registered.touch id }, ?_, hc.touchRegistered,
      isRegistered_touch.trans hreg⟩
    change (ite _ _ _ : EStateM LoRAError (LoRAManager W) Bool) s = _
    rw [if_pos hreg]
    rfl
  · have hroom : (if C.maxCpuLoras < s.registered.length + 1 then s.removeOldestAdapter
        else s).Consistent L modules := by
      split_ifs
      · exact (sheds_removeOldestAdapter hc.oneSlot).consistent hc
      · exact hc
    obtain ⟨loaded, s', hrun, hready⟩ := hroom.addToCache C id
    refine ⟨loaded, s', ?_, hready⟩
    change (ite _ _ _ : EStateM LoRAError (LoRAManager W) Bool) s = _
    rw [if_neg hreg]
    exact hrun

/-- **`add_adapter`** keeps the slots. -/
theorem addAdapter_keeps (hbias : C.AllowsBias L modules id) :
    Keeps (Consistent L modules) (addAdapter C L modules id) := by
  intro s hc
  obtain ⟨loaded, s', hrun, hready⟩ := hc.cacheAdapter C id
  have hafter := hready.activateAdapter hbias
  unfold addAdapter
  rw [after_bind, hrun]
  dsimp only
  rw [after_bind]
  rw [after] at hafter
  cases hact : LoRAManager.activateAdapter C modules id s' with
  | ok result s'' =>
    rw [hact] at hafter
    exact hafter
  | error e s'' =>
    rw [hact] at hafter
    exact hafter

theorem applyAdapters_keeps (hbias : ∀ id ∈ requests, C.AllowsBias L modules id) :
    Keeps (Consistent L modules) (applyAdapters C L modules requests) := by
  unfold applyAdapters
  dsimp only
  split_ifs
  · exact .throw
  · apply Keeps.forM
    intro id hid
    apply Keeps.bind (addAdapter_keeps (hbias id (List.mem_eraseDups.mp hid)))
    intro _
    exact .pure

/-- The slots do not depend on what the kernels are given. -/
theorem Consistent.setAdapterMapping {mapping : LoRAMapping} (hc : s.Consistent L modules) :
    (after (setAdapterMapping mapping) s).Consistent L modules := by
  change (after (ite _ _ _) s).Consistent L modules
  split_ifs
  · exact hc
  · rw [after_bind]
    have hupdate : ∀ t : LoRAManager W, t.Consistent L modules →
        (after (updateMetadata mapping) t).Consistent L modules := by
      intro t ht
      rw [updateMetadata, after_get_bind]
      cases convertMapping mapping t.loraIndexToId with
      | ok indices => exact ⟨ht.oneSlot, ht.active, ht.registered, ht.contents, ht.slotWeights⟩
      | error e => exact ht
    have hc' := hupdate s hc
    rw [after] at hc'
    cases hrun : updateMetadata mapping s with
    | ok _ s' =>
      rw [hrun] at hc'
      exact ⟨hc'.oneSlot, hc'.active, hc'.registered, hc'.contents, hc'.slotWeights⟩
    | error e s' =>
      rw [hrun] at hc'
      exact hc'

/-- **`set_active_adapters`** keeps the slots. -/
theorem setActiveAdapters_keeps {mapping : LoRAMapping}
    (hbias : ∀ id ∈ requests, C.AllowsBias L modules id) :
    Keeps (Consistent L modules) (setActiveAdapters C L modules requests mapping) := by
  apply Keeps.bind (applyAdapters_keeps hbias)
  exact fun _ _ hc => hc.setAdapterMapping

/-! ## What the kernels were given -/

/-- What the kernels were given last, and for which mapping. -/
def kernels (s : LoRAManager W) : Option PunicaIndices × Option LoRAMapping :=
  (s.punica, s.lastMapping)

theorem kernels_popActive : (s.popActive id).kernels = s.kernels := by
  unfold popActive
  split_ifs <;> rfl

theorem kernels_removeOldestActive : s.removeOldestActive.kernels = s.kernels := by
  unfold removeOldestActive
  split
  · rfl
  · exact kernels_popActive

theorem kernels_deactivateAdapter : (s.deactivateAdapter id).kernels = s.kernels := by
  unfold deactivateAdapter
  split_ifs
  · exact kernels_popActive
  · rfl

theorem kernels_removeOldestAdapter : s.removeOldestAdapter.kernels = s.kernels := by
  unfold removeOldestAdapter popRegistered
  split
  · rfl
  · split_ifs
    · exact kernels_deactivateAdapter
    · rfl

theorem kernels_foldl {α : Type} {f : LoRAManager W → α → LoRAManager W}
    (hf : ∀ s a, (f s a).kernels = s.kernels) (l : List α) : (l.foldl f s).kernels = s.kernels := by
  induction l generalizing s with
  | nil => rfl
  | cons a l ih => exact ih.trans (hf s a)

theorem kernels_activate : (s.activate C id).kernels = s.kernels := by
  unfold activate
  split_ifs
  · rfl
  · exact kernels_foldl (fun _ _ => kernels_removeOldestActive) _

theorem kernels_register : (s.register C lora).kernels = s.kernels := by
  unfold register
  split_ifs
  · rfl
  · exact kernels_foldl (fun _ _ => kernels_removeOldestAdapter) _

variable {k : Option PunicaIndices × Option LoRAMapping}

theorem setModule_kernels {m : String} :
    Keeps (fun t => t.kernels = k) (setModule C index lora m) := by
  unfold setModule
  split
  · split_ifs
    · exact .bind (.modify fun _ h => h) fun _ => .throw
    · exact .modify fun _ h => h
  · exact .modify fun _ h => h

theorem activateAdapter_kernels :
    Keeps (fun t => t.kernels = k) (activateAdapter (W := W) C modules id) := by
  have hfree : Keeps (fun t => t.kernels = k)
      (LoRAManager.activateInFreeSlot (W := W) C modules id) := by
    apply Keeps.get
    intro s hs
    split_ifs
    · exact hs
    · cases s.loraIndexToId.idxOf? none with
      | none => exact hs
      | some index =>
        refine Keeps.bind (I := fun t => t.kernels = k)
          (.modify fun t ht => kernels_activate.trans ht) (fun _ => ?_) s hs
        apply Keeps.get
        intro t ht
        cases t.registered.get? id with
        | none => exact ht
        | some lora =>
          have hrest : Keeps (fun t => t.kernels = k) (do
              modify fun s : LoRAManager W => { s with
                registered := s.registered.touch id
                loraIndexToId := s.loraIndexToId.set index (some lora.id) }
              modules.forM (setModule C index lora)
              return true) := by
            refine .bind (.modify fun _ h => h) fun _ => ?_
            exact .bind (.forM fun m _ => setModule_kernels) fun _ => .pure
          exact hrest t ht
  apply Keeps.bind
  · apply Keeps.modify
    intro s hs
    split_ifs
    · exact kernels_removeOldestActive.trans hs
    · exact hs
  · exact fun _ => .bind hfree fun _ => .bind (.modify fun _ h => h) fun _ => .pure

theorem cacheAdapter_kernels : Keeps (fun t => t.kernels = k) (cacheAdapter C L id) := by
  apply Keeps.get
  intro s hs
  split_ifs
  · exact hs
  · refine Keeps.bind (I := fun t => t.kernels = k) (.modify ?_) (fun _ => ?_) s hs
    · intro t ht
      split_ifs
      · exact kernels_removeOldestAdapter.trans ht
      · exact ht
    · unfold LoRAManager.addToCache
      apply Keeps.get
      intro t ht
      split_ifs
      · exact ht
      · exact kernels_register.trans ht

/-- The kernels are given nothing while the adapters are activated. -/
theorem applyAdapters_kernels :
    Keeps (fun t => t.kernels = k) (applyAdapters C L modules requests) := by
  unfold applyAdapters
  dsimp only
  split_ifs
  · exact .throw
  · apply Keeps.forM
    intro id _
    refine .bind (.bind cacheAdapter_kernels fun _ => ?_) fun _ => .pure
    exact .bind activateAdapter_kernels fun _ => .pure

end LoRAManager

/-! ## Runs -/

section Runs

variable {s s' : LoRAManager W} {requests : List LoRAId} {mapping : LoRAMapping}

open LoRAManager

/-- **Every run** keeps the slots, if no adapter has a bias that is not enabled. -/
theorem consistent_of_reach {ok : LoRAManager W → LoRAOp → Prop}
    (hok : ∀ s op, ok s op → op.Settled C L modules s)
    (h : (loraMachine C L modules).Reach ok s) : s.Consistent L modules := by
  refine h.invariant ?_ ?_
  · have hnone : ∀ (i : Nat) (id : LoRAId),
        (List.replicate C.maxLoras (none : Option LoRAId))[i]? = some (some id) → False := by
      intro i id hi
      rw [List.getElem?_replicate] at hi
      split_ifs at hi
      cases hi
    exact ⟨fun i _ id hi => (hnone i id hi).elim, fun i id hi => (hnone i id hi).elim,
      fun id hact => (by cases hact), fun id lora hget => (by cases hget),
      fun i id hi => (hnone i id hi).elim⟩
  · intro s op s' hc hop hs
    have hsettled := hok s op hop
    cases op with
    | addAdapter id =>
      cases hs
      exact addAdapter_keeps hsettled s hc
    | removeAdapter id =>
      cases hs
      exact (sheds_removeAdapter hc.oneSlot).consistent hc
    | removeAllAdapters =>
      cases hs
      exact (sheds_removeAllAdapters hc.oneSlot).consistent hc
    | setActiveAdapters requests mapping =>
      cases hs
      exact setActiveAdapters_keeps hsettled.1 s hc

/-- What a new translation uses are the slots of the adapters. -/
theorem usesOwnAdapters_of_convert {indices : PunicaIndices} (hc : s.Consistent L modules)
    (h : convertMapping mapping s.loraIndexToId = .ok indices) (hs' : s'.punica = some indices)
    (hslots : s'.loraIndexToId = s.loraIndexToId) (hweights : s'.slotWeights = s.slotWeights) :
    UsesOwnAdapters L modules mapping s' := by
  have hslot : ∀ id index, slotOf s.loraIndexToId id = .ok index →
      UsesSlot L modules s' id index := by
    intro id index hslot
    unfold slotOf at hslot
    unfold UsesSlot
    rw [hslots, hweights]
    by_cases hid : 0 < id
    · rw [if_pos hid] at hslot
      rw [if_neg (Nat.pos_iff_ne_zero.mp hid)]
      cases hidx : s.loraIndexToId.idxOf? (some id) with
      | none =>
        rw [hidx] at hslot
        cases hslot
      | some i =>
        rw [hidx] at hslot
        cases hslot
        obtain ⟨hlt, hid, -⟩ := List.idxOf?_eq_some_iff.mp hidx
        have hget : s.loraIndexToId[i]? = some (some id) := by
          rw [List.getElem?_eq_getElem hlt]
          exact congrArg some (by simpa using hid)
        exact ⟨i, rfl, hget, hc.slotWeights i id hget⟩
    · rw [if_neg hid] at hslot
      rw [if_pos (Nat.eq_zero_of_not_pos hid)]
      exact (Except.ok.inj hslot).symm
  obtain ⟨samplers, hsamplers, h⟩ := Outcome.bind_eq_ok.mp h
  obtain ⟨tokens, htokens, h⟩ := Outcome.bind_eq_ok.mp h
  cases h
  refine ⟨_, hs', ?_, ?_⟩
  · exact (Outcome.mapM_eq_ok.mp htokens).imp hslot
  · exact (Outcome.mapM_eq_ok.mp hsamplers).imp hslot

/-- An adapter that is active is used, and nothing else happens. -/
theorem addAdapter_active {id : LoRAId} (hreg : s.isRegistered id = true)
    (hact : s.isActive id = true) : addAdapter C L modules id s = .ok true { s with
      registered := s.registered.touch id
      active := s.active.touch id } := by
  refine bind_ok.mpr ⟨true, { s with registered := s.registered.touch id }, ?_, ?_⟩
  · unfold cacheAdapter
    change (ite _ _ _ : EStateM LoRAError (LoRAManager W) Bool) s = _
    rw [if_pos hreg]
    rfl
  · refine bind_ok.mpr ⟨false, _, ?_, rfl⟩
    refine bind_ok.mpr ⟨⟨⟩, { s with registered := s.registered.touch id }, ?_, ?_⟩
    · change EStateM.Result.ok PUnit.unit (ite _ _ _) = _
      rw [if_neg]
      rintro ⟨hnot, -⟩
      have hact' : ({ s with registered := s.registered.touch id } : LoRAManager W).isActive id =
          true := hact
      rw [hact'] at hnot
      cases hnot
    · refine bind_ok.mpr ⟨false, { s with registered := s.registered.touch id }, ?_, rfl⟩
      change (ite _ _ _ : EStateM LoRAError (LoRAManager W) Bool) _ = _
      rw [if_pos (show ({ s with registered := s.registered.touch id } : LoRAManager W).isActive
        id = true from hact)]
      rfl

/-- **Active adapters keep their slots** when they are activated again. -/
theorem applyAdapters_active (hreg : ∀ id ∈ requests, s.isRegistered id = true)
    (hact : ∀ id ∈ requests, s.isActive id = true) :
    (after (applyAdapters C L modules requests) s).loraIndexToId = s.loraIndexToId := by
  let I : LoRAManager W → Prop := fun t => t.loraIndexToId = s.loraIndexToId ∧
    (∀ id ∈ requests, t.isRegistered id = true) ∧ ∀ id ∈ requests, t.isActive id = true
  have hkeeps : Keeps I (applyAdapters C L modules requests) := by
    unfold applyAdapters
    dsimp only
    split_ifs
    · exact .throw
    · apply Keeps.forM
      intro id hid
      refine .bind ?_ fun _ => .pure
      rintro t ⟨hslots, hreg, hact⟩
      have hid := List.mem_eraseDups.mp hid
      rw [after_of_ok (addAdapter_active (hreg id hid) (hact id hid))]
      exact ⟨hslots, fun j hj => isRegistered_touch.trans (hreg j hj),
        fun j hj => isActive_touch.trans (hact j hj)⟩
  exact (hkeeps s ⟨rfl, hreg, hact⟩).1

/-! ## Main result -/

/-- **Tokens use their own adapter.** In every run whose operations are settled, the slots that the
kernels were given are right when `set_active_adapters` returns. -/
theorem usesOwnAdapters_of_reach
    (h : (loraMachine C L modules).Reach (fun s op => op.WellFormed ∧ op.Settled C L modules s) s)
    (hwell : (LoRAOp.setActiveAdapters requests mapping).WellFormed)
    (hsettled : (LoRAOp.setActiveAdapters requests mapping).Settled C L modules s)
    (hrun : setActiveAdapters C L modules requests mapping s = .ok ⟨⟩ s') :
    UsesOwnAdapters L modules mapping s' := by
  have hc := consistent_of_reach (fun _ _ hop => hop.2) h
  obtain ⟨⟨⟩, t, happly, hset⟩ := bind_ok.mp hrun
  have hct : t.Consistent L modules := (applyAdapters_keeps hsettled.1).ok hc happly
  have hkernels : t.kernels = s.kernels := applyAdapters_kernels.ok rfl happly
  change (ite _ _ _ : EStateM LoRAError (LoRAManager W) PUnit) t = _ at hset
  split_ifs at hset with hlast
  · -- the mapping of the last call: the adapters still are where the kernels look for them
    obtain rfl : t = s' := by
      cases hset
      rfl
    have hlast' : s.lastMapping = some mapping := (congrArg Prod.snd hkernels).symm.trans hlast
    have hstill := hsettled.2 hlast'
    unfold LoRAManager.Settled at hstill
    cases hpunica : s.punica with
    | none => simp [hpunica] at hstill
    | some indices =>
      rw [hpunica] at hstill
      obtain ⟨htokens, hsamplers⟩ := hstill
      have hact : ∀ id ∈ requests, s.isActive id = true := by
        intro id hid
        obtain ⟨hne, hmem⟩ := (hwell id).mp hid
        have hslot : ∃ index, InSlot s.loraIndexToId id index := by
          rcases hmem with hmem | hmem
          · obtain ⟨index, -, hslot⟩ := Outcome.exists_of_forall₂_left htokens hmem
            exact ⟨index, hslot⟩
          · obtain ⟨index, -, hslot⟩ := Outcome.exists_of_forall₂_left hsamplers hmem
            exact ⟨index, hslot⟩
        obtain ⟨index, hslot⟩ := hslot
        unfold InSlot at hslot
        rw [if_neg hne] at hslot
        exact hc.active _ id hslot.2
      have hslots : t.loraIndexToId = s.loraIndexToId := by
        rw [← after_of_ok happly]
        exact applyAdapters_active (fun id hid => hc.registered id (hact id hid)) hact
      have huses : ∀ id index, InSlot s.loraIndexToId id index → UsesSlot L modules t id index := by
        intro id index hslot
        unfold InSlot at hslot
        unfold UsesSlot
        split_ifs at hslot ⊢
        · exact hslot
        · obtain ⟨hpos, hget⟩ := hslot
          rw [← hslots] at hget
          exact ⟨index.toNat, (Int.toNat_of_nonneg hpos).symm, hget, hct.slotWeights _ id hget⟩
      exact ⟨indices, (congrArg Prod.fst hkernels).trans hpunica, htokens.imp huses,
        hsamplers.imp huses⟩
  · -- a new mapping is translated
    obtain ⟨⟨⟩, u, hupdate, hset⟩ := bind_ok.mp hset
    obtain ⟨_, _, hget, hupdate⟩ := bind_ok.mp hupdate
    cases hget
    cases hconvert : convertMapping mapping t.loraIndexToId with
    | error e =>
      rw [hconvert] at hupdate
      cases hupdate
    | ok indices =>
      rw [hconvert] at hupdate
      cases hupdate
      cases hset
      exact usesOwnAdapters_of_convert hct hconvert rfl rfl rfl

end Runs

section Example

/-- Two slots, and two adapters on the host. -/
def twoSlots : LoRAConfig := { maxLoras := 2, maxCpuLoras := 2, pos := Nat.two_pos, le := Nat.one_lt_two }

/-- The weights of an adapter are its id. -/
def idLoader : LoRALoader Nat where
  load id := { id, weights := fun _ => some id }
  load_id _ := rfl

/-- A batch of one token and one prompt of adapter 1. -/
def oneToken : LoRAMapping := { indexMapping := [1], promptMapping := [1] }

theorem oneToken_wellFormed : (LoRAOp.setActiveAdapters [1] oneToken).WellFormed := by
  intro id
  simp only [oneToken, List.mem_singleton, or_self]
  constructor
  · rintro rfl
    exact ⟨by decide, rfl⟩
  · exact fun h => h.2

open LoRAManager

/-- The batch has been active. -/
def afterBatch : LoRAManager Nat :=
  after (setActiveAdapters twoSlots idLoader ["qkv_proj"] [1] oneToken)
    { loraIndexToId := List.replicate 2 none }

/-- The same batch again: its adapter is in the slot that the kernels were given. -/
theorem usesOwnAdapters_afterBatch : ∃ s, setActiveAdapters twoSlots idLoader ["qkv_proj"] [1]
      oneToken afterBatch = .ok ⟨⟩ s ∧ UsesOwnAdapters idLoader ["qkv_proj"] oneToken s := by
  have hbias : ∀ id ∈ [1], twoSlots.AllowsBias idLoader ["qkv_proj"] id :=
    fun id _ => .inr fun m _ => rfl
  have hreach : (loraMachine twoSlots idLoader ["qkv_proj"]).Reach
      (fun s op => op.WellFormed ∧ op.Settled twoSlots idLoader ["qkv_proj"] s) afterBatch :=
    .next .start ⟨oneToken_wellFormed, hbias, fun h => by cases h⟩ rfl
  have hpunica : afterBatch.punica = some ⟨[0], [0]⟩ := by decide +kernel
  have hslots : afterBatch.loraIndexToId = [some 1, none] := by decide +kernel
  have hsettled : afterBatch.Settled oneToken := by
    unfold LoRAManager.Settled
    rw [hpunica, hslots]
    exact ⟨.cons (by simp [InSlot]) .nil, .cons (by simp [InSlot]) .nil⟩
  obtain ⟨⟨⟩, hrun⟩ := ok_of_returns (x := setActiveAdapters twoSlots idLoader ["qkv_proj"] [1]
    oneToken) (s := afterBatch) (by decide +kernel)
  exact ⟨_, hrun, usesOwnAdapters_of_reach hreach oneToken_wellFormed
    ⟨hbias, fun _ => hsettled⟩ hrun⟩

/-- Two other adapters have been added since. -/
def afterOthers : LoRAManager Nat :=
  after (addAdapter twoSlots idLoader ["qkv_proj"] 3)
    (after (addAdapter twoSlots idLoader ["qkv_proj"] 2) afterBatch)

/-- The same batch again: the old slot of adapter 1 belongs to adapter 3; the kernels still use the old
slot. -/
theorem afterOthers_stale : ∃ s s', (loraMachine twoSlots idLoader ["qkv_proj"]).Reach
      (fun _ op => op.WellFormed) s ∧
    setActiveAdapters twoSlots idLoader ["qkv_proj"] [1] oneToken s = .ok ⟨⟩ s' ∧
      s'.loraIndexToId = [some 3, some 1] ∧ s'.punica = some ⟨[0], [0]⟩ ∧
        ¬ UsesOwnAdapters idLoader ["qkv_proj"] oneToken s' := by
  have hreach : (loraMachine twoSlots idLoader ["qkv_proj"]).Reach
      (fun _ op => op.WellFormed) afterOthers :=
    .next (i := .addAdapter 3) (.next (i := .addAdapter 2)
      (.next .start oneToken_wellFormed rfl) trivial rfl) trivial rfl
  obtain ⟨⟨⟩, hrun⟩ := ok_of_returns (x := setActiveAdapters twoSlots idLoader ["qkv_proj"] [1]
    oneToken) (s := afterOthers) (by decide +kernel)
  have hslots : (after (setActiveAdapters twoSlots idLoader ["qkv_proj"] [1] oneToken)
      afterOthers).loraIndexToId = [some 3, some 1] := by decide +kernel
  have hpunica : (after (setActiveAdapters twoSlots idLoader ["qkv_proj"] [1] oneToken)
      afterOthers).punica = some ⟨[0], [0]⟩ := by decide +kernel
  refine ⟨afterOthers, _, hreach, hrun, hslots, hpunica, ?_⟩
  rintro ⟨indices, hindices, htokens, -⟩
  rw [hpunica] at hindices
  obtain rfl := Option.some.inj hindices
  -- the index of the token is that of the slot of adapter 3
  obtain ⟨huses, -⟩ := List.forall₂_cons.mp htokens
  obtain ⟨i, hi, hget, -⟩ : ∃ i : Nat, (0 : Int) = i ∧ _ := huses
  obtain rfl : i = 0 := by omega
  rw [hslots] at hget
  cases hget

end Example

end InferenceServer.Worker
