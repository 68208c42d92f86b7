import InferenceServer.Worker.FailedActivation

/-!
# Batches beside pinned adapters

A batch of at most as many adapters as there are slots is not always served: its adapters are
activated one after the other, and each of them may evict what is not pinned, also an adapter of the
same batch. If the pinned adapters leave too little room, either an eviction raises because
everything is pinned, or an earlier adapter of the batch goes.

What is pinned stays. And if the pinned adapters and those of the batch fit into each of the two
caches together, then the adapters of the batch that are done are the ones used last in both of them,
and an eviction finds an adapter that is neither pinned nor one of these.

## Main results

* `PinnedManager.Valid.addAdapter_ends`, `valid_of_reach`, `setActiveAdapters_serves_iff`
-/

namespace InferenceServer.Worker

open Raising
open List (mem_iff_getElem? mem_of_getElem? mem_toFinset)
open Finset (card_le_card erase_eq_of_notMem mem_insert mem_union)

variable {W : Type} {C : LoRAConfig} {L : LoRALoader W} {modules : List String}

namespace PinnedManager

/-! ## The invariant -/

section Statement

/-- What is pinned in the two caches. -/
def pins (s : PinnedManager W) : Finset LoRAId × Finset LoRAId := (s.pinnedRegistered, s.pinnedActive)

/-- The caches are within their bounds; the active adapters are those with a slot, each with one; an
active adapter is registered; what is pinned is there, on the host if it is on the device; and a
registered adapter has the biases of the loaded one, or fewer. -/
structure Valid (C : LoRAConfig) (L : LoRALoader W) (s : PinnedManager W) : Prop where
  oneSlot : s.manager.OneSlot
  slots : s.manager.loraIndexToId.length = C.maxLoras
  active_iff : ∀ id, s.manager.isActive id = true ↔ some id ∈ s.manager.loraIndexToId
  registered : ∀ id, s.manager.isActive id = true → s.manager.isRegistered id = true
  contents : ∀ id lora, s.manager.registered.get? id = some lora →
    lora.id = id ∧ ∀ m, lora.bias m = true → (L.load id).bias m = true
  activeLength : s.manager.active.length ≤ C.maxLoras
  registeredLength : s.manager.registered.length ≤ C.maxCpuLoras
  pinnedActive : ∀ id ∈ s.pinnedActive, s.manager.isActive id = true
  pinnedRegistered : ∀ id ∈ s.pinnedRegistered, s.manager.isRegistered id = true
  pinned : s.pinnedActive ⊆ s.pinnedRegistered

/-- The adapters are those used last, in both caches. -/
def Recent (s : PinnedManager W) (ids : List LoRAId) : Prop :=
  ids <:+ s.manager.active.keys ∧ ids <:+ s.manager.registered.keys

/-- The pinned adapters and those of a batch fit into the caches. -/
def Fits (C : LoRAConfig) (s : PinnedManager W) (ids : List LoRAId) : Prop :=
  (s.pinnedActive ∪ ids.toFinset).card ≤ C.maxLoras ∧
    (s.pinnedRegistered ∪ ids.toFinset).card ≤ C.maxCpuLoras

instance (s : PinnedManager W) (ids : List LoRAId) : Decidable (s.Fits C ids) := by
  unfold Fits; infer_instance

end Statement

variable {s s' : PinnedManager W} {id j : LoRAId} {ids : List LoRAId}

theorem isActive_iff_mem : s.manager.isActive id = true ↔ id ∈ s.manager.active.keys :=
  LRUCache.mem_keys_iff.symm

theorem isRegistered_iff_mem : s.manager.isRegistered id = true ↔ id ∈ s.manager.registered.keys :=
  LRUCache.mem_keys_iff.symm

variable {m : LoRAManager W} {G : Prop} {requests : List LoRAId} {mapping : LoRAMapping}

/-- A slot is given back, and no other one. -/
theorem mem_freeSlot (hone : m.OneSlot) :
    some j ∈ (m.freeSlot id).loraIndexToId ↔ j ≠ id ∧ some j ∈ m.loraIndexToId := by
  constructor
  · intro h
    obtain ⟨i, hi⟩ := mem_iff_getElem?.mp h
    exact ⟨LoRAManager.ne_of_freeSlot hone hi,
      mem_of_getElem? (LoRAManager.getElem?_freeSlot hi)⟩
  · rintro ⟨hne, h⟩
    obtain ⟨i, hi⟩ := mem_iff_getElem?.mp h
    have hidx : m.loraIndexToId.idxOf (some id) ≠ i := by
      rintro rfl
      have hlt := (List.getElem?_eq_some_iff.mp hi).1
      rw [List.getElem?_eq_getElem hlt, List.getElem_idxOf] at hi
      exact hne (Option.some.inj (Option.some.inj hi)).symm
    refine mem_of_getElem? (i := i) ?_
    unfold LoRAManager.freeSlot
    rw [List.getElem?_set_ne hidx]
    exact hi

/-- A slot is given back once. -/
theorem freeSlot_freeSlot (hone : m.OneSlot) :
    (m.freeSlot id).freeSlot id = m.freeSlot id := by
  have hnot : some id ∉ (m.freeSlot id).loraIndexToId := fun h => ((mem_freeSlot hone).mp h).1 rfl
  have hset : (m.freeSlot id).loraIndexToId.set ((m.freeSlot id).loraIndexToId.idxOf (some id)) none =
      (m.freeSlot id).loraIndexToId := by
    rw [List.idxOf_eq_length hnot]
    exact List.set_eq_of_length_le le_rfl
  unfold LoRAManager.freeSlot at hset ⊢
  rw [hset]

/-! ## Letting go of adapters -/

/-- What leaves the cache of the device. -/
theorem popActive_eq (h : s.manager.isActive id = true) : s.popActive id =
    { s with
      manager := { s.manager with active := s.manager.active.erase id }.freeSlot id
      pinnedActive := s.pinnedActive.erase id } := by
  rw [popActive, if_pos h, LoRAManager.popActive, if_pos h]

theorem popActive_inactive (h : s.manager.isActive id = false) : s.popActive id = s := by
  rw [popActive, h]
  rfl

theorem Valid.popActive (hv : s.Valid C L) : (s.popActive id).Valid C L := by
  cases hact : s.manager.isActive id with
  | false => rwa [popActive_inactive hact]
  | true =>
    have hmem : id ∈ s.manager.active.keys := isActive_iff_mem.mp hact
    have hactive : ∀ j, ({ s.manager with active := s.manager.active.erase id } :
        LoRAManager W).isActive j = true ↔ j ≠ id ∧ s.manager.isActive j = true := by
      intro j
      rw [LoRAManager.isActive_erase]
      simp
    rw [popActive_eq hact]
    refine ⟨?_, ?_, ?_, ?_, hv.contents, ?_, hv.registeredLength, ?_, hv.pinnedRegistered, ?_⟩
    · exact LoRAManager.sheds_freeSlot.oneSlot hv.oneSlot
    · exact (List.length_set ..).trans hv.slots
    · intro j
      refine (hactive j).trans ?_
      rw [hv.active_iff]
      exact (mem_freeSlot (m := { s.manager with active := s.manager.active.erase id })
        hv.oneSlot).symm
    · exact fun j hj => hv.registered j ((hactive j).mp hj).2
    · have hlength := LRUCache.length_erase hmem
      have hle := hv.activeLength
      change (s.manager.active.erase id).length ≤ C.maxLoras
      omega
    · intro j hj
      obtain ⟨hne, hj⟩ := Finset.mem_erase.mp hj
      exact (hactive j).mpr ⟨hne, hv.pinnedActive j hj⟩
    · exact (Finset.erase_subset _ _).trans hv.pinned

/-- `deactivate_adapter` gives the slot back twice, which is the same as once. -/
theorem Valid.deactivateAdapter_eq (hv : s.Valid C L) : s.deactivateAdapter id = s.popActive id := by
  cases hact : s.manager.isActive id with
  | false =>
    rw [popActive_inactive hact, deactivateAdapter, hact]
    rfl
  | true =>
    have hact' : ({ s with manager := s.manager.freeSlot id } : PinnedManager W).manager.isActive id =
        true := hact
    rw [deactivateAdapter, if_pos hact, popActive_eq hact, popActive_eq hact']
    exact congrArg (fun m : LoRAManager W => ({ s with
      manager := { m with active := s.manager.active.erase id }
      pinnedActive := s.pinnedActive.erase id } : PinnedManager W)) (freeSlot_freeSlot hv.oneSlot)

theorem inactive_popActive : (s.popActive id).manager.isActive id = false := by
  cases hact : s.manager.isActive id with
  | false => rwa [popActive_inactive hact]
  | true =>
    rw [popActive_eq hact]
    exact LoRAManager.isActive_erase.trans (by simp)

/-- An adapter that is not active leaves the cache of the host. -/
def dropRegistered (s : PinnedManager W) (id : LoRAId) : PinnedManager W :=
  { s with
    manager := { s.manager with registered := s.manager.registered.erase id }
    pinnedRegistered := s.pinnedRegistered.erase id }

theorem Valid.dropRegistered (hv : s.Valid C L) (hid : s.manager.isActive id = false) :
    (s.dropRegistered id).Valid C L := by
  have hget : ∀ j, (s.dropRegistered id).manager.registered.get? j =
      if j = id then none else s.manager.registered.get? j := fun j => LRUCache.get?_erase
  have hregistered : ∀ j, j ≠ id → s.manager.isRegistered j = true →
      (s.dropRegistered id).manager.isRegistered j = true := by
    intro j hne hj
    unfold LoRAManager.isRegistered at hj ⊢
    rw [hget, if_neg hne]
    exact hj
  have hne : ∀ j, s.manager.isActive j = true → j ≠ id := by
    rintro j hj rfl
    rw [hid] at hj
    cases hj
  refine ⟨hv.oneSlot, hv.slots, hv.active_iff, ?_, ?_, hv.activeLength, ?_, hv.pinnedActive, ?_, ?_⟩
  · exact fun j hj => hregistered j (hne j hj) (hv.registered j hj)
  · intro j lora hj
    rw [hget] at hj
    split_ifs at hj
    exact hv.contents j lora hj
  · exact (List.length_filter_le ..).trans hv.registeredLength
  · intro j hj
    obtain ⟨hne, hj⟩ := Finset.mem_erase.mp hj
    exact hregistered j hne (hv.pinnedRegistered j hj)
  · intro j hj
    exact Finset.mem_erase.mpr ⟨hne j (hv.pinnedActive j hj), hv.pinned hj⟩

/-- What leaves the cache of the host has left the cache of the device. -/
theorem Valid.popRegistered_eq (hv : s.Valid C L) (hid : s.manager.isRegistered id = true) :
    s.popRegistered id = (s.popActive id).dropRegistered id := by
  rw [← hv.deactivateAdapter_eq, popRegistered, if_pos hid]
  unfold deactivateAdapter
  cases hact : s.manager.isActive id with
  | false =>
    have hact' : ({ s.manager with registered := s.manager.registered.erase id } :
      LoRAManager W).isActive id = false := hact
    rw [if_neg (by simp [hact']), if_neg (by simp)]
    rfl
  | true =>
    have hact' : ({ s.manager with registered := s.manager.registered.erase id } :
      LoRAManager W).isActive id = true := hact
    rw [if_pos hact', if_pos rfl]
    rw [popActive_eq (s := { s with manager := s.manager.freeSlot id }) hact]
    exact popActive_eq (s := { s with
      manager := { s.manager with registered := s.manager.registered.erase id }.freeSlot id
      pinnedRegistered := s.pinnedRegistered.erase id }) hact'

theorem Valid.popRegistered (hv : s.Valid C L) : (s.popRegistered id).Valid C L := by
  cases hid : s.manager.isRegistered id with
  | false =>
    rw [PinnedManager.popRegistered, hid]
    exact hv
  | true =>
    rw [hv.popRegistered_eq hid]
    exact hv.popActive.dropRegistered inactive_popActive

/-- **`remove_adapter`** keeps the invariant. -/
theorem Valid.removeAdapter (hv : s.Valid C L) : (s.removeAdapter id).Valid C L := by
  unfold PinnedManager.removeAdapter
  rw [hv.deactivateAdapter_eq]
  exact hv.popActive.popRegistered

/-! ## Evictions -/

/-- What an eviction from the cache of the device keeps: among the adapters used last, those that it
takes are none as long as the pins leave room beside them. -/
structure EvictsActive (C : LoRAConfig) (L : LoRALoader W) (s s' : PinnedManager W) : Prop where
  valid : s'.Valid C L
  pins : s'.pins = s.pins
  registered : s'.manager.registered = s.manager.registered
  length : s'.manager.active.length + 1 = s.manager.active.length
  active : ∀ id, s'.manager.isActive id = true → s.manager.isActive id = true
  recent : ∀ ids, ids <:+ s.manager.active.keys →
    (s.pinnedActive ∪ ids.toFinset).card < s.manager.active.length → ids <:+ s'.manager.active.keys

/-- **An eviction from the cache of the device.** -/
theorem Valid.popitemActive_ends (hv : s.Valid C L) : Ends popitemActive s
    (fun _ s' => EvictsActive C L s s')
    (fun _ s' => s' = s ∧
      ∀ ids, s.manager.active.length ≤ (s.pinnedActive ∪ List.toFinset ids).card) := by
  apply Ends.get
  cases holdest : oldestUnpinned s.manager.active.keys s.pinnedActive with
  | none => exact .of_error rfl ⟨rfl, LRUCache.length_le_pinned holdest⟩
  | some id =>
    have hmem : id ∈ s.manager.active.keys := List.mem_of_find?_eq_some holdest
    have hunpinned : id ∉ s.pinnedActive := by simpa using List.find?_some holdest
    have hact := isActive_iff_mem.mpr hmem
    have hpop := popActive_eq hact
    rw [erase_eq_of_notMem hunpinned] at hpop
    refine Ends.of_ok rfl ⟨hv.popActive, ?_, ?_, ?_, ?_, ?_⟩
    · rw [hpop]
      rfl
    · rw [hpop]
      rfl
    · rw [hpop]
      exact LRUCache.length_erase hmem
    · intro j hj
      rw [hpop] at hj
      have hj' := LoRAManager.isActive_erase.symm.trans hj
      simp only [Bool.and_eq_true] at hj'
      exact hj'.2
    · intro ids hids hcard
      -- the adapter that goes is the one that is found beside the pins
      obtain ⟨k, hk, hnot⟩ := LRUCache.exists_unpinned hids hcard
      obtain rfl : k = id := Option.some.inj (hk.symm.trans holdest)
      rw [hpop]
      exact LRUCache.suffix_keys_erase hids hnot

/-- What an eviction from the cache of the host keeps. -/
structure EvictsRegistered (C : LoRAConfig) (L : LoRALoader W) (s s' : PinnedManager W) : Prop where
  valid : s'.Valid C L
  pins : s'.pins = s.pins
  length : s'.manager.registered.length + 1 = s.manager.registered.length
  registered : ∀ id, s'.manager.isRegistered id = true → s.manager.isRegistered id = true
  recent : ∀ ids, s.Recent ids →
    (s.pinnedRegistered ∪ ids.toFinset).card < s.manager.registered.length → s'.Recent ids

/-- **An eviction from the cache of the host.** -/
theorem Valid.popitemRegistered_ends (hv : s.Valid C L) : Ends popitemRegistered s
    (fun _ s' => EvictsRegistered C L s s')
    (fun _ s' => s' = s ∧
      ∀ ids, s.manager.registered.length ≤ (s.pinnedRegistered ∪ List.toFinset ids).card) := by
  apply Ends.get
  cases holdest : oldestUnpinned s.manager.registered.keys s.pinnedRegistered with
  | none => exact .of_error rfl ⟨rfl, LRUCache.length_le_pinned holdest⟩
  | some id =>
    have hmem : id ∈ s.manager.registered.keys := List.mem_of_find?_eq_some holdest
    have hunpinned : id ∉ s.pinnedRegistered := by simpa using List.find?_some holdest
    have hunpinned' : id ∉ s.pinnedActive := fun h => hunpinned (hv.pinned h)
    have hreg := isRegistered_iff_mem.mpr hmem
    -- the cache of the device loses the adapter, too, and neither cache loses a pin
    have hpop : (s.popRegistered id).manager.registered = s.manager.registered.erase id ∧
        (s.popRegistered id).manager.active = s.manager.active.erase id ∧
        (s.popRegistered id).pins = s.pins := by
      rw [hv.popRegistered_eq hreg]
      cases hact : s.manager.isActive id with
      | false =>
        have hnot : id ∉ s.manager.active.keys := by
          intro h
          rw [isActive_iff_mem.mpr h] at hact
          cases hact
        rw [popActive_inactive hact]
        refine ⟨rfl, (LRUCache.erase_of_notMem hnot).symm, ?_⟩
        exact Prod.ext (erase_eq_of_notMem hunpinned) rfl
      | true =>
        rw [popActive_eq hact]
        exact ⟨rfl, rfl, Prod.ext (erase_eq_of_notMem hunpinned)
          (erase_eq_of_notMem hunpinned')⟩
    obtain ⟨hregistered, hactive, hpins⟩ := hpop
    refine Ends.of_ok rfl ⟨hv.popRegistered, hpins, ?_, ?_, ?_⟩
    · rw [hregistered]
      exact LRUCache.length_erase hmem
    · intro j hj
      unfold LoRAManager.isRegistered at hj ⊢
      rw [hregistered, LRUCache.get?_erase] at hj
      split_ifs at hj with hjid
      · cases hj
      · exact hj
    · rintro ids ⟨hids, hids'⟩ hcard
      obtain ⟨k, hk, hnot⟩ := LRUCache.exists_unpinned hids' hcard
      obtain rfl : k = id := Option.some.inj (hk.symm.trans holdest)
      unfold Recent
      rw [hregistered, hactive]
      exact ⟨LRUCache.suffix_keys_erase hids hnot, LRUCache.suffix_keys_erase hids' hnot⟩

/-! ## The cache of the host -/

/-- The invariant holds, and the pins are what they were. -/
def Kept (C : LoRAConfig) (L : LoRALoader W) (s s' : PinnedManager W) : Prop :=
  s'.Valid C L ∧ s'.pins = s.pins

theorem Kept.trans {s'' : PinnedManager W} (h : Kept C L s s') (h' : Kept C L s' s'') :
    Kept C L s s'' := ⟨h'.1, h'.2.trans h.2⟩

/-- Whether a batch fits depends on the pins only. -/
theorem fits_congr (h : s'.pins = s.pins) : s'.Fits C ids ↔ s.Fits C ids := by
  obtain ⟨hregistered, hactive⟩ := Prod.ext_iff.mp h
  unfold Fits
  rw [show s'.pinnedActive = s.pinnedActive from hactive,
    show s'.pinnedRegistered = s.pinnedRegistered from hregistered]

/-- A further adapter takes a further place. -/
theorem card_snoc {pinned : Finset LoRAId} (hpin : id ∉ pinned) (hid : id ∉ ids) :
    (pinned ∪ (ids ++ [id]).toFinset).card = (pinned ∪ ids.toFinset).card + 1 := by
  have hnot : id ∉ pinned ∪ ids.toFinset := by simp [hpin, hid]
  have hinsert : pinned ∪ (ids ++ [id]).toFinset = insert id (pinned ∪ ids.toFinset) := by
    ext j
    simp only [mem_union, mem_toFinset, List.mem_append, List.mem_singleton,
      mem_insert]
    tauto
  rw [hinsert, Finset.card_insert_of_notMem hnot]

theorem Valid.touchRegistered (hv : s.Valid C L) : ({ s with
    manager := { s.manager with registered := s.manager.registered.touch id } } :
      PinnedManager W).Valid C L where
  oneSlot := hv.oneSlot
  slots := hv.slots
  active_iff := hv.active_iff
  registered j hj := LoRAManager.isRegistered_touch.trans (hv.registered j hj)
  contents j lora hj := by
    rw [LRUCache.get?_touch] at hj
    exact hv.contents j lora hj
  activeLength := hv.activeLength
  registeredLength := by
    rw [LRUCache.length_touch]
    exact hv.registeredLength
  pinnedActive := hv.pinnedActive
  pinnedRegistered j hj := LoRAManager.isRegistered_touch.trans (hv.pinnedRegistered j hj)
  pinned := hv.pinned

theorem Valid.putRegistered (hv : s.Valid C L) (hid : s.manager.isRegistered id = false)
    (hroom : s.manager.registered.length + 1 ≤ C.maxCpuLoras) : ({ s with
    manager := { s.manager with registered := s.manager.registered.put id (L.load id) } } :
      PinnedManager W).Valid C L := by
  have hnot : id ∉ s.manager.registered.keys := by
    intro h
    rw [isRegistered_iff_mem.mpr h] at hid
    cases hid
  have hregistered : ∀ j, s.manager.isRegistered j = true → ({ s.manager with
      registered := s.manager.registered.put id (L.load id) } : LoRAManager W).isRegistered j =
      true := by
    intro j hj
    rw [LoRAManager.isRegistered_put, hj, Bool.or_true]
  refine ⟨hv.oneSlot, hv.slots, hv.active_iff, ?_, ?_, hv.activeLength, ?_, hv.pinnedActive, ?_,
    hv.pinned⟩
  · exact fun j hj => hregistered j (hv.registered j hj)
  · intro j lora hj
    rw [LRUCache.get?_put] at hj
    split_ifs at hj with hjid
    · cases hj
      subst hjid
      exact ⟨L.load_id j, fun _ h => h⟩
    · exact hv.contents j lora hj
  · exact (LRUCache.length_put hnot).trans_le hroom
  · exact fun j hj => hregistered j (hv.pinnedRegistered j hj)

/-- With room in the cache of the host, nothing is evicted. -/
theorem register_ok {lora : LoRAModel W} (hid : s.manager.isRegistered lora.id = false)
    (hroom : s.manager.registered.length + 1 ≤ C.maxCpuLoras) :
    register C lora s = .ok ⟨⟩ { s with
      manager := { s.manager with registered := s.manager.registered.put lora.id lora } } := by
  refine bind_ok.mpr ⟨s, s, rfl, ?_⟩
  rw [if_pos hid, Nat.sub_eq_zero_of_le hroom]
  rfl

/-- The promise for the next adapter of a batch: those that are done are the ones used last, and it
fits beside them and the pins. -/
structure Promise (C : LoRAConfig) (s : PinnedManager W) (ids : List LoRAId) (id : LoRAId) : Prop where
  fresh : id ∉ ids
  active : ids <:+ s.manager.active.keys
  registered : ids <:+ s.manager.registered.keys
  fits : s.Fits C (ids ++ [id])

variable (hv : s.Valid C L)

include hv

/-- The first half of an addition, with a promise that is kept if it was given. -/
theorem Valid.cacheAdapter_ends (hG : G → s.Promise C ids id) : Ends (cacheAdapter C L id) s
      (fun _ s' => Kept C L s s' ∧ s'.manager.isRegistered id = true ∧
        (G → ids <:+ s'.manager.active.keys ∧ ids ++ [id] <:+ s'.manager.registered.keys))
      (fun _ s' => Kept C L s s' ∧ ¬ G) := by
  apply Ends.get
  cases hid : s.manager.isRegistered id with
  | true =>
    rw [if_pos rfl]
    refine .of_ok rfl ⟨⟨hv.touchRegistered, rfl⟩, LoRAManager.isRegistered_touch.trans hid, ?_⟩
    intro h
    exact ⟨(hG h).active, LRUCache.suffix_keys_touch (hG h).registered (hG h).fresh
      (isRegistered_iff_mem.mp hid)⟩
  | false =>
    rw [if_neg (by simp)]
    have hpin : id ∉ s.pinnedRegistered := by
      intro h
      rw [hv.pinnedRegistered id h] at hid
      cases hid
    -- there is room, and the adapters that are done are still those used last
    have hroom : ∀ s', Kept C L s s' ∧ s'.manager.isRegistered id = false ∧
        s'.manager.registered.length + 1 ≤ C.maxCpuLoras ∧ (G → s'.Recent ids) →
        Ends (addToCache C (L.load id)) s'
          (fun _ t => Kept C L s t ∧ t.manager.isRegistered id = true ∧
            (G → ids <:+ t.manager.active.keys ∧ ids ++ [id] <:+ t.manager.registered.keys))
          (fun _ t => Kept C L s t ∧ ¬ G) := by
      rintro s' ⟨hkept, hid', hlength, hrecent⟩
      apply Ends.get
      rw [L.load_id, hid', if_neg (by simp)]
      have hid'' : s'.manager.isRegistered (L.load id).id = false := by rwa [L.load_id]
      refine Ends.bind (.of_ok (register_ok hid'' hlength)
        (Q := fun _ t => Kept C L s t ∧ t.manager.isRegistered id = true ∧
          (G → ids <:+ t.manager.active.keys ∧ ids ++ [id] <:+ t.manager.registered.keys)) ?_)
        fun _ _ h => h
      rw [L.load_id]
      refine ⟨hkept.trans ⟨hkept.1.putRegistered hid' hlength, rfl⟩, ?_, fun h => ?_⟩
      · exact LoRAManager.isRegistered_put.trans (by simp)
      · exact ⟨(hrecent h).1, LRUCache.suffix_keys_put (hrecent h).2 (hG h).fresh⟩
    refine Ends.ite_bind (R := fun _ s' => Kept C L s s' ∧ s'.manager.isRegistered id = false ∧
        s'.manager.registered.length + 1 ≤ C.maxCpuLoras ∧ (G → s'.Recent ids)) ?_ ?_ hroom
    · intro hfull
      have hpos := C.pos.trans C.le
      have hle := hv.registeredLength
      apply Ends.get
      rw [if_neg (by omega)]
      refine hv.popitemRegistered_ends.mono (fun _ s' hs' => ?_) ?_
      · have hlength := hs'.length
        refine ⟨⟨hs'.valid, hs'.pins⟩, ?_, by omega, fun h => ?_⟩
        · rw [← Bool.not_eq_true] at hid ⊢
          exact mt (hs'.registered id) hid
        · have hcard := (hG h).fits.2
          rw [card_snoc hpin (hG h).fresh] at hcard
          exact hs'.recent ids ⟨(hG h).active, (hG h).registered⟩ (by omega)
      · rintro _ s' ⟨rfl, hpinned⟩
        refine ⟨⟨hv, rfl⟩, fun h => ?_⟩
        have hcard := (hG h).fits.2
        rw [card_snoc hpin (hG h).fresh] at hcard
        have hpinned := hpinned ids
        omega
    · intro hfull
      exact ⟨⟨hv, rfl⟩, hid, by omega, fun h => ⟨(hG h).active, (hG h).registered⟩⟩

/-! ## The cache of the device -/

theorem Valid.touchActive : ({ s with
    manager := { s.manager with active := s.manager.active.touch id } } :
      PinnedManager W).Valid C L where
  oneSlot := hv.oneSlot
  slots := hv.slots
  active_iff j := by
    rw [LoRAManager.isActive_touch]
    exact hv.active_iff j
  registered j hj := hv.registered j (LoRAManager.isActive_touch.symm.trans hj)
  contents := hv.contents
  activeLength := by
    rw [LRUCache.length_touch]
    exact hv.activeLength
  registeredLength := hv.registeredLength
  pinnedActive j hj := LoRAManager.isActive_touch.trans (hv.pinnedActive j hj)
  pinnedRegistered := hv.pinnedRegistered
  pinned := hv.pinned

/-- While the cache of the device has room, a slot is free. -/
theorem Valid.exists_free (hroom : s.manager.active.length < C.maxLoras) :
    ∃ index, s.manager.loraIndexToId.idxOf? none = some index := by
  by_contra hno
  have hnone : none ∉ s.manager.loraIndexToId := by
    rw [← List.idxOf?_eq_none_iff, Option.eq_none_iff_forall_not_mem]
    exact fun index h => hno ⟨index, h⟩
  -- otherwise every slot has an adapter of its own
  have hnodup : s.manager.loraIndexToId.Nodup := by
    rw [List.nodup_iff_getElem?_ne_getElem?]
    intro i j hij hj heq
    cases hslot : s.manager.loraIndexToId[j]? with
    | none =>
      rw [List.getElem?_eq_none_iff] at hslot
      omega
    | some slot =>
      cases slot with
      | none => exact hnone (mem_of_getElem? hslot)
      | some id =>
        have hij' := hv.oneSlot i j id (heq.trans hslot) hslot
        omega
  have hsub : s.manager.loraIndexToId ⊆ s.manager.active.keys.map some := by
    rintro (- | id) hid
    · exact absurd hid hnone
    · exact List.mem_map_of_mem (isActive_iff_mem.mp ((hv.active_iff id).mpr hid))
  have hle := (List.subperm_of_subset hnodup hsub).length_le
  rw [List.length_map, LRUCache.length_keys, hv.slots] at hle
  omega

/-- An adapter that was not active gets a free slot. -/
theorem Valid.place (hid : s.manager.isActive id = false)
    (hreg : s.manager.isRegistered id = true) {index : Nat}
    (hfree : s.manager.loraIndexToId[index]? = some none)
    (hroom : s.manager.active.length < C.maxLoras) (w : Nat → String → Option W) : ({ s with
      manager := { s.manager with
        active := s.manager.active.put id ()
        registered := s.manager.registered.touch id
        loraIndexToId := s.manager.loraIndexToId.set index (some id)
        slotWeights := w } } : PinnedManager W).Valid C L := by
  have hlt : index < s.manager.loraIndexToId.length := (List.getElem?_eq_some_iff.mp hfree).1
  have hnot : id ∉ s.manager.active.keys := by
    intro h
    rw [isActive_iff_mem.mpr h] at hid
    cases hid
  have hslots : ∀ (i : Nat) (j : LoRAId),
      (s.manager.loraIndexToId.set index (some id))[i]? = some (some j) ↔
        i = index ∧ j = id ∨ s.manager.loraIndexToId[i]? = some (some j) := by
    intro i j
    rw [List.getElem?_set]
    by_cases hi : index = i
    · subst hi
      rw [if_pos rfl, if_pos hlt, hfree]
      simp [eq_comm]
    · rw [if_neg hi]
      simp [Ne.symm hi]
  have hactive : ∀ j, ({ s.manager with active := s.manager.active.put id () } :
      LoRAManager W).isActive j = true ↔ j = id ∨ s.manager.isActive j = true := by
    intro j
    unfold LoRAManager.isActive
    rw [LRUCache.get?_put]
    split_ifs with hj <;> simp [hj]
  have hnoslot : ∀ i : Nat, s.manager.loraIndexToId[i]? ≠ some (some id) := by
    intro i hi
    rw [(hv.active_iff id).mpr (mem_of_getElem? hi)] at hid
    cases hid
  refine ⟨?_, ?_, ?_, ?_, ?_, ?_, ?_, ?_, ?_, hv.pinned⟩
  · intro i i' j hi hi'
    rcases (hslots i j).mp hi with ⟨rfl, rfl⟩ | hold <;>
      rcases (hslots i' _).mp hi' with ⟨rfl, hj⟩ | hold'
    · rfl
    · exact absurd hold' (hnoslot i')
    · exact absurd (hj ▸ hold) (hnoslot i)
    · exact hv.oneSlot i i' j hold hold'
  · exact (List.length_set ..).trans hv.slots
  · intro j
    refine (hactive j).trans ?_
    constructor
    · rintro (rfl | hj)
      · exact mem_of_getElem? ((hslots index j).mpr (.inl ⟨rfl, rfl⟩))
      · obtain ⟨i, hi⟩ := mem_iff_getElem?.mp ((hv.active_iff j).mp hj)
        exact mem_of_getElem? ((hslots i j).mpr (.inr hi))
    · intro hj
      obtain ⟨i, hi⟩ := mem_iff_getElem?.mp hj
      rcases (hslots i j).mp hi with ⟨-, rfl⟩ | hi
      · exact .inl rfl
      · exact .inr ((hv.active_iff j).mpr (mem_of_getElem? hi))
  · intro j hj
    refine LoRAManager.isRegistered_touch.trans ?_
    rcases (hactive j).mp hj with rfl | hj
    · exact hreg
    · exact hv.registered j hj
  · intro j lora hj
    rw [LRUCache.get?_touch] at hj
    exact hv.contents j lora hj
  · exact (LRUCache.length_put hnot).trans_le hroom
  · rw [LRUCache.length_touch]
    exact hv.registeredLength
  · exact fun j hj => (hactive j).mpr (.inr (hv.pinnedActive j hj))
  · exact fun j hj => LoRAManager.isRegistered_touch.trans (hv.pinnedRegistered j hj)

/-- A bias that raised is dropped. -/
theorem Valid.adjust (id : LoRAId) (m : String) : ({ s with
    manager := { s.manager with registered := s.manager.registered.adjust id fun lora =>
      { lora with bias := Function.update lora.bias m false } } } : PinnedManager W).Valid C L := by
  have hregistered : ∀ j, ({ s.manager with registered := s.manager.registered.adjust id fun lora =>
      { lora with bias := Function.update lora.bias m false } } : LoRAManager W).isRegistered j =
        s.manager.isRegistered j := by
    intro j
    unfold LoRAManager.isRegistered
    rw [LRUCache.get?_adjust]
    split_ifs <;> simp
  refine ⟨hv.oneSlot, hv.slots, hv.active_iff, fun j hj => (hregistered j).trans (hv.registered j hj),
    ?_, hv.activeLength, ?_, hv.pinnedActive,
    fun j hj => (hregistered j).trans (hv.pinnedRegistered j hj), hv.pinned⟩
  · intro j lora hj
    rw [LRUCache.get?_adjust] at hj
    split_ifs at hj
    · obtain ⟨lora', hget, rfl⟩ := Option.map_eq_some_iff.mp hj
      obtain ⟨hid, hbias⟩ := hv.contents j lora' hget
      refine ⟨hid, fun m' hm' => hbias m' ?_⟩
      by_cases hmm : m' = m
      · subst hmm
        simp at hm'
      · change Function.update lora'.bias m false m' = true at hm'
        rwa [Function.update_of_ne hmm] at hm'
    · exact hv.contents j lora hj
  · rw [LRUCache.length_adjust]
    exact hv.registeredLength

omit hv

/-- The loop over the modules changes the weights only, unless it raises and drops a bias. -/
theorem setModules_shape {index : Nat} {lora : LoRAModel W} :
    Ends (modules.forM (LoRAManager.setModule C index lora)) m
      (fun _ m' => m' = { m with slotWeights := m'.slotWeights })
      (fun _ m' => ∃ moduleName, m' = { m with
        slotWeights := m'.slotWeights
        registered := m.registered.adjust lora.id fun lora =>
          { lora with bias := Function.update lora.bias moduleName false } }) := by
  let J : List String → LoRAManager W → Prop := fun _ m' =>
    m' = { m with slotWeights := m'.slotWeights }
  refine (Ends.forM (J := J) ?_ rfl).mono (fun _ _ h => h) fun _ _ h => h
  intro done name rest m' _ hm'
  unfold LoRAManager.setModule
  have hset : ∀ w, J (done ++ [name]) (m'.setWeights index name w) := by
    intro w
    change m' = { m with slotWeights := m'.slotWeights } at hm'
    change m'.setWeights index name w = _
    rw [hm']
    rfl
  cases lora.weights name with
  | none => exact .modify (hset none)
  | some w =>
    by_cases hbias : lora.bias name = true ∧ C.biasEnabled = false
    · dsimp only
      rw [if_pos hbias]
      refine .of_error rfl ⟨name, ?_⟩
      change m' = { m with slotWeights := m'.slotWeights } at hm'
      rw [hm']
    · dsimp only
      rw [if_neg hbias]
      exact .modify (hset (some w))

/-- What an activation does, with the promise to the batch `ids` kept if it was given. -/
def Activated (C : LoRAConfig) (L : LoRALoader W) (s : PinnedManager W) (ids : List LoRAId)
    (id : LoRAId) (G : Prop) (s' : PinnedManager W) : Prop :=
  Kept C L s s' ∧ s'.manager.isActive id = true ∧ (G → s'.Recent (ids ++ [id]))

/-- The promise for the second half of an addition. -/
structure PromiseActive (C : LoRAConfig) (L : LoRALoader W) (modules : List String)
    (s : PinnedManager W) (ids : List LoRAId) (id : LoRAId) : Prop where
  fresh : id ∉ ids
  active : ids <:+ s.manager.active.keys
  registered : ids ++ [id] <:+ s.manager.registered.keys
  fits : s.Fits C (ids ++ [id])
  bias : C.AllowsBias L modules id

variable (hv : s.Valid C L)

include hv

/-- The adapter gets its slot and its weights. -/
theorem Valid.activateInFreeSlot_ends
    (hid : s.manager.isActive id = false) (hreg : s.manager.isRegistered id = true)
    (hroom : s.manager.active.length < C.maxLoras) (hG : G → s.PromiseActive C L modules ids id) :
    Ends (activateInFreeSlot C modules id) s (fun _ s' => Activated C L s ids id G s')
      (fun _ s' => Kept C L s s' ∧ ¬ G) := by
  obtain ⟨index, hindex⟩ := hv.exists_free hroom
  have hfree := LoRAManager.getElem?_of_idxOf?_none hindex
  obtain ⟨lora, hget⟩ := Option.isSome_iff_exists.mp hreg
  obtain ⟨hlora, hbias⟩ := hv.contents id lora hget
  have hactivate : activate C id s = .ok ⟨⟩ { s with
      manager := { s.manager with active := s.manager.active.put id () } } := by
    refine bind_ok.mpr ⟨s, s, rfl, ?_⟩
    rw [if_pos hid, Nat.sub_eq_zero_of_le hroom]
    rfl
  apply Ends.get
  rw [hid, if_neg Bool.false_ne_true, hindex]
  refine Ends.bind (Q := fun _ t => t = _) (.of_ok hactivate rfl) ?_
  rintro - t rfl
  apply Ends.get
  rw [hget]
  refine Ends.bind (Q := fun _ t => t = _) (.modify rfl) ?_
  rintro - t rfl
  rw [hlora]
  -- what the loop over the modules leaves, whatever the weights are
  have hplaced := hv.place hid hreg hfree hroom
  have hact : ∀ w, ({ s.manager with
      active := s.manager.active.put id ()
      registered := s.manager.registered.touch id
      loraIndexToId := s.manager.loraIndexToId.set index (some id)
      slotWeights := w } : LoRAManager W).isActive id = true := by
    intro w
    unfold LoRAManager.isActive
    rw [LRUCache.get?_put, if_pos rfl]
    rfl
  refine Ends.bind (Q := fun _ t => Activated C L s ids id G t)
    (onManager_ends ((setModules_shape.and setModules_ends).mono ?_ ?_)) fun _ _ h => h
  · rintro - m' ⟨hm', -⟩
    rw [hm']
    refine ⟨⟨hplaced _, rfl⟩, hact _, fun h => ⟨?_, ?_⟩⟩
    · exact LRUCache.suffix_keys_put (hG h).active (hG h).fresh
    · change ids ++ [id] <:+ (s.manager.registered.touch id).keys
      rw [LRUCache.touch_last (hG h).registered]
      exact (hG h).registered
  · rintro - m' ⟨⟨moduleName, hm'⟩, -, -, hnot⟩
    rw [hm']
    refine ⟨⟨(hplaced m'.slotWeights).adjust lora.id moduleName, rfl⟩, fun h => hnot ?_⟩
    refine (hG h).bias.imp_right fun hnone m hm _ => ?_
    cases hb : lora.bias m with
    | false => rfl
    | true =>
      have htrue := hbias m hb
      rw [hnone m hm] at htrue
      cases htrue

/-- **An activation**, with the promise to the batch kept if it was given. -/
theorem Valid.activateAdapter_ends
    (hreg : s.manager.isRegistered id = true) (hG : G → s.PromiseActive C L modules ids id) :
    Ends (activateAdapter C modules id) s (fun _ s' => Activated C L s ids id G s')
      (fun _ s' => Kept C L s s' ∧ ¬ G) := by
  cases hid : s.manager.isActive id with
  | true =>
    refine .of_ok (activateAdapter_active hid) ⟨⟨hv.touchActive, rfl⟩,
      LoRAManager.isActive_touch.trans hid, fun h => ⟨?_, (hG h).registered⟩⟩
    exact LRUCache.suffix_keys_touch (hG h).active (hG h).fresh (isActive_iff_mem.mp hid)
  | false =>
    have hpin : id ∉ s.pinnedActive := by
      intro h
      rw [hv.pinnedActive id h] at hid
      cases hid
    have hle := hv.activeLength
    apply Ends.get
    refine Ends.ite_bind (R := fun _ s' => Kept C L s s' ∧ s'.manager.isActive id = false ∧
      s'.manager.active.length < C.maxLoras ∧ s'.manager.registered = s.manager.registered ∧
        (G → ids <:+ s'.manager.active.keys)) ?_ ?_ ?_
    · -- the oldest adapter that is not pinned goes, which is none of the batch
      rintro ⟨-, hfull⟩
      have hpos := C.pos
      apply Ends.get
      rw [if_neg (by omega)]
      refine hv.popitemActive_ends.mono (fun _ s' hs' => ?_) ?_
      · have hlength := hs'.length
        refine ⟨⟨hs'.valid, hs'.pins⟩, ?_, by omega, hs'.registered, fun h => ?_⟩
        · rw [← Bool.not_eq_true] at hid ⊢
          exact mt (hs'.active id) hid
        · have hcard := (hG h).fits.1
          rw [card_snoc hpin (hG h).fresh] at hcard
          exact hs'.recent ids (hG h).active (by omega)
      · rintro - s' ⟨rfl, hpinned⟩
        refine ⟨⟨hv, rfl⟩, fun h => ?_⟩
        have hcard := (hG h).fits.1
        rw [card_snoc hpin (hG h).fresh] at hcard
        have hpinned := hpinned ids
        omega
    · intro hroom
      exact ⟨⟨hv, rfl⟩, hid, not_le.mp fun hfull => hroom ⟨hid, hfull⟩, rfl,
        fun h => (hG h).active⟩
    · rintro s' ⟨hkept, hid', hroom, hregistered, hrecent⟩
      have hreg' : s'.manager.isRegistered id = true := by
        unfold LoRAManager.isRegistered
        rw [hregistered]
        exact hreg
      have hG' : G → s'.PromiseActive C L modules ids id := fun h =>
        ⟨(hG h).fresh, hrecent h, hregistered ▸ (hG h).registered,
          (fits_congr hkept.2).mpr (hG h).fits, (hG h).bias⟩
      refine Ends.bind (Q := fun _ t => Activated C L s ids id G t)
        ((hkept.1.activateInFreeSlot_ends hid' hreg' hroom hG').mono ?_ ?_) ?_
      · exact fun _ t ht => ⟨hkept.trans ht.1, ht.2⟩
      · exact fun _ t ht => ⟨hkept.trans ht.1, ht.2⟩
      · -- the adapter is a second time the one used last
        rintro - t ⟨hkept, hact, hrecent⟩
        refine Ends.of_ok rfl ⟨⟨hkept.1.touchActive, hkept.2⟩, LoRAManager.isActive_touch.trans hact,
          fun h => ⟨?_, (hrecent h).2⟩⟩
        change ids ++ [id] <:+ (t.manager.active.touch id).keys
        rw [LRUCache.touch_last (hrecent h).1]
        exact (hrecent h).1

/-- **The addition of an adapter of a batch.** -/
theorem Valid.addAdapter_ends (hG : G → s.Promise C ids id ∧ C.AllowsBias L modules id) :
    Ends (addAdapter C L modules id) s
      (fun _ s' => Kept C L s s' ∧ (G → s'.Recent (ids ++ [id])))
      (fun _ s' => Kept C L s s' ∧ ¬ G) := by
  refine Ends.bind (hv.cacheAdapter_ends fun h => (hG h).1) ?_
  rintro loaded t ⟨hkept, hreg, hpromise⟩
  have hG' : G → t.PromiseActive C L modules ids id := fun h =>
    ⟨(hG h).1.fresh, (hpromise h).1, (hpromise h).2, (fits_congr hkept.2).mpr (hG h).1.fits,
      (hG h).2⟩
  refine Ends.bind (Q := fun _ u => Kept C L s u ∧ (G → u.Recent (ids ++ [id])))
    ((hkept.1.activateAdapter_ends hreg hG').mono ?_ ?_) fun _ _ h => h
  · exact fun _ u hu => ⟨hkept.trans hu.1, hu.2.2⟩
  · exact fun _ u hu => ⟨hkept.trans hu.1, hu.2⟩

/-- An addition keeps the invariant, whether it returns or raises. -/
theorem Valid.addAdapter : (after (addAdapter C L modules id) s).Valid C L := by
  have hends : Ends (PinnedManager.addAdapter C L modules id) s
      (fun _ s' => Kept C L s s' ∧ (False → s'.Recent ([] ++ [id])))
      (fun _ s' => Kept C L s s' ∧ ¬ False) := hv.addAdapter_ends False.elim
  exact (hends.mono (fun _ _ h => h.1.1) fun _ _ h => h.1.1).after

/-! ## Pins -/

/-- **`pin_adapter`** keeps the invariant, whether it returns or raises. -/
theorem Valid.pinAdapter : (after (pinAdapter C modules id) s).Valid C L := by
  refine Ends.after (I := Valid C L) ?_
  have hcpu : Ends (pinLoraInCpuCache id) s
      (fun _ t => t.Valid C L ∧ t.manager.isRegistered id = true ∧ id ∈ t.pinnedRegistered)
      (fun _ t => t.Valid C L) := by
    apply Ends.get
    cases hid : s.manager.isRegistered id with
    | false =>
      rw [if_neg (by simp)]
      exact .of_error rfl hv
    | true =>
      rw [if_pos rfl]
      refine .of_ok rfl ⟨⟨hv.oneSlot, hv.slots, hv.active_iff, hv.registered, hv.contents,
        hv.activeLength, hv.registeredLength, hv.pinnedActive, ?_, ?_⟩, hid,
        Finset.mem_insert_self _ _⟩
      · intro j hj
        rcases mem_insert.mp hj with rfl | hj
        · exact hid
        · exact hv.pinnedRegistered j hj
      · exact hv.pinned.trans (Finset.subset_insert _ _)
  have hpin : ∀ t : PinnedManager W, t.Valid C L → id ∈ t.pinnedRegistered →
      Ends (pinActive id) t (fun _ u => u.Valid C L) (fun _ u => u.Valid C L) := by
    intro t ht hmem
    apply Ends.get
    cases hid : t.manager.isActive id with
    | false =>
      rw [if_neg (by simp)]
      exact .of_error rfl ht
    | true =>
      rw [if_pos rfl]
      refine .of_ok rfl ⟨ht.oneSlot, ht.slots, ht.active_iff, ht.registered, ht.contents,
        ht.activeLength, ht.registeredLength, ?_, ht.pinnedRegistered, ?_⟩
      · intro j hj
        rcases mem_insert.mp hj with rfl | hj
        · exact hid
        · exact ht.pinnedActive j hj
      · exact Finset.insert_subset hmem ht.pinned
  refine Ends.bind hcpu ?_
  rintro - t ⟨ht, hreg, hmem⟩
  apply Ends.get
  cases hid : t.manager.isActive id with
  | true =>
    rw [if_neg (by simp)]
    exact hpin t ht hmem
  | false =>
    rw [if_pos rfl]
    have hactivate : Ends (activateAdapter C modules id) t
        (fun _ u => u.Valid C L ∧ id ∈ u.pinnedRegistered) (fun _ u => u.Valid C L) := by
      have hends : Ends (activateAdapter C modules id) t
          (fun _ u => Activated C L t [] id False u) (fun _ u => Kept C L t u ∧ ¬ False) :=
        ht.activateAdapter_ends hreg False.elim
      refine hends.mono ?_ fun _ u hu => hu.1.1
      rintro - u ⟨⟨hu, hpins⟩, -⟩
      have hregistered : u.pinnedRegistered = t.pinnedRegistered := congrArg Prod.fst hpins
      exact ⟨hu, hregistered ▸ hmem⟩
    exact Ends.bind hactivate fun _ u hu => hpin u hu.1 hu.2

omit hv

/-! ## Batches -/

theorem nodup_eraseDups (l : List LoRAId) : l.eraseDups.Nodup := by
  induction hn : l.length using Nat.strong_induction_on generalizing l with
  | h n ih =>
    cases l with
    | nil => exact List.nodup_nil
    | cons id l =>
      have hlt : (l.filter fun j => !j == id).length < n := by
        rw [← hn, List.length_cons]
        exact Nat.lt_succ_of_le (List.length_filter_le ..)
      rw [List.eraseDups_cons, List.nodup_cons]
      refine ⟨fun h => ?_, ih _ hlt _ rfl⟩
      have hmem := (List.mem_filter.mp (List.mem_eraseDups.mp h)).2
      simp at hmem

theorem Fits.mono {ids' : List LoRAId} (h : s.Fits C ids') (hsub : ids ⊆ ids') : s.Fits C ids := by
  have hsub' : ids.toFinset ⊆ ids'.toFinset := by
    intro j hj
    exact mem_toFinset.mpr (hsub (mem_toFinset.mp hj))
  exact ⟨(card_le_card (Finset.union_subset_union_right hsub')).trans h.1,
    (card_le_card (Finset.union_subset_union_right hsub')).trans h.2⟩

/-- **The adapters of a batch**, one after the other. -/
theorem Valid.applyAdapters_ends (hv : s.Valid C L)
    (hG : G → requests.eraseDups.length ≤ C.maxLoras ∧ s.Fits C requests ∧
      ∀ id ∈ requests, C.AllowsBias L modules id) :
    Ends (applyAdapters C L modules requests) s
      (fun _ s' => Kept C L s s' ∧ (G → s'.Recent requests.eraseDups))
      (fun _ s' => Kept C L s s' ∧ ¬ G) := by
  unfold applyAdapters
  by_cases hmany : C.maxLoras < requests.eraseDups.length
  · rw [if_pos hmany]
    exact .of_error rfl ⟨⟨hv, rfl⟩, fun h => not_le.mpr hmany (hG h).1⟩
  · rw [if_neg hmany]
    let J : List LoRAId → PinnedManager W → Prop := fun done t =>
      Kept C L s t ∧ (G → t.Recent done)
    have hnil : J [] s := ⟨⟨hv, rfl⟩, fun _ => ⟨List.nil_suffix, List.nil_suffix⟩⟩
    refine Ends.forM (J := J) ?_ hnil
    rintro done id rest t hl ⟨hkept, hrecent⟩
    have hfresh : id ∉ done := by
      have hnodup := hl ▸ nodup_eraseDups requests
      exact fun h => (List.nodup_append.mp hnodup).2.2 id h id List.mem_cons_self rfl
    have hsub : done ++ [id] ⊆ requests := by
      intro j hj
      rw [← List.mem_eraseDups, ← hl]
      simp only [List.mem_append, List.mem_cons] at hj ⊢
      tauto
    have hG' : G → t.Promise C done id ∧ C.AllowsBias L modules id := fun h =>
      ⟨⟨hfresh, (hrecent h).1, (hrecent h).2, (fits_congr hkept.2).mpr ((hG h).2.1.mono hsub)⟩,
        (hG h).2.2 id (hsub (by simp))⟩
    refine Ends.bind (Q := fun _ u => J (done ++ [id]) u) ((hkept.1.addAdapter_ends hG').mono ?_ ?_)
      fun _ _ h => h
    · exact fun _ u hu => ⟨hkept.trans hu.1, hu.2⟩
    · exact fun _ u hu => ⟨hkept.trans hu.1, hu.2⟩

/-! ## What the kernels are given -/

/-- Every id of a mapping is that of an adapter with a slot, or 0. -/
def HasSlots (mapping : LoRAMapping) (m : LoRAManager W) : Prop :=
  ∀ id, id ∈ mapping.indexMapping ∨ id ∈ mapping.promptMapping → id = 0 ∨ some id ∈ m.loraIndexToId

theorem convertMapping_ok (h : HasSlots mapping m) :
    ∃ indices, convertMapping mapping m.loraIndexToId = .ok indices := by
  have hslot : ∀ id, id ∈ mapping.indexMapping ∨ id ∈ mapping.promptMapping →
      ∃ index, slotOf m.loraIndexToId id = .ok index ∧ True := by
    intro id hid
    unfold slotOf
    by_cases hpos : 0 < id
    · rw [if_pos hpos]
      have hmem := (h id hid).resolve_left (Nat.pos_iff_ne_zero.mp hpos)
      cases hidx : m.loraIndexToId.idxOf? (some id) with
      | none => exact absurd hmem (List.idxOf?_eq_none_iff.mp hidx)
      | some i => exact ⟨i, rfl, trivial⟩
    · rw [if_neg hpos]
      exact ⟨-1, rfl, trivial⟩
  obtain ⟨samplers, hsamplers, -⟩ := Outcome.exists_mapM_ok fun id hid => hslot id (.inr hid)
  obtain ⟨tokens, htokens, -⟩ := Outcome.exists_mapM_ok fun id hid => hslot id (.inl hid)
  refine ⟨⟨tokens, samplers⟩, ?_⟩
  exact Outcome.bind_eq_ok.mpr ⟨samplers, hsamplers,
    Outcome.bind_eq_ok.mpr ⟨tokens, htokens, rfl⟩⟩

/-- The caches and the slots do not depend on what the kernels are given. -/
theorem setAdapterMapping_ends :
    Ends (LoRAManager.setAdapterMapping mapping) m
      (fun _ m' => m' = { m with punica := m'.punica, lastMapping := m'.lastMapping })
      (fun _ m' => m' = m ∧ ¬ HasSlots mapping m) := by
  apply Ends.get
  by_cases hlast : m.lastMapping = some mapping
  · rw [if_pos hlast]
    exact .of_ok rfl rfl
  · rw [if_neg hlast]
    have hupdate : Ends (LoRAManager.updateMetadata mapping) m
        (fun _ m' => m' = { m with punica := m'.punica, lastMapping := m'.lastMapping })
        (fun _ m' => m' = m ∧ ¬ HasSlots mapping m) := by
      apply Ends.get
      cases hconvert : convertMapping mapping m.loraIndexToId with
      | ok indices => exact .of_ok rfl rfl
      | error e =>
        refine .of_error rfl ⟨rfl, fun h => ?_⟩
        obtain ⟨indices, hok⟩ := convertMapping_ok h
        rw [hconvert] at hok
        cases hok
    refine Ends.bind hupdate fun _ m' hm' => .modify ?_
    rw [hm']

theorem Valid.givenToKernels (hv : s.Valid C L)
    (hm : m = { s.manager with punica := m.punica, lastMapping := m.lastMapping }) :
    Kept C L s { s with manager := m } := by
  rw [hm]
  exact ⟨⟨hv.oneSlot, hv.slots, hv.active_iff, hv.registered, hv.contents, hv.activeLength,
    hv.registeredLength, hv.pinnedActive, hv.pinnedRegistered, hv.pinned⟩, rfl⟩

/-- **`set_active_adapters`**, with all adapters of the batch active if they fit. -/
theorem Valid.setActiveAdapters_ends (hv : s.Valid C L)
    (hG : G → (requests.eraseDups.length ≤ C.maxLoras ∧ s.Fits C requests ∧
      ∀ id ∈ requests, C.AllowsBias L modules id) ∧
      ∀ id, id ∈ mapping.indexMapping ∨ id ∈ mapping.promptMapping → id = 0 ∨ id ∈ requests) :
    Ends (setActiveAdapters C L modules requests mapping) s
      (fun _ s' => Kept C L s s' ∧ (G → ∀ id ∈ requests, s'.manager.isActive id = true))
      (fun _ s' => Kept C L s s' ∧ ¬ G) := by
  refine Ends.bind (hv.applyAdapters_ends fun h => (hG h).1) ?_
  rintro - t ⟨hkept, hrecent⟩
  have hactive : G → ∀ id ∈ requests, t.manager.isActive id = true := fun h id hid =>
    isActive_iff_mem.mpr ((hrecent h).1.subset (List.mem_eraseDups.mpr hid))
  refine onManager_ends (setAdapterMapping_ends.mono ?_ ?_)
  · intro _ m hm
    refine ⟨hkept.trans (hkept.1.givenToKernels hm), fun h id hid => ?_⟩
    rw [hm]
    exact hactive h id hid
  · rintro _ m ⟨rfl, hno⟩
    refine ⟨hkept, fun h => hno fun id hid => ?_⟩
    exact ((hG h).2 id hid).imp_right fun hmem => (hkept.1.active_iff id).mp (hactive h id hmem)

/-- A batch keeps the invariant and the pins, whether it is served or not. -/
theorem Valid.setActiveAdapters (hv : s.Valid C L) :
    Kept C L s (after (setActiveAdapters C L modules requests mapping) s) := by
  have hends : Ends (PinnedManager.setActiveAdapters C L modules requests mapping) s
      (fun _ s' => Kept C L s s' ∧ (False → ∀ id ∈ requests, s'.manager.isActive id = true))
      (fun _ s' => Kept C L s s' ∧ ¬ False) := hv.setActiveAdapters_ends False.elim
  exact (hends.mono (fun _ _ h => h.1) fun _ _ h => h.1).after

end PinnedManager

/-! ## Runs -/

section Runs

variable {s s' : PinnedManager W} {requests : List LoRAId} {mapping : LoRAMapping}

open PinnedManager

/-- **Every run** keeps the invariant. -/
theorem valid_of_reach {ok : PinnedManager W → PinOp → Prop}
    (h : (pinMachine C L modules).Reach ok s) : s.Valid C L := by
  refine h.invariant ?_ ?_
  · have hnone : ∀ (i : Nat) (id : LoRAId),
        (List.replicate C.maxLoras (none : Option LoRAId))[i]? ≠ some (some id) := by
      intro i id hi
      rw [List.getElem?_replicate] at hi
      split_ifs at hi
      cases hi
    refine ⟨fun i _ id hi => absurd hi (hnone i id), List.length_replicate, ?_,
      fun id hact => (by cases hact), fun id lora hget => (by cases hget), Nat.zero_le _,
      Nat.zero_le _, fun id hid => absurd hid (Finset.notMem_empty id),
      fun id hid => absurd hid (Finset.notMem_empty id), Finset.Subset.refl _⟩
    intro id
    constructor
    · exact fun hact => (by cases hact)
    · intro hid
      obtain ⟨i, hi⟩ := mem_iff_getElem?.mp hid
      exact absurd hi (hnone i id)
  · intro s op s' hv _ hs
    cases op with
    | addAdapter id =>
      cases hs
      exact hv.addAdapter
    | removeAdapter id =>
      cases hs
      exact hv.removeAdapter
    | pinAdapter id =>
      cases hs
      exact hv.pinAdapter
    | setActiveAdapters requests mapping =>
      cases hs
      exact hv.setActiveAdapters.1

/-! ## The caches and the slots -/

/-- The active adapters are those with a slot, each has one, they are registered, and both caches are
within their bounds with all that is pinned there. -/
structure PinnedManager.CachesAgree (C : LoRAConfig) (s : PinnedManager W) : Prop where
  slot : ∀ id, s.manager.isActive id = true ↔ ∃! i : Nat, s.manager.loraIndexToId[i]? = some (some id)
  registered : ∀ id, s.manager.isActive id = true → s.manager.isRegistered id = true
  activeLength : s.manager.active.length ≤ C.maxLoras
  registeredLength : s.manager.registered.length ≤ C.maxCpuLoras
  pinnedActive : ∀ id ∈ s.pinnedActive, s.manager.isActive id = true
  pinnedRegistered : ∀ id ∈ s.pinnedRegistered, s.manager.isRegistered id = true

/-- **The caches and the slots agree in every run**, also behind calls that have failed. -/
theorem cachesAgree_of_reach (h : (pinMachine C L modules).Reach (fun _ _ => True) s) :
    s.CachesAgree C := by
  have hv := valid_of_reach h
  refine ⟨fun id => ?_, hv.registered, hv.activeLength, hv.registeredLength, hv.pinnedActive,
    hv.pinnedRegistered⟩
  rw [hv.active_iff, mem_iff_getElem?]
  exact ⟨fun ⟨i, hi⟩ => ⟨i, hi, fun j hj => hv.oneSlot j i id hj hi⟩, fun ⟨i, hi, _⟩ => ⟨i, hi⟩⟩

/-- A state with all adapters of a batch active has them and the pinned ones in its caches. -/
theorem fits_of_active (hv : s.Valid C L) (h : ∀ id ∈ requests, s.manager.isActive id = true) :
    s.Fits C requests := by
  have hactive : s.pinnedActive ∪ requests.toFinset ⊆ s.manager.active.keys.toFinset := by
    intro id hid
    rw [mem_toFinset]
    rcases mem_union.mp hid with hid | hid
    · exact isActive_iff_mem.mp (hv.pinnedActive id hid)
    · exact isActive_iff_mem.mp (h id (mem_toFinset.mp hid))
  have hregistered :
      s.pinnedRegistered ∪ requests.toFinset ⊆ s.manager.registered.keys.toFinset := by
    intro id hid
    rw [mem_toFinset]
    rcases mem_union.mp hid with hid | hid
    · exact isRegistered_iff_mem.mp (hv.pinnedRegistered id hid)
    · exact isRegistered_iff_mem.mp (hv.registered id (h id (mem_toFinset.mp hid)))
  have hcard := card_le_card hactive
  have hcard' := card_le_card hregistered
  rw [List.toFinset_card_of_nodup (LRUCache.nodup_keys _), LRUCache.length_keys] at hcard hcard'
  exact ⟨hcard.trans hv.activeLength, hcard'.trans hv.registeredLength⟩

/-! ## Main result -/

/-- **Batches beside pins.** In every run, what is pinned stays in its cache, and a batch of at most as
many adapters as there are slots is served exactly if it fits into both caches beside what is pinned
there. -/
theorem setActiveAdapters_serves_iff (h : (pinMachine C L modules).Reach (fun _ _ => True) s)
    (hmany : requests.eraseDups.length ≤ C.maxLoras)
    (hbias : ∀ id ∈ requests, C.AllowsBias L modules id)
    (hmapping : ∀ id, id ∈ mapping.indexMapping ∨ id ∈ mapping.promptMapping →
      id = 0 ∨ id ∈ requests) :
    ((∀ id ∈ s.pinnedActive,
        (after (setActiveAdapters C L modules requests mapping) s).manager.isActive id = true) ∧
      ∀ id ∈ s.pinnedRegistered,
        (after (setActiveAdapters C L modules requests mapping) s).manager.isRegistered id = true) ∧
    ((∃ s', setActiveAdapters C L modules requests mapping s = .ok ⟨⟩ s' ∧
        ∀ id ∈ requests, s'.manager.isActive id = true) ↔ s.Fits C requests) := by
  have hv := valid_of_reach h
  have hends : Ends (setActiveAdapters C L modules requests mapping) s
      (fun _ s' => Kept C L s s' ∧
        (s.Fits C requests → ∀ id ∈ requests, s'.manager.isActive id = true))
      (fun _ s' => Kept C L s s' ∧ ¬ s.Fits C requests) :=
    hv.setActiveAdapters_ends fun hfits => ⟨⟨hmany, hfits, hbias⟩, hmapping⟩
  have hkept : Kept C L s (after (setActiveAdapters C L modules requests mapping) s) :=
    hv.setActiveAdapters
  obtain ⟨hregistered, hactive⟩ := Prod.ext_iff.mp hkept.2
  refine ⟨⟨fun id hid => ?_, fun id hid => ?_⟩, ?_, fun hfits => ?_⟩
  · exact hkept.1.pinnedActive id ((congrArg (id ∈ ·) hactive).mpr hid)
  · exact hkept.1.pinnedRegistered id ((congrArg (id ∈ ·) hregistered).mpr hid)
  · rintro ⟨s', hrun, hall⟩
    obtain ⟨hkept', -⟩ := hends.ok hrun
    exact (fits_congr hkept'.2).mp (fits_of_active hkept'.1 hall)
  · cases hrun : setActiveAdapters C L modules requests mapping s with
    | ok _ s' => exact ⟨s', rfl, (hends.ok hrun).2 hfits⟩
    | error e s' => exact absurd hfits (hends.error hrun).2

end Runs

section Example

open PinnedManager

/-- A batch of two tokens and two prompts of adapters 2 and 3. -/
def twoTokens : LoRAMapping := { indexMapping := [2, 3], promptMapping := [2, 3] }

/-- Adapter 1 is pinned, and both caches have two places. -/
def onePinned : PinnedManager Nat :=
  after (pinAdapter twoSlots ["qkv_proj"] 1)
    (after (addAdapter twoSlots idLoader ["qkv_proj"] 1) { manager := { loraIndexToId := [none, none] } })

theorem onePinned_reach :
    (pinMachine twoSlots idLoader ["qkv_proj"]).Reach (fun _ _ => True) onePinned :=
  .next (i := .pinAdapter 1) (.next (i := .addAdapter 1) .start trivial rfl) trivial rfl

theorem onePinned_cachesAgree : onePinned.CachesAgree twoSlots :=
  cachesAgree_of_reach onePinned_reach

theorem idLoader_allowsBias (requests : List LoRAId) :
    ∀ id ∈ requests, twoSlots.AllowsBias idLoader ["qkv_proj"] id :=
  fun _ _ => .inr fun _ _ => rfl

/-- A batch of one adapter fits beside the pinned one, and is served. -/
theorem onePinned_serves : ∃ s', setActiveAdapters twoSlots idLoader ["qkv_proj"] [2]
      { indexMapping := [2], promptMapping := [2] } onePinned = .ok ⟨⟩ s' ∧
    ∀ id ∈ [2], s'.manager.isActive id = true := by
  have hmapping : ∀ id, id ∈ [2] ∨ id ∈ [2] → id = 0 ∨ id ∈ [2] := fun id hid => .inr (by tauto)
  exact (setActiveAdapters_serves_iff onePinned_reach (by decide) (idLoader_allowsBias [2])
    hmapping).2.mpr (by decide +kernel)

/-- What a batch of two adapters leaves. -/
def afterTwoTokens : PinnedManager Nat :=
  after (setActiveAdapters twoSlots idLoader ["qkv_proj"] [2, 3] twoTokens) onePinned

/-- A batch of two adapters, as many as there are slots: adapter 3 evicts adapter 2 of the same batch.
-/
theorem onePinned_fails :
    (pinMachine twoSlots idLoader ["qkv_proj"]).Reach (fun _ _ => True) onePinned ∧
    [2, 3].eraseDups.length ≤ twoSlots.maxLoras ∧
    (∀ id ∈ [2, 3], twoSlots.AllowsBias idLoader ["qkv_proj"] id) ∧
    setActiveAdapters twoSlots idLoader ["qkv_proj"] [2, 3] twoTokens onePinned =
      .error (.lora (.notInList 2)) afterTwoTokens ∧
    afterTwoTokens.manager.loraIndexToId = [some 1, some 3] :=
  ⟨onePinned_reach, by decide, idLoader_allowsBias [2, 3], error_of_raised (by decide +kernel),
    by decide +kernel⟩

end Example

end InferenceServer.Worker
