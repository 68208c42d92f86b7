import InferenceServer.Worker.LoRAManager

/-!
# Pinned adapters

An adapter of a worker can be pinned, and is then evicted from neither of the two caches
(`vllm/lora/models.py`, `vllm/adapter_commons/utils.py`, and the cache with pins of
`vllm/utils/__init__.py`). An eviction takes the least recently used adapter that is not pinned, and
raises if there is none. Removing an adapter removes its pins.

The caches, the slots and the kernels are those of `LoRAManager`; the pins come on top of it, and the
operations are those of `LoRAManager` with the evictions of a cache with pins. An adapter that
cannot be loaded changes nothing, so that its operations are left out of the runs.
-/

namespace InferenceServer.Worker

inductive PinError where
  | lora (e : LoRAError)
  /-- `RuntimeError` of `popitem`. -/
  | allPinned
  /-- `ValueError` of `_pin_lora_in_cpu_cache`. -/
  | notRegistered (id : LoRAId)
  /-- `ValueError` of `pin`. -/
  | notInCache (id : LoRAId)
  deriving DecidableEq, Repr

/-- `LRUCacheLoRAModelManager`, with the pins of its caches. -/
structure PinnedManager (W : Type) where
  manager : LoRAManager W
  /-- `_registered_adapters.pinned_items`. -/
  pinnedRegistered : Finset LoRAId := ∅
  /-- `_active_adapters.pinned_items`. -/
  pinnedActive : Finset LoRAId := ∅

namespace PinnedManager

variable {W α : Type}

/-- What does not depend on the pins. -/
def onManager (x : EStateM LoRAError (LoRAManager W) α) : EStateM PinError (PinnedManager W) α :=
  fun s =>
    match x s.manager with
    | .ok a manager => .ok a { s with manager }
    | .error e manager => .error (.lora e) { s with manager }

theorem onManager_ends {x : EStateM LoRAError (LoRAManager W) α} {s : PinnedManager W}
    {Q : α → PinnedManager W → Prop} {E : PinError → PinnedManager W → Prop}
    (h : Raising.Ends x s.manager (fun a manager => Q a { s with manager })
      (fun e manager => E (.lora e) { s with manager })) : Raising.Ends (onManager x) s Q E := by
  cases hx : x s.manager with
  | ok a manager => exact .of_ok (by rw [onManager, hx]) (h.ok hx)
  | error e manager => exact .of_error (by rw [onManager, hx]) (h.error hx)

/-! ## Leaving the caches -/

/-- `_active_adapters.pop`, with the callback. -/
def popActive (s : PinnedManager W) (id : LoRAId) : PinnedManager W :=
  if s.manager.isActive id then
    { s with manager := s.manager.popActive id, pinnedActive := s.pinnedActive.erase id }
  else s

/-- `deactivate_adapter`. -/
def deactivateAdapter (s : PinnedManager W) (id : LoRAId) : PinnedManager W :=
  if s.manager.isActive id then { s with manager := s.manager.freeSlot id }.popActive id else s

/-- `_registered_adapters.pop`, with the callback. -/
def popRegistered (s : PinnedManager W) (id : LoRAId) : PinnedManager W :=
  if s.manager.isRegistered id then
    { s with
      manager := { s.manager with registered := s.manager.registered.erase id }
      pinnedRegistered := s.pinnedRegistered.erase id }.deactivateAdapter id
  else s

/-- `remove_adapter`. -/
def removeAdapter (s : PinnedManager W) (id : LoRAId) : PinnedManager W :=
  (s.deactivateAdapter id).popRegistered id

/-- The least recently used key that is not pinned. -/
def oldestUnpinned (keys : List LoRAId) (pinnedItems : Finset LoRAId) : Option LoRAId :=
  keys.find? fun id => decide (id ∉ pinnedItems)

/-- `_active_adapters.popitem`. -/
def popitemActive : EStateM PinError (PinnedManager W) PUnit := do
  let s ← get
  match oldestUnpinned s.manager.active.keys s.pinnedActive with
  | none => throw .allPinned
  | some id => set (s.popActive id)

/-- `_registered_adapters.popitem`. -/
def popitemRegistered : EStateM PinError (PinnedManager W) PUnit := do
  let s ← get
  match oldestUnpinned s.manager.registered.keys s.pinnedRegistered with
  | none => throw .allPinned
  | some id => set (s.popRegistered id)

/-- `_active_adapters.remove_oldest`. -/
def removeOldestActive : EStateM PinError (PinnedManager W) PUnit := do
  let s ← get
  if s.manager.active.length = 0 then return else popitemActive

/-- `remove_oldest_adapter`. -/
def removeOldestAdapter : EStateM PinError (PinnedManager W) PUnit := do
  let s ← get
  if s.manager.registered.length = 0 then return else popitemRegistered

/-! ## Entering the caches -/

variable (C : LoRAConfig) (L : LoRALoader W) (modules : List String)

/-- `_registered_adapters[lora.id] = lora`. -/
def register (lora : LoRAModel W) : EStateM PinError (PinnedManager W) PUnit := do
  let s ← get
  if s.manager.isRegistered lora.id = false then
    (List.range (s.manager.registered.length + 1 - C.maxCpuLoras)).forM fun _ => popitemRegistered
  modify fun s => { s with
    manager := { s.manager with registered := s.manager.registered.put lora.id lora } }

/-- `_active_adapters[lora_id] = None`. -/
def activate (id : LoRAId) : EStateM PinError (PinnedManager W) PUnit := do
  let s ← get
  if s.manager.isActive id = false then
    (List.range (s.manager.active.length + 1 - C.maxLoras)).forM fun _ => popitemActive
  modify fun s => { s with manager := { s.manager with active := s.manager.active.put id () } }

/-- `activate_adapter` of the base class. -/
def activateInFreeSlot (id : LoRAId) : EStateM PinError (PinnedManager W) Bool := do
  let s ← get
  if s.manager.isActive id then return false
  match s.manager.loraIndexToId.idxOf? none with
  | none => throw (.lora .noFreeSlots)
  | some index =>
    activate C id
    let s ← get
    match s.manager.registered.get? id with
    | none => throw (.lora (.keyError id))
    | some lora =>
      modify fun s => { s with
        manager := { s.manager with
          registered := s.manager.registered.touch id
          loraIndexToId := s.manager.loraIndexToId.set index (some lora.id) } }
      onManager (modules.forM (LoRAManager.setModule C index lora))
      return true

/-- `activate_adapter`. -/
def activateAdapter (id : LoRAId) : EStateM PinError (PinnedManager W) Bool := do
  let s ← get
  if s.manager.isActive id = false ∧ C.maxLoras ≤ s.manager.active.length then removeOldestActive
  let result ← activateInFreeSlot C modules id
  modify fun s => { s with manager := { s.manager with active := s.manager.active.touch id } }
  return result

/-- `add_adapter` of the manager. -/
def addToCache (lora : LoRAModel W) : EStateM PinError (PinnedManager W) Bool := do
  let s ← get
  if s.manager.isRegistered lora.id then
    modify fun s => { s with
      manager := { s.manager with registered := s.manager.registered.touch lora.id } }
    return false
  else
    register C lora
    return true

/-- The first half of `add_adapter` of the worker: the adapter is brought into the cache of the host,
or used if it is there. -/
def cacheAdapter (id : LoRAId) : EStateM PinError (PinnedManager W) Bool := do
  let s ← get
  if s.manager.isRegistered id then
    -- `get_adapter` is a use of the adapter
    modify fun s => { s with
      manager := { s.manager with registered := s.manager.registered.touch id } }
    return true
  else
    -- the adapter is loaded before another one is evicted
    let lora := L.load id
    if C.maxCpuLoras < s.manager.registered.length + 1 then removeOldestAdapter
    addToCache C lora

/-- `add_adapter` of the worker. -/
def addAdapter (id : LoRAId) : EStateM PinError (PinnedManager W) Bool := do
  let loaded ← cacheAdapter C L id
  let _ ← activateAdapter C modules id
  return loaded

/-- `_pin_lora_in_cpu_cache`. -/
def pinLoraInCpuCache (id : LoRAId) : EStateM PinError (PinnedManager W) PUnit := do
  let s ← get
  if s.manager.isRegistered id then
    set { s with pinnedRegistered := insert id s.pinnedRegistered }
  else throw (.notRegistered id)

/-- `_active_adapters.pin`. -/
def pinActive (id : LoRAId) : EStateM PinError (PinnedManager W) PUnit := do
  let s ← get
  if s.manager.isActive id then set { s with pinnedActive := insert id s.pinnedActive }
  else throw (.notInCache id)

/-- `_pin_lora_in_gpu_cache`. -/
def pinLoraInGpuCache (id : LoRAId) : EStateM PinError (PinnedManager W) PUnit := do
  let s ← get
  if s.manager.isActive id = false then let _ ← activateAdapter C modules id
  pinActive id

/-- `pin_adapter`. -/
def pinAdapter (id : LoRAId) : EStateM PinError (PinnedManager W) PUnit := do
  pinLoraInCpuCache id
  pinLoraInGpuCache C modules id

/-- `_apply_adapters`: the adapters are activated one after the other. -/
def applyAdapters (requests : List LoRAId) : EStateM PinError (PinnedManager W) PUnit :=
  let lorasMap := requests.eraseDups
  if C.maxLoras < lorasMap.length then throw (.lora (.tooManyLoras lorasMap.length C.maxLoras))
  else lorasMap.forM fun id => do
    let _ ← addAdapter C L modules id

/-- `set_active_adapters`. -/
def setActiveAdapters (requests : List LoRAId) (mapping : LoRAMapping) :
    EStateM PinError (PinnedManager W) PUnit := do
  applyAdapters C L modules requests
  onManager (LoRAManager.setAdapterMapping mapping)

end PinnedManager

/-- The operations of a worker with pins. -/
inductive PinOp where
  | addAdapter (id : LoRAId)
  | removeAdapter (id : LoRAId)
  | pinAdapter (id : LoRAId)
  /-- The adapters of the batch come in any order. -/
  | setActiveAdapters (requests : List LoRAId) (mapping : LoRAMapping)
  deriving DecidableEq, Repr

/-- All runs of the operations. An operation that raises leaves its changes behind. -/
def pinMachine {W : Type} (C : LoRAConfig) (L : LoRALoader W) (modules : List String) :
    Machine (PinnedManager W) PinOp PinError where
  init := { manager := { loraIndexToId := List.replicate C.maxLoras none } }
  step s
    | .addAdapter id => .ok (Raising.after (PinnedManager.addAdapter C L modules id) s)
    | .removeAdapter id => .ok (s.removeAdapter id)
    | .pinAdapter id => .ok (Raising.after (PinnedManager.pinAdapter C modules id) s)
    | .setActiveAdapters requests mapping =>
      .ok (Raising.after (PinnedManager.setActiveAdapters C L modules requests mapping) s)

end InferenceServer.Worker
