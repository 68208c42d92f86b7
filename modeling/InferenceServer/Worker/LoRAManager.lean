import InferenceServer.Lib.LRUCache
import InferenceServer.Lib.Raising
import InferenceServer.Lib.Run

/-!
# The LoRA adapters of a worker

A worker holds the LoRA adapters that it has loaded in a cache on the host, and the weights of some of
them in the slots of the device (`vllm/lora/models.py`, `vllm/lora/worker_manager.py`,
`vllm/adapter_commons/utils.py`). Both are least-recently-used caches: what leaves the cache of the
host is deactivated, and what is deactivated gives its slot back. For a batch, the adapters of the
batch are activated, and the LoRA ids of its tokens and its prompts are translated into slots for the
kernels (`vllm/lora/punica_wrapper/utils.py`), unless the ids are those of the batch before.

A LoRA id stands for one adapter; loading an adapter is a function of its id. Pinned adapters come in
`PinnedAdapters`. Dummy adapters, the indices into the embeddings and the padded indices are left out, and
so is the form of the weights: a module of the model has weights in an adapter or none.
-/

namespace InferenceServer.Worker

abbrev LoRAId := Nat

/-- The configuration; the bounds are those that it is checked for. -/
structure LoRAConfig where
  maxLoras : Nat
  maxCpuLoras : Nat
  biasEnabled : Bool := false
  pos : 1 ≤ maxLoras
  le : maxLoras ≤ maxCpuLoras

/-- An adapter: the weights of the modules, and whether they come with a bias. -/
structure LoRAModel (W : Type) where
  id : LoRAId
  weights : String → Option W
  bias : String → Bool := fun _ => false

/-- The adapters that can be loaded. An adapter is loaded under the id of its request. -/
structure LoRALoader (W : Type) where
  load : LoRAId → LoRAModel W
  load_id : ∀ id, (load id).id = id

/-- The LoRA ids of the tokens of a batch and of its prompts; 0 stands for no LoRA. -/
structure LoRAMapping where
  indexMapping : List LoRAId
  promptMapping : List LoRAId
  isPrefill : Bool := true
  deriving DecidableEq, Repr

inductive LoRAError where
  /-- `RuntimeError` of `_apply_adapters`. -/
  | tooManyLoras (requested slots : Nat)
  /-- `ValueError` of `activate_adapter`. -/
  | noFreeSlots
  /-- `ValueError` of `activate_adapter`. -/
  | biasNotEnabled (moduleName : String)
  /-- `ValueError` of `list.index`. -/
  | notInList (id : LoRAId)
  | keyError (id : LoRAId)
  deriving DecidableEq, Repr

/-- The slot of a LoRA id, -1 for no LoRA. -/
def slotOf (loraIndexToId : List (Option LoRAId)) (id : LoRAId) : Except LoRAError Int :=
  if 0 < id then
    match loraIndexToId.idxOf? (some id) with
    | some i => .ok i
    | none => .error (.notInList id)
  else .ok (-1)

/-- The slots of the tokens and of the prompts of a batch. -/
structure PunicaIndices where
  tokenLoraIndices : List Int
  samplerIndices : List Int
  deriving DecidableEq, Repr

/-- `convert_mapping`. -/
def convertMapping (mapping : LoRAMapping) (loraIndexToId : List (Option LoRAId)) :
    Except LoRAError PunicaIndices := do
  let samplerIndices ← mapping.promptMapping.mapM (slotOf loraIndexToId)
  let tokenLoraIndices ← mapping.indexMapping.mapM (slotOf loraIndexToId)
  return { tokenLoraIndices, samplerIndices }

/-- `LRUCacheLoRAModelManager`. -/
structure LoRAManager (W : Type) where
  /-- `_registered_adapters`. -/
  registered : LRUCache LoRAId (LoRAModel W) := .empty
  /-- `_active_adapters`. -/
  active : LRUCache LoRAId Unit := .empty
  loraIndexToId : List (Option LoRAId)
  /-- What was last set in a slot of a module, `none` if it was reset. -/
  slotWeights : Nat → String → Option W := fun _ _ => none
  /-- What the punica wrapper was last given. -/
  punica : Option PunicaIndices := none
  lastMapping : Option LoRAMapping := none

namespace LoRAManager

variable {W : Type}

def isRegistered (s : LoRAManager W) (id : LoRAId) : Bool := (s.registered.get? id).isSome

def isActive (s : LoRAManager W) (id : LoRAId) : Bool := (s.active.get? id).isSome

/-! ## Leaving the caches -/

/-- `_deactivate_adapter`: the slot is given back. -/
def freeSlot (s : LoRAManager W) (id : LoRAId) : LoRAManager W :=
  { s with loraIndexToId := s.loraIndexToId.set (s.loraIndexToId.idxOf (some id)) none }

/-- `_active_adapters.pop`, with the callback. -/
def popActive (s : LoRAManager W) (id : LoRAId) : LoRAManager W :=
  if s.isActive id then { s with active := s.active.erase id }.freeSlot id else s

/-- `_active_adapters.remove_oldest`. -/
def removeOldestActive (s : LoRAManager W) : LoRAManager W :=
  match s.active.keys with
  | [] => s
  | id :: _ => s.popActive id

/-- `deactivate_adapter`. -/
def deactivateAdapter (s : LoRAManager W) (id : LoRAId) : LoRAManager W :=
  if s.isActive id then (s.freeSlot id).popActive id else s

/-- `_registered_adapters.pop`, with the callback. -/
def popRegistered (s : LoRAManager W) (id : LoRAId) : LoRAManager W :=
  if s.isRegistered id then
    { s with registered := s.registered.erase id }.deactivateAdapter id
  else s

/-- `remove_oldest_adapter`. -/
def removeOldestAdapter (s : LoRAManager W) : LoRAManager W :=
  match s.registered.keys with
  | [] => s
  | id :: _ => s.popRegistered id

/-- `remove_adapter`. -/
def removeAdapter (s : LoRAManager W) (id : LoRAId) : LoRAManager W :=
  (s.deactivateAdapter id).popRegistered id

/-- `remove_all_adapters`. -/
def removeAllAdapters (C : LoRAConfig) (s : LoRAManager W) : LoRAManager W :=
  let s := s.registered.keys.foldl popRegistered s
  let s := { s with loraIndexToId := List.replicate C.maxLoras none }
  s.active.keys.foldl popActive s

/-! ## Entering the caches -/

/-- `_registered_adapters[lora.id] = lora`. -/
def register (C : LoRAConfig) (s : LoRAManager W) (lora : LoRAModel W) : LoRAManager W :=
  let s := if s.isRegistered lora.id then s else
    (List.range (s.registered.length + 1 - C.maxCpuLoras)).foldl
      (fun s _ => s.removeOldestAdapter) s
  { s with registered := s.registered.put lora.id lora }

/-- `_active_adapters[lora_id] = None`. -/
def activate (C : LoRAConfig) (s : LoRAManager W) (id : LoRAId) : LoRAManager W :=
  let s := if s.isActive id then s else
    (List.range (s.active.length + 1 - C.maxLoras)).foldl (fun s _ => s.removeOldestActive) s
  { s with active := s.active.put id () }

/-- `set_lora` and `reset_lora` of a module. -/
def setWeights (s : LoRAManager W) (index : Nat) (moduleName : String) (w : Option W) :
    LoRAManager W :=
  { s with
    slotWeights := Function.update s.slotWeights index
      (Function.update (s.slotWeights index) moduleName w) }

variable (C : LoRAConfig) (L : LoRALoader W) (modules : List String)

/-- The body of the loop of `activate_adapter` over the modules. -/
def setModule (index : Nat) (lora : LoRAModel W) (moduleName : String) :
    EStateM LoRAError (LoRAManager W) PUnit :=
  match lora.weights moduleName with
  | some w =>
    if lora.bias moduleName = true ∧ C.biasEnabled = false then do
      -- the bias of the adapter is dropped before the error is raised
      modify fun s => { s with
        registered := s.registered.adjust lora.id fun lora =>
          { lora with bias := Function.update lora.bias moduleName false } }
      throw (.biasNotEnabled moduleName)
    else modify fun s => s.setWeights index moduleName (some w)
  | none => modify fun s => s.setWeights index moduleName none

/-- `activate_adapter` of the base class. -/
def activateInFreeSlot (id : LoRAId) : EStateM LoRAError (LoRAManager W) Bool := do
  let s ← get
  if s.isActive id then return false
  match s.loraIndexToId.idxOf? none with
  | none => throw .noFreeSlots
  | some index =>
    modify fun s => s.activate C id
    let s ← get
    match s.registered.get? id with
    | none => throw (.keyError id)
    | some lora =>
      modify fun s => { s with
        registered := s.registered.touch id
        loraIndexToId := s.loraIndexToId.set index (some lora.id) }
      modules.forM (setModule C index lora)
      return true

/-- `activate_adapter`. -/
def activateAdapter (id : LoRAId) : EStateM LoRAError (LoRAManager W) Bool := do
  modify fun s =>
    if s.isActive id = false ∧ C.maxLoras ≤ s.active.length then s.removeOldestActive else s
  let result ← activateInFreeSlot C modules id
  modify fun s => { s with active := s.active.touch id }
  return result

/-- `add_adapter` of the manager. -/
def addToCache (lora : LoRAModel W) : EStateM LoRAError (LoRAManager W) Bool := do
  let s ← get
  if s.isRegistered lora.id then
    modify fun s => { s with registered := s.registered.touch lora.id }
    return false
  else
    modify fun s => s.register C lora
    return true

/-- The first half of `add_adapter` of the worker: the adapter is brought into the cache of the host,
or used if it is there. -/
def cacheAdapter (id : LoRAId) : EStateM LoRAError (LoRAManager W) Bool := do
  let s ← get
  if s.isRegistered id then
    -- `get_adapter` is a use of the adapter
    modify fun s => { s with registered := s.registered.touch id }
    return true
  else
    -- the adapter is loaded before another one is evicted
    let lora := L.load id
    modify fun s =>
      if C.maxCpuLoras < s.registered.length + 1 then s.removeOldestAdapter else s
    addToCache C lora

/-- `add_adapter` of the worker. -/
def addAdapter (id : LoRAId) : EStateM LoRAError (LoRAManager W) Bool := do
  let loaded ← cacheAdapter C L id
  let _ ← activateAdapter C modules id
  return loaded

/-- `_apply_adapters`: the adapters are activated one after the other. -/
def applyAdapters (requests : List LoRAId) : EStateM LoRAError (LoRAManager W) PUnit :=
  let lorasMap := requests.eraseDups
  if C.maxLoras < lorasMap.length then throw (.tooManyLoras lorasMap.length C.maxLoras)
  else lorasMap.forM fun id => do
    let _ ← addAdapter C L modules id

/-- `update_metadata` of the punica wrapper. -/
def updateMetadata (mapping : LoRAMapping) : EStateM LoRAError (LoRAManager W) PUnit := do
  let s ← get
  match convertMapping mapping s.loraIndexToId with
  | .ok indices => modify fun s => { s with punica := some indices }
  | .error e => throw e

/-- `set_adapter_mapping`: the mapping of the last call is not converted again. -/
def setAdapterMapping (mapping : LoRAMapping) : EStateM LoRAError (LoRAManager W) PUnit := do
  let s ← get
  if s.lastMapping = some mapping then return
  else
    updateMetadata mapping
    modify fun s => { s with lastMapping := some mapping }

/-- `set_active_adapters`. -/
def setActiveAdapters (requests : List LoRAId) (mapping : LoRAMapping) :
    EStateM LoRAError (LoRAManager W) PUnit := do
  applyAdapters C L modules requests
  setAdapterMapping mapping

end LoRAManager

/-- The operations of the worker. -/
inductive LoRAOp where
  | addAdapter (id : LoRAId)
  | removeAdapter (id : LoRAId)
  | removeAllAdapters
  /-- The adapters of the batch come in any order. -/
  | setActiveAdapters (requests : List LoRAId) (mapping : LoRAMapping)
  deriving DecidableEq, Repr

/-- All runs of the operations. An operation that raises leaves its changes behind. -/
def loraMachine {W : Type} (C : LoRAConfig) (L : LoRALoader W) (modules : List String) :
    Machine (LoRAManager W) LoRAOp LoRAError where
  init := { loraIndexToId := List.replicate C.maxLoras none }
  step s
    | .addAdapter id => .ok (Raising.after (LoRAManager.addAdapter C L modules id) s)
    | .removeAdapter id => .ok (s.removeAdapter id)
    | .removeAllAdapters => .ok (s.removeAllAdapters C)
    | .setActiveAdapters requests mapping =>
      .ok (Raising.after (LoRAManager.setActiveAdapters C L modules requests mapping) s)

end InferenceServer.Worker
