import InferenceServer.Lib.Dict
import InferenceServer.Request

/-!
# The encoder cache manager

`EncoderCacheManager` (`vllm/v1/core/encoder_cache_manager.py`): the multi-modal items whose
encoder outputs the workers hold, counted in encoder tokens.
-/

namespace InferenceServer

/-- The encoder cache manager. -/
structure EncoderCacheManager where
  cacheSize : Nat
  numFreeSlots : Int
  /-- The cached inputs of every request; no entry is empty. -/
  cached : Dict ReqId (List Nat)
  /-- The inputs freed since the last call of `get_freed_ids`. -/
  freed : List (ReqId × Nat)
  /-- History: all inputs that were freed. -/
  everFreed : List (ReqId × Nat) := []
deriving DecidableEq

namespace EncoderCacheManager

/-- The constructor. -/
def init (cacheSize : Nat) : EncoderCacheManager :=
  { cacheSize, numFreeSlots := cacheSize, cached := ∅, freed := [] }

variable (m : EncoderCacheManager) (r : Request)

/-- `get_cached_input_ids`. -/
def getCachedInputIds : List Nat := m.cached.getD r.requestId []

/-- `has_cache`. -/
def hasCache (inputId : Nat) : Bool := inputId ∈ m.getCachedInputIds r

/-- `can_allocate`. -/
def canAllocate (inputId : Nat) : Bool := (r.getNumEncoderTokens inputId : Int) ≤ m.numFreeSlots

/-- `allocate`. The slots are taken even if the input is cached already. -/
def allocate (inputId : Nat) : EncoderCacheManager :=
  { m with
    cached := m.cached.set r.requestId (m.getCachedInputIds r |>.insert inputId)
    numFreeSlots := m.numFreeSlots - r.getNumEncoderTokens inputId }

/-- `free_encoder_input`. The last input takes the entry of the request with it. -/
def freeEncoderInput (inputId : Nat) : EncoderCacheManager :=
  if r.requestId ∉ m.cached then m
  else
    let rest := (m.getCachedInputIds r).filter (· ≠ inputId)
    { m with
      cached := if rest = [] then m.cached.erase r.requestId else m.cached.set r.requestId rest
      numFreeSlots := m.numFreeSlots + r.getNumEncoderTokens inputId
      freed := m.freed ++ [(r.requestId, inputId)]
      everFreed := m.everFreed ++ [(r.requestId, inputId)] }

/-- `free`. -/
def free : EncoderCacheManager :=
  (m.getCachedInputIds r).foldl (fun m i => m.freeEncoderInput r i) m

/-- `get_freed_ids`. -/
def getFreedIds : List (ReqId × Nat) × EncoderCacheManager :=
  (m.freed, { m with freed := [] })

/-- **Inputs are freed**: they are listed for the next output, and in the history. -/
def Lists (m m' : EncoderCacheManager) : Prop :=
  ∃ l, m'.freed = m.freed ++ l ∧ m'.everFreed = m.everFreed ++ l

section Lists

variable {m m' m'' : EncoderCacheManager}

theorem Lists.refl (m : EncoderCacheManager) : m.Lists m := ⟨[], by simp, by simp⟩

theorem Lists.trans (h : m.Lists m') (h' : m'.Lists m'') : m.Lists m'' := by
  obtain ⟨l, h₁, h₂⟩ := h
  obtain ⟨l', h₁', h₂'⟩ := h'
  exact ⟨l ++ l', by rw [h₁', h₁, List.append_assoc], by rw [h₂', h₂, List.append_assoc]⟩

theorem Lists.foldl {α : Type} {f : EncoderCacheManager → α → EncoderCacheManager}
    (hf : ∀ (m : EncoderCacheManager) a, m.Lists (f m a)) (l : List α) (m : EncoderCacheManager) :
    m.Lists (l.foldl f m) := by
  induction l generalizing m with
  | nil => exact .refl m
  | cons a l ih => exact (hf m a).trans (ih (f m a))

theorem lists_freeEncoderInput (m : EncoderCacheManager) (r : Request) (inputId : Nat) :
    m.Lists (m.freeEncoderInput r inputId) := by
  unfold freeEncoderInput
  split
  · exact .refl m
  · exact ⟨[(r.requestId, inputId)], rfl, rfl⟩

theorem lists_free (m : EncoderCacheManager) (r : Request) : m.Lists (m.free r) :=
  .foldl (fun m i => m.lists_freeEncoderInput r i) _ m

end Lists

end EncoderCacheManager

end InferenceServer
