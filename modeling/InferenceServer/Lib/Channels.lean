import Mathlib.Tactic

/-!
# Families of FIFO channels

A family of channels, one for each index. A message is sent at the back of its channel and received
from the front; messages of different channels may overtake each other.

## Main results

* `Channels.mem_post`, `Channels.mem_broadcast`: what is in flight after a message was sent
* `Channels.receive_some`: a message that is received was in flight, and the others still are
-/

/-- The messages in flight on channels `κ`, oldest first. -/
abbrev Channels (κ α : Type) := κ → List α

namespace Channels

variable {κ α : Type} {q q' : Channels κ α} {k j : κ} {a x : α}

/-- No message is in flight. -/
def empty : Channels κ α := fun _ => []

/-- Send a message on every channel. -/
def broadcast (q : Channels κ α) (a : α) : Channels κ α := fun k => q k ++ [a]

@[simp] theorem empty_apply : (empty : Channels κ α) k = [] := rfl

@[simp] theorem mem_broadcast : x ∈ q.broadcast a k ↔ x ∈ q k ∨ x = a := by
  simp [broadcast]

variable [DecidableEq κ]

/-- Send messages on channel `k`. -/
def post (q : Channels κ α) (k : κ) (as : List α) : Channels κ α :=
  Function.update q k (q k ++ as)

/-- Receive the oldest message of channel `k`. -/
def receive (q : Channels κ α) (k : κ) : Option (α × Channels κ α) :=
  match q k with
  | [] => none
  | a :: as => some (a, Function.update q k as)

@[simp] theorem mem_post {as : List α} : x ∈ q.post k as j ↔ x ∈ q j ∨ j = k ∧ x ∈ as := by
  unfold post
  rcases eq_or_ne j k with rfl | hne
  · simp
  · simp [hne]

/-- What a channel holds after its oldest message was received. -/
structure Received (q : Channels κ α) (k : κ) (a : α) (q' : Channels κ α) : Prop where
  head : a ∈ q k
  rest : ∀ {j x}, x ∈ q' j → x ∈ q j
  kept : ∀ {j x}, x ∈ q j → x ∈ q' j ∨ j = k ∧ x = a

variable (h : q.receive k = some (a, q'))

include h

/-- The message that is received is at the front, and the others stay. -/
theorem receive_eq : ∃ as, q k = a :: as ∧ q' = Function.update q k as := by
  unfold receive at h
  split at h
  · cases h
  · rename_i b bs hq
    obtain ⟨rfl, rfl⟩ : b = a ∧ Function.update q k bs = q' := by simpa using h
    exact ⟨bs, hq, rfl⟩

theorem receive_head : ∃ as, q k = a :: as :=
  (receive_eq h).imp fun _ h => h.1

theorem receive_some : q.Received k a q' := by
  obtain ⟨bs, hq, rfl⟩ := receive_eq h
  refine ⟨by simp [hq], fun {j x} hx => ?_, fun {j x} hx => ?_⟩
  · rcases eq_or_ne j k with rfl | hne
    · rw [Function.update_self] at hx
      exact hq ▸ List.mem_cons_of_mem _ hx
    · rwa [Function.update_of_ne hne] at hx
  · rcases eq_or_ne j k with rfl | hne
    · rw [hq, List.mem_cons] at hx
      rw [Function.update_self]
      exact hx.symm.imp_right fun hx => ⟨rfl, hx⟩
    · rw [Function.update_of_ne hne]
      exact .inl hx

end Channels
