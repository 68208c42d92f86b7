import InferenceServer.Basic
import InferenceServer.Lib.Outcome
import InferenceServer.Lib.Tabulate

/-!
# Loads and stores

Compiled code reads and writes arrays at computed positions. A position outside of the array is an
error here. A buffer of rows of one length is one array; a store to a place of a row changes this row
and no other.
-/

namespace InferenceServer.SpecDecode

open Outcome
open Function (update_of_ne update_self)

/-- `l[i]` for an index that does not count from the end. -/
def load {α : Type} (l : List α) (i : Nat) : Except PyError α :=
  match l[i]? with
  | some a => .ok a
  | none => .error .indexError

/-- `l[i] = a` for an index that does not count from the end. -/
def store {α : Type} (l : List α) (i : Nat) (a : α) : Except PyError (List α) :=
  if i < l.length then .ok (l.set i a) else .error .indexError

variable {α : Type} {l : List α} {i n w r c : Nat} {a : α} {f : Nat → Nat → α}

theorem load_eq_ok : load l i = .ok a ↔ l[i]? = some a := by
  unfold load
  cases l[i]? <;> simp

/-- `n` rows of length `w`, one after the other. -/
def rowBuffer (n w : Nat) (f : Nat → Nat → α) : List α := tab (n * w) fun i => f (i / w) (i % w)

theorem rowBuffer_congr {g : Nat → Nat → α} (h : ∀ r < n, f r = g r) :
    rowBuffer n w f = rowBuffer n w g :=
  tab_congr fun _ hi => by rw [h _ (Nat.div_lt_of_lt_mul (by rwa [Nat.mul_comm] at hi))]

theorem place_lt (hr : r < n) (hc : c < w) : r * w + c < n * w :=
  calc r * w + c < r * w + w := Nat.add_lt_add_left hc _
    _ = (r + 1) * w := (Nat.succ_mul r w).symm
    _ ≤ n * w := Nat.mul_le_mul_right w hr

/-- **A store to a place of a row.** -/
theorem store_rowBuffer (hr : r < n) (hc : c < w) (a : α) :
    store (rowBuffer n w f) (r * w + c) a =
      .ok (rowBuffer n w (Function.update f r (Function.update (f r) c a))) := by
  unfold store rowBuffer
  rw [if_pos (by rw [length_tab]; exact place_lt hr hc), set_tab]
  refine congrArg Except.ok (tab_congr fun i _ => ?_)
  obtain ⟨hdiv, hmod⟩ := @div_mod_of_lt r c w hc
  by_cases hi : i = r * w + c
  · rw [hi, update_self, hdiv, hmod, update_self, update_self]
  · rw [update_of_ne hi]
    by_cases hrow : i / w = r
    · have hcol : i % w ≠ c := by
        rintro rfl
        exact hi (by rw [← hrow, Nat.div_add_mod' i w])
      rw [hrow, update_self, update_of_ne hcol]
    · rw [update_of_ne hrow]

/-- The rows of a buffer. -/
theorem chunks_rowBuffer (hw : 0 < w) (n : Nat) (f : Nat → Nat → α) :
    chunks w (rowBuffer n w f) = tab n fun r => tab w (f r) := by
  rw [rowBuffer, chunks_tab hw]
  refine tab_congr fun r _ => tab_congr fun c hc => ?_
  obtain ⟨hdiv, hmod⟩ := @div_mod_of_lt r c w hc
  rw [hdiv, hmod]

/-- The positions of a buffer that is filled with one element. -/
theorem replicate_eq_rowBuffer (n w : Nat) (a : α) :
    List.replicate (n * w) a = rowBuffer n w fun _ _ => a :=
  replicate_eq_tab _ a

/-- **Programs that each change a row of their own** can run in any order. -/
theorem threadM_rowBuffer {program : Nat → List α → Except PyError (List α)}
    {row : Nat → (Nat → α) → Nat → α} (hprogram : ∀ r < n, ∀ f : Nat → Nat → α,
      program r (rowBuffer n w f) = .ok (rowBuffer n w (Function.update f r (row r (f r)))))
    {order : List Nat} (hnodup : order.Nodup) (horder : ∀ r ∈ order, r < n) (f : Nat → Nat → α) :
    threadM program order (rowBuffer n w f) =
      .ok (rowBuffer n w fun r => if r ∈ order then row r (f r) else f r) := by
  induction order generalizing f with
  | nil => rfl
  | cons r order ih =>
    obtain ⟨hnew, hnodup⟩ := List.nodup_cons.mp hnodup
    rw [threadM, bind_of_ok (hprogram r (horder r List.mem_cons_self) f),
      ih hnodup fun r hr => horder r (List.mem_cons_of_mem _ hr)]
    congr 2
    funext s
    by_cases hs : s = r
    · subst hs
      rw [if_neg hnew, if_pos List.mem_cons_self, update_self]
    · simp only [update_of_ne hs, List.mem_cons, hs, false_or]

end InferenceServer.SpecDecode
