import Mathlib.Data.List.Infix
import Mathlib.Order.Bounds.Basic
import Mathlib.Tactic

/-!
# Substrings

Where a word occurs in a text, and the search for its first occurrence from a position on. An
occurrence in a longer text is either one in the shorter text, or it ends in what has been added; this
is why a search may start close to the end.

## Main results

* `findFrom_eq_some_iff`, `findFrom_eq_none_iff`
* `OccursAt.of_append`, `OccursAt.append`: occurrences in a text that is extended
-/

variable {α : Type} [DecidableEq α] {word text more : List α} {i j start : Nat}

/-- The word is in the text at the position. -/
def OccursAt (word text : List α) (i : Nat) : Prop := (text.drop i).take word.length = word ∧
  i + word.length ≤ text.length

instance : Decidable (OccursAt word text i) := inferInstanceAs (Decidable (_ ∧ _))

/-- The word is in the text. -/
def Occurs (word text : List α) : Prop := ∃ i, OccursAt word text i

/-- The first occurrence of the word from `start` on, trying `n` positions. -/
def findWithin (word text : List α) : Nat → Nat → Option Nat
  | _, 0 => none
  | start, n + 1 => if OccursAt word text start then some start else findWithin word text (start + 1) n

/-- The first occurrence of the word from `start` on. -/
def findFrom (word text : List α) (start : Nat) : Option Nat :=
  findWithin word text start (text.length + 1 - start)

theorem findWithin_eq_some_iff {n : Nat} :
    findWithin word text start n = some i ↔
      (start ≤ i ∧ i < start + n) ∧ OccursAt word text i ∧
        ∀ j, start ≤ j → j < i → ¬ OccursAt word text j := by
  induction n generalizing start with
  | zero => exact iff_of_false (fun h => nomatch h) fun h => by omega
  | succ n ih =>
    rw [findWithin]
    by_cases hocc : OccursAt word text start
    · rw [if_pos hocc, Option.some.injEq]
      constructor
      · rintro rfl
        exact ⟨by omega, hocc, fun j h1 h2 => by omega⟩
      · rintro ⟨hi, -, hfirst⟩
        by_contra hne
        exact hfirst start le_rfl (by omega) hocc
    · rw [if_neg hocc, ih]
      constructor
      · rintro ⟨hi, hat, hfirst⟩
        refine ⟨by omega, hat, fun j h1 h2 => ?_⟩
        rcases Nat.eq_or_lt_of_le h1 with rfl | h1
        · exact hocc
        · exact hfirst j h1 h2
      · rintro ⟨hi, hat, hfirst⟩
        have hne : i ≠ start := by
          rintro rfl
          exact hocc hat
        exact ⟨by omega, hat, fun j h1 h2 => hfirst j (by omega) h2⟩

/-- **The search** returns the first occurrence. -/
theorem findFrom_eq_some_iff :
    findFrom word text start = some i ↔
      start ≤ i ∧ OccursAt word text i ∧ ∀ j, start ≤ j → j < i → ¬ OccursAt word text j := by
  rw [findFrom, findWithin_eq_some_iff]
  constructor
  · rintro ⟨hi, hat, hfirst⟩
    exact ⟨hi.1, hat, hfirst⟩
  · rintro ⟨hi, hat, hfirst⟩
    have := hat.2
    exact ⟨⟨hi, by omega⟩, hat, hfirst⟩

theorem findFrom_eq_none_iff :
    findFrom word text start = none ↔ ∀ j, start ≤ j → ¬ OccursAt word text j := by
  constructor
  · intro hnone j hj hat
    -- the least occurrence would have been found
    have hex : ∃ k, start ≤ k ∧ OccursAt word text k := ⟨j, hj, hat⟩
    have hfind := findFrom_eq_some_iff.mpr ⟨(Nat.find_spec hex).1, (Nat.find_spec hex).2,
      fun k hk hlt hocc => Nat.find_min hex hlt ⟨hk, hocc⟩⟩
    exact nomatch hnone.symm.trans hfind
  · intro h
    cases hfind : findFrom word text start with
    | none => rfl
    | some i =>
      obtain ⟨hi, hat, -⟩ := findFrom_eq_some_iff.mp hfind
      exact absurd hat (h i hi)

/-! ## Texts that are extended -/

omit [DecidableEq α] in
theorem OccursAt.append (h : OccursAt word text i) (more : List α) :
    OccursAt word (text ++ more) i := by
  obtain ⟨htake, hle⟩ := h
  refine ⟨?_, by rw [List.length_append]; omega⟩
  rw [List.drop_append_of_le_length (by omega), List.take_append_of_le_length
    (by rw [List.length_drop]; omega), htake]

omit [DecidableEq α] in
/-- An occurrence that ends in the old text is one there. -/
theorem OccursAt.of_append (h : OccursAt word (text ++ more) i) (hle : i + word.length ≤ text.length) :
    OccursAt word text i := by
  refine ⟨?_, hle⟩
  have htake := h.1
  rwa [List.drop_append_of_le_length (by omega), List.take_append_of_le_length
    (by rw [List.length_drop]; omega)] at htake

omit [DecidableEq α] in

instance : Decidable (Occurs word text) :=
  decidable_of_iff (findFrom word text 0 ≠ none) <| by
    rw [ne_eq, findFrom_eq_none_iff, Occurs]
    push Not
    simp
