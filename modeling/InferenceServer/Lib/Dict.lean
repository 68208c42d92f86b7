import Mathlib.Algebra.BigOperators.Group.List.Basic
import Mathlib.Data.List.Nodup
import Mathlib.Tactic

/-!
# Insertion-ordered dictionaries

A finite map that keeps its keys in the order of their first insertion. Assigning to a key
that is present keeps its place; a deleted key that comes back goes to the end.

## Main results

* `Dict.get?_set`, `Dict.get?_erase`: lookup after an update
* `Dict.total_set`, `Dict.total_erase`
-/

/-- An insertion-ordered dictionary. -/
structure Dict (κ ν : Type) where
  /-- The entries, oldest key first. -/
  entries : List (κ × ν)
  nodup : (entries.map Prod.fst).Nodup
deriving DecidableEq

namespace Dict

open List (foldl_cons map_cons nodup_cons sum_cons)
open Prod (fst snd)

set_option linter.unusedSectionVars false

variable {κ ν : Type} [DecidableEq κ]

/-! ## Association lists -/

/-- The value of the first entry with key `k`. -/
def find : List (κ × ν) → κ → Option ν
  | [], _ => none
  | (j, v) :: l, k => if j = k then some v else find l k

/-- Replace the value at `k`, or add the entry at the end. -/
def assign : List (κ × ν) → κ → ν → List (κ × ν)
  | [], k, v => [(k, v)]
  | (j, w) :: l, k, v => if j = k then (j, v) :: l else (j, w) :: assign l k v

theorem find_assign (l : List (κ × ν)) (k : κ) (v : ν) (j : κ) :
    find (assign l k v) j = if j = k then some v else find l j := by
  induction l with
  | nil => simp [assign, find, eq_comm]
  | cons a l ih =>
    obtain ⟨i, w⟩ := a
    by_cases hik : i = k
    · subst hik
      by_cases hij : i = j
      · simp [assign, find, hij]
      · simp [assign, find, hij, Ne.symm hij]
    · by_cases hij : i = j
      · subst hij; simp [assign, find, hik]
      · simp [assign, find, hik, hij, ih]

theorem mem_keys_assign (l : List (κ × ν)) (k : κ) (v : ν) (j : κ) :
    j ∈ (assign l k v).map fst ↔ j = k ∨ j ∈ l.map fst := by
  induction l with
  | nil => simp [assign]
  | cons a l ih =>
    obtain ⟨i, w⟩ := a
    by_cases hik : i = k
    · subst hik; simp [assign]
    · simp only [assign, hik, if_false, map_cons, List.mem_cons, ih]
      tauto

variable {l : List (κ × ν)}

theorem nodup_assign (h : (l.map fst).Nodup) (k : κ) (v : ν) :
    ((assign l k v).map fst).Nodup := by
  induction l with
  | nil => simp [assign]
  | cons a l ih =>
    obtain ⟨i, w⟩ := a
    simp only [map_cons, nodup_cons] at h
    by_cases hik : i = k
    · simpa [assign, hik] using h
    · simp only [assign, if_neg hik, map_cons, nodup_cons, mem_keys_assign]
      exact ⟨not_or.mpr ⟨hik, h.1⟩, ih h.2⟩

theorem find_eq_none_iff {k : κ} :
    find l k = none ↔ k ∉ l.map fst := by
  induction l with
  | nil => simp [find]
  | cons a l ih =>
    obtain ⟨i, w⟩ := a
    by_cases hik : i = k
    · simp [find, hik]
    · simp [find, hik, Ne.symm hik, ih]

theorem find_eq_some_iff (h : (l.map fst).Nodup) {k : κ} {v : ν} :
    find l k = some v ↔ (k, v) ∈ l := by
  induction l with
  | nil => simp [find]
  | cons a l ih =>
    obtain ⟨i, w⟩ := a
    simp only [map_cons, nodup_cons] at h
    by_cases hik : i = k
    · subst hik
      have hne : (i, v) ∉ l := fun hm => h.1 (List.mem_map_of_mem (f := fst) hm)
      simp [find, hne, eq_comm]
    · simp [find, hik, Ne.symm hik, ih h.2]

theorem find_filter_ne (l : List (κ × ν)) (k j : κ) :
    find (l.filter fun e => !decide (e.1 = k)) j = if j = k then none else find l j := by
  induction l with
  | nil => simp [find]
  | cons a l ih =>
    obtain ⟨i, w⟩ := a
    by_cases hik : i = k
    · subst hik
      by_cases hij : i = j
      · subst hij
        simpa using ih
      · simp [find, hij, ih]
    · by_cases hij : i = j
      · subst hij; simp [find, hik]
      · simp [find, hik, hij, ih]

/-! ## Dictionaries -/

/-- The dictionary without entries. -/
def empty : Dict κ ν := ⟨[], List.nodup_nil⟩

instance : EmptyCollection (Dict κ ν) := ⟨empty⟩

/-- The value at `k`, if there is one. -/
def get? (d : Dict κ ν) (k : κ) : Option ν := find d.entries k

/-- The value at `k`, or the default `v`. -/
def getD (d : Dict κ ν) (k : κ) (v : ν) : ν := (d.get? k).getD v

/-- Assign `v` to `k`. -/
def set (d : Dict κ ν) (k : κ) (v : ν) : Dict κ ν :=
  ⟨assign d.entries k v, nodup_assign d.nodup k v⟩

/-- Delete the entry at `k`. -/
def erase (d : Dict κ ν) (k : κ) : Dict κ ν :=
  ⟨d.entries.filter fun e => !decide (e.1 = k),
    d.nodup.sublist (List.filter_sublist.map Prod.fst)⟩

/-- The keys, oldest first. -/
def keys (d : Dict κ ν) : List κ := d.entries.map Prod.fst

instance : Membership κ (Dict κ ν) := ⟨fun d k => k ∈ d.keys⟩

instance (k : κ) (d : Dict κ ν) : Decidable (k ∈ d) :=
  inferInstanceAs (Decidable (k ∈ d.keys))

variable {d : Dict κ ν} {j k : κ} {v w : ν}

@[simp] theorem get?_empty (k : κ) : (∅ : Dict κ ν).get? k = none := rfl

@[simp] theorem getD_empty (k : κ) (v : ν) : (∅ : Dict κ ν).getD k v = v := rfl

@[simp] theorem entries_empty : (∅ : Dict κ ν).entries = [] := rfl

theorem get?_set (d : Dict κ ν) (k : κ) (v : ν) (j : κ) :
    (d.set k v).get? j = if j = k then some v else d.get? j :=
  find_assign _ _ _ _

@[simp] theorem get?_set_self : (d.set k v).get? k = some v := by simp [get?_set]

theorem get?_set_ne (h : j ≠ k) : (d.set k v).get? j = d.get? j := by simp [get?_set, h]

theorem get?_erase (d : Dict κ ν) (k j : κ) :
    (d.erase k).get? j = if j = k then none else d.get? j :=
  find_filter_ne _ _ _

@[simp] theorem get?_erase_self : (d.erase k).get? k = none := by simp [get?_erase]

theorem get?_erase_ne (h : j ≠ k) : (d.erase k).get? j = d.get? j := by simp [get?_erase, h]

theorem getD_set (d : Dict κ ν) (k : κ) (v : ν) (j : κ) (w : ν) :
    (d.set k v).getD j w = if j = k then v else d.getD j w := by
  unfold getD
  rw [get?_set]
  split_ifs <;> rfl

@[simp] theorem getD_set_self : (d.set k v).getD k w = v := by simp [getD_set]

theorem getD_set_ne (h : j ≠ k) : (d.set k v).getD j w = d.getD j w := by simp [getD_set, h]

theorem getD_erase (d : Dict κ ν) (k j : κ) (w : ν) :
    (d.erase k).getD j w = if j = k then w else d.getD j w := by
  unfold getD
  rw [get?_erase]
  split_ifs <;> rfl

theorem getD_of_get? (h : d.get? k = some v) : d.getD k w = v := by simp [getD, h]

theorem getD_of_none (h : d.get? k = none) : d.getD k w = w := by simp [getD, h]

theorem get?_eq_some_iff : d.get? k = some v ↔ (k, v) ∈ d.entries :=
  find_eq_some_iff d.nodup

theorem mem_iff : k ∈ d ↔ k ∈ d.keys := Iff.rfl

theorem get?_eq_none_iff : d.get? k = none ↔ k ∉ d := find_eq_none_iff

theorem mem_iff_get? : k ∈ d ↔ ∃ v, d.get? k = some v := by
  rw [← not_iff_not, ← get?_eq_none_iff, Option.eq_none_iff_forall_ne_some]
  simp

theorem mem_of_get? (h : d.get? k = some v) : k ∈ d := mem_iff_get?.mpr ⟨v, h⟩

@[simp] theorem notMem_empty (k : κ) : k ∉ (∅ : Dict κ ν) := by simp [mem_iff_get?]

@[simp] theorem mem_set : j ∈ d.set k v ↔ j = k ∨ j ∈ d := mem_keys_assign _ _ _ _

@[simp] theorem mem_erase : j ∈ d.erase k ↔ j ≠ k ∧ j ∈ d := by
  rw [mem_iff_get?, mem_iff_get?, get?_erase]
  split_ifs with h <;> simp [h]

/-- The keys of a list are deleted. -/
theorem erase_of_notMem (h : k ∉ d) : d.erase k = d := by
  obtain ⟨entries, nodup⟩ := d
  unfold erase
  congr 1
  refine List.filter_eq_self.mpr fun e he => ?_
  have hne : e.1 ≠ k := fun hk => h (hk ▸ List.mem_map_of_mem he)
  simp [hne]

theorem get?_foldl_erase (d : Dict κ ν) (l : List κ) (j : κ) :
    (l.foldl erase d).get? j = if j ∈ l then none else d.get? j := by
  induction l generalizing d with
  | nil => simp
  | cons k l ih =>
    rw [foldl_cons, ih, get?_erase]
    by_cases hj : j ∈ l <;> by_cases hk : j = k <;> simp [hj, hk]

theorem mem_foldl_erase {l : List κ} : j ∈ l.foldl erase d ↔ j ∉ l ∧ j ∈ d := by
  rw [mem_iff_get?, mem_iff_get?, get?_foldl_erase]
  split_ifs with h <;> simp [h]

theorem keys_nodup (d : Dict κ ν) : d.keys.Nodup := d.nodup

theorem assign_of_notMem (h : k ∉ l.map fst) :
    assign l k v = l ++ [(k, v)] := by
  induction l with
  | nil => rfl
  | cons a l ih =>
    obtain ⟨i, w⟩ := a
    simp only [map_cons, List.mem_cons, not_or] at h
    simp [assign, Ne.symm h.1, ih h.2]

/-- A new key goes to the end. -/
theorem entries_set_of_notMem (h : k ∉ d) : (d.set k v).entries = d.entries ++ [(k, v)] :=
  assign_of_notMem h

theorem keys_set_of_notMem (h : k ∉ d) : (d.set k v).keys = d.keys ++ [k] := by
  simp [keys, entries_set_of_notMem h]

theorem mem_entries_fst {e : κ × ν} (h : e ∈ d.entries) : e.1 ∈ d :=
  List.mem_map_of_mem (f := fst) h

/-! ## Lists as values -/

theorem flatMap_assign {α : Type} (l : List (κ × List α)) (k : κ) (a : α) :
    ((assign l k ((find l k).getD [] ++ [a])).flatMap snd).Perm
      (l.flatMap snd ++ [a]) := by
  induction l with
  | nil => simp [assign, find]
  | cons e l ih =>
    obtain ⟨j, w⟩ := e
    by_cases hjk : j = k
    · simp only [assign, hjk, if_true, find, Option.getD_some, List.flatMap_cons,
        List.append_assoc]
      exact (List.perm_append_comm).append_left w
    · simp only [assign, hjk, if_false, find, List.flatMap_cons, List.append_assoc]
      exact ih.append_left w

/-- An element is appended to the list at a key. -/
theorem flatMap_set_append {α : Type} (d : Dict κ (List α)) (k : κ) (a : α) :
    ((d.set k (d.getD k [] ++ [a])).entries.flatMap snd).Perm
      (d.entries.flatMap snd ++ [a]) :=
  flatMap_assign d.entries k a

/-! ## Mapping the values -/

/-- Apply `f` to every value. -/
def mapValues {μ : Type} (f : ν → μ) (d : Dict κ ν) : Dict κ μ :=
  ⟨d.entries.map fun e => (e.1, f e.2), by
    have h := d.nodup
    rwa [List.map_map, show (Prod.fst ∘ fun e : κ × ν => (e.1, f e.2)) = Prod.fst from rfl]⟩

@[simp] theorem keys_mapValues {μ : Type} (f : ν → μ) (d : Dict κ ν) :
    (d.mapValues f).keys = d.keys := by
  unfold keys mapValues
  rw [List.map_map]
  rfl

@[simp] theorem get?_mapValues {μ : Type} (f : ν → μ) (d : Dict κ ν) (k : κ) :
    (d.mapValues f).get? k = (d.get? k).map f := by
  change find (d.entries.map fun e => (e.1, f e.2)) k = (find d.entries k).map f
  induction d.entries with
  | nil => rfl
  | cons e l ih =>
    obtain ⟨j, v⟩ := e
    by_cases h : j = k <;> simp [find, h, ih]

theorem mapValues_set {μ : Type} (f : ν → μ) (d : Dict κ ν) (k : κ) (v : ν) :
    (d.set k v).mapValues f = (d.mapValues f).set k (f v) := by
  have h : ∀ l : List (κ × ν), (assign l k v).map (fun e => (e.1, f e.2)) =
      assign (l.map fun e => (e.1, f e.2)) k (f v) := by
    intro l
    induction l with
    | nil => rfl
    | cons e l ih =>
      obtain ⟨j, w⟩ := e
      by_cases hjk : j = k <;> simp [assign, hjk, ih]
  simpa only [mapValues, set, Dict.mk.injEq] using h d.entries

/-! ## Dictionaries from entries -/

/-- The dictionary of a list of entries, a later one taking the place of an earlier one. -/
def ofEntries (l : List (κ × ν)) : Dict κ ν := l.foldl (fun d e => d.set e.1 e.2) ∅

theorem entries_foldl_set {d : Dict κ ν} (h : (d.entries ++ l).map fst |>.Nodup) :
    (l.foldl (fun d e => d.set e.1 e.2) d).entries = d.entries ++ l := by
  induction l generalizing d with
  | nil => simp
  | cons e l ih =>
    have hnew : e.1 ∉ d := by
      intro hmem
      rw [List.map_append, List.nodup_append] at h
      exact h.2.2 _ hmem _ (by simp) rfl
    have hset := entries_set_of_notMem (v := e.2) hnew
    rw [foldl_cons, ih (by rw [hset]; simpa using h), hset]
    simp

/-- A list of entries with distinct keys is the list of entries of its dictionary. -/
theorem entries_ofEntries (h : (l.map fst).Nodup) :
    (ofEntries l).entries = l := by
  simpa [ofEntries] using entries_foldl_set (d := ∅) (l := l) (by simpa using h)

@[simp] theorem ofEntries_entries (d : Dict κ ν) : ofEntries d.entries = d := by
  have h := entries_ofEntries d.nodup
  generalize ofEntries d.entries = d' at h
  cases d
  cases d'
  simpa using h

theorem mapValues_ofEntries {μ : Type} (f : ν → μ) (l : List (κ × ν)) :
    (ofEntries l).mapValues f = ofEntries (l.map fun e => (e.1, f e.2)) := by
  have h : ∀ d : Dict κ ν, (l.foldl (fun d e => d.set e.1 e.2) d).mapValues f =
      (l.map fun e => (e.1, f e.2)).foldl (fun d e => d.set e.1 e.2) (d.mapValues f) := by
    induction l with
    | nil => exact fun _ => rfl
    | cons e l ih =>
      intro d
      rw [foldl_cons, ih, mapValues_set, map_cons, foldl_cons]
  exact h ∅

/-! ## Sums over the values -/

/-- The sum of `f` over the values. -/
def total {M : Type} [AddCommMonoid M] (f : ν → M) (d : Dict κ ν) : M :=
  (d.entries.map fun e => f e.2).sum

section Total

variable {M : Type} [AddCommMonoid M] (f : ν → M)

@[simp] theorem total_empty : total f (∅ : Dict κ ν) = 0 := rfl

theorem sum_assign (l : List (κ × ν)) (k : κ) (v : ν) :
    ((assign l k v).map fun e => f e.2).sum + ((find l k).map f).getD 0 =
      (l.map fun e => f e.2).sum + f v := by
  induction l with
  | nil => simp [assign, find]
  | cons a l ih =>
    obtain ⟨i, w⟩ := a
    by_cases hik : i = k
    · simp only [assign, hik, if_true, map_cons, sum_cons, find, Option.map_some,
        Option.getD_some]
      abel
    · simp only [assign, hik, if_false, map_cons, sum_cons, find, add_assoc, ih]

/-- The sum after an assignment: the old value at the key leaves, the new one enters. -/
theorem total_set (d : Dict κ ν) (k : κ) (v : ν) :
    total f (d.set k v) + ((d.get? k).map f).getD 0 = total f d + f v :=
  sum_assign f d.entries k v

theorem sum_filter_ne {l : List (κ × ν)} (h : (l.map fst).Nodup) (k : κ) :
    ((l.filter fun e => !decide (e.1 = k)).map fun e => f e.2).sum + ((find l k).map f).getD 0 =
      (l.map fun e => f e.2).sum := by
  induction l with
  | nil => simp [find]
  | cons a l ih =>
    obtain ⟨i, w⟩ := a
    simp only [map_cons, nodup_cons] at h
    by_cases hik : i = k
    · subst hik
      have hnone : find l i = none := find_eq_none_iff.mpr h.1
      have ih' := ih h.2
      rw [hnone] at ih'
      simp only [Option.map_none, Option.getD_none, add_zero] at ih'
      simp [find, ih', add_comm]
    · simp only [hik, decide_false, Bool.not_false, List.filter_cons_of_pos, map_cons,
        sum_cons, find, if_false, add_assoc]
      rw [← ih h.2]

/-- The sum after a deletion. -/
theorem total_erase (d : Dict κ ν) (k : κ) :
    total f (d.erase k) + ((d.get? k).map f).getD 0 = total f d :=
  sum_filter_ne f d.nodup k

theorem total_set_of_notMem (h : k ∉ d) : total f (d.set k v) = total f d + f v := by
  simp [total, entries_set_of_notMem h]

/-- The sum over any list of keys that has all of them. -/
theorem sum_getD_eq_total {d : Dict κ M} {l : List κ} (hl : l.Nodup) (h : ∀ k ∈ d, k ∈ l) :
    (l.map fun k => d.getD k 0).sum = total id d := by
  have hkeys : (d.keys.map fun k => d.getD k 0) = d.entries.map fun e => id e.2 := by
    unfold keys
    rw [List.map_map]
    refine List.map_congr_left fun e he => ?_
    exact getD_of_get? (get?_eq_some_iff.mpr he)
  have hzero : ∀ k ∈ l.toFinset, k ∉ d.keys.toFinset → d.getD k 0 = 0 := fun k _ hk =>
    getD_of_none (get?_eq_none_iff.mpr fun hm => hk (List.mem_toFinset.mpr hm))
  have hsub : d.keys.toFinset ⊆ l.toFinset := fun k hk =>
    List.mem_toFinset.mpr (h k (List.mem_toFinset.mp hk))
  rw [← List.sum_toFinset _ hl, ← Finset.sum_subset hsub hzero, List.sum_toFinset _ d.keys_nodup,
    hkeys]
  rfl

end Total

end Dict
