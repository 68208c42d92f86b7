import Mathlib.Data.List.Nodup
import Mathlib.Tactic

/-!
# Chunks and columns

A list cut into chunks of `n` elements, and a list of rows read by columns. Neither loses or repeats
an element, and a column has at most one element of a row.

## Main results

* `flatten_chunks`, `flatten_columns`, `columns_row_eq`
-/

variable {α : Type}

/-- The chunks `l[0:n]`, `l[n:2n]`, …; the last one may be shorter. -/
def chunks (n : Nat) (l : List α) : List (List α) :=
  (List.range ((l.length + n - 1) / n)).map fun k => (l.drop (k * n)).take n

theorem chunks_nil (n : Nat) : chunks n ([] : List α) = [] := by
  cases n with
  | zero => simp [chunks]
  | succ n => simp [chunks, Nat.div_eq_of_lt]

theorem length_chunks (n : Nat) (l : List α) : (chunks n l).length = (l.length + n - 1) / n := by
  simp [chunks]

theorem chunks_of_ne_nil {n : Nat} (hn : 0 < n) {l : List α} (hl : l ≠ []) :
    chunks n l = l.take n :: chunks n (l.drop n) := by
  have hpos := List.length_pos_iff.mpr hl
  have hcount : (l.length + n - 1) / n = ((l.drop n).length + n - 1) / n + 1 := by
    rw [List.length_drop, ← Nat.add_div_right _ hn]
    rcases le_total n l.length with hle | hle
    · congr 1
      omega
    · rw [Nat.sub_eq_zero_of_le hle, Nat.zero_add,
        Nat.div_eq_of_lt_le (k := 1) (by omega) (by omega),
        Nat.div_eq_of_lt_le (k := 1) (by omega) (by omega)]
  unfold chunks
  rw [hcount, List.range_succ_eq_map, List.map_cons, List.map_map]
  refine congrArg₂ List.cons (by simp) (List.map_congr_left fun k _ => ?_)
  rw [Function.comp_apply, List.drop_drop, Nat.succ_mul, Nat.add_comm]

theorem flatten_chunks {n : Nat} (hn : 0 < n) (l : List α) : (chunks n l).flatten = l := by
  by_cases hl : l = []
  · rw [hl, chunks_nil]
    rfl
  · rw [chunks_of_ne_nil hn hl, List.flatten_cons, flatten_chunks hn (l.drop n),
      List.take_append_drop]
termination_by l.length
decreasing_by
  have := List.length_pos_iff.mpr hl
  simp only [List.length_drop]
  omega

/-- Rows of one length, put together and cut again. -/
theorem chunks_flatMap {ι : Type} {n : Nat} (hn : 0 < n) {items : List ι} {f : ι → List α}
    (h : ∀ x ∈ items, (f x).length = n) : chunks n (items.flatMap f) = items.map f := by
  induction items with
  | nil => exact chunks_nil n
  | cons x items ih =>
    have hx := h x List.mem_cons_self
    have hne : (x :: items).flatMap f ≠ [] := fun hnil => by
      have hlen := congrArg List.length hnil
      simp only [List.flatMap_cons, List.length_append, List.length_nil] at hlen
      omega
    rw [chunks_of_ne_nil hn hne, List.flatMap_cons, List.take_left' hx, List.drop_left' hx,
      ih fun y hy => h y (List.mem_cons_of_mem x hy), List.map_cons]

theorem length_of_mem_chunks {n : Nat} {l c : List α} (h : c ∈ chunks n l) : c.length ≤ n := by
  obtain ⟨k, -, rfl⟩ := List.mem_map.mp h
  exact List.length_take_le _ _

/-- The first `n` columns of the rows, which may be of different lengths. -/
def columns (n : Nat) (rows : List (List α)) : List (List α) :=
  (List.range n).map fun i => rows.filterMap (·[i]?)

theorem flatMap_range_getElem? {n : Nat} {l : List α} (h : l.length ≤ n) :
    ((List.range n).flatMap fun i => l[i]?.toList) = l := by
  induction l generalizing n with
  | nil => simp
  | cons a l ih =>
    obtain ⟨m, rfl⟩ := Nat.exists_eq_add_of_le' (Nat.le_trans (Nat.succ_pos _) h : 1 ≤ n)
    rw [List.range_succ_eq_map, List.flatMap_cons, List.flatMap_map]
    simp only [List.getElem?_cons_zero, Option.toList_some, List.getElem?_cons_succ,
      List.singleton_append, List.cons.injEq, true_and, Nat.succ_eq_add_one]
    exact ih (by simpa using h)

/-- **Reading by columns** keeps the elements. -/
theorem flatten_columns {n : Nat} {rows : List (List α)} (h : ∀ r ∈ rows, r.length ≤ n) :
    (columns n rows).flatten.Perm rows.flatten := by
  induction rows with
  | nil => simp [columns]
  | cons r rows ih =>
    have hcons : (columns n (r :: rows)).flatten =
        (List.range n).flatMap fun i => r[i]?.toList ++ rows.filterMap (·[i]?) := by
      unfold columns
      rw [← List.flatMap_def]
      refine List.flatMap_congr fun i _ => ?_
      cases hi : r[i]? <;> simp [hi]
    rw [hcons, List.flatten_cons]
    refine (List.flatMap_append_perm _ _ _).symm.trans ?_
    rw [flatMap_range_getElem? (h r List.mem_cons_self)]
    refine List.Perm.append_left r ?_
    rw [List.flatMap_def]
    exact ih fun r' hr' => h r' (List.mem_cons_of_mem _ hr')

/-- Two elements of a column that are in one row are equal. -/
theorem columns_row_eq {n : Nat} {rows : List (List α)} (hn : rows.flatten.Nodup) {c r : List α}
    (hc : c ∈ columns n rows) (hr : r ∈ rows) {a b : α} (ha : a ∈ c) (hb : b ∈ c) (har : a ∈ r)
    (hbr : b ∈ r) : a = b := by
  obtain ⟨i, -, rfl⟩ := List.mem_map.mp hc
  have hat : ∀ x : α, x ∈ r → x ∈ rows.filterMap (·[i]?) → r[i]? = some x := fun x hxr hx => by
    obtain ⟨r', hr', hx'⟩ := List.mem_filterMap.mp hx
    by_cases hne : r' = r
    · exact hne ▸ hx'
    · have : Std.Symm (List.Disjoint : List α → List α → Prop) := ⟨fun _ _ h => h.symm⟩
      have hdisj := (List.nodup_flatten.mp hn).2.forall hr' hr hne
      exact absurd hxr (hdisj (List.mem_of_getElem? hx'))
  exact Option.some.inj ((hat a har ha).symm.trans (hat b hbr hb))
