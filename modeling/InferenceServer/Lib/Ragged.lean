import Mathlib.Algebra.BigOperators.Group.List.Basic
import Mathlib.Data.List.Range
import Mathlib.Tactic

/-!
# Ragged arrays

A batch of rows of different lengths is often kept as one flat array, and an operation on the rows is
written with running sums and repeats over the lengths. The flat array has one place for each cell of
the batch, row by row. So every such array is the list of the cells, mapped; and the operations are the
pointwise ones on the cells.

## Main results

* `npRepeat_eq_cells`, `arange_eq_cells`, `maskAssign_head`, `indexAssign_last`
* `enumerate_partialSums`: the running sums number the cells
-/

namespace Ragged

open List (map_append map_cons map_map range zipWith)

/-! ## Running sums and repeats -/

section Sums

variable {α : Type} [AddMonoid α]

/-- The running sums that start with `s`. -/
def sumsFrom (s : α) : List α → List α
  | [] => []
  | x :: xs => (s + x) :: sumsFrom (s + x) xs

/-- `np.cumsum`. -/
def cumsum (l : List α) : List α := sumsFrom 0 l

@[simp] theorem length_sumsFrom (s : α) (l : List α) : (sumsFrom s l).length = l.length := by
  induction l generalizing s with
  | nil => rfl
  | cons x l ih => simp [sumsFrom, ih]

@[simp] theorem length_cumsum (l : List α) : (cumsum l).length = l.length := length_sumsFrom 0 l

theorem getElem?_sumsFrom (s : α) {l : List α} {i : Nat} (hi : i < l.length) :
    (sumsFrom s l)[i]? = some (s + (l.take (i + 1)).sum) := by
  induction l generalizing s i with
  | nil => exact absurd hi (Nat.not_lt_zero _)
  | cons x l ih =>
    cases i with
    | zero => simp [sumsFrom]
    | succ i =>
      simp only [sumsFrom, List.getElem?_cons_succ, List.take_succ_cons, List.sum_cons]
      rw [ih (s + x) (Nat.lt_of_succ_lt_succ hi), add_assoc]

/-- The sums before and after each element. -/
theorem getElem?_zero_cons_cumsum {l : List α} {i : Nat} (hi : i ≤ l.length) :
    (0 :: cumsum l)[i]? = some (l.take i).sum := by
  cases i with
  | zero => simp
  | succ i => rw [List.getElem?_cons_succ, cumsum, getElem?_sumsFrom 0 hi, zero_add]

theorem getLast?_sumsFrom (s : α) {l : List α} (hne : l ≠ []) :
    (sumsFrom s l).getLast? = some (s + l.sum) := by
  have hpos := List.length_pos_iff.mpr hne
  rw [List.getLast?_eq_getElem?, length_sumsFrom, getElem?_sumsFrom s (Nat.sub_lt hpos one_pos),
    Nat.sub_add_cancel (show 1 ≤ l.length from hpos), List.take_length]

/-- The differences of running sums are the summands. -/
theorem zipWith_sub_sumsFrom {α : Type} [AddCommGroup α] (s : α) (l : List α) :
    zipWith (· - ·) (sumsFrom s l) (s :: sumsFrom s l).dropLast = l := by
  induction l generalizing s with
  | nil => rfl
  | cons x l ih =>
    simp only [sumsFrom, List.dropLast_cons_cons, List.zipWith_cons_cons, ih (s + x)]
    rw [add_sub_cancel_left]

end Sums

/-- `np.repeat`, with a count for every element. -/
def npRepeat {α : Type} (l : List α) (counts : List Int) : List α :=
  (List.zipWith (fun x n => List.replicate n.toNat x) l counts).flatten

/-! ## Cells -/

section Cells

variable {ι α β γ : Type} (items : List ι) (count : ι → Nat)

/-- The cells of a batch, row by row: the row and the column. -/
def cells : List (ι × Nat) := items.flatMap fun x => (List.range (count x)).map fun j => (x, j)

/-- The counts, as an array. -/
def counts : List Int := items.map fun x => (count x : Int)

variable {items count}

@[simp] theorem cells_nil : cells [] count = [] := rfl

@[simp] theorem cells_cons (x : ι) :
    cells (x :: items) count = (range (count x)).map (fun j => (x, j)) ++ cells items count := rfl

@[simp] theorem counts_cons (x : ι) : counts (x :: items) count = (count x : Int) :: counts items count :=
  rfl

theorem length_cells : (cells items count).length = (items.map count).sum := by
  induction items with
  | nil => rfl
  | cons x items ih => simp [ih]

theorem sum_counts : (counts items count).sum = ((items.map count).sum : Nat) := by
  induction items with
  | nil => rfl
  | cons x items ih => simp [ih]

theorem mem_cells {c : ι × Nat} : c ∈ cells items count ↔ c.1 ∈ items ∧ c.2 < count c.1 := by
  simp only [cells, List.mem_flatMap, List.mem_map, List.mem_range]
  constructor
  · rintro ⟨x, hx, j, hj, rfl⟩
    exact ⟨hx, hj⟩
  · rintro ⟨hx, hj⟩
    exact ⟨c.1, hx, c.2, hj, rfl⟩

/-- **A repeat** is a value of the row, at every cell. -/
theorem npRepeat_eq_cells (f : ι → α) :
    npRepeat (items.map f) (counts items count) = (cells items count).map fun c => f c.1 := by
  induction items with
  | nil => rfl
  | cons x items ih =>
    rw [npRepeat] at ih ⊢
    simp only [map_cons, counts_cons, List.zipWith_cons_cons, List.flatten_cons, ih, cells_cons,
      map_append, map_map, Int.toNat_natCast]
    congr 1
    exact List.eq_replicate_iff.mpr ⟨by simp, by simp⟩ |>.symm

theorem length_npRepeat {l : List α} (h : l.length = items.length) :
    (npRepeat l (counts items count)).length = (items.map count).sum := by
  induction items generalizing l with
  | nil => simp [npRepeat, counts]
  | cons x items ih =>
    cases l with
    | nil => cases h
    | cons a l =>
      have hl := ih (Nat.succ.inj h)
      rw [npRepeat] at hl ⊢
      simp [hl]

/-- An operation on two arrays of the same cells. -/
theorem zipWith_map_map (l : List ι) (g : α → β → γ) (f : ι → α) (h : ι → β) :
    zipWith g (l.map f) (l.map h) = l.map fun c => g (f c) (h c) := by
  rw [List.zipWith_map, List.zipWith_self]

/-- **The batched counting**, a count of all cells less the sums before the rows, is the column of every
cell. -/
theorem arange_eq_cells (s : Nat) :
    zipWith (· - ·) ((List.range' s (items.map count).sum).map fun i : Nat => (i : Int))
        (npRepeat (zipWith (· - ·) (sumsFrom (s : Int) (counts items count)) (counts items count))
          (counts items count)) =
      (cells items count).map fun c => (c.2 : Int) := by
  induction items generalizing s with
  | nil => rfl
  | cons x items ih =>
    have hsum : (s : Int) + count x = ((s + count x : Nat) : Int) := by push_cast; rfl
    rw [map_cons, List.sum_cons, ← List.range'_append_1, map_append, counts_cons, sumsFrom,
      List.zipWith_cons_cons, hsum, npRepeat, List.zipWith_cons_cons, List.flatten_cons,
      List.zipWith_append (by simp), cells_cons, map_append]
    congr 1
    · refine List.ext_getElem (by simp) fun i h1 h2 => ?_
      simp
    · exact ih (s + count x)

/-! ### Assignments -/

/-- `l[mask] = values`. The mask has a place for every element, and there is a value for every place that
is set. -/
def maskAssign : List α → List Bool → List α → Option (List α)
  | [], [], [] => some []
  | _ :: l, true :: mask, v :: values => (maskAssign l mask values).map fun l => v :: l
  | a :: l, false :: mask, values => (maskAssign l mask values).map fun l => a :: l
  | _, _, _ => none

/-- `l[mask]`. -/
def maskSelect (l : List α) (mask : List Bool) : List α :=
  ((l.zip mask).filter Prod.snd).map Prod.fst

/-- `l[indices] = values`. A negative index counts from the end. -/
def indexAssign : List α → List Int → List α → Option (List α)
  | l, [], [] => some l
  | l, i :: indices, v :: values =>
    let j := if i < 0 then i + l.length else i
    if 0 ≤ j ∧ j < l.length then indexAssign (l.set j.toNat v) indices values else none
  | _, _, _ => none

theorem maskSelect_map (l : List ι) (f : ι → α) (p : ι → Bool) :
    maskSelect (l.map f) (l.map p) = (l.filter p).map f := by
  induction l with
  | nil => rfl
  | cons c l ih =>
    rw [maskSelect] at ih ⊢
    by_cases hp : p c = true <;> simp [hp, ih]

/-- Assigning what has been selected. -/
theorem maskAssign_select (l : List ι) (f g : ι → α) (p : ι → Bool) :
    maskAssign (l.map f) (l.map p) (maskSelect (l.map g) (l.map p)) =
      some (l.map fun c => if p c then g c else f c) := by
  rw [maskSelect_map]
  induction l with
  | nil => rfl
  | cons c l ih => by_cases hp : p c = true <;> simp [hp, maskAssign, ih]

/-- Places that are not set keep their elements. -/
theorem maskAssign_unset (l : List α) (l' : List α) (mask : List Bool) (values : List α) :
    maskAssign (l ++ l') (l.map (fun _ => false) ++ mask) values =
      (maskAssign l' mask values).map fun r => l ++ r := by
  induction l with
  | nil => simp
  | cons a l ih =>
    rw [List.cons_append, map_cons, List.cons_append, maskAssign, ih, Option.map_map]
    rfl

/-- **Assigning to the first cell** of every row. -/
theorem maskAssign_head (hpos : ∀ x ∈ items, 0 < count x) (f : ι × Nat → α) (v : ι → α) :
    maskAssign ((cells items count).map f) ((cells items count).map fun c => decide (c.2 = 0))
        (items.map v) =
      some ((cells items count).map fun c => if c.2 = 0 then v c.1 else f c) := by
  induction items with
  | nil => rfl
  | cons x items ih =>
    obtain ⟨n, hn⟩ := Nat.exists_eq_succ_of_ne_zero (hpos x List.mem_cons_self).ne'
    have hrest := ih fun y hy => hpos y (List.mem_cons_of_mem x hy)
    have hcells : cells (x :: items) count =
        (x, 0) :: ((range n).map fun j => (x, j + 1)) ++ cells items count := by
      rw [cells_cons, hn, List.range_succ_eq_map, map_cons, map_map]
      rfl
    have hunset : ((range n).map fun j => (x, j + 1)).map (fun c : ι × Nat => decide (c.2 = 0)) =
        (((range n).map fun j => (x, j + 1)).map f).map fun _ => false := by
      rw [map_map, map_map, map_map]
      exact List.map_congr_left fun j _ => by simp
    rw [hcells, List.cons_append, map_cons, map_cons, map_cons, map_append,
      map_append, hunset, decide_eq_true rfl, maskAssign, maskAssign_unset, hrest]
    simp

theorem indexAssign_cons {l values : List α} {i : Nat} {indices : List Int} {a : α}
    (hi : i < l.length) :
    indexAssign l ((i : Int) :: indices) (a :: values) = indexAssign (l.set i a) indices values := by
  have hneg : ¬ (i : Int) < 0 := by omega
  conv_lhs => rw [indexAssign]
  simp only [hneg, if_false]
  rw [if_pos ⟨by omega, by exact_mod_cast hi⟩, Int.toNat_natCast]

/-- **Assigning to the last cell** of every row. -/
theorem indexAssign_last (hpos : ∀ x ∈ items, 0 < count x) (f : ι × Nat → α) (v : ι → α)
    (before : List α) :
    indexAssign (before ++ (cells items count).map f)
        ((sumsFrom (before.length : Int) (counts items count)).map fun n => n - 1) (items.map v) =
      some (before ++ (cells items count).map fun c => if c.2 + 1 = count c.1 then v c.1 else f c) := by
  induction items generalizing before with
  | nil => simp [indexAssign, counts, sumsFrom]
  | cons x items ih =>
    obtain ⟨n, hn⟩ := Nat.exists_eq_succ_of_ne_zero (hpos x List.mem_cons_self).ne'
    have hrest := ih (fun y hy => hpos y (List.mem_cons_of_mem x hy))
      (before ++ ((range n).map fun j => f (x, j)) ++ [v x])
    have hcells : cells (x :: items) count =
        ((range n).map fun j => (x, j)) ++ (x, n) :: cells items count := by
      rw [cells_cons, hn, List.range_succ, map_append, List.append_assoc]
      rfl
    have hsum : (before.length : Int) + (count x : Int) =
        ((before ++ ((range n).map fun j => f (x, j)) ++ [v x]).length : Int) := by
      rw [hn]
      simp
    have hindex : (before.length : Int) + (count x : Int) - 1 = ((before.length + n : Nat) : Int) := by
      rw [hn]
      push_cast
      ring
    have hset : (before ++ ((range n).map fun j => f (x, j)) ++
        f (x, n) :: (cells items count).map f).set (before.length + n) (v x) =
          before ++ ((range n).map fun j => f (x, j)) ++ [v x] ++ (cells items count).map f := by
      rw [List.set_append_right _ _ (by simp)]
      simp
    have hlast : (range n).map (fun j => if j + 1 = count x then v x else f (x, j)) =
        (range n).map fun j => f (x, j) :=
      List.map_congr_left fun j hj => if_neg (by have := List.mem_range.mp hj; omega)
    rw [hcells, counts_cons, sumsFrom, map_cons, map_cons, hindex, map_append,
      map_map, map_cons, ← List.append_assoc, indexAssign_cons (by simp)]
    have hcomp : (f ∘ fun j => (x, j)) = fun j => f (x, j) := rfl
    rw [hcomp, hset, hsum, hrest, map_append, map_cons, map_map]
    have hcomp' : ((fun c : ι × Nat => if c.2 + 1 = count c.1 then v c.1 else f c) ∘ fun j => (x, j)) =
        fun j => if j + 1 = count x then v x else f (x, j) := rfl
    rw [hcomp', hlast, if_pos hn.symm]
    simp

/-! ### Numbers of the cells -/

variable {β : Type}

/-- The elements of a list with their numbers, from `s` on. -/
def numbered (s : Nat) (l : List β) : List (Int × β) := (l.zipIdx s).map fun e => ((e.2 : Int), e.1)

theorem numbered_append (s : Nat) (l l' : List β) :
    numbered s (l ++ l') = numbered s l ++ numbered (s + l.length) l' := by
  rw [numbered, List.zipIdx_append, map_append]
  rfl

theorem numbered_fst (l : List β) :
    (numbered 0 l).map Prod.fst = (range l.length).map fun i : Nat => (i : Int) := by
  rw [numbered, map_map, List.range_eq_range', ← List.zipIdx_map_snd 0 l, map_map]
  rfl

theorem numbered_snd (s : Nat) (l : List β) : (numbered s l).map Prod.snd = l := by
  rw [numbered, map_map]
  exact List.zipIdx_map_fst s l

/-- **The running sums number the cells**, row by row. -/
theorem flatMap_sumsFrom (s : Nat) (f : ι → Nat → β) :
    (((s : Int) :: sumsFrom (s : Int) (counts items count)).zip items).flatMap
        (fun e => (range (count e.2)).map fun t : Nat => (e.1 + (t : Int), f e.2 t)) =
      numbered s (items.flatMap fun x => (range (count x)).map (f x)) := by
  induction items generalizing s with
  | nil => rfl
  | cons x items ih =>
    have hsum : (s : Int) + count x = ((s + count x : Nat) : Int) := by push_cast; rfl
    rw [counts_cons, sumsFrom, List.zip_cons_cons, List.flatMap_cons, hsum, ih (s + count x),
      List.flatMap_cons, numbered_append, List.length_map, List.length_range]
    congr 1
    refine List.ext_getElem (by simp [numbered]) fun i h1 h2 => ?_
    simp [numbered]

/-- Consecutive ranges, put together. -/
theorem flatMap_ranges (bound : Nat → Nat) (g : Nat → β) {n : Nat}
    (hmono : ∀ j < n, bound j ≤ bound (j + 1)) :
    bound 0 ≤ bound n ∧ ((range n).flatMap fun j =>
        (range (bound (j + 1) - bound j)).map fun t => g (bound j + t)) =
      (range (bound n - bound 0)).map fun t => g (bound 0 + t) := by
  induction n with
  | zero => simp
  | succ n ih =>
    obtain ⟨hle, heq⟩ := ih fun j hj => hmono j (hj.trans (Nat.lt_succ_self n))
    have hn := hmono n (Nat.lt_succ_self n)
    refine ⟨hle.trans hn, ?_⟩
    have hsum : bound (n + 1) - bound 0 = (bound n - bound 0) + (bound (n + 1) - bound n) := by omega
    rw [List.range_succ, List.flatMap_append, heq, hsum, List.range_add, map_append, map_map,
      List.flatMap_singleton]
    congr 1
    refine List.map_congr_left fun t _ => ?_
    rw [Function.comp_apply, ← Nat.add_assoc, Nat.add_sub_cancel' hle]

end Cells

end Ragged
