import InferenceServer.Lib.Chunks
import Mathlib.Data.Finset.Card
import Mathlib.Data.Set.Function

/-!
# Rows of an array

The rows of an array are lists; what is computed from them by gathering, scattering and cutting is easier
to follow if a row is given by a function on its positions. Each operation on such rows is again such a
row, so that index arithmetic becomes the composition of functions.

## Main results

* `gatherAt_tab`, `scatterAt_tab`, `chunks_tab`, `flatten_tab`, `PermOn.of_injOn`
-/

variable {α β γ : Type}

/-- The row `f 0, …, f (n - 1)`. -/
def tab (n : Nat) (f : Nat → α) : List α := (List.range n).map f

@[simp] theorem length_tab (n : Nat) (f : Nat → α) : (tab n f).length = n := by simp [tab]

theorem getElem?_tab {n i : Nat} (f : Nat → α) (h : i < n) : (tab n f)[i]? = some (f i) := by
  rw [tab, List.getElem?_map, List.getElem?_range h]
  rfl

theorem getElem?_tab_eq_some {n i : Nat} {f : Nat → α} {a : α} :
    (tab n f)[i]? = some a ↔ i < n ∧ f i = a := by
  constructor
  · intro h
    have hlt : i < n := by
      have := (List.getElem?_eq_some_iff.mp h).1
      rwa [length_tab] at this
    exact ⟨hlt, Option.some.inj ((getElem?_tab f hlt).symm.trans h)⟩
  · rintro ⟨hlt, rfl⟩
    exact getElem?_tab f hlt

theorem getD_tab {n i : Nat} (f : Nat → α) (a : α) (h : i < n) : (tab n f).getD i a = f i := by
  rw [List.getD_eq_getElem?_getD, getElem?_tab f h]
  rfl

theorem mem_tab {n : Nat} {f : Nat → α} {a : α} : a ∈ tab n f ↔ ∃ i < n, f i = a := by
  simp [tab]

theorem tab_congr {n : Nat} {f g : Nat → α} (h : ∀ i < n, f i = g i) : tab n f = tab n g :=
  List.map_congr_left fun i hi => h i (List.mem_range.mp hi)

theorem tab_succ (n : Nat) (f : Nat → α) : tab (n + 1) f = tab n f ++ [f n] := by
  rw [tab, List.range_succ, List.map_append]
  rfl

theorem replicate_eq_tab (n : Nat) (a : α) : List.replicate n a = tab n fun _ => a :=
  (List.map_const' .. |>.trans (by rw [List.length_range])).symm

theorem map_tab (n : Nat) (f : Nat → α) (g : α → β) : (tab n f).map g = tab n fun i => g (f i) :=
  List.map_map

theorem zipWith_tab (n : Nat) (f : Nat → α) (g : Nat → β) (h : α → β → γ) :
    List.zipWith h (tab n f) (tab n g) = tab n fun i => h (f i) (g i) := by
  rw [tab, tab, List.zipWith_map, List.zipWith_self]
  rfl

theorem set_tab (n : Nat) (f : Nat → α) (i : Nat) (a : α) :
    (tab n f).set i a = tab n (Function.update f i a) := by
  refine List.ext_getElem? fun j => ?_
  by_cases hj : j < n
  · rw [getElem?_tab _ hj, List.getElem?_set, length_tab]
    by_cases hij : i = j
    · subst hij
      rw [if_pos rfl, if_pos hj, Function.update_self]
    · rw [if_neg hij, getElem?_tab _ hj, Function.update_of_ne (Ne.symm hij)]
  · rw [List.getElem?_eq_none (by simpa using hj), List.getElem?_eq_none (by simpa using hj)]

/-- A row of numbers, as integers. -/
abbrev intTab (n : Nat) (f : Nat → Nat) : List Int := tab n fun i => (f i : Int)

theorem set_intTab (n : Nat) (f : Nat → Nat) (i a : Nat) :
    (intTab n f).set i (a : Int) = intTab n (Function.update f i a) := by
  rw [intTab, set_tab]
  refine tab_congr fun j _ => ?_
  by_cases hj : j = i
  · rw [hj, Function.update_self, Function.update_self]
  · rw [Function.update_of_ne hj, Function.update_of_ne hj]

theorem zip_tab (n : Nat) (f : Nat → α) (g : Nat → β) :
    (tab n f).zip (tab n g) = tab n fun i => (f i, g i) := by
  rw [List.zip, zipWith_tab]

theorem zipIdx_tab (n : Nat) (f : Nat → α) : (tab n f).zipIdx = tab n fun i => (f i, i) := by
  rw [List.zipIdx_eq_zip_range', length_tab, ← List.range_eq_range', ← List.map_id (List.range n)]
  exact zip_tab n f id

/-- Every row is given by a function. -/
theorem exists_eq_tab [Inhabited α] (l : List α) : ∃ f, l = tab l.length f :=
  ⟨fun i => l.getD i default, List.ext_getElem? fun i => by
    by_cases hi : i < l.length
    · rw [getElem?_tab _ hi, List.getD_eq_getElem?_getD, List.getElem?_eq_getElem hi]
      rfl
    · rw [List.getElem?_eq_none (by omega), List.getElem?_eq_none (by rw [length_tab]; omega)]⟩

/-! ## Cutting -/

theorem div_mod_of_lt {a b k : Nat} (hb : b < k) : (a * k + b) / k = a ∧ (a * k + b) % k = b := by
  have hk : 0 < k := by omega
  constructor
  · rw [Nat.add_comm, Nat.add_mul_div_right _ _ hk, Nat.div_eq_of_lt hb, Nat.zero_add]
  · rw [Nat.add_comm, Nat.add_mul_mod_self_right, Nat.mod_eq_of_lt hb]

/-- Rows of one length, put together. -/
theorem flatten_tab (n k : Nat) (f : Nat → Nat → α) :
    (tab n fun a => tab k (f a)).flatten = tab (n * k) fun i => f (i / k) (i % k) := by
  induction n with
  | zero => rw [Nat.zero_mul]; rfl
  | succ n ih =>
    rw [tab_succ, List.flatten_append, ih, List.flatten_singleton, Nat.succ_mul, tab, tab, tab,
      List.range_add, List.map_append, List.map_map]
    refine congrArg _ (List.map_congr_left fun b hb => ?_)
    obtain ⟨hdiv, hmod⟩ := @div_mod_of_lt n b k (List.mem_range.mp hb)
    rw [Function.comp_apply, hdiv, hmod]

theorem tab_mul (n k : Nat) (f : Nat → α) :
    tab (n * k) f = (tab n fun a => tab k fun b => f (a * k + b)).flatten := by
  rw [flatten_tab]
  exact tab_congr fun i _ => congrArg f (Nat.div_add_mod' i k).symm

/-- A row, cut into rows of one length. -/
theorem chunks_tab {n k : Nat} (hk : 0 < k) (f : Nat → α) :
    chunks k (tab (n * k) f) = tab n fun a => tab k fun b => f (a * k + b) := by
  rw [tab_mul, tab, ← List.flatMap_def]
  exact chunks_flatMap hk fun a _ => length_tab _ _

/-! ## Gathering and scattering -/

/-- The elements at the positions. -/
def gatherAt (l : List α) (indices : List Int) : Option (List α) :=
  indices.mapM fun i => if 0 ≤ i then l[i.toNat]? else none

/-- Write an element at a position. -/
def putAt (l : List α) (e : Int × α) : Option (List α) :=
  if 0 ≤ e.1 ∧ e.1 < l.length then some (l.set e.1.toNat e.2) else none

/-- The elements of `src` are written at the positions. -/
def scatterAt (l : List α) (indices : List Int) (src : List α) : Option (List α) :=
  if indices.length ≤ src.length then (indices.zip src).foldlM putAt l else none

theorem gatherAt_tab {n m : Nat} (f : Nat → α) {g : Nat → Nat} (h : ∀ j < m, g j < n) :
    gatherAt (tab n f) (tab m fun j => (g j : Int)) = some (tab m fun j => f (g j)) := by
  induction m with
  | zero => rfl
  | succ m ih =>
    rw [tab_succ, tab_succ, gatherAt, List.mapM_append]
    have hrest := ih fun j hj => h j (by omega)
    rw [gatherAt] at hrest
    rw [hrest]
    have hlast := getElem?_tab f (h m (by omega))
    simp [hlast]

/-- **Scattering** at different positions: each of them holds its element, the others keep theirs. -/
theorem scatterAt_tab {n m : Nat} (f : Nat → α) {g : Nat → Nat} (v : Nat → α)
    (h : ∀ j < m, g j < n) (hinj : ∀ i < m, ∀ j < m, g i = g j → i = j) :
    ∃ f', scatterAt (tab n f) (tab m fun j => (g j : Int)) (tab m v) = some (tab n f') ∧
      (∀ j < m, f' (g j) = v j) ∧ ∀ i < n, (∀ j < m, g j ≠ i) → f' i = f i := by
  induction m with
  | zero => exact ⟨f, rfl, fun j hj => absurd hj (Nat.not_lt_zero j), fun i _ _ => rfl⟩
  | succ m ih =>
    obtain ⟨f', hf', hset, hkeep⟩ := ih (fun j hj => h j (by omega))
      fun i hi j hj => hinj i (by omega) j (by omega)
    have hm := h m (by omega)
    rw [scatterAt, if_pos (by simp)] at hf'
    refine ⟨Function.update f' (g m) (v m), ?_, fun j hj => ?_, fun i hi hne => ?_⟩
    · have hput : putAt (tab n f') ((g m : Int), v m) =
          some (tab n (Function.update f' (g m) (v m))) := by
        rw [putAt, if_pos ⟨by simp, by simpa using hm⟩, Int.toNat_natCast, set_tab]
      rw [scatterAt, if_pos (by simp), tab_succ, tab_succ, List.zip_append (by simp),
        List.foldlM_append, hf']
      simp [hput]
    · by_cases hjm : g j = g m
      · rw [hjm, Function.update_self, hinj j hj m (by omega) hjm]
      · rw [Function.update_of_ne hjm]
        refine hset j ?_
        rcases Nat.lt_succ_iff_lt_or_eq.mp hj with hlt | rfl
        · exact hlt
        · exact absurd rfl hjm
    · rw [Function.update_of_ne (hne m (by omega)).symm]
      exact hkeep i hi fun j hj => hne j (by omega)

/-! ## Permutations -/

/-- `σ` and `τ` are inverse to each other on the numbers below `n`. -/
structure PermOn (n : Nat) (σ τ : Nat → Nat) : Prop where
  lt : ∀ i < n, σ i < n
  inv_lt : ∀ i < n, τ i < n
  inv : ∀ i < n, τ (σ i) = i
  apply_inv : ∀ i < n, σ (τ i) = i

theorem PermOn.symm {n : Nat} {σ τ : Nat → Nat} (h : PermOn n σ τ) : PermOn n τ σ :=
  ⟨h.inv_lt, h.lt, h.apply_inv, h.inv⟩

theorem PermOn.inj {n : Nat} {σ τ : Nat → Nat} (h : PermOn n σ τ) :
    ∀ i < n, ∀ j < n, σ i = σ j → i = j := fun i hi j hj heq => by
  rw [← h.inv i hi, heq, h.inv j hj]

/-- An injection of a finite set into itself has an inverse. -/
theorem PermOn.of_injOn {n : Nat} {σ : Nat → Nat} (hlt : ∀ i < n, σ i < n)
    (hinj : ∀ i < n, ∀ j < n, σ i = σ j → i = j) : ∃ τ, PermOn n σ τ := by
  have hsurj : ∀ j < n, ∃ i < n, σ i = j := by
    have h := Finset.surj_on_of_inj_on_of_card_le (s := Finset.range n) (t := Finset.range n)
      (fun i _ => σ i) (fun i hi => Finset.mem_range.mpr (hlt i (Finset.mem_range.mp hi)))
      (fun i j hi hj => hinj i (Finset.mem_range.mp hi) j (Finset.mem_range.mp hj)) le_rfl
    intro j hj
    obtain ⟨i, hi, heq⟩ := h j (Finset.mem_range.mpr hj)
    exact ⟨i, Finset.mem_range.mp hi, heq.symm⟩
  choose! τ hτ hσ using hsurj
  exact ⟨τ, hlt, hτ, fun i hi => hinj _ (hτ _ (hlt i hi)) i hi (hσ _ (hlt i hi)), hσ⟩

theorem exists_tab_of_perm {n : Nat} {l : List Nat} (h : l.Perm (List.range n)) :
    ∃ σ τ, l = tab n σ ∧ PermOn n σ τ := by
  have hlen : l.length = n := by rw [h.length_eq, List.length_range]
  obtain ⟨σ, hσ⟩ := exists_eq_tab l
  rw [hlen] at hσ
  have hnodup : (tab n σ).Nodup := hσ ▸ h.nodup_iff.mpr List.nodup_range
  obtain ⟨τ, hτ⟩ := @PermOn.of_injOn n σ
    (fun i hi => List.mem_range.mp (h.mem_iff.mp (hσ ▸ mem_tab.mpr ⟨i, hi, rfl⟩)))
    (fun i hi j hj heq => List.inj_on_of_nodup_map hnodup (List.mem_range.mpr hi)
      (List.mem_range.mpr hj) heq)
  exact ⟨σ, τ, hσ, hτ⟩

theorem mul_add_lt {a b m k : Nat} (ha : a < m) (hb : b < k) : a * k + b < m * k :=
  calc a * k + b < a * k + k := Nat.add_lt_add_left hb _
    _ = (a + 1) * k := (Nat.succ_mul _ _).symm
    _ ≤ m * k := Nat.mul_le_mul_right k ha

/-- Different places in boxes of one size, as many as there are. -/
theorem PermOn.of_places {m k : Nat} {box place : Nat → Nat} (hbox : ∀ i < m * k, box i < m)
    (hplace : ∀ i < m * k, place i < k)
    (hinj : ∀ i < m * k, ∀ j < m * k, box i = box j → place i = place j → i = j) :
    ∃ τ, PermOn (m * k) (fun i => box i * k + place i) τ := by
  refine PermOn.of_injOn (fun i hi => mul_add_lt (hbox i hi) (hplace i hi)) fun i hi j hj heq => ?_
  obtain ⟨hd, hm⟩ := @div_mod_of_lt (box i) _ k (hplace i hi)
  obtain ⟨hd', hm'⟩ := @div_mod_of_lt (box j) _ k (hplace j hj)
  exact hinj i hi j hj (by rw [← hd, ← hd', heq]) (by rw [← hm, ← hm', heq])

/-- Blocks of one size change places. -/
theorem PermOn.blocks {n : Nat} {σ τ : Nat → Nat} (h : PermOn n σ τ) (k : Nat) :
    PermOn (n * k) (fun i => σ (i / k) * k + i % k) fun i => τ (i / k) * k + i % k := by
  have hdiv : ∀ i < n * k, i / k < n := fun i hi => Nat.div_lt_of_lt_mul (Nat.mul_comm n k ▸ hi)
  have hmod : ∀ i < n * k, i % k < k := fun i hi =>
    Nat.mod_lt i (Nat.pos_of_ne_zero fun hk => by rw [hk, Nat.mul_zero] at hi; omega)
  refine ⟨fun i hi => mul_add_lt (h.lt _ (hdiv i hi)) (hmod i hi),
    fun i hi => mul_add_lt (h.inv_lt _ (hdiv i hi)) (hmod i hi), fun i hi => ?_, fun i hi => ?_⟩
  · obtain ⟨hd, hm⟩ := @div_mod_of_lt (σ (i / k)) _ k (hmod i hi)
    rw [hd, hm, h.inv _ (hdiv i hi), Nat.div_add_mod']
  · obtain ⟨hd, hm⟩ := @div_mod_of_lt (τ (i / k)) _ k (hmod i hi)
    rw [hd, hm, h.apply_inv _ (hdiv i hi), Nat.div_add_mod']
