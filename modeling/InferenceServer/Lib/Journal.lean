import Mathlib.Data.List.Induction
import Mathlib.Data.List.Sort

/-!
# Numbered journals

Entries are numbered as they come, and what could be made of an entry is kept under its number. An
entry of which nothing could be made has a number all the same, so that the numbers have a gap.

The last entries of the journal are held in a buffer of bounded length. The entries from a number on
are all in the buffer as long as **no more numbers have been given from there on than the buffer
holds** (`filter_lastOf`): the gaps only make room.

## Main results

* `Journal.mem_journal`, `Journal.sorted_journal`, `Journal.filter_lastOf`, `Journal.range_iff`
-/

namespace Journal

variable {α β : Type} {f : Nat → α → Option β} {l : List α}

/-- What `f` makes of the entries, with their numbers. -/
def journal (f : Nat → α → Option β) (l : List α) : List (Nat × β) :=
  l.zipIdx.filterMap fun x => (f x.2 x.1).map (x.2, ·)

theorem journal_snoc (a : α) :
    journal f (l ++ [a]) = journal f l ++ ((f l.length a).map (l.length, ·)).toList := by
  unfold journal
  rw [List.zipIdx_append, List.filterMap_append]
  congr 1
  cases hf : f l.length a with
  | none => simp [hf]
  | some b => simp [hf]

theorem mem_journal {i : Nat} {b : β} :
    (i, b) ∈ journal f l ↔ ∃ a, l[i]? = some a ∧ f i a = some b := by
  unfold journal
  rw [List.mem_filterMap]
  constructor
  · rintro ⟨⟨a, j⟩, hmem, hmap⟩
    obtain ⟨b', hf, hpair⟩ := Option.map_eq_some_iff.mp hmap
    obtain ⟨rfl, rfl⟩ := Prod.mk.inj hpair
    exact ⟨a, List.mem_zipIdx_iff_getElem?.mp hmem, hf⟩
  · rintro ⟨a, hget, hf⟩
    exact ⟨(a, i), List.mem_zipIdx_iff_getElem?.mpr hget, by rw [hf]; rfl⟩

theorem lt_of_mem_journal {x : Nat × β} (h : x ∈ journal f l) : x.1 < l.length := by
  obtain ⟨a, hget, -⟩ := mem_journal.mp h
  exact (List.getElem?_eq_some_iff.mp hget).1

/-- The numbers increase. -/
theorem sorted_journal (f : Nat → α → Option β) (l : List α) :
    (journal f l).Pairwise fun x y => x.1 < y.1 := by
  induction l using List.reverseRecOn with
  | nil => exact List.Pairwise.nil
  | append_singleton l a ih =>
    rw [journal_snoc, List.pairwise_append]
    refine ⟨ih, ?_, fun x hx y hy => ?_⟩
    · cases f l.length a with
      | none => exact List.Pairwise.nil
      | some b => exact List.pairwise_singleton ..
    · obtain ⟨b, -, rfl⟩ := Option.map_eq_some_iff.mp (Option.mem_toList.mp hy)
      exact lt_of_mem_journal hx

/-! ## The buffer -/

/-- The last `n` elements. -/
def lastOf {γ : Type} (n : Nat) (l : List γ) : List γ := l.drop (l.length - n)

/-- An element is put at the end of a full buffer, and the first one falls out. -/
theorem lastOf_lastOf_append {γ : Type} (n : Nat) (l l' : List γ) :
    lastOf n (lastOf n l ++ l') = lastOf n (l ++ l') := by
  rcases Nat.le_total l.length n with hle | hle
  · rw [show lastOf n l = l by rw [lastOf, Nat.sub_eq_zero_of_le hle, List.drop_zero]]
  · unfold lastOf
    have hdrop : (l ++ l').length - n = (l.length - n) + l'.length := by
      rw [List.length_append]
      omega
    rw [hdrop, ← List.drop_drop, List.drop_append_of_le_length (Nat.sub_le _ _)]
    congr 1
    rw [List.length_append, List.length_drop]
    omega

/-- Increasing numbers below a bound leave room for those that follow. -/
theorem add_length_lt {x : Nat × β} {l : List (Nat × β)} {k : Nat}
    (hsorted : (x :: l).Pairwise fun x y => x.1 < y.1) (hlt : ∀ y ∈ x :: l, y.1 < k) :
    x.1 + l.length < k := by
  induction l generalizing x with
  | nil => exact hlt x List.mem_cons_self
  | cons y l ih =>
    have hxy := List.rel_of_pairwise_cons hsorted List.mem_cons_self
    have := ih hsorted.of_cons fun z hz => hlt z (List.mem_cons_of_mem x hz)
    rw [List.length_cons]
    omega

/-- **The buffer from a number on** is all there is from this number on, if no more numbers than it
holds have been given from there on. -/
theorem filter_lastOf {l : List (Nat × β)} {n m k : Nat}
    (hsorted : l.Pairwise fun x y => x.1 < y.1) (hlt : ∀ y ∈ l, y.1 < k) (hk : k ≤ m + n) :
    (lastOf n l).filter (fun x => m ≤ x.1) = l.filter fun x => m ≤ x.1 := by
  conv_rhs => rw [← List.take_append_drop (l.length - n) l, List.filter_append]
  suffices hnil : (l.take (l.length - n)).filter (fun x => m ≤ x.1) = [] by
    rw [hnil, List.nil_append, lastOf]
  -- what has fallen out has a smaller number: the buffer is full of numbers above it
  refine List.filter_eq_nil_iff.mpr fun x hx => ?_
  obtain ⟨front, back, hfront⟩ := List.append_of_mem hx
  have hl : l = front ++ x :: (back ++ l.drop (l.length - n)) := by
    conv_lhs => rw [← List.take_append_drop (l.length - n) l, hfront]
    simp
  have hsub : (x :: (back ++ l.drop (l.length - n))).Sublist l := by
    conv_rhs => rw [hl]
    exact List.sublist_append_right ..
  have hroom := add_length_lt (hsorted.sublist hsub) fun y hy => hlt y (hsub.subset hy)
  have hpos := List.length_pos_of_mem hx
  rw [List.length_append, List.length_drop] at hroom
  rw [List.length_take] at hpos
  simp only [decide_eq_true_eq, not_le]
  omega

/-! ## Ranges -/

/-- Up to a number and above it. -/
theorem filter_append_filter {l : List (Nat × β)} (s : Nat)
    (hsorted : l.Pairwise fun x y => x.1 < y.1) :
    (l.filter fun x => x.1 ≤ s) ++ (l.filter fun x => s < x.1) = l := by
  induction l with
  | nil => rfl
  | cons x l ih =>
    by_cases hx : x.1 ≤ s
    · rw [List.filter_cons_of_pos (by simpa using hx), List.filter_cons_of_neg (by simpa using hx),
        List.cons_append, ih hsorted.of_cons]
    · have hlater : ∀ y ∈ x :: l, s < y.1 := fun y hy => by
        rcases List.mem_cons.mp hy with rfl | hy
        · omega
        · have := List.rel_of_pairwise_cons hsorted hy
          omega
      rw [List.filter_eq_nil_iff.mpr fun y hy => by have := hlater y hy; simp; omega,
        List.nil_append, List.filter_eq_self.mpr fun y hy => by simpa using hlater y hy]

/-- **The journal has all numbers of a range**, each with what `g` reads back, exactly if something
could be made of all these entries. -/
theorem range_iff {g : β → α} (hg : ∀ i a b, f i a = some b → g b = a) {m s : Nat}
    (hs : s < l.length) :
    ((journal f l).filter fun x => m ≤ x.1 ∧ x.1 ≤ s).map (fun x => (x.1, some (g x.2))) =
        (List.range' m (s + 1 - m)).map (fun i => (i, l[i]?)) ↔
      ∀ i a, m ≤ i → i ≤ s → l[i]? = some a → (f i a).isSome := by
  constructor
  · intro heq i a hm hi hget
    have hmem : (i, l[i]?) ∈ (List.range' m (s + 1 - m)).map fun i => (i, l[i]?) :=
      List.mem_map_of_mem (List.mem_range'_1.mpr ⟨hm, by omega⟩)
    rw [← heq] at hmem
    obtain ⟨⟨j, b⟩, hj, hpair⟩ := List.mem_map.mp hmem
    obtain rfl := (Prod.mk.inj hpair).1
    obtain ⟨a', hget', hf⟩ := mem_journal.mp (List.mem_of_mem_filter hj)
    rw [hget] at hget'
    cases hget'
    rw [hf]
    rfl
  · intro hall
    -- both lists increase and have the same members
    have hleft : (((journal f l).filter fun x => m ≤ x.1 ∧ x.1 ≤ s).map
        fun x => (x.1, some (g x.2))).Pairwise fun x y => x.1 < y.1 :=
      List.pairwise_map.mpr ((sorted_journal f l).sublist List.filter_sublist)
    have hright : ((List.range' m (s + 1 - m)).map fun i => (i, l[i]?)).Pairwise
        fun x y => x.1 < y.1 :=
      List.pairwise_map.mpr (List.pairwise_lt_range' ..)
    have hirrefl : Std.Irrefl fun x y : Nat × Option α => x.1 < y.1 := ⟨fun x => lt_irrefl x.1⟩
    have hantisymm : Std.Antisymm fun x y : Nat × Option α => x.1 < y.1 :=
      ⟨fun x y hxy hyx => absurd hxy (lt_asymm hyx)⟩
    refine hleft.eq_of_mem_iff hright fun x => ?_
    rw [List.mem_map, List.mem_map]
    constructor
    · rintro ⟨⟨i, b⟩, hmem, rfl⟩
      obtain ⟨hmem, hrange⟩ := List.mem_filter.mp hmem
      obtain ⟨hm, hi⟩ := of_decide_eq_true hrange
      obtain ⟨a, hget, hf⟩ := mem_journal.mp hmem
      refine ⟨i, List.mem_range'_1.mpr ⟨hm, ?_⟩, ?_⟩
      · dsimp only at hi
        omega
      · rw [hget, hg i a b hf]
    · rintro ⟨i, hrange, rfl⟩
      obtain ⟨hm, hi⟩ := List.mem_range'_1.mp hrange
      have hlt : i < l.length := by omega
      have hget : l[i]? = some l[i] := List.getElem?_eq_getElem hlt
      obtain ⟨b, hf⟩ := Option.isSome_iff_exists.mp (hall i _ hm (by omega) hget)
      refine ⟨(i, b), List.mem_filter.mpr ⟨mem_journal.mpr ⟨_, hget, hf⟩, ?_⟩, ?_⟩
      · exact decide_eq_true ⟨hm, by dsimp only; omega⟩
      · rw [hget, hg i _ b hf]

/-- The elements of a range, one by one and together. -/
theorem map_getElem?_range' {m k : Nat} (h : m + k ≤ l.length) :
    (List.range' m k).map (fun i => l[i]?) = ((l.drop m).take k).map some := by
  refine List.ext_getElem? fun j => ?_
  rw [List.getElem?_map, List.getElem?_map, List.getElem?_take]
  by_cases hj : j < k
  · have hlt : m + j < l.length := by omega
    have hget : l[m + j]? = some l[m + j] := List.getElem?_eq_getElem hlt
    rw [if_pos hj, List.getElem?_range' hj, List.getElem?_drop, Option.map_some, Nat.one_mul, hget]
    rfl
  · rw [if_neg hj, List.getElem?_eq_none (by rw [List.length_range']; omega)]
    rfl

end Journal
