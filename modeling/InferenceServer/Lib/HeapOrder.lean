import Mathlib.Order.Basic
import InferenceServer.Lib.Heapq

/-!
# Heaps in order

If the comparison is that of keys in a linear order, then the operations of `Heapq` raise nothing and
keep **the order of the heap**: no element has a smaller key than its parent. So the root has the
smallest key, and it is the root that is popped.

It is enough that the comparison is that of keys on the elements *that are in the heap*. A comparison
that raises on other elements does no harm.

`siftup` lets an element go down to a leaf and up again. On both ways the order holds everywhere but
at the place of the element, and there the elements below are not smaller than the one above
(`Hole`). So the place can be closed in either direction.

## Main results

* `heappush_spec`, `heappop_spec`, `heapify_spec`: the operations keep the order
* `HeapFrom.root_le`
-/

namespace Heapq

open Outcome

variable {ε α κ : Type} [LinearOrder κ] {lt : α → α → Except ε Bool} {key : α → κ}
  {h g : List α} {start pos : Nat}

/-- On the elements of a list, the comparison is that of keys. -/
def Compares (lt : α → α → Except ε Bool) (key : α → κ) (h : List α) : Prop :=
  ∀ a ∈ h, ∀ b ∈ h, lt a b = .ok (decide (key a < key b))

theorem Compares.totalOn (hc : Compares lt key h) : TotalOn lt h :=
  fun a ha b hb => ⟨_, hc a ha b hb⟩

theorem Compares.mono (hc : Compares lt key h) (hsub : g ⊆ h) : Compares lt key g :=
  fun a ha b hb => hc a (hsub ha) b (hsub hb)

theorem Compares.perm (hc : Compares lt key h) (hp : g.Perm h) : Compares lt key g :=
  hc.mono hp.subset

/-- The key at `i` is at most that at `j`. -/
def KeyLE (key : α → κ) (h : List α) (i j : Nat) : Prop :=
  ∀ a b, h[i]? = some a → h[j]? = some b → key a ≤ key b

/-- From the position `start` on, no element has a smaller key than its parent. -/
def HeapFrom (key : α → κ) (start : Nat) (h : List α) : Prop :=
  ∀ c, 0 < c → start ≤ (c - 1) / 2 → KeyLE key h ((c - 1) / 2) c

/-- The heap is in order from `start` on, but for the element at `pos`. -/
structure Hole (key : α → κ) (start pos : Nat) (h : List α) : Prop where
  off : ∀ c, 0 < c → start ≤ (c - 1) / 2 → c ≠ pos → (c - 1) / 2 ≠ pos → KeyLE key h ((c - 1) / 2) c
  /-- The elements below are not smaller than the one above. -/
  grand : start < pos → ∀ c, 0 < c → (c - 1) / 2 = pos → KeyLE key h ((pos - 1) / 2) c

/-- The position is `start` or below it in the tree. -/
inductive Descends (start : Nat) : Nat → Prop where
  | refl : Descends start start
  | child {c : Nat} : 0 < c → Descends start ((c - 1) / 2) → Descends start c

theorem Descends.le (hd : Descends start pos) : start ≤ pos := by
  induction hd with
  | refl => exact le_rfl
  | child hc _ ih => omega

theorem Descends.parent (hd : Descends start pos) (hlt : start < pos) :
    Descends start ((pos - 1) / 2) := by
  cases hd with
  | refl => exact absurd hlt (Nat.lt_irrefl _)
  | child _ hp => exact hp

theorem descends_zero (pos : Nat) : Descends 0 pos := by
  induction pos using Nat.strongRecOn with
  | ind pos ih =>
    rcases Nat.eq_zero_or_pos pos with rfl | hpos
    · exact .refl
    · exact .child hpos (ih _ (by omega))

theorem getElem?_swapAt {i j : Nat} {a b : α} (hi : h[i]? = some a) (hj : h[j]? = some b) (k : Nat) :
    (swapAt h i j)[k]? = if k = j then some a else if k = i then some b else h[k]? := by
  have hil := (List.getElem?_eq_some_iff.mp hi).1
  have hjl := (List.getElem?_eq_some_iff.mp hj).1
  rw [swapAt, hi, hj]
  rw [List.getElem?_set, List.getElem?_set, List.length_set]
  grind

@[simp] theorem length_swapAt (h : List α) (i j : Nat) : (swapAt h i j).length = h.length :=
  (swapAt_perm h i j).length_eq

/-! ## Towards the root -/

/-- The element at `pos` changes places with its parent, which is larger. -/
theorem Hole.up (hole : Hole key start pos h) (hd : Descends start pos) (hlt : start < pos)
    {item parent : α} (hitem : h[pos]? = some item) (hparent : h[(pos - 1) / 2]? = some parent) (hkey : key item < key parent) :
    Hole key start ((pos - 1) / 2) (swapAt h ((pos - 1) / 2) pos) ∧
      ∀ c, 0 < c → (c - 1) / 2 = (pos - 1) / 2 →
        KeyLE key (swapAt h ((pos - 1) / 2) pos) ((pos - 1) / 2) c := by
  have hle := (hd.parent hlt).le
  have hget := getElem?_swapAt hparent hitem
  refine ⟨⟨fun c hc hcs hcp hpp a b ha hb => ?_, fun hsp c hc hcp a b ha hb => ?_⟩,
    fun c hc hcp a b ha hb => ?_⟩
  · rw [hget] at ha hb
    have := hole.off c hc hcs
    have := hole.grand hlt c hc
    simp only [KeyLE] at *
    grind
  · rw [hget] at ha hb
    have hup := hole.off ((pos - 1) / 2) (by omega) (by have := ((hd.parent hlt).parent hsp).le; omega)
      (by omega) (by omega)
    have := hole.off c hc
    simp only [KeyLE] at *
    grind
  · rw [hget] at ha hb
    have := hole.off c hc
    simp only [KeyLE] at *
    grind

/-- The element at `pos` is in its place. -/
theorem Hole.close (hole : Hole key start pos h)
    (hbelow : ∀ c, 0 < c → (c - 1) / 2 = pos → KeyLE key h pos c)
    (habove : start < pos → KeyLE key h ((pos - 1) / 2) pos) : HeapFrom key start h := by
  intro c hc hcs
  by_cases hcp : c = pos
  · subst hcp
    exact habove (by omega)
  · by_cases hpp : (c - 1) / 2 = pos
    · rw [hpp]
      exact hbelow c hc hpp
    · exact hole.off c hc hcs hcp hpp

theorem siftdown_spec (hc : Compares lt key h) (hole : Hole key start pos h)
    (hbelow : ∀ c, 0 < c → (c - 1) / 2 = pos → KeyLE key h pos c) (hd : Descends start pos)
    {fuel : Nat} (hfuel : pos ≤ fuel) :
    ∃ h', siftdown lt start fuel pos h = .ok h' ∧ HeapFrom key start h' := by
  induction fuel generalizing pos h with
  | zero => exact ⟨h, rfl, hole.close hbelow fun hlt => absurd hfuel (by omega)⟩
  | succ fuel ih =>
    unfold siftdown
    by_cases hlt : start < pos
    swap
    · rw [if_neg hlt]
      exact ⟨h, rfl, hole.close hbelow fun hlt' => absurd hlt' hlt⟩
    rw [if_pos hlt]
    cases hitem : h[pos]? with
    | none =>
      refine ⟨h, rfl, hole.close hbelow fun _ a b _ hb => ?_⟩
      rw [hitem] at hb
      cases hb
    | some item =>
      have hparent : ∃ parent, h[(pos - 1) / 2]? = some parent := by
        have hlen := (List.getElem?_eq_some_iff.mp hitem).1
        exact ⟨_, List.getElem?_eq_getElem (by omega)⟩
      obtain ⟨parent, hparent⟩ := hparent
      rw [hparent]
      dsimp only
      rw [hc item (List.mem_of_getElem? hitem) parent (List.mem_of_getElem? hparent)]
      by_cases hkey : key item < key parent
      · rw [decide_eq_true hkey]
        obtain ⟨hole', hbelow'⟩ := hole.up hd hlt hitem hparent hkey
        exact ih (hc.perm (swapAt_perm h _ _)) hole' hbelow' (hd.parent hlt) (by omega)
      · rw [decide_eq_false hkey]
        refine ⟨h, rfl, hole.close hbelow fun _ a b ha hb => ?_⟩
        rw [hparent] at ha
        rw [hitem] at hb
        cases ha
        cases hb
        exact not_lt.mp hkey

/-! ## Towards the leaves -/

theorem smallerChild_spec (hc : Compares lt key h) (hpos : pos < h.length / 2) :
    ∃ child, smallerChild lt pos h = .ok child ∧ child < h.length ∧ 0 < child ∧
      (child - 1) / 2 = pos ∧ ∀ c, 0 < c → (c - 1) / 2 = pos → KeyLE key h child c := by
  have hlt : 2 * pos + 1 < h.length := by omega
  have hleft : h[2 * pos + 1]? = some h[2 * pos + 1] := List.getElem?_eq_getElem hlt
  unfold smallerChild
  rw [hleft]
  cases hright : h[2 * pos + 2]? with
  | none =>
    -- there is no other child
    have hlen := List.getElem?_eq_none_iff.mp hright
    refine ⟨2 * pos + 1, rfl, by omega, by omega, by omega, fun c hc hcp a b ha hb => ?_⟩
    have hb' := (List.getElem?_eq_some_iff.mp hb).1
    obtain rfl : c = 2 * pos + 1 := by omega
    rw [ha] at hb
    exact (congrArg key (Option.some.inj hb)).le
  | some right =>
    have hlen := (List.getElem?_eq_some_iff.mp hright).1
    dsimp only
    rw [hc _ (List.getElem_mem _) right (List.mem_of_getElem? hright)]
    refine ⟨_, rfl, ?_⟩
    by_cases hkey : key h[2 * pos + 1] < key right
    · rw [decide_eq_true hkey, if_pos rfl]
      refine ⟨by omega, by omega, by omega, fun c hc hcp a b ha hb => ?_⟩
      have hor : c = 2 * pos + 1 ∨ c = 2 * pos + 2 := by omega
      grind
    · rw [decide_eq_false hkey, if_neg Bool.false_ne_true]
      refine ⟨by omega, by omega, by omega, fun c hc hcp a b ha hb => ?_⟩
      have hor : c = 2 * pos + 1 ∨ c = 2 * pos + 2 := by omega
      grind

/-- The element at `pos` changes places with its smaller child. -/
theorem Hole.down (hole : Hole key start pos h) (hs : start ≤ pos) {child : Nat}
    (hlen : child < h.length) (hpos : 0 < child) (hparent : (child - 1) / 2 = pos)
    (hmin : ∀ c, 0 < c → (c - 1) / 2 = pos → KeyLE key h child c) :
    Hole key start child (swapAt h child pos) := by
  have hget := getElem?_swapAt (List.getElem?_eq_getElem hlen)
    (List.getElem?_eq_getElem (show pos < h.length by omega))
  have hbelow : ∀ c, 0 < c → (c - 1) / 2 = child → KeyLE key h child c := fun c hc hcp => by
    have := hole.off c hc (by omega) (by omega) (by omega)
    rwa [hcp] at this
  refine ⟨fun c hc hcs hcp hpp a b ha hb => ?_, fun hsp c hc hcp a b ha hb => ?_⟩
  · rw [hget] at ha hb
    have := hole.off c hc hcs
    have := hole.grand
    simp only [KeyLE] at *
    grind
  · rw [hget] at ha hb
    have := hbelow c hc hcp
    simp only [KeyLE] at *
    grind

/-- The element at `start` goes down to a leaf. -/
theorem bubble_spec (hc : Compares lt key h) (hole : Hole key start pos h) (hd : Descends start pos)
    (hle : pos ≤ h.length) {fuel : Nat} (hfuel : h.length ≤ fuel + pos) :
    ∃ pos' h', bubble lt fuel pos h = .ok (pos', h') ∧ Hole key start pos' h' ∧
      Descends start pos' ∧ pos' ≤ h'.length ∧ h'.length ≤ 2 * pos' + 1 := by
  induction fuel generalizing pos h with
  | zero => exact ⟨pos, h, rfl, hole, hd, hle, by omega⟩
  | succ fuel ih =>
    unfold bubble
    by_cases hpos : pos < h.length / 2
    swap
    · rw [if_neg hpos]
      exact ⟨pos, h, rfl, hole, hd, hle, by omega⟩
    obtain ⟨child, hchild, hlen, hzero, hparent, hmin⟩ := smallerChild_spec hc hpos
    rw [if_pos hpos, hchild]
    exact ih (hc.perm (swapAt_perm h _ _)) (hole.down hd.le hlen hzero hparent hmin)
      (.child hzero (hparent ▸ hd)) (by rw [length_swapAt]; omega) (by rw [length_swapAt]; omega)

theorem siftup_spec (hc : Compares lt key h) (hole : Hole key start start h) (hle : start ≤ h.length) :
    ∃ h', siftup lt start h = .ok h' ∧ HeapFrom key start h' := by
  have hfuel : h.length ≤ h.length + start := Nat.le_add_right _ _
  obtain ⟨pos, g, hb, hole', hd, hpos, hleaf⟩ := bubble_spec hc hole .refl hle hfuel
  -- a leaf has no children
  have hnone : ∀ c, 0 < c → (c - 1) / 2 = pos → KeyLE key g pos c := fun c hc hcp a b _ hbc => by
    have := (List.getElem?_eq_some_iff.mp hbc).1
    omega
  obtain ⟨h', hh', hheap⟩ := siftdown_spec (hc.perm (bubble_perm lt hb)) hole' hnone hd hpos
  exact ⟨h', bind_eq_ok.mpr ⟨(pos, g), hb, hh'⟩, hheap⟩

/-! ## The operations -/

theorem HeapFrom.keyLE_root (hh : HeapFrom key 0 h) (i : Nat) : KeyLE key h 0 i := by
  induction i using Nat.strongRecOn with
  | ind i ih =>
    intro a b ha hb
    rcases Nat.eq_zero_or_pos i with rfl | hi
    · rw [ha] at hb
      exact (congrArg key (Option.some.inj hb)).le
    · have hlen := (List.getElem?_eq_some_iff.mp hb).1
      have hlt : (i - 1) / 2 < h.length := by omega
      have hp : h[(i - 1) / 2]? = some h[(i - 1) / 2] := List.getElem?_eq_getElem hlt
      exact (ih _ (by omega) a _ ha hp).trans (hh i hi (Nat.zero_le _) _ b hp hb)

/-- **The root has the smallest key.** -/
theorem HeapFrom.root_le (hh : HeapFrom key 0 h) {a b : α} (ha : h.head? = some a) (hb : b ∈ h) :
    key a ≤ key b := by
  obtain ⟨i, hi⟩ := List.getElem?_of_mem hb
  exact hh.keyLE_root i a b (List.head?_eq_getElem? ▸ ha) hi

theorem heapFrom_nil : HeapFrom key start [] := fun c _ _ a b ha _ => by cases ha

theorem heappush_spec {item : α} (hc : Compares lt key (item :: h)) (hh : HeapFrom key 0 h) :
    ∃ h', heappush lt h item = .ok h' ∧ HeapFrom key 0 h' := by
  have hperm := List.perm_append_singleton item h
  have hold : ∀ k, k ≠ h.length → ∀ a, (h ++ [item])[k]? = some a → h[k]? = some a := by
    intro k hk a ha
    have := (List.getElem?_eq_some_iff.mp ha).1
    rw [List.length_append, List.length_singleton] at this
    rwa [List.getElem?_append_left (by omega)] at ha
  -- the new element has no children
  have hleaf : ∀ c, 0 < c → (c - 1) / 2 = h.length → ∀ i, KeyLE key (h ++ [item]) i c :=
    fun c hc hcp i a b _ hb => by
      have := (List.getElem?_eq_some_iff.mp hb).1
      rw [List.length_append, List.length_singleton] at this
      omega
  have hole : Hole key 0 h.length (h ++ [item]) :=
    ⟨fun c hc hcs hcp hpp a b ha hb => hh c hc hcs a b (hold _ hpp a ha) (hold _ hcp b hb),
      fun _ c hc hcp => hleaf c hc hcp _⟩
  exact siftdown_spec (hc.perm hperm) hole (fun c hc hcp => hleaf c hc hcp _) (descends_zero _)
    (Nat.le_succ _)

theorem heappop_spec (hc : Compares lt key h) (hh : HeapFrom key 0 h) (hne : h ≠ []) :
    ∃ a h', heappop lt h = .ok (some (a, h')) ∧ HeapFrom key 0 h' ∧ h.Perm (a :: h') ∧
      ∀ b ∈ h, key a ≤ key b := by
  have hpop : ∃ a h', heappop lt h = .ok (some (a, h')) ∧ HeapFrom key 0 h' := by
    match h, hne with
    | [a], _ => exact ⟨a, [], rfl, heapFrom_nil⟩
    | a :: b :: rest, _ =>
      -- the elements below the root stay in their places
      have hold : ∀ k x, 0 < k → ((b :: rest).getLastD b :: (b :: rest).dropLast)[k]? = some x →
          (a :: b :: rest)[k]? = some x := by
        intro k x hk hx
        obtain ⟨k, rfl⟩ := Nat.exists_eq_add_of_lt hk
        rw [Nat.zero_add, List.getElem?_cons_succ] at hx ⊢
        rw [List.getElem?_dropLast] at hx
        split_ifs at hx
        exact hx
      have hole : Hole key 0 0 ((b :: rest).getLastD b :: (b :: rest).dropLast) :=
        ⟨fun c hc hcs _ hpp x y hx hy =>
          hh c hc hcs x y (hold _ x (Nat.pos_of_ne_zero hpp) hx) (hold c y hc hy),
          fun hlt => absurd hlt (Nat.lt_irrefl 0)⟩
      obtain ⟨h', hh', hheap⟩ := siftup_spec (hc.mono (lastFirst_subset a b rest)) hole (Nat.zero_le _)
      exact ⟨a, h', bind_eq_ok.mpr ⟨h', hh', rfl⟩, hheap⟩
  obtain ⟨a, h', hpop, hheap⟩ := hpop
  obtain ⟨hroot, hperm⟩ := heappop_some lt hpop
  exact ⟨a, h', hpop, hheap, hperm, fun b hb => hh.root_le hroot hb⟩

/-- The positions are taken from the last one with a child to the root. -/
theorem heapify_spec (hc : Compares lt key h) :
    ∃ h', heapify lt h = .ok h' ∧ HeapFrom key 0 h' := by
  have hloop : ∀ n g, n ≤ g.length → Compares lt key g → HeapFrom key n g →
      ∃ h', threadM (fun i h => siftup lt i h) (List.range n).reverse g = .ok h' ∧
        HeapFrom key 0 h' := by
    intro n
    induction n with
    | zero => exact fun g _ _ hg => ⟨g, rfl, hg⟩
    | succ n ih =>
      intro g hn hcg hg
      have hole : Hole key n n g :=
        ⟨fun c hc hcs _ hpp => hg c hc (by omega), fun hlt => absurd hlt (Nat.lt_irrefl n)⟩
      obtain ⟨g', hg', hheap⟩ := siftup_spec hcg hole (by omega)
      have hperm := siftup_perm lt hg'
      obtain ⟨h', hh', hheap'⟩ := ih g' (by have := hperm.length_eq; omega) (hcg.perm hperm) hheap
      rw [List.range_succ, List.reverse_append, List.reverse_singleton]
      exact ⟨h', threadM_cons_ok.mpr ⟨g', hg', hh'⟩, hheap'⟩
  refine hloop _ h (by omega) hc fun c hcpos hcs a b _ hb => ?_
  have := (List.getElem?_eq_some_iff.mp hb).1
  omega

end Heapq
