import InferenceServer.Lib.Outcome

/-!
# Binary heaps on lists

The heap queue of Python's standard library: a binary heap laid out in a list, with a comparison
that may raise. The children of position `i` are `2 * i + 1` and `2 * i + 2`.

Nothing here depends on the comparison being an order. What every operation does to the *contents*
of the heap is stated up to permutation; that is all that is needed to see that no element gets
lost or duplicated.

## Main results

* `Heapq.heappush_perm`, `Heapq.heappop_perm`, `Heapq.heapify_perm`, `Heapq.drain_perm`
* `Heapq.heappop_cons_ok`, `Heapq.drain_ok`: with a comparison that raises nothing, the operations raise
  nothing
-/

namespace Heapq

open Outcome

variable {ε α : Type} (lt : α → α → Except ε Bool)

/-- Exchange the elements at two positions. -/
def swapAt (h : List α) (i j : Nat) : List α :=
  match h[i]?, h[j]? with
  | some a, some b => (h.set i b).set j a
  | _, _ => h

theorem swapAt_perm (h : List α) (i j : Nat) : (swapAt h i j).Perm h := by
  unfold swapAt
  split
  next a b ha hb =>
    obtain ⟨hi, rfl⟩ := List.getElem?_eq_some_iff.mp ha
    obtain ⟨hj, rfl⟩ := List.getElem?_eq_some_iff.mp hb
    exact List.set_set_perm hi hj
  next => exact List.Perm.refl h

/-! ## Sifting

Both loops are bounded by a fuel: the position strictly decreases in `siftdown` and strictly
increases in `siftup`, so a fuel of the length of the heap is never used up. -/

/-- The element at `pos` changes places with its parent while it is smaller. -/
def siftdown (startpos : Nat) : Nat → Nat → List α → Except ε (List α)
  | 0, _, h => .ok h
  | fuel + 1, pos, h =>
    if startpos < pos then
      match h[pos]?, h[(pos - 1) / 2]? with
      | some newitem, some parent => do
        let smaller ← lt newitem parent
        if smaller then siftdown startpos fuel ((pos - 1) / 2) (swapAt h ((pos - 1) / 2) pos)
        else return h
      | _, _ => .ok h
    else .ok h

/-- The position of the smaller child of `pos`; the right one if they compare neither way. -/
def smallerChild (pos : Nat) (h : List α) : Except ε Nat :=
  match h[2 * pos + 1]?, h[2 * pos + 2]? with
  | some left, some right => do
    let smaller ← lt left right
    return if smaller then 2 * pos + 1 else 2 * pos + 2
  | _, _ => .ok (2 * pos + 1)

/-- The element at `pos` changes places with its smaller child until it is a leaf, and the place
where it ends is returned. -/
def bubble : Nat → Nat → List α → Except ε (Nat × List α)
  | 0, pos, h => .ok (pos, h)
  | fuel + 1, pos, h =>
    if pos < h.length / 2 then do
      let child ← smallerChild lt pos h
      bubble fuel child (swapAt h child pos)
    else .ok (pos, h)

/-- The element at `startpos` goes to a leaf, and from there up to its place. -/
def siftup (startpos : Nat) (h : List α) : Except ε (List α) := do
  let (pos, h') ← bubble lt h.length startpos h
  siftdown lt startpos h'.length pos h'

variable {h h' : List α}

theorem siftdown_perm {startpos fuel pos : Nat}
    (hs : siftdown lt startpos fuel pos h = .ok h') : h'.Perm h := by
  induction fuel generalizing pos h with
  | zero =>
    obtain rfl : h = h' := by simpa [siftdown] using hs
    exact List.Perm.refl h
  | succ fuel ih =>
    unfold siftdown at hs
    split at hs
    case isFalse =>
      obtain rfl := Except.ok.inj hs
      exact List.Perm.refl h
    case isTrue =>
      split at hs
      next newitem parent =>
        obtain ⟨smaller, -, hs⟩ := bind_eq_ok.mp hs
        cases smaller with
        | true => exact (ih hs).trans (swapAt_perm h _ _)
        | false =>
          obtain rfl : h = h' := pure_eq_ok.mp hs
          exact List.Perm.refl h
      next =>
        obtain rfl := Except.ok.inj hs
        exact List.Perm.refl h

theorem bubble_perm {fuel pos pos' : Nat}
    (hs : bubble lt fuel pos h = .ok (pos', h')) : h'.Perm h := by
  induction fuel generalizing pos h with
  | zero =>
    obtain ⟨-, rfl⟩ : pos = pos' ∧ h = h' := by simpa [bubble] using hs
    exact List.Perm.refl h
  | succ fuel ih =>
    unfold bubble at hs
    split at hs
    case isFalse =>
      obtain ⟨-, rfl⟩ := pair_of_ok hs
      exact List.Perm.refl h
    case isTrue =>
      obtain ⟨child, -, hs⟩ := bind_eq_ok.mp hs
      exact (ih hs).trans (swapAt_perm h _ _)

theorem siftup_perm {startpos : Nat} (hs : siftup lt startpos h = .ok h') :
    h'.Perm h := by
  obtain ⟨⟨pos, h₁⟩, hb, hs⟩ := bind_eq_ok.mp hs
  exact (siftdown_perm lt hs).trans (bubble_perm lt hb)

/-! ## The heap operations -/

/-- `heappush`. -/
def heappush (h : List α) (item : α) : Except ε (List α) :=
  siftdown lt 0 (h.length + 1) h.length (h ++ [item])

/-- `heappop`: the element at the root and the heap without it; `none` if the heap is empty. -/
def heappop (h : List α) : Except ε (Option (α × List α)) :=
  match h with
  | [] => .ok none
  | [a] => .ok (some (a, []))
  -- the last element takes the place of the root
  | a :: b :: rest => do
    let h' ← siftup lt 0 ((b :: rest).getLastD b :: (b :: rest).dropLast)
    return some (a, h')

/-- `heapify`: sift up every position that has a child, from the last one to the root. -/
def heapify (h : List α) : Except ε (List α) :=
  threadM (fun i h => siftup lt i h) (List.range (h.length / 2)).reverse h

/-- Pop until the heap is empty. A heap of `n` elements is empty after `n` pops. -/
def drainLoop : Nat → List α → Except ε (List α)
  | 0, _ => .ok []
  | fuel + 1, h => do
    match ← heappop lt h with
    | none => return []
    | some (a, h') => do
      let as ← drainLoop fuel h'
      return a :: as

/-- The elements of the heap in the order in which they are popped. -/
def drain (h : List α) : Except ε (List α) := drainLoop lt h.length h

theorem heappush_perm {item : α} (hp : heappush lt h item = .ok h') :
    h'.Perm (item :: h) :=
  (siftdown_perm lt hp).trans (List.perm_append_singleton item h)

/-- What is sifted when the root has been popped. -/
theorem lastFirst_subset (a b : α) (rest : List α) :
    (b :: rest).getLastD b :: (b :: rest).dropLast ⊆ a :: b :: rest := by
  refine List.cons_subset.mpr ⟨List.mem_cons_of_mem a ?_, fun x hx =>
    List.mem_cons_of_mem a (List.mem_of_mem_dropLast hx)⟩
  rw [List.getLastD_eq_getLast?, List.getLast?_eq_some_getLast (List.cons_ne_nil b rest)]
  exact List.getLast_mem _

/-- The popped element is the root. -/
theorem heappop_some {a : α} (hp : heappop lt h = .ok (some (a, h'))) :
    h.head? = some a ∧ h.Perm (a :: h') := by
  match h, hp with
  | [], hp => simp [heappop] at hp
  | [b], hp =>
    obtain ⟨rfl, rfl⟩ : b = a ∧ [] = h' := by simpa [heappop] using hp
    exact ⟨rfl, List.Perm.refl _⟩
  | c :: b :: rest, hp =>
    obtain ⟨h₁, hs, hp⟩ := bind_eq_ok.mp hp
    obtain ⟨rfl, rfl⟩ : c = a ∧ h₁ = h' := by simpa using pure_eq_ok.mp hp
    refine ⟨rfl, List.Perm.cons c ?_⟩
    -- moving the last element to the front is a rotation
    have hlast : (b :: rest).dropLast ++ [(b :: rest).getLastD b] = b :: rest := by
      rw [List.getLastD_eq_getLast?, List.getLast?_eq_some_getLast (List.cons_ne_nil b rest)]
      exact List.dropLast_append_getLast _
    have hrot := List.perm_append_singleton ((b :: rest).getLastD b) (b :: rest).dropLast
    rw [hlast] at hrot
    exact hrot.trans (siftup_perm lt hs).symm

theorem heappop_none (hp : heappop lt h = .ok none) : h = [] := by
  match h, hp with
  | [], _ => rfl
  | [b], hp => simp [heappop] at hp
  | c :: b :: rest, hp =>
    obtain ⟨h₁, -, hp⟩ := bind_eq_ok.mp hp
    simpa using pure_eq_ok.mp hp

theorem heapify_perm (hh : heapify lt h = .ok h') : h'.Perm h := by
  refine threadM_invariant (I := fun _ g => g.Perm h) ?_ (List.Perm.refl h) hh
  intro i l g g' hg hs
  exact (siftup_perm lt hs).trans hg

theorem drainLoop_perm {fuel : Nat} {as : List α} (hf : h.length ≤ fuel)
    (hd : drainLoop lt fuel h = .ok as) : as.Perm h := by
  induction fuel generalizing h as with
  | zero =>
    obtain rfl : h = [] := List.length_eq_zero_iff.mp (by omega)
    obtain rfl : [] = as := by simpa [drainLoop] using hd
    exact List.Perm.refl []
  | succ fuel ih =>
    obtain ⟨popped, hp, hd⟩ := bind_eq_ok.mp hd
    cases popped with
    | none =>
      obtain rfl : [] = as := pure_eq_ok.mp hd
      rw [heappop_none lt hp]
    | some p =>
      obtain ⟨a, h'⟩ := p
      obtain ⟨as', hd', hd⟩ := bind_eq_ok.mp hd
      obtain rfl : a :: as' = as := pure_eq_ok.mp hd
      have hperm := (heappop_some lt hp).2
      have hlen : h'.length ≤ fuel := by
        have := hperm.length_eq
        simp only [List.length_cons] at this
        omega
      exact ((ih hlen hd').cons a).trans hperm.symm

/-- **Draining** a heap lists its elements. -/
theorem drain_perm {as : List α} (hd : drain lt h = .ok as) : as.Perm h :=
  drainLoop_perm lt le_rfl hd

/-! ## Comparisons that raise nothing

It is enough that the comparison raises nothing on the elements of the heap. -/

section Total

variable {lt} {h g : List α}

/-- The comparison raises nothing on the elements of a list. -/
def TotalOn (lt : α → α → Except ε Bool) (h : List α) : Prop :=
  ∀ a ∈ h, ∀ b ∈ h, ∃ c, lt a b = .ok c

variable (htotal : TotalOn lt h)

include htotal

theorem TotalOn.mono (hsub : g ⊆ h) : TotalOn lt g :=
  fun a ha b hb => htotal a (hsub ha) b (hsub hb)

theorem TotalOn.perm (hp : g.Perm h) : TotalOn lt g :=
  htotal.mono hp.subset

theorem siftdown_ok (startpos fuel pos : Nat) : ∃ h', siftdown lt startpos fuel pos h = .ok h' := by
  induction fuel generalizing pos h with
  | zero => exact ⟨h, rfl⟩
  | succ fuel ih =>
    unfold siftdown
    split_ifs with hpos
    · split
      next newitem parent hitem hparent =>
        obtain ⟨smaller, hlt⟩ :=
          htotal newitem (List.mem_of_getElem? hitem) parent (List.mem_of_getElem? hparent)
        rw [hlt]
        cases smaller with
        | true => exact ih (htotal.perm (swapAt_perm h _ _)) _
        | false => exact ⟨h, rfl⟩
      next => exact ⟨h, rfl⟩
    · exact ⟨h, rfl⟩

theorem bubble_ok (fuel pos : Nat) : ∃ p, bubble lt fuel pos h = .ok p := by
  induction fuel generalizing pos h with
  | zero => exact ⟨(pos, h), rfl⟩
  | succ fuel ih =>
    unfold bubble
    split_ifs with hpos
    · have hchild : ∃ child, smallerChild lt pos h = .ok child := by
        unfold smallerChild
        split
        next left right hleft hright =>
          obtain ⟨smaller, hlt⟩ :=
            htotal left (List.mem_of_getElem? hleft) right (List.mem_of_getElem? hright)
          exact ⟨_, by rw [hlt]; rfl⟩
        next => exact ⟨_, rfl⟩
      obtain ⟨child, hchild⟩ := hchild
      obtain ⟨p, hp⟩ := ih (htotal.perm (swapAt_perm h child pos)) child
      exact ⟨p, by rw [hchild]; exact hp⟩
    · exact ⟨(pos, h), rfl⟩

theorem siftup_ok (startpos : Nat) : ∃ h', siftup lt startpos h = .ok h' := by
  obtain ⟨⟨pos, g⟩, hp⟩ := bubble_ok htotal h.length startpos
  obtain ⟨h', hh'⟩ := siftdown_ok (htotal.perm (bubble_perm lt hp)) startpos g.length pos
  exact ⟨h', bind_eq_ok.mpr ⟨(pos, g), hp, hh'⟩⟩

/-- A heap that is not empty can be popped. -/
theorem heappop_cons_ok (hne : h ≠ []) :
    ∃ a h', heappop lt h = .ok (some (a, h')) ∧ h.Perm (a :: h') := by
  have hok : ∃ a h', heappop lt h = .ok (some (a, h')) := by
    match h, hne with
    | [a], _ => exact ⟨a, [], rfl⟩
    | a :: b :: rest, _ =>
      obtain ⟨h', hh'⟩ := siftup_ok (htotal.mono (lastFirst_subset a b rest)) 0
      exact ⟨a, h', bind_eq_ok.mpr ⟨h', hh', rfl⟩⟩
  obtain ⟨a, h', hpop⟩ := hok
  exact ⟨a, h', hpop, (heappop_some lt hpop).2⟩

theorem drain_ok : ∃ as, drain lt h = .ok as := by
  unfold drain
  generalize h.length = fuel
  induction fuel generalizing h with
  | zero => exact ⟨[], rfl⟩
  | succ fuel ih =>
    rcases eq_or_ne h [] with rfl | hne
    · exact ⟨[], rfl⟩
    · obtain ⟨a, h', hpop, hperm⟩ := heappop_cons_ok htotal hne
      have hsub : h' ⊆ h := fun x hx => hperm.mem_iff.mpr (List.mem_cons_of_mem a hx)
      obtain ⟨as, has⟩ := ih (htotal.mono hsub)
      exact ⟨a :: as, bind_eq_ok.mpr ⟨_, hpop, bind_eq_ok.mpr ⟨as, has, rfl⟩⟩⟩

end Total

end Heapq
