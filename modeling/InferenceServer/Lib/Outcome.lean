import Mathlib.Tactic

/-!
# Computations that may raise

A function that may raise is a function into `Except ε`. This module has the inversion lemmas
that take a successful computation apart, and the loops over a list that thread a state.

## Main results

* `bind_eq_ok`, `require_eq_ok`, `mapM_eq_ok`: what a successful computation has done
* `threadM_invariant`, `mapThreadM_invariant`
-/

namespace Outcome

variable {ε σ α β : Type}

variable {x : Except ε α} {f : α → Except ε β} {a : α} {l as : List α} {bs : List β}
  {R : α → β → Prop}

/-- **Inversion of a sequence**: it succeeds exactly if its two parts do. -/
theorem bind_eq_ok {b : β} :
    (x >>= f) = .ok b ↔ ∃ a, x = .ok a ∧ f a = .ok b := by
  cases x <;> simp [bind, Except.bind]

/-- What a sequence does after a first part that succeeds. -/
theorem bind_of_ok (hx : x = .ok a) :
    (x >>= f) = f a := by
  rw [hx]
  rfl

theorem isOk_iff : x.isOk = true ↔ ∃ a, x = .ok a := by
  cases x <;> simp [Except.isOk, Except.toBool]

theorem toOption_eq_some : x.toOption = some a ↔ x = .ok a := by
  cases x <;> simp [Except.toOption]

theorem pure_eq_ok {b : α} : (pure a : Except ε α) = .ok b ↔ a = b := by
  simp [pure, Except.pure]

/-- A computation that returns a pair returns its components. -/
theorem pair_of_ok {c : α} {b d : β} (h : (pure (a, b) : Except ε (α × β)) = .ok (c, d)) :
    a = c ∧ b = d :=
  Prod.mk.inj (Except.ok.inj h)

theorem triple_of_ok {a' : α} {b b' : β} {c c' : σ}
    (h : (pure (a, b, c) : Except ε (α × β × σ)) = .ok (a', b', c')) : a = a' ∧ b = b' ∧ c = c' := by
  obtain ⟨ha, h⟩ := pair_of_ok h
  exact ⟨ha, Prod.mk.inj h⟩

/-- A computation whose results are returned behind a unit. -/
theorem unit_of_ok {y : Except ε (α × β)} {u : Unit} {a : α} {b : β}
    (h : (do let (a, b) ← y; return ((), a, b)) = .ok (u, a, b)) : y = .ok (a, b) := by
  obtain ⟨⟨a', b'⟩, hy, h⟩ := bind_eq_ok.mp h
  cases h
  exact hy

/-- A computation of which one result is dropped. -/
theorem second_of_ok {y : Except ε (α × β)} {b : β} (h : (do let (_, b) ← y; return b) = .ok b) :
    ∃ a, y = .ok (a, b) := by
  obtain ⟨⟨a, b'⟩, hy, h⟩ := bind_eq_ok.mp h
  exact ⟨a, pure_eq_ok.mp h ▸ hy⟩

/-- Raise `e` unless the condition `c` holds. -/
def require (c : Prop) [Decidable c] (e : ε) : Except ε Unit :=
  if c then .ok () else .error e

@[simp] theorem require_eq_ok {c : Prop} [Decidable c] {e : ε} {u : Unit} :
    require c e = .ok u ↔ c := by
  unfold require
  split_ifs with h <;> simp [h]

theorem require_of {c : Prop} [Decidable c] {e : ε} (hc : c) : require c e = .ok () := if_pos hc

/-! ## Loops -/

/-- A computation for every element of a list. -/
theorem mapM_eq_ok :
    l.mapM f = .ok bs ↔ List.Forall₂ (fun a b => f a = .ok b) l bs := by
  induction l generalizing bs with
  | nil =>
    rw [List.mapM_nil, pure_eq_ok, List.forall₂_nil_left_iff]
    exact eq_comm
  | cons a l ih =>
    rw [List.mapM_cons, bind_eq_ok, List.forall₂_cons_left_iff]
    refine exists_congr fun b => ?_
    rw [bind_eq_ok]
    constructor
    · rintro ⟨ha, bs', hl, h⟩
      exact ⟨bs', ha, ih.mp hl, (pure_eq_ok.mp h).symm⟩
    · rintro ⟨bs', ha, hl, rfl⟩
      exact ⟨ha, bs', ih.mpr hl, rfl⟩

theorem exists_of_forall₂_left (h : List.Forall₂ R as bs) (ha : a ∈ as) : ∃ b ∈ bs, R a b := by
  induction h with
  | nil => cases ha
  | cons hab _ ih =>
    rcases List.mem_cons.mp ha with rfl | ha
    · exact ⟨_, List.mem_cons_self, hab⟩
    · obtain ⟨b, hb, hR⟩ := ih ha
      exact ⟨b, List.mem_cons_of_mem _ hb, hR⟩

theorem exists_of_forall₂_right
    (h : List.Forall₂ R as bs) {b : β} (hb : b ∈ bs) : ∃ a ∈ as, R a b :=
  exists_of_forall₂_left (R := flip R) h.flip hb

/-- Two maps, one after the other: what each does to an element composes. -/
theorem forall₂_trans {γ : Type*} {S : β → γ → Prop} {T : α → γ → Prop}
    (hT : ∀ a b c, R a b → S b c → T a c) {cs : List γ}
    (h : List.Forall₂ R as bs) (h' : List.Forall₂ S bs cs) : List.Forall₂ T as cs := by
  induction h generalizing cs with
  | nil =>
    obtain rfl := List.forall₂_nil_left_iff.mp h'
    exact .nil
  | cons hab _ ih =>
    obtain ⟨c, cs', hbc, hrest, rfl⟩ := List.forall₂_cons_left_iff.mp h'
    exact .cons (hT _ _ _ hab hbc) (ih hrest)

/-- The elements and the results of `mapM` belong to each other. -/
theorem exists_of_mapM (h : l.mapM f = .ok bs) :
    (∀ a ∈ l, ∃ b ∈ bs, f a = .ok b) ∧ ∀ b ∈ bs, ∃ a ∈ l, f a = .ok b := by
  rw [mapM_eq_ok] at h
  exact ⟨fun _ => exists_of_forall₂_left h, fun _ => exists_of_forall₂_right h⟩

/-- Every computation of a list succeeds, with a result of which `R` holds. -/
theorem exists_mapM_ok (h : ∀ a ∈ l, ∃ b, f a = .ok b ∧ R a b) :
    ∃ bs, l.mapM f = .ok bs ∧ List.Forall₂ R l bs := by
  induction l with
  | nil => exact ⟨[], rfl, .nil⟩
  | cons a l ih =>
    obtain ⟨b, hb, hR⟩ := h a List.mem_cons_self
    obtain ⟨bs, hbs, hall⟩ := ih fun a ha => h a (List.mem_cons_of_mem _ ha)
    exact ⟨b :: bs, mapM_eq_ok.mpr (.cons hb (mapM_eq_ok.mp hbs)), .cons hR hall⟩

/-- Run `f` on the elements of a list in order, threading the state. -/
def threadM (f : α → σ → Except ε σ) : List α → σ → Except ε σ
  | [], s => .ok s
  | a :: l, s => f a s >>= threadM f l

@[simp] theorem threadM_nil (f : α → σ → Except ε σ) (s : σ) : threadM f [] s = .ok s := rfl

theorem threadM_cons_ok {f : α → σ → Except ε σ} {s t : σ} :
    threadM f (a :: l) s = .ok t ↔ ∃ u, f a s = .ok u ∧ threadM f l u = .ok t := by
  simp [threadM, bind_eq_ok]

theorem threadM_append (f : α → σ → Except ε σ) (l l' : List α) (s : σ) :
    threadM f (l ++ l') s = threadM f l s >>= threadM f l' := by
  induction l generalizing s with
  | nil => rfl
  | cons a l ih =>
    rw [List.cons_append, threadM, threadM]
    cases f a s with
    | error e => rfl
    | ok t => exact ih t

/-- **The loop rule**: `I` holds of the elements left to visit and the state. -/
theorem threadM_invariant {f : α → σ → Except ε σ} {I : List α → σ → Prop}
    (step : ∀ a l s t, I (a :: l) s → f a s = .ok t → I l t) :
    ∀ {l : List α} {s t : σ}, I l s → threadM f l s = .ok t → I [] t := by
  intro l
  induction l with
  | nil =>
    intro s t hs h
    obtain rfl : s = t := by simpa using h
    exact hs
  | cons a l ih =>
    intro s t hs h
    obtain ⟨u, hu, ht⟩ := threadM_cons_ok.mp h
    exact ih (step a l s u hs hu) ht

/-- Run `f` on the elements of a list in order, threading the state and replacing every
element by what `f` returns for it. -/
def mapThreadM (f : α → σ → Except ε (β × σ)) : List α → σ → Except ε (List β × σ)
  | [], s => .ok ([], s)
  | a :: l, s => do
    let (b, t) ← f a s
    let (bs, u) ← mapThreadM f l t
    return (b :: bs, u)

@[simp] theorem mapThreadM_nil (f : α → σ → Except ε (β × σ)) (s : σ) :
    mapThreadM f [] s = .ok ([], s) := rfl

theorem mapThreadM_cons_ok {f : α → σ → Except ε (β × σ)} {s u : σ} :
    mapThreadM f (a :: l) s = .ok (bs, u) ↔
      ∃ b t bs', f a s = .ok (b, t) ∧ mapThreadM f l t = .ok (bs', u) ∧ bs = b :: bs' := by
  simp only [mapThreadM, bind_eq_ok, pure_eq_ok, Prod.exists, Prod.mk.injEq]
  constructor
  · rintro ⟨b, t, h₁, bs', u', h₂, rfl, rfl⟩
    exact ⟨b, t, bs', h₁, h₂, rfl⟩
  · rintro ⟨b, t, bs', h₁, h₂, rfl⟩
    exact ⟨b, t, h₁, bs', u, h₂, rfl, rfl⟩

theorem length_of_mapThreadM {f : α → σ → Except ε (β × σ)} {s u : σ}
    (h : mapThreadM f l s = .ok (bs, u)) : bs.length = l.length := by
  induction l generalizing s bs with
  | nil =>
    obtain ⟨rfl, -⟩ : [] = bs ∧ s = u := by simpa using h
    rfl
  | cons a l ih =>
    obtain ⟨b, t, bs', -, h₂, rfl⟩ := mapThreadM_cons_ok.mp h
    simp [ih h₂]

/-- **The loop rule for a replacement**: `I` holds of the elements replaced so far, the
elements left and the state. -/
theorem mapThreadM_invariant {f : α → σ → Except ε (β × σ)} {I : List β → List α → σ → Prop}
    (step : ∀ done a l s b t, I done (a :: l) s → f a s = .ok (b, t) → I (done ++ [b]) l t) :
    ∀ {l : List α} (done : List β) {bs : List β} {s t : σ}, I done l s →
      mapThreadM f l s = .ok (bs, t) → I (done ++ bs) [] t := by
  intro l
  induction l with
  | nil =>
    intro done bs s t hs h
    obtain ⟨rfl, rfl⟩ : [] = bs ∧ s = t := by simpa using h
    simpa using hs
  | cons a l ih =>
    intro done bs s t hs h
    obtain ⟨b, u, bs', h₁, h₂, rfl⟩ := mapThreadM_cons_ok.mp h
    have hI := ih (done ++ [b]) (step done a l s b u hs h₁) h₂
    simpa using hI

/-- Every element is replaced by a related one. -/
theorem mapThreadM_forall₂ {f : α → σ → Except ε (β × σ)}
    (step : ∀ a s b t, f a s = .ok (b, t) → R a b) {s t : σ}
    (h : mapThreadM f l s = .ok (bs, t)) : List.Forall₂ R l bs := by
  induction l generalizing s bs with
  | nil =>
    obtain ⟨rfl, -⟩ : [] = bs ∧ s = t := by simpa using h
    exact .nil
  | cons a l ih =>
    obtain ⟨b, u, bs', h₁, h₂, rfl⟩ := mapThreadM_cons_ok.mp h
    exact .cons (step a s b u h₁) (ih h₂)

end Outcome
