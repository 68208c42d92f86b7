import Mathlib.Tactic

/-!
# Programs that keep their state when they raise

A program of `EStateM ε σ` that raises has changed the state up to there, and the program that called
it goes on from this state if it catches the error. An invariant of such a program holds of the state
that it leaves, whether it returns or raises.

## Main results

* `Raising.Keeps.bind`, `Raising.Keeps.forM`, `Raising.Keeps.get`: the invariant rule for sequences,
  loops and reads
* `Raising.Ends.bind`, `Raising.Ends.forM`: the rule for two postconditions, one for each end; in a
  loop, the postcondition speaks about the elements that are done
* `Raising.bind_ok`
-/

namespace Raising

variable {ε σ α β : Type} {I : σ → Prop} {x : EStateM ε σ α} {f : α → EStateM ε σ β} {s s' : σ}

/-- The state after a program has returned or raised. -/
def after (x : EStateM ε σ α) (s : σ) : σ :=
  match x s with
  | .ok _ s' | .error _ s' => s'

/-- A program keeps an invariant, also when it raises. -/
def Keeps (I : σ → Prop) (x : EStateM ε σ α) : Prop := ∀ s, I s → I (after x s)

theorem after_bind : after (x >>= f) s =
    match x s with
    | .ok a s' => after (f a) s'
    | .error _ s' => s' := by
  simp only [after, bind, EStateM.bind]
  cases x s <;> rfl

theorem after_get_bind (g : σ → EStateM ε σ α) : after (get >>= g) s = after (g s) s := rfl

theorem after_modify_bind (m : σ → σ) (g : PUnit → EStateM ε σ α) :
    after (modify m >>= g) s = after (g ⟨⟩) (m s) := rfl

/-- **Inversion of a sequence**: it returns exactly if its two parts do. -/
theorem bind_ok {b : β} : (x >>= f) s = .ok b s' ↔ ∃ a t, x s = .ok a t ∧ f a t = .ok b s' := by
  simp only [bind, EStateM.bind]
  cases x s with
  | ok a t => simp
  | error e t => simp

/-- What a program that returns leaves. -/
theorem after_of_ok {a : α} (h : x s = .ok a s') : after x s = s' := by
  rw [after, h]

/-- A program returns. -/
def returns (x : EStateM ε σ α) (s : σ) : Bool :=
  match x s with
  | .ok _ _ => true
  | .error _ _ => false

theorem ok_of_returns (h : returns x s = true) : ∃ a, x s = .ok a (after x s) := by
  rw [returns] at h
  rw [after]
  cases hx : x s with
  | ok a s' => exact ⟨a, rfl⟩
  | error e s' =>
    rw [hx] at h
    cases h

/-- What a program raises. -/
def raised (x : EStateM ε σ α) (s : σ) : Option ε :=
  match x s with
  | .ok _ _ => none
  | .error e _ => some e

theorem error_of_raised {e : ε} (h : raised x s = some e) : x s = .error e (after x s) := by
  rw [raised] at h
  rw [after]
  cases hx : x s with
  | ok a s' =>
    rw [hx] at h
    cases h
  | error e' s' =>
    rw [hx] at h
    cases h
    rfl

namespace Keeps

theorem ok {a : α} (h : Keeps I x) (hI : I s) (hx : x s = .ok a s') : I s' :=
  after_of_ok hx ▸ h s hI

theorem pure {a : α} : Keeps I (pure a : EStateM ε σ α) := fun _ hI => hI

theorem throw {e : ε} : Keeps I (throw e : EStateM ε σ α) := fun _ hI => hI

theorem modify {g : σ → σ} (h : ∀ s, I s → I (g s)) : Keeps I (modify g : EStateM ε σ Unit) := h

theorem bind (hx : Keeps I x) (hf : ∀ a, Keeps I (f a)) : Keeps I (x >>= f) := by
  intro s hI
  have hI' := hx s hI
  rw [after_bind]
  rw [after] at hI'
  cases hs : x s with
  | ok a s' =>
    rw [hs] at hI'
    exact hf a s' hI'
  | error e s' =>
    rw [hs] at hI'
    exact hI'

/-- A program that reads its state first. -/
theorem get {g : σ → EStateM ε σ β} (h : ∀ s, I s → I (after (g s) s)) :
    Keeps I (get >>= g) := h

theorem forM {l : List α} {g : α → EStateM ε σ PUnit} (h : ∀ a ∈ l, Keeps I (g a)) :
    Keeps I (l.forM g) := by
  induction l with
  | nil => exact pure
  | cons a l ih =>
    apply bind (h a List.mem_cons_self)
    intro _
    exact ih fun b hb => h b (List.mem_cons_of_mem _ hb)

end Keeps

/-! ## Two postconditions -/

variable {Q Q' : α → σ → Prop} {R : β → σ → Prop} {E E' : ε → σ → Prop}

/-- A program returns with one postcondition, or raises with the other. -/
def Ends (x : EStateM ε σ α) (s : σ) (Q : α → σ → Prop) (E : ε → σ → Prop) : Prop :=
  match x s with
  | .ok a s' => Q a s'
  | .error e s' => E e s'

namespace Ends

theorem of_ok {a : α} (h : x s = .ok a s') (hQ : Q a s') : Ends x s Q E := by
  unfold Ends
  rw [h]
  exact hQ

theorem of_error {e : ε} (h : x s = .error e s') (hE : E e s') : Ends x s Q E := by
  unfold Ends
  rw [h]
  exact hE

theorem ok {a : α} (h : Ends x s Q E) (hx : x s = .ok a s') : Q a s' := by
  unfold Ends at h
  rwa [hx] at h

theorem error {e : ε} (h : Ends x s Q E) (hx : x s = .error e s') : E e s' := by
  unfold Ends at h
  rwa [hx] at h

/-- What holds at both ends holds after the program. -/
theorem after (h : Ends x s (fun _ => I) (fun _ => I)) : I (after x s) := by
  unfold Raising.after
  cases hx : x s with
  | ok a s' => exact h.ok hx
  | error e s' => exact h.error hx

theorem mono (h : Ends x s Q E) (hQ : ∀ a s', Q a s' → Q' a s') (hE : ∀ e s', E e s' → E' e s') :
    Ends x s Q' E' := by
  cases hx : x s with
  | ok a s' => exact of_ok hx (hQ a s' (h.ok hx))
  | error e s' => exact of_error hx (hE e s' (h.error hx))

theorem and (h : Ends x s Q E) (h' : Ends x s Q' E') :
    Ends x s (fun a s' => Q a s' ∧ Q' a s') (fun e s' => E e s' ∧ E' e s') := by
  cases hx : x s with
  | ok a s' => exact of_ok hx ⟨h.ok hx, h'.ok hx⟩
  | error e s' => exact of_error hx ⟨h.error hx, h'.error hx⟩

theorem bind (h : Ends x s Q E) (hf : ∀ a s', Q a s' → Ends (f a) s' R E) :
    Ends (x >>= f) s R E := by
  cases hx : x s with
  | ok a s' =>
    have hbind : (x >>= f) s = f a s' := by simp only [Bind.bind, EStateM.bind, hx]
    unfold Ends
    rw [hbind]
    exact hf a s' (h.ok hx)
  | error e s' =>
    have hbind : (x >>= f) s = .error e s' := by simp only [Bind.bind, EStateM.bind, hx]
    exact of_error hbind (h.error hx)

/-- A program that reads its state first. -/
theorem get {g : σ → EStateM ε σ β} (h : Ends (g s) s R E) : Ends (get >>= g) s R E := h

theorem modify {g : σ → σ} {Q : PUnit → σ → Prop} (h : Q ⟨⟩ (g s)) : Ends (modify g) s Q E := h

/-- A step that is only taken under a condition. -/
theorem ite_bind {c : Prop} [Decidable c] {x : EStateM ε σ PUnit} {R : PUnit → σ → Prop}
    {f : PUnit → EStateM ε σ β} {P : β → σ → Prop}
    (hx : c → Ends x s R E) (hskip : ¬ c → R ⟨⟩ s) (hf : ∀ s', R ⟨⟩ s' → Ends (f ⟨⟩) s' P E) :
    Ends (if c then x >>= f else f ⟨⟩) s P E := by
  by_cases hc : c
  · rw [if_pos hc]
    exact bind (hx hc) fun _ s' h => hf s' h
  · rw [if_neg hc]
    exact hf s (hskip hc)

/-- A loop that has done some elements. -/
theorem forM_from {J : List α → σ → Prop} {l done todo : List α} {g : α → EStateM ε σ PUnit}
    (h : ∀ done a rest s, done ++ a :: rest = l → J done s →
      Ends (g a) s (fun _ s' => J (done ++ [a]) s') E)
    (hl : done ++ todo = l) (hJ : J done s) : Ends (todo.forM g) s (fun _ s' => J l s') E := by
  induction todo generalizing done s with
  | nil =>
    obtain rfl : done = l := by simpa using hl
    exact hJ
  | cons a todo ih =>
    have hl' : done ++ [a] ++ todo = l := by simpa using hl
    exact bind (h done a todo s hl hJ) fun _ s' hJ' => ih hl' hJ'

/-- **The loop rule.** The invariant speaks about the elements that are done. -/
theorem forM {J : List α → σ → Prop} {l : List α} {g : α → EStateM ε σ PUnit}
    (h : ∀ done a rest s, done ++ a :: rest = l → J done s →
      Ends (g a) s (fun _ s' => J (done ++ [a]) s') E) (hJ : J [] s) :
    Ends (l.forM g) s (fun _ s' => J l s') E :=
  forM_from h rfl hJ

end Ends

end Raising
