import InferenceServer.Worker.BatchUpdate

/-!
# The replay of an update

A processor learns of a step only what is left of it in the update: the added requests, the removed rows
that nobody has filled, and the moves. It replays them in this order, whatever the order of the calls was.
Seen row by row, an added request writes its row, a removed row is cleared, and a move writes two rows.

The processors make their tensors anew only if something has changed. The flag that says so is checked
against the entries: if it stays false, then the entries are the same as before (`replay_quiet`).

## Main results

* `get?_replay`, `foldl_moveView_congr`, `replay_quiet`, `filter_flatten`
-/

namespace InferenceServer.PersistentBatch

open Function (update update_of_ne update_self update_apply)
open List (foldl_cons)

/-! ## Rows -/

section Rows

variable {γ : Type} {put : AddedRequest → γ} {vacate : γ → γ} {f g : Nat → γ}

/-- The rows after an added request. -/
def addView (put : AddedRequest → γ) (f : Nat → γ) (x : AddedRequest) : Nat → γ :=
  Function.update f x.index (put x)

/-- The rows after a move. A request that has moved down leaves something behind. -/
def moveView (vacate : γ → γ) (f : Nat → γ) (m : MovedRequest) : Nat → γ :=
  let behind := match m.direct with
    | .unidirectional => vacate (f m.src)
    | .swap => f m.tgt
  Function.update (Function.update f m.src behind) m.tgt (f m.src)

/-- The rows after the added requests and the moves. -/
def viewOf (put : AddedRequest → γ) (vacate : γ → γ) (f : Nat → γ) (u : BatchUpdateBuilder) :
    Nat → γ :=
  u.moved.foldl (moveView vacate) (u.added.foldl (addView put) f)

theorem moveView_of_ne {m : MovedRequest} {i : Nat} (hsrc : i ≠ m.src) (htgt : i ≠ m.tgt) :
    moveView vacate f m i = f i := by
  unfold moveView
  rw [update_of_ne htgt, update_of_ne hsrc]

/-- A move reads only its own rows. -/
theorem moveView_congr {m : MovedRequest} {C : Nat → Prop} (hfg : ∀ i, C i → f i = g i)
    (hsrc : C m.src) (htgt : C m.tgt) (i : Nat) (hi : C i) :
    moveView vacate f m i = moveView vacate g m i := by
  unfold moveView
  rw [hfg _ hsrc, hfg _ htgt]
  by_cases hit : i = m.tgt
  · rw [hit, update_self, update_self]
  · rw [update_of_ne hit, update_of_ne hit]
    by_cases his : i = m.src
    · rw [his, update_self, update_self]
    · rw [update_of_ne his, update_of_ne his, hfg i hi]

/-- **Moves among some rows** depend on these rows only. -/
theorem foldl_moveView_congr {moved : List MovedRequest} {C : Nat → Prop}
    (hfg : ∀ i, C i → f i = g i) (hm : ∀ m ∈ moved, C m.src ∧ C m.tgt) (i : Nat) (hi : C i) :
    moved.foldl (moveView vacate) f i = moved.foldl (moveView vacate) g i := by
  induction moved generalizing f g with
  | nil => exact hfg i hi
  | cons m moved ih =>
    obtain ⟨hsrc, htgt⟩ := hm m List.mem_cons_self
    exact ih (moveView_congr hfg hsrc htgt) fun m' hm' => hm m' (List.mem_cons_of_mem m hm')

/-- Moves do not touch other rows. -/
theorem foldl_moveView_of_notMem {moved : List MovedRequest} {i : Nat}
    (hm : ∀ m ∈ moved, i ≠ m.src ∧ i ≠ m.tgt) : moved.foldl (moveView vacate) f i = f i := by
  induction moved generalizing f with
  | nil => rfl
  | cons m moved ih =>
    obtain ⟨hsrc, htgt⟩ := hm m List.mem_cons_self
    rw [foldl_cons, ih fun m' hm' => hm m' (List.mem_cons_of_mem m hm'),
      moveView_of_ne hsrc htgt]

end Rows

/-! ## Entries -/

section Entries

variable {β : Type} {entry : AddedRequest → Option β} {truthy : β → Bool} {d : Dict Nat β}

theorem get?_addEntry (s : Dict Nat β × Bool) (x : AddedRequest) :
    (addEntry entry s x).1.get? = addView entry s.1.get? x := by
  funext i
  unfold addEntry addView
  cases entry x with
  | none => rw [update_apply, Dict.get?_erase]
  | some e => rw [update_apply, Dict.get?_set]

theorem get?_removeEntry (s : Dict Nat β × Bool) (index i : Nat) :
    (removeEntry truthy s index).1.get? i = if i = index then none else s.1.get? i :=
  Dict.get?_erase ..

theorem get?_moveEntry (s : Dict Nat β × Bool) (m : MovedRequest) :
    (moveEntry s m).1.get? = moveView (fun _ => none) s.1.get? m := by
  funext i
  unfold moveEntry moveView
  cases m.direct with
  | unidirectional =>
    rw [update_apply, update_apply]
    cases hsrc : s.1.get? m.src with
    | none => simp only [Dict.get?_erase]
    | some a => simp only [Dict.get?_set, Dict.get?_erase]
  | swap =>
    dsimp only
    rw [update_apply, update_apply]
    -- after the source row has been emptied, the target row is not there if it is the same row
    have htgt := Dict.get?_erase s.1 m.src m.tgt
    cases hentry : (s.1.erase m.src).get? m.tgt with
    | none =>
      rw [hentry] at htgt
      have hnone : i ≠ m.tgt → i = m.src → s.1.get? m.tgt = none := fun hit his => by
        rw [if_neg fun hsame => hit (his.trans hsame.symm)] at htgt
        exact htgt.symm
      cases hsrc : s.1.get? m.src <;> dsimp only <;>
        simp only [Dict.get?_set, Dict.get?_erase]
      · by_cases hit : i = m.tgt
        · simp only [hit, if_true]
        · by_cases his : i = m.src
          · rw [if_neg hit, if_neg hit, if_pos his, if_pos his, hnone hit his]
          · simp only [hit, his, if_false]
      · by_cases hit : i = m.tgt
        · simp only [hit, if_true]
        · by_cases his : i = m.src
          · rw [if_neg hit, if_neg hit, if_neg hit, if_pos his, if_pos his, hnone hit his]
          · simp only [hit, his, if_false]
    | some b =>
      rw [hentry] at htgt
      have hne : m.tgt ≠ m.src := fun hsame => by
        rw [if_pos hsame] at htgt
        cases htgt
      rw [if_neg hne] at htgt
      cases hsrc : s.1.get? m.src <;> dsimp only <;>
        simp only [Dict.get?_set, Dict.get?_erase, ← htgt]
      · by_cases hit : i = m.tgt
        · simp only [hit, hne, if_true, if_false]
        · by_cases his : i = m.src
          · simp only [his, Ne.symm hne, if_true, if_false]
          · simp only [hit, his, if_false]
      · by_cases hit : i = m.tgt
        · simp only [hit, if_true]
        · by_cases his : i = m.src <;> simp only [hit, his, if_true, if_false]

theorem get?_foldl_addEntry (added : List AddedRequest) (s : Dict Nat β × Bool) :
    (added.foldl (addEntry entry) s).1.get? = added.foldl (addView entry) s.1.get? := by
  induction added generalizing s with
  | nil => rfl
  | cons x added ih => rw [foldl_cons, ih, get?_addEntry, foldl_cons]

theorem get?_foldl_removeEntry (removed : List Nat) (s : Dict Nat β × Bool) (i : Nat) :
    (removed.foldl (removeEntry truthy) s).1.get? i = if i ∈ removed then none else s.1.get? i := by
  induction removed generalizing s with
  | nil => rw [if_neg List.not_mem_nil]; rfl
  | cons x removed ih =>
    rw [foldl_cons, ih, get?_removeEntry]
    by_cases hx : i = x <;> by_cases hi : i ∈ removed <;> simp [hx, hi]

theorem get?_foldl_moveEntry (moved : List MovedRequest) (s : Dict Nat β × Bool) :
    (moved.foldl moveEntry s).1.get? = moved.foldl (moveView fun _ => none) s.1.get? := by
  induction moved generalizing s with
  | nil => rfl
  | cons m moved ih => rw [foldl_cons, ih, get?_moveEntry, foldl_cons]

/-- Without entries, removals and moves have nothing to do. -/
theorem foldl_moveView_none (moved : List MovedRequest) :
    moved.foldl (moveView fun _ => none) (fun _ => (none : Option β)) = fun _ => none := by
  induction moved with
  | nil => rfl
  | cons m moved ih =>
    rw [foldl_cons]
    convert ih using 2
    funext i
    unfold moveView
    cases m.direct <;> simp

/-- **The replay row by row.** -/
theorem get?_replay (d : Dict Nat β) (u : BatchUpdate) :
    (replay entry truthy d u).1.get? = u.moved.foldl (moveView fun _ => none) fun i =>
      if i ∈ u.removed then none else u.added.foldl (addView entry) d.get? i := by
  unfold replay
  dsimp only
  split_ifs with hnil
  · have hnone : ∀ i, (u.added.foldl (addEntry entry) (d, false)).1.get? i = none := fun i => by
      unfold Dict.get?
      rw [hnil]
      rfl
    funext i
    rw [hnone, ← get?_foldl_addEntry u.added (d, false)]
    simp only [hnone, ite_self]
    rw [foldl_moveView_none]
  · rw [get?_foldl_moveEntry, ← get?_foldl_addEntry u.added (d, false)]
    congr 1
    funext i
    exact get?_foldl_removeEntry ..

/-! ## The flag -/

/-- A flag is never taken back. -/
theorem foldl_flag {δ α : Type} {step : δ × Bool → α → δ × Bool}
    (hflag : ∀ s x, (step s x).2 = false → s.2 = false) {l : List α} {s : δ × Bool}
    (h : (l.foldl step s).2 = false) : s.2 = false := by
  induction l generalizing s with
  | nil => exact h
  | cons x l ih => exact hflag s x (ih h)

/-- If a step without the flag changes nothing, then neither do many. -/
theorem foldl_quiet {δ α : Type} {step : δ × Bool → α → δ × Bool} {P : δ → Prop}
    (hflag : ∀ s x, (step s x).2 = false → s.2 = false)
    (hquiet : ∀ s x, P s.1 → (step s x).2 = false → (step s x).1 = s.1) {l : List α}
    {s : δ × Bool} (hP : P s.1) (h : (l.foldl step s).2 = false) : (l.foldl step s).1 = s.1 := by
  induction l generalizing s with
  | nil => rfl
  | cons x l ih =>
    have hx := hquiet s x hP (foldl_flag hflag (l := l) h)
    exact (ih (hx ▸ hP) h).trans hx

theorem addEntry_flag (s : Dict Nat β × Bool) (x : AddedRequest)
    (h : (addEntry entry s x).2 = false) : s.2 = false ∧ (addEntry entry s x).1 = s.1 := by
  unfold addEntry at h ⊢
  cases hx : entry x with
  | some e =>
    rw [hx] at h
    cases h
  | none =>
    rw [hx] at h
    obtain ⟨hs, hnone⟩ := Bool.or_eq_false_iff.mp h
    exact ⟨hs, Dict.erase_of_notMem (Dict.get?_eq_none_iff.mp (by simpa using hnone))⟩

theorem removeEntry_flag (s : Dict Nat β × Bool) (index : Nat)
    (htruthy : ∀ i e, s.1.get? i = some e → truthy e = true)
    (h : (removeEntry truthy s index).2 = false) : (removeEntry truthy s index).1 = s.1 := by
  obtain ⟨-, hnone⟩ := Bool.or_eq_false_iff.mp h
  refine Dict.erase_of_notMem (Dict.get?_eq_none_iff.mp ?_)
  cases hget : s.1.get? index with
  | none => rfl
  | some e =>
    rw [hget, Option.any_some, htruthy index e hget] at hnone
    cases hnone

theorem moveEntry_flag (s : Dict Nat β × Bool) (m : MovedRequest)
    (h : (moveEntry s m).2 = false) : s.2 = false ∧ (moveEntry s m).1 = s.1 := by
  unfold moveEntry at h ⊢
  have hnotMem : ∀ {d : Dict Nat β} {i : Nat}, d.get? i = none → d.erase i = d := fun hnone =>
    Dict.erase_of_notMem (Dict.get?_eq_none_iff.mp hnone)
  cases hdirect : m.direct with
  | unidirectional =>
    rw [hdirect] at h
    dsimp only at h ⊢
    cases hsrc : s.1.get? m.src with
    | some a =>
      rw [hsrc] at h
      cases h
    | none =>
      rw [hsrc] at h
      obtain ⟨hs, hnone⟩ := Bool.or_eq_false_iff.mp h
      refine ⟨hs, ?_⟩
      rw [hnotMem (d := s.1.erase m.src) (by simpa using hnone), hnotMem hsrc]
  | swap =>
    rw [hdirect] at h
    cases hsrc : s.1.get? m.src with
    | some a =>
      rw [hsrc] at h
      cases h
    | none =>
      rw [hsrc] at h
      dsimp only at h ⊢
      rw [hnotMem hsrc] at h ⊢
      cases htgt : s.1.get? m.tgt with
      | some b =>
        rw [htgt] at h
        cases h
      | none =>
        rw [htgt] at h
        exact ⟨h, hnotMem htgt⟩

/-- **Without the flag, nothing has changed.** -/
theorem replay_quiet {u : BatchUpdate} (htruthy : ∀ i e, d.get? i = some e → truthy e = true)
    (h : (replay entry truthy d u).2 = false) : (replay entry truthy d u).1 = d := by
  have hadd : (u.added.foldl (addEntry entry) (d, false)).2 = false →
      (u.added.foldl (addEntry entry) (d, false)).1 = d := fun hs =>
    foldl_quiet (P := fun _ => True) (fun s x hx => (addEntry_flag s x hx).1)
      (fun s x _ hx => (addEntry_flag s x hx).2) trivial hs
  unfold replay at h ⊢
  dsimp only at h ⊢
  split_ifs at h ⊢ with hnil
  · exact hadd h
  · -- the flag has been false all the time, so the entries were those of the beginning throughout
    have hmoved := foldl_quiet (P := fun _ => True) (fun s m hm => (moveEntry_flag s m hm).1)
      (fun s m _ hm => (moveEntry_flag s m hm).2) trivial h
    have hremovedFlag := foldl_flag (fun s m hm => (moveEntry_flag s m hm).1) h
    have hflag : ∀ (s : Dict Nat β × Bool) (i : Nat), (removeEntry truthy s i).2 = false →
        s.2 = false := fun s i hi => (Bool.or_eq_false_iff.mp hi).1
    have hsame := hadd (foldl_flag hflag hremovedFlag)
    have hremoved := foldl_quiet
      (P := fun d : Dict Nat β => ∀ i e, d.get? i = some e → truthy e = true) hflag
      (fun s i hs hi => removeEntry_flag s i hs hi) (by rw [hsame]; exact htruthy) hremovedFlag
    rw [hmoved, hremoved, hsame]

end Entries

/-! ## The tensors -/

/-- What the tensors hold for a row is what its entry says. -/
theorem filter_flatten {β δ : Type} (d : Dict Nat β) (tokens : β → List δ) (i : Nat) :
    ((d.entries.flatMap fun x => (tokens x.2).map fun y => (x.1, y)).filter fun x => x.1 = i).map
      Prod.snd = (d.get? i).elim [] tokens := by
  obtain ⟨entries, hnodup⟩ := d
  change _ = (Dict.find entries i).elim [] tokens
  induction entries with
  | nil => rfl
  | cons x entries ih =>
    obtain ⟨j, e⟩ := x
    rw [List.map_cons, List.nodup_cons] at hnodup
    have hrest := ih hnodup.2
    rw [List.flatMap_cons, List.filter_append, List.map_append, hrest, List.filter_map,
      List.map_map]
    by_cases hj : j = i
    · subst hj
      have hnone : Dict.find entries j = none := Dict.find_eq_none_iff.mpr hnodup.1
      rw [hnone]
      simp [Dict.find, Function.comp_def]
    · simp [Dict.find, Function.comp_def, hj]

end InferenceServer.PersistentBatch
