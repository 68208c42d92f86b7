import InferenceServer.Worker.BatchRows
import InferenceServer.Worker.Replay

/-!
# What the calls of a step leave for the processors

The processors see the batch through the builder only. For them a call is one of five changes: a request
leaves its row, a request takes a row, a request moves down, two requests are swapped, or the lists are
put in order. `InStep.changes` says so once, for all calls of a step; what holds at the beginning of a
step and is kept by every change then holds at `refresh_metadata`.

The view of a processor is what its rows will be after the replay of what is in the builder so far. A
removed row that has been filled is no longer in the builder, so the requests that left it are replayed
by the request that has filled it.

## Main results

* `InStep.changes`
* `Tracks.change`, `Occupies.change`, `Apart.change`: what a change keeps
-/

namespace InferenceServer.PersistentBatch

open Outcome
open List (mem_append mem_cons_of_mem mem_singleton)
open Function (update_of_ne update_self)

/-- The processors have not been touched. -/
def SameProcessors (b b' : InputBatch) : Prop :=
  b'.minP = b.minP ∧ b'.logitBias = b.logitBias ∧ b'.minTokens = b.minTokens

/-- **What a call may change.** -/
inductive Change (b : InputBatch) (active : Dict ReqId ActiveRequest) (b' : InputBatch) :
    Dict ReqId ActiveRequest → Prop
  | remove (i : Nat) (id : ReqId) (a : ActiveRequest) (hat : b.At i id)
      (only : ∀ j, b.At j id → j = i) (active_get? : active.get? id = some a)
      (at_iff : ∀ j id', b'.At j id' ↔ b.At j id' ∧ j ≠ i) (moved : b.builder.moved = [])
      (builder : b'.builder = { b.builder with removed := b.builder.removed ++ [i] })
      (same : SameProcessors b b') : Change b active b' (active.erase id)
  | add (i : Nat) (r : CachedRequestState) (output : List TokenId) (params : Params)
      (hparams : r.params = some params) (free : b.Free i) (new : r.reqId ∉ active)
      (nowhere : ∀ j, ¬ b.At j r.reqId)
      (at_iff : ∀ j id, b'.At j id ↔ if j = i then id = r.reqId else b.At j id)
      (moved : b.builder.moved = []) (moved' : b'.builder.moved = [])
      (added : b'.builder.added =
        b.builder.added ++ [{ index := i, params, outputTokenIds := r.outputTokenIds }])
      (removed : b.builder.removed.Perm (i :: b'.builder.removed) ∨
        b'.builder.removed = b.builder.removed ∧ i ∉ b.builder.removed)
      (same : SameProcessors b b') : Change b active b' (active.set r.reqId { state := r, output })
  | move (src tgt : Nat) (id : ReqId) (hat : b.At src id) (free : b.Free tgt)
      (at_iff : ∀ j id', b'.At j id' ↔ j ≠ src ∧ if j = tgt then id' = id else b.At j id')
      (notRemoved : src ∉ b.builder.removed)
      (removed : b.builder.removed.Perm (tgt :: b'.builder.removed))
      (added : b'.builder.added = b.builder.added)
      (moved : b'.builder.moved = b.builder.moved ++ [{ src, tgt, direct := .unidirectional }])
      (same : SameProcessors b b') : Change b active b' active
  | swap (i1 i2 : Nat) (id1 id2 : ReqId) (at1 : b.At i1 id1) (at2 : b.At i2 id2)
      (at_iff : ∀ j id, b'.At j id ↔
        if j = i2 then id = id1 else if j = i1 then id = id2 else b.At j id)
      (builder : b'.builder = { b.builder with
        moved := b.builder.moved ++ [{ src := i1, tgt := i2, direct := .swap }] })
      (same : SameProcessors b b') : Change b active b' active
  | tidy (at_iff : ∀ j id, b'.At j id ↔ b.At j id)
      (removed : b'.builder.removed.Perm b.builder.removed)
      (added : b'.builder.added = b.builder.added) (moved : b'.builder.moved = b.builder.moved)
      (numReqs : b'.numReqs = b.numReqs) (same : SameProcessors b b') : Change b active b' active

/-- Some changes. -/
def Changes (b : InputBatch) (active : Dict ReqId ActiveRequest) (b' : InputBatch)
    (active' : Dict ReqId ActiveRequest) : Prop :=
  Relation.ReflTransGen (fun x y => Change x.1 x.2 y.1 y.2) (b, active) (b', active')

variable {cfg : BatchConfig} {b b' : InputBatch} {active active' : Dict ReqId ActiveRequest}
  {s s' : BatchState}

theorem Change.same (c : Change b active b' active') : SameProcessors b b' := by
  cases c <;> assumption

/-- What holds before some changes and is kept by each of them holds afterwards. -/
theorem Changes.invariant {P : InputBatch → Dict ReqId ActiveRequest → Prop}
    (h : Changes b active b' active') (hP : P b active)
    (step : ∀ b active b' active', P b active → Change b active b' active' → P b' active') :
    P b' active' := by
  have hall : ∀ y, Relation.ReflTransGen (fun x y => Change x.1 x.2 y.1 y.2) (b, active) y →
      P y.1 y.2 := fun y hy => by
    induction hy with
    | refl => exact hP
    | tail _ hc ih => exact step _ _ _ _ ih hc
  exact hall (b', active') h

/-! ## The calls of a step -/

theorem InputBatch.changes_removeRequest {id : ReqId} (h : Placed cfg b active)
    (hmoved : b.builder.moved = []) (hr : b.removeRequest cfg id = .ok b') :
    Changes b active b' (active.erase id) := by
  rcases InputBatch.removeRequest_cases hr with
    ⟨hnone, rfl⟩ | ⟨i, builder, lora, hget, hbuilder, -, rfl⟩
  · have hnot : id ∉ active := fun ha => Dict.get?_eq_none_iff.mp hnone ((h.keys id).mp ha)
    rw [Dict.erase_of_notMem hnot]
    exact .refl
  obtain ⟨_, -, hbuilder⟩ := bind_eq_ok.mp hbuilder
  cases hbuilder
  have hat : b.At i id := (h.inverse id i).mp hget
  obtain ⟨a, ha⟩ := h.exists_active hat
  refine .single (.remove i id a hat (fun j hj => h.at_unique hj hat) ha (fun j id' => ?_) hmoved rfl
    ⟨rfl, rfl, rfl⟩)
  change (b.reqIds.set i none)[j]? = some (some id') ↔ _
  by_cases hj : j = i
  · subst hj
    rw [List.getElem?_set_self (Placed.lt_length hat)]
    simp
  · rw [List.getElem?_set_ne (Ne.symm hj)]
    exact ⟨fun hat' => ⟨hat', hj⟩, And.left⟩

theorem InputBatch.changes_addRequest {r : CachedRequestState} {output : List TokenId}
    (h : Placed cfg b active) (hh : Holes b) (hs : b.builder.SortedIf)
    (hmoved : b.builder.moved = []) (hnew : r.reqId ∉ active)
    (hr : b.addRequest cfg r output = .ok b') :
    Changes b active b' (active.set r.reqId { state := r, output }) := by
  have hadds := InputBatch.addRequest_adds hr
  obtain ⟨params, hparams⟩ := hadds.params
  have hbuilder := hadds.builder
  rw [hparams] at hbuilder
  have hpop : b.getNextAddIndex.2.added = b.builder.added ∧
      (b.builder.removed.Perm (b.getNextAddIndex.1 :: b.getNextAddIndex.2.removed) ∨
        b.getNextAddIndex.2.removed = b.builder.removed ∧
          b.getNextAddIndex.1 ∉ b.builder.removed) := by
    rcases h.getNextAddIndex_cases hh hs with ⟨hnil, hnext⟩ | ⟨i, u', hpops, hnext⟩ <;> rw [hnext]
    · exact ⟨rfl, .inr ⟨rfl, by rw [hnil]; exact List.not_mem_nil⟩⟩
    · exact ⟨hpops.added, .inl hpops.perm⟩
  refine .single (.add b.getNextAddIndex.1 r output params hparams (h.free_nextAddIndex hh hs) hnew
    (fun j hat => ?_) (fun j id => ?_) hmoved ?_ ?_ ?_ ⟨hadds.minP, hadds.logitBias, hadds.minTokens⟩)
  · exact hnew ((h.keys _).mpr (Dict.mem_of_get? ((h.inverse _ j).mpr hat)))
  · dsimp only
    unfold InputBatch.At
    rw [hadds.reqIds]
    split_ifs
    · rw [Option.some.injEq, Option.some.injEq, eq_comm]
    · exact Iff.rfl
  · dsimp only
    rw [hbuilder]
    exact (InputBatch.getNextAddIndex_moved b).trans hmoved
  · dsimp only
    rw [hbuilder]
    exact congrArg (· ++ _) hpop.1
  · dsimp only
    rw [hbuilder]
    exact hpop.2

theorem InputBatch.Turn.change {src tgt : Nat} (ht : b.Turn cfg active src tgt b') :
    Change b active b' active := by
  obtain ⟨id, u', hpops, hm⟩ := ht.moves
  have hne : src ≠ tgt := fun heq => ht.free id (heq ▸ hm.atSrc)
  refine .move src tgt id hm.atSrc ht.free (hm.at_iff ht.lt hne) ht.notRemoved ?_ ?_ ?_
    ⟨hm.minP, hm.logitBias, hm.minTokens⟩ <;> rw [hm.builder]
  · exact hpops.perm
  · exact hpops.added
  · exact congrArg (· ++ _) hpops.moved

theorem InputBatch.Turns.changes (ht : InputBatch.Turns cfg active b b') :
    Changes b active b' active := by
  induction ht with
  | refl => exact .refl
  | tail _ hturn ih =>
    obtain ⟨src, tgt, hturn⟩ := hturn
    exact Relation.ReflTransGen.tail ih hturn.change

theorem InputBatch.changes_condense (h : Placed cfg b active) (hh : Holes b)
    (hs : b.builder.SortedIf) (hr : b.condense = .ok b') : Changes b active b' active := by
  obtain ⟨b₁, hturns, heq, hat, hplaced, -⟩ := condense_spec h hh hs hr
  have hsort : Change b active { b with builder := b.builder.ensureRemovedSorted } active :=
    .tidy (fun _ _ => Iff.rfl) (BatchUpdateBuilder.ensureRemovedSorted_perm _)
      BatchUpdateBuilder.added_ensureRemovedSorted BatchUpdateBuilder.moved_ensureRemovedSorted rfl
      ⟨rfl, rfl, rfl⟩
  have htrim : Change b₁ active b' active := by
    refine .tidy hat ?_ ?_ ?_ ?_ ⟨?_, ?_, ?_⟩ <;> rw [heq]
    rfl
  exact ((Relation.ReflTransGen.single hsort).trans hturns.changes).tail htrim

/-- **Every call of a step** but the last one is made of changes. -/
theorem InStep.changes {op : BatchOp} (h : InStep cfg s) (ha : Admitted cfg s op)
    (hstep : (inputBatch cfg).step s op = .ok s') :
    Changes s.batch s.active s'.batch s'.active ∧ s'.outputs = s.outputs ∨
      op = .refreshMetadata ∨ ∃ ref tokens, op = .generate ref tokens := by
  cases op with
  | removeRequest id =>
    obtain ⟨b', hr, hstep⟩ := bind_eq_ok.mp hstep
    cases hstep
    have hphase : s.phase ≠ .condensed := by
      rcases ha with ha | ha <;> rw [ha] <;> exact fun hc => nomatch hc
    exact .inl ⟨InputBatch.changes_removeRequest h.placed (h.moved hphase) hr, rfl⟩
  | addRequest r =>
    obtain ⟨b', hr, hstep⟩ := bind_eq_ok.mp hstep
    cases hstep
    obtain ⟨hphase, hnew, -⟩ := ha
    exact .inl ⟨InputBatch.changes_addRequest h.placed (h.holes hphase) h.sorted (h.moved hphase) hnew
      hr, rfl⟩
  | condense =>
    obtain ⟨b', hr, hstep⟩ := bind_eq_ok.mp hstep
    cases hstep
    exact .inl ⟨InputBatch.changes_condense h.placed (h.holes ha) h.sorted hr, rfl⟩
  | swapStates i1 i2 =>
    obtain ⟨b', hr, hstep⟩ := bind_eq_ok.mp hstep
    cases hstep
    obtain ⟨id1, id2, hs⟩ := InputBatch.swapStates_swaps hr
    exact .inl ⟨.single (.swap i1 i2 id1 id2 hs.at1 hs.at2 hs.at_iff hs.builder
      ⟨hs.minP, hs.logitBias, hs.minTokens⟩), rfl⟩
  | refreshMetadata => exact .inr (.inl rfl)
  | generate ref tokens => exact .inr (.inr ⟨ref, tokens, rfl⟩)

/-! ## What the processors see -/

/-- The removed rows are not the rows of the moves. -/
structure Apart (b : InputBatch) : Prop where
  nodup : b.builder.removed.Nodup
  free : ∀ i ∈ b.builder.removed, b.Free i
  moved : ∀ m ∈ b.builder.moved, m.src ∉ b.builder.removed ∧ m.tgt ∉ b.builder.removed

theorem Apart.change (h : Apart b) (c : Change b active b' active') : Apart b' := by
  cases c with
  | remove i id a hat only ha at_iff moved builder =>
    have hnot : i ∉ b.builder.removed := fun hi => h.free i hi id hat
    refine ⟨?_, fun j hj id' hat' => ?_, fun m hm => ?_⟩
    · rw [builder]
      exact List.nodup_append'.mpr
        ⟨h.nodup, List.nodup_singleton i, fun x hx hxi => hnot (mem_singleton.mp hxi ▸ hx)⟩
    · rw [builder] at hj
      obtain ⟨hat', hji⟩ := (at_iff j id').mp hat'
      rcases mem_append.mp hj with hj | hj
      · exact h.free j hj id' hat'
      · exact hji (mem_singleton.mp hj)
    · rw [builder] at hm
      change m ∈ b.builder.moved at hm
      rw [moved] at hm
      cases hm
  | add i r output params hparams free new nowhere at_iff moved moved' added removed =>
    have hsub : b'.builder.removed.Nodup ∧ i ∉ b'.builder.removed ∧
        ∀ j ∈ b'.builder.removed, j ∈ b.builder.removed := by
      rcases removed with hperm | ⟨heq, hnot⟩
      · have hnodup := List.nodup_cons.mp (hperm.nodup h.nodup)
        exact ⟨hnodup.2, hnodup.1, fun j hj => hperm.mem_iff.mpr (mem_cons_of_mem i hj)⟩
      · exact ⟨heq ▸ h.nodup, heq ▸ hnot, fun j hj => heq ▸ hj⟩
    refine ⟨hsub.1, fun j hj id hat => ?_, fun m hm => ?_⟩
    · have hji : j ≠ i := fun heq => hsub.2.1 (heq ▸ hj)
      have hold := (at_iff j id).mp hat
      rw [if_neg hji] at hold
      exact h.free j (hsub.2.2 j hj) id hold
    · rw [moved'] at hm
      cases hm
  | move src tgt id hat free at_iff notRemoved removed added moved =>
    have hnodup := List.nodup_cons.mp (removed.nodup h.nodup)
    have hsub : ∀ j ∈ b'.builder.removed, j ∈ b.builder.removed := fun j hj =>
      removed.mem_iff.mpr (mem_cons_of_mem tgt hj)
    refine ⟨hnodup.2, fun j hj id' hat' => ?_, fun m hm => ?_⟩
    · have hjt : j ≠ tgt := fun heq => hnodup.1 (heq ▸ hj)
      obtain ⟨-, hold⟩ := (at_iff j id').mp hat'
      rw [if_neg hjt] at hold
      exact h.free j (hsub j hj) id' hold
    · rw [moved] at hm
      rcases mem_append.mp hm with hm | hm
      · obtain ⟨hsrc, htgt⟩ := h.moved m hm
        exact ⟨fun hc => hsrc (hsub _ hc), fun hc => htgt (hsub _ hc)⟩
      · obtain rfl := mem_singleton.mp hm
        exact ⟨fun hc => notRemoved (hsub _ hc), hnodup.1⟩
  | swap i1 i2 id1 id2 at1 at2 at_iff builder =>
    have hremoved : b'.builder.removed = b.builder.removed := by rw [builder]
    have h1 : i1 ∉ b.builder.removed := fun hi => h.free i1 hi id1 at1
    have h2 : i2 ∉ b.builder.removed := fun hi => h.free i2 hi id2 at2
    refine ⟨hremoved ▸ h.nodup, fun j hj id hat => ?_, fun m hm => ?_⟩
    · rw [hremoved] at hj
      have hold := (at_iff j id).mp hat
      have hj2 : j ≠ i2 := fun heq => h2 (heq ▸ hj)
      have hj1 : j ≠ i1 := fun heq => h1 (heq ▸ hj)
      rw [if_neg hj2, if_neg hj1] at hold
      exact h.free j hj id hold
    · rw [builder] at hm
      rw [hremoved]
      rcases mem_append.mp hm with hm | hm
      · exact h.moved m hm
      · obtain rfl := mem_singleton.mp hm
        exact ⟨h1, h2⟩
  | tidy at_iff removed added moved =>
    refine ⟨removed.symm.nodup h.nodup, fun j hj id hat => ?_, fun m hm => ?_⟩
    · exact h.free j (removed.mem_iff.mp hj) id ((at_iff j id).mp hat)
    · obtain ⟨hsrc, htgt⟩ := h.moved m (moved ▸ hm)
      exact ⟨fun hc => hsrc (removed.mem_iff.mp hc), fun hc => htgt (removed.mem_iff.mp hc)⟩

section Views

variable {γ : Type} {put : AddedRequest → γ} {vacate : γ → γ} {f : Nat → γ}
  {Good : ActiveRequest → γ → Prop} {u u' : BatchUpdateBuilder}

theorem viewOf_congr (hadded : u'.added = u.added) (hmoved : u'.moved = u.moved) :
    viewOf put vacate f u' = viewOf put vacate f u := by
  unfold viewOf
  rw [hadded, hmoved]

theorem viewOf_add {x : AddedRequest} (hmoved : u.moved = []) (hmoved' : u'.moved = [])
    (hadded : u'.added = u.added ++ [x]) :
    viewOf put vacate f u' = addView put (viewOf put vacate f u) x := by
  unfold viewOf
  rw [hadded, hmoved, hmoved', List.foldl_append]
  rfl

theorem viewOf_move {m : MovedRequest} (hadded : u'.added = u.added)
    (hmoved : u'.moved = u.moved ++ [m]) :
    viewOf put vacate f u' = moveView vacate (viewOf put vacate f u) m := by
  unfold viewOf
  rw [hadded, hmoved, List.foldl_append]
  rfl

theorem moveView_tgt (m : MovedRequest) : moveView vacate f m m.tgt = f m.src :=
  update_self ..

theorem moveView_src {m : MovedRequest} (hne : m.src ≠ m.tgt) :
    moveView vacate f m m.src = match m.direct with
      | .unidirectional => vacate (f m.src)
      | .swap => f m.tgt :=
  (update_of_ne hne ..).trans (update_self ..)

/-- **In the view, the row of every active request is good for it.** -/
def Tracks (put : AddedRequest → γ) (vacate : γ → γ) (Good : ActiveRequest → γ → Prop)
    (f : Nat → γ) (b : InputBatch) (active : Dict ReqId ActiveRequest) : Prop :=
  ∀ i id a, b.At i id → active.get? id = some a → Good a (viewOf put vacate f b.builder i)

theorem Tracks.change (h : Tracks put vacate Good f b active) (c : Change b active b' active')
    (hput : ∀ r output i params, r.params = some params →
      Good { state := r, output } (put { index := i, params, outputTokenIds := r.outputTokenIds })) :
    Tracks put vacate Good f b' active' := by
  intro j id' a' hat' ha'
  cases c with
  | remove i id a hat only ha at_iff moved builder =>
    obtain ⟨hold, hji⟩ := (at_iff j id').mp hat'
    have hid : id' ≠ id := fun heq => hji (only j (heq ▸ hold))
    rw [Dict.get?_erase_ne hid] at ha'
    rw [viewOf_congr (by rw [builder]) (by rw [builder])]
    exact h j id' a' hold ha'
  | add i r output params hparams free new nowhere at_iff moved moved' added removed =>
    have hold := (at_iff j id').mp hat'
    rw [viewOf_add moved moved' added]
    unfold addView
    by_cases hji : j = i
    · rw [if_pos hji] at hold
      subst hold hji
      rw [Dict.get?_set_self] at ha'
      cases ha'
      rw [update_self]
      exact hput r output j params hparams
    · rw [if_neg hji] at hold
      have hid : id' ≠ r.reqId := fun heq => nowhere j (heq ▸ hold)
      rw [Dict.get?_set_ne hid] at ha'
      rw [update_of_ne hji]
      exact h j id' a' hold ha'
  | move src tgt id hat free at_iff notRemoved removed added moved =>
    obtain ⟨hjs, hold⟩ := (at_iff j id').mp hat'
    rw [viewOf_move added moved]
    by_cases hjt : j = tgt
    · rw [if_pos hjt] at hold
      subst hold hjt
      rw [moveView_tgt]
      exact h src id' a' hat ha'
    · rw [if_neg hjt] at hold
      rw [moveView_of_ne hjs hjt]
      exact h j id' a' hold ha'
  | swap i1 i2 id1 id2 at1 at2 at_iff builder =>
    have hold := (at_iff j id').mp hat'
    have hadded : b'.builder.added = b.builder.added := by rw [builder]
    have hmoved : b'.builder.moved =
        b.builder.moved ++ [{ src := i1, tgt := i2, direct := .swap }] := by rw [builder]
    rw [viewOf_move hadded hmoved]
    by_cases hj2 : j = i2
    · rw [if_pos hj2] at hold
      subst hold hj2
      rw [moveView_tgt]
      exact h i1 id' a' at1 ha'
    · rw [if_neg hj2] at hold
      by_cases hj1 : j = i1
      · rw [if_pos hj1] at hold
        subst hold hj1
        rw [moveView_src hj2]
        exact h i2 id' a' at2 ha'
      · rw [if_neg hj1] at hold
        rw [moveView_of_ne hj1 hj2]
        exact h j id' a' hold ha'
  | tidy at_iff removed added moved =>
    rw [viewOf_congr added moved]
    exact h j id' a' ((at_iff j id').mp hat') ha'

end Views

/-- The row of a request, or a removed row that nobody has filled yet. -/
def InputBatch.Taken (b : InputBatch) (i : Nat) : Prop := (∃ id, b.At i id) ∨ i ∈ b.builder.removed

/-- The rows that are taken after a change were taken before, but for the row of an added request. -/
theorem Change.taken (c : Change b active b' active') {j : Nat} (hj : b'.Taken j) :
    b.Taken j ∨ ∃ x, b'.builder.added = b.builder.added ++ [x] ∧ x.index = j := by
  cases c with
  | remove i id a hat only ha at_iff moved builder =>
    rcases hj with ⟨id', hat'⟩ | hj
    · exact .inl (.inl ⟨id', ((at_iff j id').mp hat').1⟩)
    · rw [builder] at hj
      rcases mem_append.mp hj with hj | hj
      · exact .inl (.inr hj)
      · exact .inl (.inl ⟨id, mem_singleton.mp hj ▸ hat⟩)
  | add i r output params hparams free new nowhere at_iff moved moved' added removed =>
    by_cases hji : j = i
    · exact .inr ⟨_, added, hji.symm⟩
    rcases hj with ⟨id', hat'⟩ | hj
    · have hold := (at_iff j id').mp hat'
      rw [if_neg hji] at hold
      exact .inl (.inl ⟨id', hold⟩)
    · rcases removed with hperm | ⟨heq, -⟩
      · exact .inl (.inr (hperm.mem_iff.mpr (mem_cons_of_mem i hj)))
      · exact .inl (.inr (heq ▸ hj))
  | move src tgt id hat free at_iff notRemoved removed added moved =>
    by_cases hjt : j = tgt
    · exact .inl (.inr (hjt ▸ removed.mem_iff.mpr List.mem_cons_self))
    rcases hj with ⟨id', hat'⟩ | hj
    · have hold := ((at_iff j id').mp hat').2
      rw [if_neg hjt] at hold
      exact .inl (.inl ⟨id', hold⟩)
    · exact .inl (.inr (removed.mem_iff.mpr (mem_cons_of_mem tgt hj)))
  | swap i1 i2 id1 id2 at1 at2 at_iff builder =>
    by_cases hj2 : j = i2
    · exact .inl (.inl ⟨id2, hj2 ▸ at2⟩)
    by_cases hj1 : j = i1
    · exact .inl (.inl ⟨id1, hj1 ▸ at1⟩)
    rcases hj with ⟨id', hat'⟩ | hj
    · have hold := (at_iff j id').mp hat'
      rw [if_neg hj2, if_neg hj1] at hold
      exact .inl (.inl ⟨id', hold⟩)
    · rw [builder] at hj
      exact .inl (.inr hj)
  | tidy at_iff removed added moved =>
    rcases hj with ⟨id', hat'⟩ | hj
    · exact .inl (.inl ⟨id', (at_iff j id').mp hat'⟩)
    · exact .inl (.inr (removed.mem_iff.mp hj))

/-- A change adds a request or none. -/
theorem Change.added_cases (c : Change b active b' active') :
    b'.builder.added = b.builder.added ∨ ∃ x, b'.builder.added = b.builder.added ++ [x] := by
  cases c with
  | remove i id a hat only ha at_iff moved builder =>
    rw [builder]
    exact .inl rfl
  | add i r output params hparams free new nowhere at_iff moved moved' added => exact .inr ⟨_, added⟩
  | move src tgt id hat free at_iff notRemoved removed added => exact .inl added
  | swap i1 i2 id1 id2 at1 at2 at_iff builder =>
    rw [builder]
    exact .inl rfl
  | tidy at_iff removed added => exact .inl added

/-- In the view, only rows that are taken have entries. -/
def Occupies {β : Type} (entry : AddedRequest → Option β) (f : Nat → Option β) (b : InputBatch) :
    Prop :=
  ∀ i, viewOf entry (fun _ => none) f b.builder i ≠ none → b.Taken i

theorem Occupies.change {β : Type} {entry : AddedRequest → Option β} {f : Nat → Option β}
    (h : Occupies entry f b) (c : Change b active b' active') : Occupies entry f b' := by
  intro j hj
  cases c with
  | remove i id a hat only ha at_iff moved builder =>
    rw [viewOf_congr (by rw [builder]) (by rw [builder])] at hj
    rw [InputBatch.Taken, builder]
    rcases h j hj with ⟨id', hat'⟩ | hmem
    · by_cases hji : j = i
      · exact .inr (List.mem_append_right _ (mem_singleton.mpr hji))
      · exact .inl ⟨id', (at_iff j id').mpr ⟨hat', hji⟩⟩
    · exact .inr (List.mem_append_left _ hmem)
  | add i r output params hparams free new nowhere at_iff moved moved' added removed =>
    by_cases hji : j = i
    · exact .inl ⟨r.reqId, (at_iff j r.reqId).mpr (by rw [if_pos hji])⟩
    rw [viewOf_add moved moved' added, addView, update_of_ne hji] at hj
    rcases h j hj with ⟨id', hat'⟩ | hmem
    · exact .inl ⟨id', (at_iff j id').mpr (by rwa [if_neg hji])⟩
    · rcases removed with hperm | ⟨heq, -⟩
      · exact .inr ((List.mem_cons.mp (hperm.mem_iff.mp hmem)).resolve_left hji)
      · exact .inr (heq ▸ hmem)
  | move src tgt id hat free at_iff notRemoved removed added moved =>
    by_cases hjt : j = tgt
    · refine .inl ⟨id, (at_iff j id).mpr ⟨?_, by rw [if_pos hjt]⟩⟩
      rintro rfl
      exact free id (hjt ▸ hat)
    rw [viewOf_move added moved] at hj
    by_cases hjs : j = src
    · rw [hjs, moveView_src (fun heq => hjt (hjs.trans heq))] at hj
      exact absurd rfl hj
    rw [moveView_of_ne hjs hjt] at hj
    rcases h j hj with ⟨id', hat'⟩ | hmem
    · exact .inl ⟨id', (at_iff j id').mpr ⟨hjs, by rwa [if_neg hjt]⟩⟩
    · exact .inr ((List.mem_cons.mp (removed.mem_iff.mp hmem)).resolve_left hjt)
  | swap i1 i2 id1 id2 at1 at2 at_iff builder =>
    by_cases hj2 : j = i2
    · exact .inl ⟨id1, (at_iff j id1).mpr (by rw [if_pos hj2])⟩
    by_cases hj1 : j = i1
    · exact .inl ⟨id2, (at_iff j id2).mpr (by rw [if_neg hj2, if_pos hj1])⟩
    have hadded : b'.builder.added = b.builder.added := by rw [builder]
    have hmoved : b'.builder.moved =
        b.builder.moved ++ [{ src := i1, tgt := i2, direct := .swap }] := by rw [builder]
    rw [viewOf_move hadded hmoved, moveView_of_ne hj1 hj2] at hj
    rcases h j hj with ⟨id', hat'⟩ | hmem
    · exact .inl ⟨id', (at_iff j id').mpr (by rwa [if_neg hj2, if_neg hj1])⟩
    · refine .inr ?_
      rw [builder]
      exact hmem
  | tidy at_iff removed added moved =>
    rw [viewOf_congr added moved] at hj
    rcases h j hj with ⟨id', hat'⟩ | hmem
    · exact .inl ⟨id', (at_iff j id').mpr hat'⟩
    · exact .inr (removed.mem_iff.mpr hmem)

end InferenceServer.PersistentBatch
