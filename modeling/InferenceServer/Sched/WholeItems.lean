import InferenceServer.KVCache.HashPaths
import InferenceServer.Sched.EncoderRoom
import InferenceServer.Sched.Offers
import InferenceServer.Sched.Progress

/-!
# Multi-modal items stay whole

With `disable_chunked_mm_input`, a multi-modal item is not to be split between two steps. If the tokens
that are offered to a request end inside an item, `_try_schedule_encoder_inputs` takes them back to the
first token of the item. It does so only if there are tokens before the item, and only if the item is not
in the encoder cache yet: an item with which the offered tokens begin is split, and so is an item that is
still cached from before a preemption.

The tokens of a step are whole if its first and its last token are not inside an item. So the invariant of
a run is that the computed tokens of every request end between two items. Two more things can move them
into an item. A request that is preempted in the step that has given it tokens gets these tokens counted
from zero. And a result from before a preemption takes rejected drafts off the new count.

## Main results

* `encoderInputsLoop_between`, `itemsWhole_of_reach`
-/

namespace InferenceServer

open Outcome
open Scheduler (request_congr request_modify)
open List (mem_append mem_cons_of_mem mem_cons_self not_mem_nil)

/-! ## Positions between items -/

/-- The position is not inside an item: no item has tokens on both sides of it. -/
def Between (items : List PlaceholderRange) (c : Int) : Prop :=
  ∀ pos ∈ items, ¬ ((pos.offset : Int) < c ∧ c < pos.stop)

instance (items : List PlaceholderRange) (c : Int) : Decidable (Between items c) :=
  inferInstanceAs (Decidable (∀ pos ∈ items, _))

/-- The `n` tokens from position `c` on contain every item of which they contain a token. -/
def WholeRange (items : List PlaceholderRange) (c n : Int) : Prop :=
  ∀ pos ∈ items, (∃ q : Int, c ≤ q ∧ q < c + n ∧ pos.offset ≤ q ∧ q < pos.stop) →
    c ≤ pos.offset ∧ pos.stop ≤ c + n

/-- The items are in the prompt, in their order. -/
structure Request.ItemsPlaced (r : Request) : Prop where
  ordered : r.MmOrdered
  inPrompt : ∀ pos ∈ r.mmPositions, pos.stop ≤ r.promptTokenIds.length

section Between

variable {items : List PlaceholderRange} {c n : Int} {r : Request} {pos : PlaceholderRange}

/-- **A range from one position between items to another** splits no item. -/
theorem WholeRange.of_between (hc : Between items c) (hn : Between items (c + n)) :
    WholeRange items c n := by
  rintro pos hpos ⟨q, hcq, hqn, hoq, hqs⟩
  have h₁ := hc pos hpos
  have h₂ := hn pos hpos
  omega

theorem WholeRange.of_nonpos (hn : n ≤ 0) : WholeRange items c n := by
  rintro pos - ⟨q, hcq, hqn, -⟩
  omega

theorem between_of_nonpos (hc : c ≤ 0) : Between items c := fun pos _ h => by omega

/-- An item begins between items. -/
theorem Request.MmOrdered.between_offset (h : r.MmOrdered) (hpos : pos ∈ r.mmPositions) :
    Between r.mmPositions pos.offset := by
  intro pos' hpos' hin
  have hstop : (pos.offset : Int) ≤ pos.stop := by
    unfold PlaceholderRange.stop
    omega
  obtain ⟨i, hi, rfl⟩ := List.getElem_of_mem hpos
  obtain ⟨j, hj, rfl⟩ := List.getElem_of_mem hpos'
  rcases lt_trichotomy i j with hlt | rfl | hlt
  · have := List.pairwise_iff_getElem.mp h i j hi hj hlt
    omega
  · omega
  · have := List.pairwise_iff_getElem.mp h j i hj hi hlt
    omega

theorem Request.ItemsPlaced.congr {r' : Request} (h : r.ItemsPlaced)
    (hpos : r'.mmPositions = r.mmPositions) (hprompt : r'.promptTokenIds = r.promptTokenIds) :
    r'.ItemsPlaced := by
  obtain ⟨hordered, hin⟩ := h
  exact ⟨by rwa [Request.MmOrdered, hpos], by rwa [hpos, hprompt]⟩

/-- Behind the prompt there are no items. -/
theorem Request.ItemsPlaced.between_of_prompt_le (h : r.ItemsPlaced)
    (hc : (r.promptTokenIds.length : Int) ≤ c) : Between r.mmPositions c := fun pos hpos hin => by
  have := h.inPrompt pos hpos
  omega

end Between

/-! ## Where the granted tokens end -/

/-- **The `n` offered tokens end inside an item that is not rolled back**: it begins with the first of
them, or it is in the encoder cache. -/
def Request.CutsItem (m : EncoderCacheManager) (r : Request) (c n : Int) : Prop :=
  ∃ e ∈ r.mmPositions.zipIdx, c ≤ e.1.offset ∧ e.1.offset < c + n ∧ c + n < e.1.stop ∧
    ((e.1.offset : Int) = c ∨ m.hasCache r e.2 = true)

instance (m : EncoderCacheManager) (r : Request) (c n : Int) : Decidable (r.CutsItem m c n) :=
  inferInstanceAs (Decidable (∃ e ∈ r.mmPositions.zipIdx, _))

section Loop

variable {C : SchedulerConfig} {m : EncoderCacheManager} {r : Request} {c n n' budget budget' : Int}
  {l : List (PlaceholderRange × Nat)} {inputs inputs' : List Nat}

/-- The end of the range that the loop leaves: nothing is left, or it ends where an item begins, or it
is the end of the offered tokens and lies in none of the items. -/
def LeavesWhole (l : List (PlaceholderRange × Nat)) (c n n' : Int) : Prop :=
  n' = 0 ∨ (∃ e ∈ l, (e.1.offset : Int) = c + n') ∨
    (n' = n ∧ ∀ e ∈ l, ¬ ((e.1.offset : Int) < c + n ∧ c + n < e.1.stop))

/-- The items behind one whose end is in the offered tokens. -/
theorem LeavesWhole.cons {e : PlaceholderRange × Nat} (h : LeavesWhole l c n n')
    (hstop : (e.1.stop : Int) ≤ c + n) : LeavesWhole (e :: l) c n n' := by
  refine h.imp_right (Or.imp ?_ ?_)
  · rintro ⟨e', he', hoff⟩
    exact ⟨e', mem_cons_of_mem e he', hoff⟩
  · rintro ⟨rfl, hall⟩
    refine ⟨rfl, fun e' he' => ?_⟩
    rcases List.mem_cons.mp he' with rfl | he'
    · omega
    · exact hall e' he'

/-- **The loop leaves the items whole**, unless an item is cut that it does not roll back. -/
theorem encoderInputsLoop_between (hchunk : C.disableChunkedMmInput = true) (hn : 0 < n)
    (hordered : l.Pairwise fun a b => a.1.stop ≤ b.1.offset)
    (hc : ∀ e ∈ l, ¬ ((e.1.offset : Int) < c ∧ c < e.1.stop))
    (hcut : ¬ ∃ e ∈ l, c ≤ e.1.offset ∧ e.1.offset < c + n ∧ c + n < e.1.stop ∧
      ((e.1.offset : Int) = c ∨ m.hasCache r e.2 = true))
    (h : encoderInputsLoop C m r c l inputs n budget = (inputs', n', budget')) :
    LeavesWhole l c n n' := by
  induction l generalizing inputs budget with
  | nil =>
    obtain ⟨-, rfl, -⟩ : inputs = inputs' ∧ n = n' ∧ budget = budget' := by
      simpa [encoderInputsLoop] using h
    exact .inr (.inr ⟨rfl, fun e he => absurd he not_mem_nil⟩)
  | cons e l ih =>
    obtain ⟨pos, i⟩ := e
    obtain ⟨hfirst, hrest⟩ := List.pairwise_cons.mp hordered
    have hhead := hc (pos, i) mem_cons_self
    have hitem : ¬ (c ≤ pos.offset ∧ (pos.offset : Int) < c + n ∧ c + n < pos.stop ∧
        ((pos.offset : Int) = c ∨ m.hasCache r i = true)) := fun hin =>
      hcut ⟨(pos, i), mem_cons_self, hin⟩
    have hlen : ((pos.offset + pos.length : Nat) : Int) = pos.stop := rfl
    dsimp only at hfirst hhead
    -- the items behind this one, if its end is in the offered tokens
    have hnext : ∀ {inputs budget}, (pos.stop : Int) ≤ c + n →
        encoderInputsLoop C m r c l inputs n budget = (inputs', n', budget') →
        LeavesWhole ((pos, i) :: l) c n n' := fun hstop h =>
      (ih hrest (fun e he => hc e (mem_cons_of_mem _ he))
        (fun hex => hcut (hex.imp fun e he => ⟨mem_cons_of_mem _ he.1, he.2⟩)) h).cons hstop
    unfold encoderInputsLoop at h
    split_ifs at h with hneeded hbefore hcached hroll hroom hlt
    · -- the offered tokens end before the item, and so before the items behind it
      obtain ⟨-, rfl, -⟩ : inputs = inputs' ∧ n = n' ∧ budget = budget' := by simpa using h
      refine .inr (.inr ⟨rfl, fun e he => ?_⟩)
      rcases List.mem_cons.mp he with rfl | he
      · dsimp only
        omega
      · have := hfirst e he
        have hle : pos.offset ≤ pos.stop := Nat.le_add_right _ _
        omega
    · exact hnext (by omega) h
    · refine hnext ?_ h
      by_contra hin
      exact hitem ⟨by omega, by omega, by omega, .inr hcached⟩
    · obtain ⟨-, rfl, -⟩ : inputs = inputs' ∧ (pos.offset : Int) - c = n' ∧ budget = budget' := by
        simpa using h
      exact .inr (.inl ⟨(pos, i), mem_cons_self, by dsimp only; omega⟩)
    · obtain ⟨-, rfl, -⟩ : inputs = inputs' ∧ (pos.offset : Int) - c = n' ∧ budget = budget' := by
        simpa using h
      exact .inr (.inl ⟨(pos, i), mem_cons_self, by dsimp only; omega⟩)
    · obtain ⟨-, rfl, -⟩ : inputs = inputs' ∧ 0 = n' ∧ budget = budget' := by simpa using h
      exact .inl rfl
    · -- the item is scheduled; with chunking off it was not cut behind its first token
      refine hnext ?_ h
      by_contra hin
      rw [not_and, not_and] at hroll
      have := hroll hchunk
      exact hitem ⟨by omega, by omega, by omega, .inl (by omega)⟩

/-- **What is left of the offered tokens** ends between items. -/
theorem tryScheduleEncoderInputs_between (hchunk : C.disableChunkedMmInput = true)
    (hordered : r.MmOrdered) (hn : 0 < n) (hc : Between r.mmPositions c)
    (hcut : ¬ r.CutsItem m c n)
    (h : tryScheduleEncoderInputs C m r c n budget = (inputs', n', budget')) :
    n' = 0 ∨ Between r.mmPositions (c + n') := by
  have hmem : ∀ e ∈ r.mmPositions.zipIdx, e.1 ∈ r.mmPositions := fun e he =>
    List.fst_mem_of_mem_zipIdx he
  have hall : r.mmPositions.zipIdx.map Prod.fst = r.mmPositions := List.zipIdx_map_fst _ _
  unfold tryScheduleEncoderInputs at h
  split_ifs at h with hnone
  · -- without inputs there are no items
    have hnil : r.mmPositions = [] := by
      rcases hnone with hzero | hnone
      · omega
      · simpa [Request.hasEncoderInputs] using hnone
    exact .inr fun pos hpos => by simp [hnil] at hpos
  · have hwhole := encoderInputsLoop_between hchunk hn
      (List.pairwise_map.mp (by rw [hall]; exact hordered)) (fun e he => hc e.1 (hmem e he)) hcut h
    rcases hwhole with hzero | ⟨e, he, hoff⟩ | ⟨rfl, hend⟩
    · exact .inl hzero
    · exact .inr (hoff ▸ hordered.between_offset (hmem e he))
    · refine .inr fun pos hpos => ?_
      rw [← hall] at hpos
      obtain ⟨e, he, rfl⟩ := List.mem_map.mp hpos
      exact hend e he

/-- No tokens on offer: none are left, or as many. -/
theorem tryScheduleEncoderInputs_of_nonpos (hn : n ≤ 0)
    (h : tryScheduleEncoderInputs C m r c n budget = (inputs', n', budget')) :
    n' = 0 ∨ n' = n := by
  have hloop : ∀ (l : List (PlaceholderRange × Nat)) (inputs : List Nat) (budget : Int),
      encoderInputsLoop C m r c l inputs n budget = (inputs', n', budget') → n' = 0 ∨ n' = n := by
    intro l
    induction l with
    | nil =>
      intro inputs budget h
      obtain ⟨-, rfl, -⟩ : inputs = inputs' ∧ n = n' ∧ budget = budget' := by
        simpa [encoderInputsLoop] using h
      exact .inr rfl
    | cons e l ih =>
      intro inputs budget h
      obtain ⟨pos, i⟩ := e
      unfold encoderInputsLoop at h
      split_ifs at h with hneeded hbefore hcached hroll hroom hlt
      · obtain ⟨-, rfl, -⟩ : inputs = inputs' ∧ n = n' ∧ budget = budget' := by simpa using h
        exact .inr rfl
      · exact ih _ _ h
      · exact ih _ _ h
      · -- an item that is needed does not begin behind the first token
        omega
      · omega
      · obtain ⟨-, rfl, -⟩ : inputs = inputs' ∧ 0 = n' ∧ budget = budget' := by simpa using h
        exact .inl rfl
      · exact ih _ _ h
  unfold tryScheduleEncoderInputs at h
  split_ifs at h
  · obtain ⟨-, rfl, -⟩ : [] = inputs' ∧ n = n' ∧ budget = budget' := by simpa using h
    exact .inr rfl
  · exact hloop _ _ _ h

end Loop

/-! ## The computed tokens in a step -/

/-- The request is at a position from which no item is split: its computed tokens end between items, or
the last position of the model has been reached. -/
def Request.Aligned (C : SchedulerConfig) (r : Request) : Prop :=
  r.place = .none ∨ Between r.mmPositions r.numComputedTokens ∨
    (r.place = .running ∧ (C.maxModelLen : Int) - 1 ≤ r.numComputedTokens)

/-- A victim that has been given tokens in this step, which are counted from zero. -/
def Preemption.Realigns (e : Preemption) : Prop :=
  ∀ n ∈ e.pass.numScheduledTokens.get? e.victim,
    Between (e.pass.sched.request e.victim).mmPositions n

instance (e : Preemption) : Decidable e.Realigns := by
  unfold Preemption.Realigns
  infer_instance

/-- **The computed tokens in the middle of a step** that started in `s`. -/
structure Pass.Tracks (C : SchedulerConfig) (s : Scheduler) (p : Pass) : Prop where
  books : p.Books C s
  keeps : s.Keeps p.sched
  uncached : p.sched.kvCacheManager.enableCaching = false
  kept : ∀ id, id ∉ p.preemptedReqs →
    (p.sched.request id).numComputedTokens = (s.request id).numComputedTokens ∧
      ((p.sched.request id).place = .queue → (s.request id).place = .queue)
  reset : ∀ id ∈ p.preemptedReqs, (p.sched.request id).numComputedTokens = 0
  realigned : ∀ id ∈ p.preemptedReqs, ∀ n, p.numScheduledTokens.get? id = some n →
    Between (s.request id).mmPositions n

section Tracks

variable {H : BlockHasher} {C : SchedulerConfig} {E : Environment} {s : Scheduler} {p p' : Pass}
  {rid : ReqId} {L : List Preemption}

theorem Scheduler.Keeps.mmPositions {s s' : Scheduler} (h : s.Keeps s') (id : ReqId) :
    (s'.request id).mmPositions = (s.request id).mmPositions := by
  rcases h.request id with h | ⟨-, h⟩
  · rw [h]
  · exact h.mmPositions

/-- Requests change that have not been preempted, but not what is computed of them. -/
theorem Pass.Tracks.congr (h : p.Tracks C s) (hbooks : p'.Books C s) (hkeeps : s.Keeps p'.sched)
    (huncached : p'.sched.kvCacheManager.enableCaching = false)
    (hpre : p'.preemptedReqs = p.preemptedReqs)
    (hsame : ∀ id ∈ p.preemptedReqs, p'.numScheduledTokens.get? id = p.numScheduledTokens.get? id)
    (hcount : ∀ id, (p'.sched.request id).numComputedTokens = (p.sched.request id).numComputedTokens)
    (hplace : ∀ id, (p'.sched.request id).place = .queue → (p.sched.request id).place = .queue) :
    p'.Tracks C s := by
  refine ⟨hbooks, hkeeps, huncached, fun id hid => ?_, fun id hid => ?_, fun id hid n hn => ?_⟩
  · rw [hpre] at hid
    exact ⟨(hcount id).trans (h.kept id hid).1, fun hq => (h.kept id hid).2 (hplace id hq)⟩
  · rw [hpre] at hid
    exact (hcount id).trans (h.reset id hid)
  · rw [hpre] at hid
    exact h.realigned id hid n (hsame id hid ▸ hn)

/-- **A move**, if the tokens of a victim do not end inside an item. -/
theorem Pass.Tracks.move (hconn : C.hasConnector = false) (h : p.Tracks C s)
    (hm : Pass.MoveIn H C E L p p') (hL : ∀ e ∈ L, e.Realigns) : p'.Tracks C s := by
  have hplaced := h.books.untouched.placed
  have hbooks := h.books.move hm.move
  have hkeeps := h.keeps.trans (hm.move.keeps hplaced)
  obtain ⟨hmove, hvictim⟩ := hm
  cases hmove with
  | passOver => exact h.congr hbooks hkeeps h.uncached rfl (fun _ _ => rfl) (fun _ => rfl) fun _ h => h
  | @preempt rid v k s' hat hpos halloc hv hs =>
    have hp := Scheduler.preempt_ok hs
    obtain ⟨rid', -, hmem⟩ := hvictim v rfl
    have hother : ∀ id, id ≠ v → s'.request id = p.sched.request id := fun id hid => by
      rw [hp.request, if_neg hid]
      rfl
    refine ⟨hbooks, hkeeps, ?_, fun id hid => ?_, fun id hid => ?_, fun id hid n hn => ?_⟩
    · exact (KVCacheManager.actsOn_free hp.kvCacheManager).config.enableCaching.trans
        ((KVCacheManager.keepsHashes_allocateSlots halloc).1.setup.enableCaching.trans h.uncached)
    · rw [mem_append, List.mem_singleton, not_or] at hid
      rw [hother id hid.2]
      exact h.kept id hid.1
    · dsimp only
      by_cases hidv : id = v
      · rw [hp.request, if_pos hidv]
        rfl
      · rw [hother id hidv]
        exact h.reset id ((mem_append.mp hid).resolve_right fun hm =>
          hidv (List.mem_singleton.mp hm))
    · by_cases hidv : id = v
      · subst hidv
        have hbetween := hL _ hmem n hn
        rwa [h.keeps.mmPositions] at hbetween
      · exact h.realigned id ((mem_append.mp hid).resolve_right fun hm =>
          hidv (List.mem_singleton.mp hm)) n hn
  | @scheduleRunning rid blocks k hat hpos halloc =>
    have he := (p.withKV k).scheduleRunning_effect rid
      (p.runningDemand C (p.sched.request rid)) blocks
    have htrim : ∀ (r : Request) n, (r.trimDrafts n).numComputedTokens = r.numComputedTokens ∧
        (r.trimDrafts n).place = r.place := fun r n => by
      unfold Request.trimDrafts
      split <;> exact ⟨rfl, rfl⟩
    refine h.congr hbooks hkeeps ?_ he.preemptedReqs (fun id hid => ?_) (fun id => ?_) fun id => ?_
    · rw [he.kvCacheManager]
      exact (KVCacheManager.keepsHashes_allocateSlots halloc).1.setup.enableCaching.trans h.uncached
    · rw [he.numScheduledTokens, Dict.get?_set, if_neg]
      · rfl
      · -- what has been preempted is not running
        rintro rfl
        exact (h.books.preempted id hid).1 hat.mem
    · rw [request_congr he.objects, request_modify]
      split
      next hid => rw [(htrim _ _).1, hid]; rfl
      next => rfl
    · rw [request_congr he.objects, request_modify]
      split
      next hid => rw [(htrim _ _).2, hid]; exact fun h => h
      next => exact fun h => h
  | recordLoras hl =>
    obtain ⟨loras, rfl⟩ := recordLoras_ok hl
    exact h.congr hbooks hkeeps h.uncached rfl (fun _ _ => rfl) (fun _ => rfl) fun _ h => h
  | @resolveStatus rid ready s' hat hres =>
    rcases resolveStatus_unconnected hconn hres with rfl | ⟨hst, rfl⟩
    · exact h.congr hbooks hkeeps h.uncached rfl (fun _ _ => rfl) (fun _ => rfl) fun _ h => h
    · refine h.congr hbooks hkeeps h.uncached rfl (fun _ _ => rfl) (fun id => ?_) fun id => ?_
      · rw [request_modify]
        split
        next hid => rw [hid]; rfl
        next => rfl
      · rw [request_modify]
        split
        next hid => exact fun _ => by rw [hid, Request.place, hst]; rfl
        next => exact fun h => h
  | skip hat hskip =>
    obtain ⟨e, w, sk, -, -, rfl⟩ := skipWaiting_ok hskip
    exact h.congr hbooks hkeeps h.uncached rfl (fun _ _ => rfl) (fun _ => rfl) fun _ h => h
  | lookUp hat hct =>
    obtain ⟨k, rfl, ⟨-, rfl, -⟩ | ⟨-, blocks, n, hget, -⟩⟩ := getComputedTokens_ok hct
    · exact h.congr hbooks hkeeps h.uncached rfl (fun _ _ => rfl) (fun _ => rfl) fun _ h => h
    · refine h.congr hbooks hkeeps ?_ rfl (fun _ _ => rfl) (fun _ => rfl) fun _ h => h
      exact (KVCacheManager.keepsHashes_getComputedBlocks hget).1.setup.enableCaching.trans h.uncached
  | noSlots hat halloc =>
    refine h.congr hbooks hkeeps ?_ rfl (fun _ _ => rfl) (fun _ => rfl) fun _ h => h
    exact (KVCacheManager.keepsHashes_allocateSlots halloc).1.setup.enableCaching.trans h.uncached
  | park hat hct hd hasync halloc hp =>
    obtain ⟨-, hsync⟩ := getComputedTokens_uncached hconn h.uncached hct
    simp [hasync] at hsync
  | @admitWaiting _ rid ct s₀ d blocks k hat hct hd hasync halloc ha =>
    have he := admit_ok ha
    obtain ⟨hsame, -⟩ := getComputedTokens_uncached hconn h.uncached hct
    have hnone : p.preemptedReqs = [] := hat.unpreempted
    refine h.congr hbooks hkeeps ?_ he.preemptedReqs (fun id hid => ?_) (fun id => ?_) fun id => ?_
    · rw [he.kvCacheManager]
      exact (KVCacheManager.keepsHashes_allocateSlots halloc).1.setup.enableCaching.trans h.uncached
    · simp [hnone] at hid
    · rw [request_congr he.objects, request_modify]
      split
      next hid => rw [hid]; exact hsame
      next => rfl
    · rw [request_congr he.objects, request_modify]
      split
      next hid => exact fun hq => by cases hq
      next => exact fun h => h

end Tracks

/-! ## A step -/

section Step

variable {H : BlockHasher} {C : SchedulerConfig} {E : Environment} {s s' : Scheduler} {p : Pass}
  {g : Grant} {output : SchedulerOutput}

/-- **A grant contains the items that it overlaps**, and ends between items or at the last position of
the model. -/
theorem Grant.Made.whole (h : g.Made C) (hchunk : C.disableChunkedMmInput = true)
    (hitems : g.request.ItemsPlaced) (hexpects : 0 ≤ g.request.numOutputPlaceholders)
    (hcut : ¬ g.request.CutsItem g.pass.sched.encoderCacheManager g.request.numComputedTokens
      (g.offered C))
    (hc : Between g.request.mmPositions g.request.numComputedTokens ∨
      (g.admits = false ∧ (C.maxModelLen : Int) - 1 ≤ g.request.numComputedTokens)) :
    WholeRange g.request.mmPositions g.request.numComputedTokens g.demand.numNewTokens ∧
      (Between g.request.mmPositions (g.request.numComputedTokens + g.demand.numNewTokens) ∨
        (g.admits = false ∧
          (C.maxModelLen : Int) - 1 ≤ g.request.numComputedTokens + g.demand.numNewTokens)) := by
  have hoff : g.admits = false →
      g.offered C = C.numNewTokensRunning g.request g.pass.tokenBudget := fun hadmits => by
    unfold Grant.offered
    rw [if_neg (by simp [hadmits])]
  rcases lt_or_ge 0 (g.offered C) with hn | hn
  · -- the request is not at the last position of the model
    have hbetween : Between g.request.mmPositions g.request.numComputedTokens := by
      refine hc.resolve_right fun ⟨hadmits, hlast⟩ => ?_
      have hlen := (C.numNewTokensRunning_le g.request g.pass.tokenBudget).modelLen
      rw [hoff hadmits] at hn
      omega
    have hend := tryScheduleEncoderInputs_between hchunk hitems.ordered hn hbetween hcut h.asks
    have hend : Between g.request.mmPositions
        (g.request.numComputedTokens + g.demand.numNewTokens) := by
      rcases hend with hzero | hend
      · rw [hzero, add_zero]
        exact hbetween
      · exact hend
    exact ⟨.of_between hbetween hend, .inl hend⟩
  · have hadmits : g.admits = false := by
      by_contra hadmits
      have := h.offers (Bool.eq_true_of_not_eq_false hadmits)
      omega
    rcases tryScheduleEncoderInputs_of_nonpos hn h.asks with hzero | hall
    · rw [hzero, add_zero]
      exact ⟨.of_nonpos le_rfl, hc⟩
    · refine ⟨.of_nonpos (hall ▸ hn), ?_⟩
      rw [hall]
      rw [hoff hadmits] at hn ⊢
      have hb := h.budget
      unfold SchedulerConfig.numNewTokensRunning SchedulerConfig.capPrefill at hn ⊢
      dsimp only at hn ⊢
      -- the bound that is not positive is the one of the tokens or the one of the model
      rcases le_total ((C.maxModelLen : Int) - 1)
          (g.request.numTokensWithSpec + g.request.numOutputPlaceholders) with hle | hle
      · refine .inr ⟨hadmits, ?_⟩
        split_ifs at hn ⊢ <;> omega
      · refine .inl (hitems.between_of_prompt_le ?_)
        have hprompt : g.request.promptTokenIds.length ≤ g.request.numTokensWithSpec := by
          simp [Request.numTokensWithSpec, Request.numTokens, Request.allTokenIds]
          omega
        split_ifs at hn ⊢ <;> omega

/-- **A grant in a step** from aligned requests. -/
theorem grant_whole (hchunk : C.disableChunkedMmInput = true) (hconn : C.hasConnector = false)
    (hplaces : s.Places s.running s.waiting.ids)
    (huncached : s.kvCacheManager.enableCaching = false)
    (hitems : ∀ id, (s.request id).ItemsPlaced)
    (hexpects : ∀ id, 0 ≤ (s.request id).numOutputPlaceholders)
    (haligned : ∀ id, (s.request id).Aligned C)
    (hvictims : ∀ e ∈ s.preemptions H C, e.Realigns)
    (hg : g ∈ s.grants H C E)
    (hcut : ¬ g.request.CutsItem g.pass.sched.encoderCacheManager g.request.numComputedTokens
      (g.offered C)) :
    let r := s.request g.rid
    WholeRange r.mmPositions r.numComputedTokens g.demand.numNewTokens ∧
      (Between r.mmPositions (r.numComputedTokens + g.demand.numNewTokens) ∨
        (g.admits = false ∧
          (C.maxModelLen : Int) - 1 ≤ r.numComputedTokens + g.demand.numNewTokens)) := by
  have hstart : (Pass.start C s).Tracks C s :=
    ⟨Pass.books_start hplaces, .refl s, huncached, fun _ _ => ⟨rfl, fun h => h⟩,
      fun id hid => absurd hid not_mem_nil, fun id hid => absurd hid not_mem_nil⟩
  intro r
  rcases grants_at hplaces.nodupR hstart (fun p p' h hm => h.move hconn hm hvictims) hg with
    ⟨p, rid, htracks, hat, hgrant⟩ | ⟨p, rid, htracks, hat, hgrant⟩
  · -- a running request that is not scheduled yet is as it was
    obtain ⟨hmade, hadmits, hrid, hreq⟩ := runningGrant_made hat hgrant
    obtain ⟨hrunning, hsame⟩ := htracks.books.untouched.untouched rid hat.mem hat.unscheduled
    have hr : g.request = r := by rw [hreq, hsame, ← hrid]
    have hplace := ((hplaces.running rid).mp hrunning).2
    rw [← hr]
    refine hmade.whole hchunk (hr ▸ hitems _) (hr ▸ hexpects _) hcut ?_
    rw [hr]
    rcases haligned g.rid with hnone | hbetween | ⟨-, hlast⟩
    · rw [hrid, hplace] at hnone
      cases hnone
    · exact .inl hbetween
    · exact .inr ⟨hadmits, hlast⟩
  · -- as long as nothing is preempted, the count of a waiting request is as it was
    obtain ⟨hmade, -, hrid, status, hreq⟩ :=
      waitingGrant_made hconn htracks.uncached hat hgrant
    obtain ⟨hcount, hqueue⟩ := htracks.kept rid (by rw [hat.unpreempted]; exact not_mem_nil)
    have hplace := hqueue (htracks.books.untouched.placed.mem_queue hat).2
    have hpos : g.request.mmPositions = r.mmPositions := by
      rw [hreq]
      exact (htracks.keeps.mmPositions rid).trans (by rw [← hrid])
    have hnum : g.request.numComputedTokens = r.numComputedTokens := by
      rw [hreq]
      exact hcount.trans (by rw [← hrid])
    have hall : g.request.ItemsPlaced ∧ 0 ≤ g.request.numOutputPlaceholders := by
      rw [hreq]
      rcases htracks.keeps.request rid with hkeeps | ⟨-, hkeeps⟩
      · exact ⟨(hitems rid).congr (by rw [hkeeps]; rfl) (by rw [hkeeps]; rfl),
          by rw [hkeeps]; exact hexpects rid⟩
      · exact ⟨(hitems rid).congr hkeeps.mmPositions hkeeps.promptTokenIds,
          hkeeps.numOutputPlaceholders ▸ hexpects rid⟩
    rw [← hpos, ← hnum]
    refine hmade.whole hchunk hall.1 hall.2 hcut (.inl ?_)
    rw [hpos, hnum]
    rcases haligned g.rid with hnone | hbetween | ⟨hrunning, -⟩
    · rw [hrid, hplace] at hnone
      cases hnone
    · exact hbetween
    · rw [hrid, hplace] at hrunning
      cases hrunning

/-- **A step from aligned requests** splits no item and leaves the requests aligned, if no grant ends
inside an item and no victim's tokens do. -/
theorem schedule_aligned (hchunk : C.disableChunkedMmInput = true) (hconn : C.hasConnector = false)
    (hplaces : s.Places s.running s.waiting.ids)
    (huncached : s.kvCacheManager.enableCaching = false)
    (hitems : ∀ id, (s.request id).ItemsPlaced)
    (hexpects : ∀ id, 0 ≤ (s.request id).numOutputPlaceholders)
    (haligned : ∀ id, (s.request id).Aligned C)
    (hvictims : ∀ e ∈ s.preemptions H C, e.Realigns)
    (hcut : ∀ g ∈ s.grants H C E, ¬ g.request.CutsItem g.pass.sched.encoderCacheManager
      g.request.numComputedTokens (g.offered C))
    (h : s.schedule H C E = .ok (output, s')) :
    (∀ id n, output.numScheduledTokens.get? id = some n →
      WholeRange (s.request id).mmPositions (s.request id).numComputedTokens n) ∧
      ∀ id, (s'.request id).Aligned C := by
  obtain ⟨p, hsch⟩ := schedule_ok h
  obtain ⟨common, rfl⟩ := hsch.output
  have hstart : (Pass.start C s).Tracks C s :=
    ⟨Pass.books_start hplaces, .refl s, huncached, fun _ _ => ⟨rfl, fun h => h⟩,
      fun id hid => absurd hid not_mem_nil, fun id hid => absurd hid not_mem_nil⟩
  have hgranted : ∀ id n, p.numScheduledTokens.get? id = some n → ∃ g ∈ s.grants H C E,
      g.rid = id ∧ g.demand.numNewTokens = n := fun id n hn =>
    granted_of_scheduled hplaces hsch.pass hn
  have hwhole := fun g hg => grant_whole hchunk hconn hplaces huncached hitems hexpects haligned
    hvictims hg (hcut g hg)
  constructor
  · intro id n hn
    obtain ⟨g, hg, rfl, rfl⟩ := hgranted id n hn
    exact (hwhole g hg).1
  · intro id
    obtain ⟨p₁, htracks, hrestore⟩ := schedulePass_invariant hplaces.nodupR hsch.pass hstart
      fun p p' h hm => h.move hconn hm hvictims
    obtain ⟨w, rfl, -⟩ := restoreSkipped_ok hrestore
    obtain ⟨m, hreq, -⟩ := hsch.advances.request id
    have hplaced := htracks.books.untouched.placed
    have hpos := htracks.keeps.mmPositions id
    change (s'.request id) = ((p₁.sched.request id).advanced
      (p₁.numScheduledTokens.getD id 0)).addPlaceholders m at hreq
    suffices haligned' : (p₁.sched.request id).place = .none ∨
        Between (s.request id).mmPositions
          ((p₁.sched.request id).numComputedTokens + p₁.numScheduledTokens.getD id 0) ∨
        ((p₁.sched.request id).place = .running ∧ (C.maxModelLen : Int) - 1 ≤
          (p₁.sched.request id).numComputedTokens + p₁.numScheduledTokens.getD id 0) by
      rw [hreq]
      rw [← hpos] at haligned'
      exact haligned'
    by_cases hpre : id ∈ p₁.preemptedReqs
    · -- what it has been given is counted from zero
      rw [htracks.reset id hpre, zero_add]
      refine .inr (.inl ?_)
      cases hn : p₁.numScheduledTokens.get? id with
      | none =>
        rw [Dict.getD_of_none hn]
        exact between_of_nonpos le_rfl
      | some n =>
        rw [Dict.getD_of_get? hn]
        exact htracks.realigned id hpre n hn
    obtain ⟨hcount, hqueue⟩ := htracks.kept id hpre
    cases hn : p₁.numScheduledTokens.get? id with
    | some n =>
      rw [Dict.getD_of_get? hn, hcount]
      obtain ⟨g, hg, rfl, rfl⟩ := hgranted id n hn
      refine .inr ((hwhole g hg).2.imp_right fun hlast => ⟨?_, hlast.2⟩)
      have hrunning := (htracks.books.scheduled g.rid (Dict.mem_of_get? hn)).resolve_right hpre
      exact ((hplaced.running g.rid).mp hrunning).2
    | none =>
      rw [Dict.getD_of_none hn, add_zero, hcount]
      -- a running request that is not scheduled is as it was
      cases hplace : (p₁.sched.request id).place with
      | none => exact .inl rfl
      | queue =>
        rcases haligned id with hnone | hbetween | ⟨hrunning, -⟩
        · rw [hqueue hplace] at hnone
          cases hnone
        · exact .inr (.inl hbetween)
        · rw [hqueue hplace] at hrunning
          cases hrunning
      | running =>
        have hsame : p₁.sched.request id = s.request id := by
          rcases htracks.keeps.request id with hkeeps | ⟨hobj, -⟩
          · exact hkeeps
          · refine (htracks.books.untouched.untouched id ?_ fun hmem => ?_).2
            · exact (hplaced.running id).mpr ⟨(htracks.keeps.mem_objects id).mpr hobj, hplace⟩
            · obtain ⟨n, hsome⟩ := Dict.mem_iff_get?.mp hmem
              simp [hn] at hsome
        rcases haligned id with hnone | hbetween | ⟨-, hlast⟩
        · rw [← hsame, hplace] at hnone
          cases hnone
        · exact .inr (.inl hbetween)
        · exact .inr (.inr ⟨rfl, hlast⟩)

end Step

/-! ## Runs -/

/-- **The drafts that a result rejects** do not take the count into an item. -/
def Request.RejectsWhole (r : Request) (drafts : List TokenId) (generated : List TokenId) : Prop :=
  (r.rejectDrafts drafts generated).numComputedTokens = r.numComputedTokens ∨
    Between r.mmPositions (r.rejectDrafts drafts generated).numComputedTokens

instance (r : Request) (drafts generated : List TokenId) :
    Decidable (r.RejectsWhole drafts generated) := by
  unfold Request.RejectsWhole
  infer_instance

/-- A result of the step of the output leaves the requests that are still there whole. -/
def Scheduler.ReturnsWhole (s : Scheduler) (output : SchedulerOutput) (m : ModelRunnerOutput) :
    Prop :=
  ∀ id ∈ output.numScheduledTokens.keys, id ∈ s.requests →
    ∀ index ∈ m.reqIdToIndex.get? id, ∀ generated ∈ (m.generated index).toOption,
      (s.request id).RejectsWhole (output.scheduledSpecDecodeTokens.getD id []) generated

/-- **The condition on the calls.** No grant ends inside an item that is not rolled back, and no
preempted request has been given tokens whose number is a position inside an item. A result does not
take a count into an item. -/
def SplitsNoItem (H : BlockHasher) (C : SchedulerConfig) (s : Engine) : EngineOp → Prop
  | .schedule E =>
    (∀ g ∈ s.sched.grants H C E, ¬ g.request.CutsItem g.pass.sched.encoderCacheManager
      g.request.numComputedTokens (g.offered C)) ∧ ∀ e ∈ s.sched.preemptions H C, e.Realigns
  | .updateFromOutput _ m => ∀ output ∈ s.inFlight.head?, s.sched.ReturnsWhole output m
  | _ => True

instance (H : BlockHasher) (C : SchedulerConfig) (s : Engine) (op : EngineOp) :
    Decidable (SplitsNoItem H C s op) := by
  refine op.casesOn ?_ ?_ ?_ ?_ <;> intros <;> unfold SplitsNoItem <;> unfold Scheduler.ReturnsWhole <;> infer_instance

instance (r : Request) : Decidable r.ItemsPlaced :=
  decidable_of_iff (r.MmOrdered ∧ ∀ pos ∈ r.mmPositions, pos.stop ≤ r.promptTokenIds.length)
    ⟨fun h => ⟨h.1, h.2⟩, fun h => ⟨h.ordered, h.inPrompt⟩⟩

/-- A request arrives with its items in order in the prompt. -/
def PlacesItems : EngineOp → Prop
  | .addRequest r => r.ItemsPlaced
  | _ => True

instance (op : EngineOp) : Decidable (PlacesItems op) := by
  refine op.casesOn ?_ ?_ ?_ ?_ <;> intros <;> unfold PlacesItems <;> infer_instance

/-- **The invariant**: with prefix caching off, every request is at a position from which no item is
split. -/
structure Engine.Aligned (C : SchedulerConfig) (s : Engine) : Prop where
  placed : s.Placed
  expects : s.ExpectsTokens
  uncached : s.sched.kvCacheManager.enableCaching = false
  items : ∀ id, (s.sched.request id).ItemsPlaced
  aligned : ∀ id, (s.sched.request id).Aligned C

section Runs

variable {H : BlockHasher} {C : SchedulerConfig} {E : Environment} {s s' : Engine} {s₀ : Scheduler}
  {output : SchedulerOutput} {sched : Scheduler}

theorem Request.aligned_rejectDrafts {r : Request} {drafts generated : List TokenId}
    (h : r.Aligned C) (hwhole : r.RejectsWhole drafts generated) :
    (r.rejectDrafts drafts generated).Aligned C := by
  have hplace := (r.place_rejectDrafts drafts generated).2
  have hpos : (r.rejectDrafts drafts generated).mmPositions = r.mmPositions := by
    unfold Request.rejectDrafts
    split <;> rfl
  unfold Request.Aligned at h ⊢
  rw [hplace, hpos]
  rcases hwhole with hcount | hbetween
  · rwa [hcount]
  · exact .inr (.inl hbetween)

/-- The tokens of a result do not move the count. -/
theorem Request.TakesTokens.aligned {r r' : Request} {generated appended : List TokenId}
    {stopped : Bool} (h : r.TakesTokens C generated appended stopped r') (hr : r.Aligned C) :
    r'.Aligned C := by
  cases stopped with
  | true => exact .inl (Request.place_of_finished (h.finished rfl))
  | false =>
    have hplace : r'.place = r.place := congrArg RequestStatus.place (h.status rfl)
    unfold Request.Aligned at hr ⊢
    rwa [hplace, h.mmPositions, h.numComputedTokens]

/-- In the middle of the loop over the results: the requests to come are as they were. -/
structure UpdatePass.Realigns (C : SchedulerConfig) (s : Scheduler) (rest : List (ReqId × Int))
    (u : UpdatePass) : Prop where
  nodup : (rest.map Prod.fst).Nodup
  requests : ∀ id ∈ u.sched.requests, id ∈ s.requests
  before : ∀ id ∈ rest.map Prod.fst, u.sched.request id = s.request id
  aligned : ∀ id, (u.sched.request id).Aligned C

theorem UpdatePass.Realigns.updateRequest {s : Scheduler} {m : ModelRunnerOutput} {e : ReqId × Int}
    {rest : List (ReqId × Int)} {u u' : UpdatePass} (h : u.Realigns C s (e :: rest))
    (hwhole : s.ReturnsWhole output m) (hkey : e.1 ∈ output.numScheduledTokens.keys)
    (hstep : UpdatePass.updateRequest H C E output m e u = .ok u') : u'.Realigns C s rest := by
  obtain ⟨hnot, hnd⟩ := List.nodup_cons.mp h.nodup
  obtain ⟨-, ⟨-, rfl⟩ | ⟨hmem, index, generated, appended, stopped, hindex, hgen, ha⟩⟩ :=
    updateRequest_ok hstep
  · exact ⟨hnd, h.requests, fun id hid => h.before id (mem_cons_of_mem _ hid), h.aligned⟩
  · refine ⟨hnd, fun id hid => h.requests id (ha.records.kept hid).1, fun id hid => ?_, fun id => ?_⟩
    · rw [ha.others id fun heq => hnot (heq ▸ hid)]
      exact h.before id (mem_cons_of_mem _ hid)
    · by_cases hid : id = e.1
      · subst hid
        refine ha.request.aligned (Request.aligned_rejectDrafts (h.aligned e.1) ?_)
        rw [h.before e.1 mem_cons_self]
        exact hwhole e.1 hkey (h.requests e.1 hmem) index hindex generated
          (toOption_eq_some.mpr hgen)
      · rw [ha.others id hid]
        exact h.aligned id

theorem updateFromOutput_aligned {s s' : Scheduler} {m : ModelRunnerOutput}
    {ecos : Dict Nat EngineCoreOutputs} (h : ∀ id, (s.request id).Aligned C)
    (hwhole : s.ReturnsWhole output m)
    (hup : s.updateFromOutput H C E output m = .ok (ecos, s')) (id : ReqId) :
    (s'.request id).Aligned C := by
  obtain ⟨u, hu, -⟩ := updateFromOutput_ok hup
  have hstart : UpdatePass.Realigns C s output.numScheduledTokens.entries { sched := s } :=
    ⟨output.numScheduledTokens.nodup, fun _ hid => hid, fun _ _ => rfl, h⟩
  have hend := threadM_invariant (I := fun rest (u : UpdatePass) =>
      (∀ e ∈ rest, e.1 ∈ output.numScheduledTokens.keys) ∧ u.Realigns C s rest)
    (fun e rest u u' hI hstep => ⟨fun e' he' => hI.1 e' (mem_cons_of_mem _ he'),
      hI.2.updateRequest hwhole (hI.1 e mem_cons_self) hstep⟩)
    ⟨fun e he => Dict.mem_entries_fst he, hstart⟩ hu.loop
  rw [request_congr hu.objects]
  exact hend.2.aligned id

theorem finishRequests_aligned {s s' : Scheduler} {ids : List ReqId} {status : RequestStatus}
    (hn : s.running.Nodup) (h : ∀ id, (s.request id).Aligned C)
    (hfin : s.finishRequests C E ids status = .ok s') (id : ReqId) : (s'.request id).Aligned C := by
  obtain ⟨hst, valid, -, -, w, -, hloop⟩ := finishRequests_ok hn hfin
  refine threadM_invariant (I := fun _ (s : Scheduler) => ∀ id, (s.request id).Aligned C) ?_
    (by exact h) hloop id
  intro rid rest s s' hI hround id
  rw [request_congr (finishRequest_ok hround).1, request_modify]
  split
  · exact .inl (RequestStatus.place_eq_none.mpr hst)
  · exact hI id

/-- **A call** keeps the requests aligned. -/
theorem Engine.Aligned.step (hchunk : C.disableChunkedMmInput = true)
    (hconn : C.hasConnector = false) (h : s.Aligned C) {op : EngineOp} (hfresh : FreshIds s op)
    (hplaces : PlacesItems op) (hsplits : SplitsNoItem H C s op)
    (hstep : s.step H C op = .ok s') : s'.Aligned C := by
  have huncached : s'.sched.kvCacheManager.enableCaching = false :=
    (Engine.sameSetup_step h.placed.places.nodupR hstep).enableCaching.trans h.uncached
  have hplaced := h.placed.step hfresh hstep
  have hexpects := h.expects.step h.placed hstep
  suffices hall : (∀ id, (s'.sched.request id).ItemsPlaced) ∧
      ∀ id, (s'.sched.request id).Aligned C from
    ⟨hplaced, hexpects, huncached, hall.1, hall.2⟩
  cases Engine.step_cases hstep with
  | addRequest hadd =>
    have hreq := (addRequest_ok hadd).request
    refine ⟨fun id => ?_, fun id => ?_⟩
    · rw [hreq]
      split
      · exact ⟨hplaces.ordered, hplaces.inPrompt⟩
      · exact h.items id
    · rw [hreq]
      split
      · exact .inr (.inl (between_of_nonpos le_rfl))
      · exact h.aligned id
  | schedule hsched =>
    obtain ⟨-, -, -, hreq⟩ := schedule_places h.placed.places h.placed.accounts.mem_objects hsched
    exact ⟨fun id => (h.items id).congr (hreq id).mmPositions (hreq id).promptTokenIds,
      (schedule_aligned hchunk hconn h.placed.places h.uncached h.items h.expects h.aligned
        hsplits.2 hsplits.1 hsched).2⟩
  | @updateFromOutput _ _ output _ _ _ hin hup =>
    have hsame := (updateFromOutput_sameInputs hup).1
    exact ⟨fun id => (h.items id).congr (hsame id).mmPositions (hsame id).promptTokenIds,
      updateFromOutput_aligned h.aligned (hsplits output (by rw [hin]; rfl)) hup⟩
  | finishRequests hfin =>
    have hn := h.placed.places.nodupR
    have hsame := (finishRequests_sameInputs hn hfin).1
    exact ⟨fun id => (h.items id).congr (hsame id).mmPositions (hsame id).promptTokenIds,
      finishRequests_aligned hn h.aligned hfin⟩

theorem Scheduler.init_enableCaching (h : Scheduler.init C = .ok s₀)
    (hcaching : C.enablePrefixCaching = false) : s₀.kvCacheManager.enableCaching = false := by
  have hk := (Scheduler.init_manager h).2
  obtain ⟨_, -, hk⟩ := bind_eq_ok.mp hk
  obtain ⟨kind, -, hk⟩ := bind_eq_ok.mp hk
  obtain ⟨pool, -, hk⟩ := bind_eq_ok.mp hk
  rw [← pure_eq_ok.mp hk, hcaching]
  rfl

theorem Engine.aligned_init (h : Scheduler.init C = .ok s₀)
    (hcaching : C.enablePrefixCaching = false) : Engine.Aligned C { sched := s₀ } := by
  have huncached := Scheduler.init_enableCaching h hcaching
  have hplaced := Engine.placed_init h
  obtain ⟨_, -, h₁⟩ := bind_eq_ok.mp h
  obtain ⟨k, -, h₂⟩ := bind_eq_ok.mp h₁
  cases h₂
  exact ⟨hplaced, fun _ => le_rfl, huncached, fun _ => ⟨List.Pairwise.nil, fun _ h => nomatch h⟩,
    fun _ => .inr (.inl (between_of_nonpos le_rfl))⟩

/-- **Items stay whole.** With chunked multi-modal input disabled, no connector and prefix caching off, the
tokens that a step of a run schedules for a request contain every item that they overlap, if the calls of
the run split no item, and this step does not. -/
theorem itemsWhole_of_reach (hchunk : C.disableChunkedMmInput = true)
    (hconn : C.hasConnector = false) (hcaching : C.enablePrefixCaching = false)
    (hinit : Scheduler.init C = .ok s₀)
    (hs : (engineMachine H C s₀).Reach
      (fun s op => FreshIds s op ∧ PlacesItems op ∧ SplitsNoItem H C s op) s)
    (hstep : SplitsNoItem H C s (.schedule E))
    (hsched : s.sched.schedule H C E = .ok (output, sched)) (id : ReqId) (n : Int)
    (hn : output.numScheduledTokens.get? id = some n) :
    WholeRange (s.sched.request id).mmPositions (s.sched.request id).numComputedTokens n := by
  have h := hs.invariant (I := Engine.Aligned C) (Engine.aligned_init hinit hcaching)
    fun _ _ _ hI hok hstep => hI.step hchunk hconn hok.1 hok.2.1 hok.2.2 hstep
  exact (schedule_aligned hchunk hconn h.placed.places h.uncached h.items h.expects h.aligned hstep.2
    hstep.1 hsched).1 id n hn

/-- A configuration for items of up to eight tokens, that are not to be split. -/
def unchunkedConfig (maxNumScheduledTokens : Nat) : SchedulerConfig :=
  { pairConfig 20 32 with
    maxNumScheduledTokens
    disableChunkedMmInput := true
    enablePrefixCaching := false
    maxNumEncoderInputTokens := 8
    encoderCacheSize := 8 }

/-- **An item behind five tokens**: the first step takes only the five, the second one the item. -/
theorem itemsWhole_rolledBack :
    ∃ s₀ s output sched, Scheduler.init (unchunkedConfig 6) = .ok s₀ ∧
      (engineMachine .encoding (unchunkedConfig 6) s₀).Reach
        (fun s op => FreshIds s op ∧ PlacesItems op ∧
          SplitsNoItem .encoding (unchunkedConfig 6) s op) s ∧
      (s.sched.request 1).numComputedTokens = 5 ∧
      s.sched.schedule .encoding (unchunkedConfig 6) {} = .ok (output, sched) ∧
      output.numScheduledTokens.get? 1 = some 6 ∧
      WholeRange (s.sched.request 1).mmPositions (s.sched.request 1).numComputedTokens 6 := by
  let C := unchunkedConfig 6
  have hrun : (runEngine .encoding C (fun s op => FreshIds s op ∧ PlacesItems op ∧
      SplitsNoItem .encoding C s op)
      [.addRequest (mmRequest 1 (List.range 13) [(5, 3)]), .schedule {}]).any (fun s =>
        decide ((s.sched.request 1).numComputedTokens = 5 ∧ SplitsNoItem .encoding C s (.schedule {}))
        && (s.sched.schedule .encoding C {}).toOption.any fun r =>
          decide (r.1.numScheduledTokens.get? 1 = some 6)) = true := by
    decide +kernel
  obtain ⟨s, hs, h⟩ := Option.any_eq_true .. |>.mp hrun
  obtain ⟨hstate, hcall⟩ := Bool.and_eq_true _ _ ▸ h
  obtain ⟨hcount, hsplits⟩ := of_decide_eq_true hstate
  obtain ⟨s₀, hinit, hreach⟩ := reach_runEngine hs
  cases hsched : s.sched.schedule .encoding C {} with
  | error e => simp [hsched, Except.toOption] at hcall
  | ok res =>
    obtain ⟨output, sched⟩ := res
    rw [hsched] at hcall
    have hn := of_decide_eq_true hcall
    exact ⟨s₀, s, output, sched, hinit, hreach, hcount, hsched, hn,
      itemsWhole_of_reach rfl rfl rfl hinit hreach hsplits hsched 1 6 hn⟩

/-- **An item that begins where the last step ended** fits into a step. But the other request takes one
token of the budget, so that the step ends before the last token of the item. -/
theorem not_itemsWhole_firstToken :
    ∃ s₀ s output sched, Scheduler.init (unchunkedConfig 8) = .ok s₀ ∧
      (engineMachine .encoding (unchunkedConfig 8) s₀).Reach
        (fun s op => FreshIds s op ∧ PlacesItems op) s ∧
      s.sched.schedule .encoding (unchunkedConfig 8) {} = .ok (output, sched) ∧
      output.numScheduledTokens.get? 2 = some 7 ∧
      ¬ WholeRange (s.sched.request 2).mmPositions (s.sched.request 2).numComputedTokens 7 := by
  let C := unchunkedConfig 8
  have hrun : (runEngine .encoding C (fun s op => FreshIds s op ∧ PlacesItems op)
      [.addRequest (textRequest 1 (List.range 12)),
       .addRequest (mmRequest 2 (List.range 13) [(4, 8)]), .schedule {}, .schedule {},
       .updateFromOutput {} (sampled [(1, [])]),
       .updateFromOutput {} (sampled [(1, [7]), (2, [])])]).any (fun s =>
        decide ((s.sched.request 2).mmPositions = [⟨4, 8⟩] ∧
          (s.sched.request 2).numComputedTokens = 4)
        && (s.sched.schedule .encoding C {}).toOption.any fun r =>
          decide (r.1.numScheduledTokens.get? 2 = some 7)) = true := by
    decide +kernel
  obtain ⟨s, hs, h⟩ := Option.any_eq_true .. |>.mp hrun
  obtain ⟨hstate, hcall⟩ := Bool.and_eq_true _ _ ▸ h
  obtain ⟨hpos, hcount⟩ := of_decide_eq_true hstate
  obtain ⟨s₀, hinit, hreach⟩ := reach_runEngine hs
  cases hsched : s.sched.schedule .encoding C {} with
  | error e => simp [hsched, Except.toOption] at hcall
  | ok res =>
    obtain ⟨output, sched⟩ := res
    rw [hsched] at hcall
    refine ⟨s₀, s, output, sched, hinit, hreach, hsched, of_decide_eq_true hcall, fun h => ?_⟩
    rw [hpos, hcount] at h
    -- the tokens 4 to 10 are scheduled of the item of the tokens 4 to 11
    have hstop := (h ⟨4, 8⟩ List.mem_cons_self ⟨4, by decide⟩).2
    exact absurd hstop (by decide)

end Runs

end InferenceServer
