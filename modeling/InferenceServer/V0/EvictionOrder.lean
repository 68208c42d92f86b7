import InferenceServer.V0.Blocks
import InferenceServer.Lib.HeapOrder
import InferenceServer.Lib.Run
import Mathlib.Data.Prod.Lex

/-!
# In what order the evictor evicts

`evict` takes the least entry of the heap that passes for the one of the table. This is the entry of the
least row if every row has its entry in the heap and no other entry passes. `remove` and `update` leave
the heap as it is, so that both can fail. After an `update` with a new time the row has no entry any
more, and `evict` may find the heap empty while there are rows. After a `remove` the old entry is still
there, and it passes again if the id comes back with the time it had before.

An evictor in which both hold evicts what its table says, whatever else is in the heap. So it does not
matter whether outdated entries have been cleared away. To say this of whole runs, the operations are
performed on two evictors side by side, one of which never makes its heap anew.
-/

namespace InferenceServer.V0

open Outcome

/-- The tuple by which entries are compared. -/
def EvictorEntry.key (e : EvictorEntry) : Int ×ₗ Int ×ₗ BlockId ×ₗ Hash :=
  toLex (e.lastAccessed, toLex (e.negNumHashedTokens, toLex (e.blockId, e.contentHash)))

theorem EvictorEntry.key_injective : Function.Injective EvictorEntry.key := by
  rintro ⟨t, n, id, h⟩ ⟨t', n', id', h'⟩ heq
  simpa [EvictorEntry.key] using heq

theorem EvictorEntry.compares (l : List EvictorEntry) :
    Heapq.Compares EvictorEntry.compare EvictorEntry.key l := by
  intro a _ b _
  unfold compare
  congr 1
  rw [EvictorEntry.lt, decide_eq_decide]
  simp only [key, Prod.Lex.toLex_lt_toLex]

/-- Entries that are in order have their times and their numbers of tokens in order. -/
theorem EvictorEntry.of_key_le {a b : EvictorEntry} (h : a.key ≤ b.key) :
    a.lastAccessed ≤ b.lastAccessed ∧
      (a.lastAccessed = b.lastAccessed → a.negNumHashedTokens ≤ b.negNumHashedTokens) := by
  simp only [key, Prod.Lex.toLex_le_toLex] at h
  omega

namespace LRUEvictor

variable {e e' : LRUEvictor} {id : BlockId} {m : BlockMetaData}

/-! ## Sound evictors -/

/-- Each id of the table has its entry in the heap. -/
def Current (e : LRUEvictor) : Prop :=
  ∀ (id : BlockId) (m : BlockMetaData), e.freeTable.get? id = some m → m.entry id ∈ e.priorityQueue

/-- What is left of the evictor without an id. -/
theorem Current.erase (hcur : e.Current) (id : BlockId) :
    Current { e with freeTable := e.freeTable.erase id } := fun j mj hj => by
  rw [Dict.get?_erase] at hj
  split_ifs at hj
  exact hcur j mj hj

/-- Every entry that passes for the one of the table is the one of the table. -/
def PassesOwn (e : LRUEvictor) : Prop :=
  ∀ en ∈ e.priorityQueue, ∀ m ∈ e.freeTable.get? en.blockId,
    m.lastAccessed = en.lastAccessed → en = m.entry en.blockId

structure Sound (e : LRUEvictor) : Prop where
  current : e.Current
  passesOwn : e.PassesOwn
  order : Heapq.HeapFrom EvictorEntry.key 0 e.priorityQueue

/-- The row is in the table, no row has an earlier time, and none of those with the same time has more
tokens. -/
structure LeastRow (e : LRUEvictor) (id : BlockId) (m : BlockMetaData) : Prop where
  row : e.freeTable.get? id = some m
  lastAccessed : ∀ (j : BlockId) (mj : BlockMetaData), e.freeTable.get? j = some mj →
    m.lastAccessed ≤ mj.lastAccessed
  numHashedTokens : ∀ (j : BlockId) (mj : BlockMetaData), e.freeTable.get? j = some mj →
    mj.lastAccessed = m.lastAccessed → mj.numHashedTokens ≤ m.numHashedTokens

/-- The entry of the row is the least entry of a row. -/
def LeastEntry (e : LRUEvictor) (id : BlockId) (m : BlockMetaData) : Prop :=
  e.freeTable.get? id = some m ∧ ∀ (j : BlockId) (mj : BlockMetaData),
    e.freeTable.get? j = some mj → (m.entry id).key ≤ (mj.entry j).key

theorem LeastEntry.leastRow (h : e.LeastEntry id m) : e.LeastRow id m := by
  obtain ⟨hrow, hle⟩ := h
  refine ⟨hrow, fun j mj hj => (EvictorEntry.of_key_le (hle j mj hj)).1, fun j mj hj htime => ?_⟩
  have := (EvictorEntry.of_key_le (hle j mj hj)).2 htime.symm
  simp only [BlockMetaData.entry] at this
  omega

/-- The least entry is determined by the table. -/
theorem LeastEntry.unique {id' : BlockId} {m' : BlockMetaData} (h : e.LeastEntry id m)
    (h' : e'.LeastEntry id' m') (htable : e.freeTable = e'.freeTable) :
    id = id' ∧ m.contentHash = m'.contentHash := by
  have hle := h.2 id' m' (htable ▸ h'.1)
  have hge := h'.2 id m (htable ▸ h.1)
  have hentry := EvictorEntry.key_injective (le_antisymm hle hge)
  exact ⟨congrArg EvictorEntry.blockId hentry, congrArg EvictorEntry.contentHash hentry⟩

/-- With fewer entries and fewer rows, no other entry passes if none does here. -/
theorem PassesOwn.mono (h : e.PassesOwn) (hqueue : ∀ en ∈ e'.priorityQueue, en ∈ e.priorityQueue)
    (htable : ∀ (id : BlockId) (m : BlockMetaData), e'.freeTable.get? id = some m →
      e.freeTable.get? id = some m) : e'.PassesOwn :=
  fun en hen m hm => h en (hqueue en hen) m (htable en.blockId m hm)

theorem evictLoop_sound {fuel : Nat} (he : e.Sound) (hid : e.freeTable.get? id = some m)
    (hfuel : e.priorityQueue.length < fuel) :
    ∃ j mj e', e.evictLoop fuel = .ok ((j, mj.contentHash), e') ∧ e.LeastEntry j mj ∧
      e'.freeTable = e.freeTable.erase j ∧ e'.Sound := by
  induction fuel generalizing e with
  | zero => omega
  | succ fuel ih =>
    have hne : e.priorityQueue ≠ [] := List.ne_nil_of_mem (he.current id m hid)
    obtain ⟨en, queue, hpop, horder, hperm, hleast⟩ :=
      Heapq.heappop_spec (EvictorEntry.compares _) he.order hne
    have hsub : ∀ x ∈ queue, x ∈ e.priorityQueue := fun x hx =>
      hperm.mem_iff.mpr (List.mem_cons_of_mem _ hx)
    have hen : en ∈ e.priorityQueue := hperm.mem_iff.mpr List.mem_cons_self
    -- the entry of a row that is not the one popped stays in the heap
    have hstay : ∀ (j : BlockId) (mj : BlockMetaData), e.freeTable.get? j = some mj →
        mj.entry j ≠ en → mj.entry j ∈ queue := fun j mj hj hne' =>
      (List.mem_cons.mp (hperm.mem_iff.mp (he.current j mj hj))).resolve_left hne'
    unfold evictLoop
    rw [hpop]
    by_cases hpass : (e.freeTable.get? en.blockId).any
        (fun m => m.lastAccessed = en.lastAccessed) = true
    · obtain ⟨mj, hj, htime⟩ := (Option.any_eq_true ..).mp hpass
      have hown := he.passesOwn en hen mj hj (of_decide_eq_true htime)
      have hhash : en.contentHash = mj.contentHash := congrArg EvictorEntry.contentHash hown
      refine ⟨en.blockId, mj, ⟨e.freeTable.erase en.blockId, queue⟩, ?_, ⟨hj, fun i mi hi => ?_⟩,
        rfl, ?_⟩
      · change (if _ then _ else _) = _
        rw [if_pos hpass, ← hhash]
        rfl
      · rw [← hown]
        exact hleast _ (he.current i mi hi)
      · refine ⟨fun i mi hi => ?_, he.passesOwn.mono hsub fun i mi hi => ?_, horder⟩
        · rw [Dict.get?_erase] at hi
          split_ifs at hi with hne'
          exact hstay i mi hi fun heq => hne' (congrArg EvictorEntry.blockId heq)
        · rw [Dict.get?_erase] at hi
          split_ifs at hi
          exact hi
    · -- an outdated entry is dropped, and the rest is sound
      have hsound : Sound { e with priorityQueue := queue } := by
        refine ⟨fun i mi hi => ?_, he.passesOwn.mono hsub fun _ _ hi => hi, horder⟩
        refine hstay i mi hi fun heq => hpass ((Option.any_eq_true ..).mpr ⟨mi, ?_, ?_⟩)
        · rw [← heq]
          exact hi
        · rw [← heq]
          exact decide_eq_true rfl
      have hlen : queue.length < fuel := by
        have := hperm.length_eq
        rw [List.length_cons] at this
        omega
      obtain ⟨j, mj, e', hloop, hev⟩ := ih hsound hid hlen
      refine ⟨j, mj, e', ?_, hev⟩
      change (if _ then _ else _) = _
      rw [if_neg hpass]
      exact hloop

/-- **A sound evictor with rows evicts the least one**, with the hash of the row. -/
theorem Sound.evict (he : e.Sound) (hne : e.numBlocks ≠ 0) :
    ∃ id m e', e.evict = .ok ((id, m.contentHash), e') ∧ e.LeastEntry id m ∧
      e'.freeTable = e.freeTable.erase id ∧ e'.Sound := by
  obtain ⟨id, hmem⟩ := List.exists_mem_of_length_pos (Nat.pos_of_ne_zero hne)
  obtain ⟨m, hid⟩ := Dict.mem_iff_get?.mp (Dict.mem_iff.mpr hmem)
  obtain ⟨j, mj, e', hloop, hev⟩ := evictLoop_sound he hid (Nat.lt_succ_self _)
  exact ⟨j, mj, e', by rw [LRUEvictor.evict, if_neg hne, hloop], hev⟩

/-! ## The other operations -/

/-- `add` with what is done to a long heap as a parameter. -/
def addWith (cleanup : LRUEvictor → Except BlockError LRUEvictor) (e : LRUEvictor) (id : BlockId)
    (m : BlockMetaData) : Except BlockError LRUEvictor := do
  let priorityQueue ← Heapq.heappush EvictorEntry.compare e.priorityQueue (m.entry id)
  cleanup { freeTable := e.freeTable.set id m, priorityQueue }

/-- The heap has no other entry of the id with the time of the row. -/
def Fresh (e : LRUEvictor) (id : BlockId) (m : BlockMetaData) : Prop :=
  ∀ en ∈ e.priorityQueue, en.blockId = id → en.lastAccessed = m.lastAccessed → en = m.entry id

instance : Decidable (e.Fresh id m) := by
  unfold Fresh
  infer_instance

/-- What a cleanup may do: the table stays, and a sound evictor stays sound. -/
def KeepsSound (cleanup : LRUEvictor → Except BlockError LRUEvictor) : Prop :=
  ∀ e : LRUEvictor, e.Sound → ∃ e', cleanup e = .ok e' ∧ e'.freeTable = e.freeTable ∧ e'.Sound

theorem cleanup_keepsSound : KeepsSound cleanup := by
  intro e _
  obtain ⟨queue, hheap, horder⟩ := Heapq.heapify_spec
    (EvictorEntry.compares (e.freeTable.entries.map fun p => p.2.entry p.1))
  have hperm := Heapq.heapify_perm _ hheap
  refine ⟨{ e with priorityQueue := queue }, bind_of_ok hheap, rfl, ?_, ?_, horder⟩
  · intro id m hid
    exact hperm.mem_iff.mpr (List.mem_map.mpr ⟨(id, m), Dict.get?_eq_some_iff.mp hid, rfl⟩)
  · intro en hen m hm _
    obtain ⟨⟨id, m'⟩, hrow, rfl⟩ := List.mem_map.mp (hperm.mem_iff.mp hen)
    obtain rfl : m' = m := Option.some.inj ((Dict.get?_eq_some_iff.mpr hrow).symm.trans hm)
    rfl

theorem cleanupIfNecessary_keepsSound : KeepsSound cleanupIfNecessary := by
  intro e he
  unfold cleanupIfNecessary
  split_ifs
  · exact cleanup_keepsSound e he
  · exact ⟨e, rfl, rfl, he⟩

theorem ok_keepsSound : KeepsSound .ok := fun e he => ⟨e, rfl, rfl, he⟩

/-- `add` of an id whose old entries cannot pass. -/
theorem Sound.addWith {cleanup : LRUEvictor → Except BlockError LRUEvictor} (he : e.Sound)
    (hcleanup : KeepsSound cleanup) (hfresh : e.Fresh id m) :
    ∃ e', e.addWith cleanup id m = .ok e' ∧ e'.freeTable = e.freeTable.set id m ∧ e'.Sound := by
  obtain ⟨queue, hpush, horder⟩ :=
    Heapq.heappush_spec (EvictorEntry.compares (m.entry id :: e.priorityQueue)) he.order
  have hmem : ∀ en, en ∈ queue ↔ en = m.entry id ∨ en ∈ e.priorityQueue := fun en => by
    rw [(Heapq.heappush_perm _ hpush).mem_iff, List.mem_cons]
  have hsound : Sound { freeTable := e.freeTable.set id m, priorityQueue := queue } := by
    refine ⟨fun j mj hj => (hmem _).mpr ?_, fun en hen mj hj htime => ?_, horder⟩
    · rw [Dict.get?_set] at hj
      split_ifs at hj with hjid
      · exact .inl (by rw [hjid, Option.some.inj hj])
      · exact .inr (he.current j mj hj)
    · rw [Dict.get?_set] at hj
      split_ifs at hj with hjid
      · cases hj
        rw [hjid]
        rcases (hmem en).mp hen with rfl | hen
        · rfl
        · exact hfresh en hen hjid htime.symm
      · rcases (hmem en).mp hen with rfl | hen
        · exact absurd rfl hjid
        · exact he.passesOwn en hen mj hj htime
  obtain ⟨e', hok, htable, hsound'⟩ := hcleanup _ hsound
  exact ⟨e', (bind_of_ok hpush).trans hok, htable, hsound'⟩

/-- The evictor without an id. Its entries stay in the heap. -/
theorem Sound.erase (he : e.Sound) (id : BlockId) :
    Sound { e with freeTable := e.freeTable.erase id } := by
  refine ⟨he.current.erase id, he.passesOwn.mono (fun _ hen => hen) fun j mj hj => ?_, he.order⟩
  rw [Dict.get?_erase] at hj
  split_ifs at hj
  exact hj

end LRUEvictor

/-! ## Runs -/

/-- The operations of an evictor. -/
inductive EvictorOp where
  | add (id : BlockId) (m : BlockMetaData)
  | update (id : BlockId) (lastAccessed : Int)
  | remove (id : BlockId)
  | evict
  deriving DecidableEq, Repr

namespace EvictorOp

variable (cleanup : LRUEvictor → Except BlockError LRUEvictor)

/-- The evictor after an operation. One that raises leaves it as it was, but for an `evict` that has
taken every entry from the heap. -/
def apply (e : LRUEvictor) : EvictorOp → LRUEvictor
  | add id m => (e.addWith cleanup id m).toOption.getD e
  | update id lastAccessed => (e.update id lastAccessed).toOption.getD e
  | remove id => (e.remove id).toOption.getD e
  | evict =>
    match e.evict with
    | .ok (_, e') => e'
    | .error _ => if e.numBlocks = 0 then e else { e with priorityQueue := [] }

end EvictorOp

/-- An evictor, one that gets the same calls and never makes its heap anew, and the hash that was given
with the last `add` of each id. -/
structure EvictorRun where
  evictor : LRUEvictor := {}
  neverCleaned : LRUEvictor := {}
  added : BlockId → Option Hash := fun _ => none

/-- All runs of the operations. -/
def evictorMachine : Machine EvictorRun EvictorOp BlockError where
  init := {}
  step s op := .ok {
    evictor := op.apply LRUEvictor.cleanupIfNecessary s.evictor
    neverCleaned := op.apply .ok s.neverCleaned
    added :=
      match op with
      | .add id m => Function.update s.added id (some m.contentHash)
      | _ => s.added }

namespace EvictorOp

/-- Only an id that is not present is added. -/
def Admitted (s : EvictorRun) : EvictorOp → Prop
  | add id _ => id ∉ s.evictor.freeTable
  | _ => True

/-- An id does not come back with the time of an entry that is left of it, unless the entry is the same;
and no time is changed. -/
def Distinct (s : EvictorRun) : EvictorOp → Prop
  | add id m => s.evictor.Fresh id m ∧ s.neverCleaned.Fresh id m
  | update id lastAccessed => ∀ m ∈ s.evictor.freeTable.get? id, m.lastAccessed = lastAccessed
  | _ => True

instance (s : EvictorRun) (op : EvictorOp) : Decidable (op.Admitted s) := by
  cases op <;> unfold Admitted <;> infer_instance

instance (s : EvictorRun) (op : EvictorOp) : Decidable (op.Distinct s) := by
  cases op <;> unfold Distinct <;> infer_instance

end EvictorOp

namespace EvictorRun

/-- What is expected of an evictor: with rows it evicts the least one, with the hash of its last `add`;
and that the heap is made anew at times makes no difference. -/
structure EvictsLeast (s : EvictorRun) : Prop where
  least : s.evictor.numBlocks ≠ 0 → ∃ id h e' m, s.evictor.evict = .ok ((id, h), e') ∧
    s.evictor.LeastRow id m ∧ s.added id = some h
  cleanup : s.neverCleaned.freeTable = s.evictor.freeTable ∧
    s.neverCleaned.evict.map Prod.fst = s.evictor.evict.map Prod.fst

/-- Both evictors are sound and have the same rows, with the hashes that were added last. -/
structure Sound (s : EvictorRun) : Prop where
  evictor : s.evictor.Sound
  neverCleaned : s.neverCleaned.Sound
  table : s.neverCleaned.freeTable = s.evictor.freeTable
  added : ∀ (id : BlockId) (m : BlockMetaData), s.evictor.freeTable.get? id = some m →
    s.added id = some m.contentHash

theorem numBlocks_congr {e e' : LRUEvictor} (h : e.freeTable = e'.freeTable) :
    e.numBlocks = e'.numBlocks := by
  unfold LRUEvictor.numBlocks
  rw [h]

theorem numBlocks_ne_zero {e : LRUEvictor} {id : BlockId} {m : BlockMetaData}
    (h : e.freeTable.get? id = some m) : e.numBlocks ≠ 0 :=
  (List.length_pos_of_mem (Dict.mem_iff.mp (Dict.mem_of_get? h))).ne'

/-- Two sound evictors with the same table evict the same. -/
theorem evict_congr {e e' : LRUEvictor} (he : e.Sound) (he' : e'.Sound)
    (htable : e.freeTable = e'.freeTable) : e.evict.map Prod.fst = e'.evict.map Prod.fst := by
  by_cases hne : e.numBlocks = 0
  · unfold LRUEvictor.evict
    rw [if_pos hne, if_pos (numBlocks_congr htable ▸ hne)]
  · obtain ⟨id, m, _, hevict, hleast, -⟩ := he.evict hne
    obtain ⟨id', m', _, hevict', hleast', -⟩ := he'.evict (numBlocks_congr htable ▸ hne)
    obtain ⟨rfl, hhash⟩ := hleast.unique hleast' htable
    rw [hevict, hevict', hhash]
    rfl

theorem Sound.evictsLeast {s : EvictorRun} (h : s.Sound) : s.EvictsLeast where
  least hne := by
    obtain ⟨id, m, e', hevict, hleast, -⟩ := h.evictor.evict hne
    exact ⟨id, m.contentHash, e', m, hevict, hleast.leastRow, h.added id m hleast.1⟩
  cleanup := ⟨h.table, evict_congr h.neverCleaned h.evictor h.table⟩

end EvictorRun

namespace EvictorOp

variable {e : LRUEvictor} {cleanup : LRUEvictor → Except BlockError LRUEvictor} {id : BlockId}
  {m : BlockMetaData}

/-! What each operation does to a sound evictor. -/

theorem apply_add (he : e.Sound) (hcleanup : LRUEvictor.KeepsSound cleanup) (hfresh : e.Fresh id m) :
    ((add id m).apply cleanup e).freeTable = e.freeTable.set id m ∧
      ((add id m).apply cleanup e).Sound := by
  obtain ⟨e', hadd, htable, hsound⟩ := he.addWith hcleanup hfresh
  have happly : (add id m).apply cleanup e = e' := by
    change (e.addWith cleanup id m).toOption.getD e = e'
    rw [hadd]
    rfl
  rw [happly]
  exact ⟨htable, hsound⟩

/-- The rows after an `update`. -/
def updatedTable (table : Dict BlockId BlockMetaData) (id : BlockId) (lastAccessed : Int) :
    Dict BlockId BlockMetaData :=
  match table.get? id with
  | none => table
  | some m => table.set id { m with lastAccessed }

theorem get?_updatedTable {table : Dict BlockId BlockMetaData} {t : Int}
    (htime : ∀ m ∈ table.get? id, m.lastAccessed = t) (j : BlockId) :
    (updatedTable table id t).get? j = table.get? j := by
  unfold updatedTable
  cases hid : table.get? id with
  | none => rfl
  | some m =>
    obtain rfl := htime m hid
    change (table.set id m).get? j = _
    rw [Dict.get?_set]
    split_ifs with hj
    · rw [hj, hid]
    · rfl

variable (cleanup) in
theorem apply_update {t : Int} (he : e.Sound) (htime : ∀ m ∈ e.freeTable.get? id, m.lastAccessed = t) :
    ((update id t).apply cleanup e).freeTable = updatedTable e.freeTable id t ∧
      ((update id t).apply cleanup e).Sound := by
  have happly : (update id t).apply cleanup e =
      { e with freeTable := updatedTable e.freeTable id t } := by
    change (e.update id t).toOption.getD e = _
    unfold LRUEvictor.update updatedTable
    cases e.freeTable.get? id <;> rfl
  have hrows := get?_updatedTable htime
  rw [happly]
  refine ⟨rfl, fun j mj hj => he.current j mj (hrows j ▸ hj), ?_, he.order⟩
  exact he.passesOwn.mono (fun _ hen => hen) fun j mj hj => hrows j ▸ hj

variable (cleanup id) in
theorem apply_remove (he : e.Sound) :
    ((remove id).apply cleanup e).freeTable = e.freeTable.erase id ∧
      ((remove id).apply cleanup e).Sound := by
  have happly : (remove id).apply cleanup e = { e with freeTable := e.freeTable.erase id } := by
    change (e.remove id).toOption.getD e = _
    unfold LRUEvictor.remove
    split_ifs with hid
    · rfl
    · rw [Dict.erase_of_notMem hid]
      rfl
  rw [happly]
  exact ⟨rfl, he.erase id⟩

variable (cleanup) in
theorem apply_evict (he : e.Sound) :
    (e.numBlocks = 0 ∧ evict.apply cleanup e = e) ∨ ∃ id m, e.LeastEntry id m ∧
      (evict.apply cleanup e).freeTable = e.freeTable.erase id ∧ (evict.apply cleanup e).Sound := by
  by_cases hne : e.numBlocks = 0
  · refine .inl ⟨hne, ?_⟩
    have hevict : e.evict = .error .valueError := if_pos hne
    simp only [apply, hevict, hne, if_true]
  · obtain ⟨id, m, e', hevict, hleast, htable, hsound⟩ := he.evict hne
    have happly : evict.apply cleanup e = e' := by
      simp only [apply, hevict]
    rw [happly]
    exact .inr ⟨id, m, hleast, htable, hsound⟩

end EvictorOp

namespace EvictorRun

open LRUEvictor

variable {s s' : EvictorRun}

/-- Rows that were there before have the hash of their last `add`. -/
theorem Sound.of_rows (h : s.Sound) {e e' : LRUEvictor} (he : e.Sound) (he' : e'.Sound)
    (htable : e'.freeTable = e.freeTable) (hrows : ∀ (id : BlockId) (m : BlockMetaData),
      e.freeTable.get? id = some m → s.evictor.freeTable.get? id = some m) :
    Sound { evictor := e, neverCleaned := e', added := s.added } :=
  ⟨he, he', htable, fun id m hid => h.added id m (hrows id m hid)⟩

/-- **One operation** that keeps entries apart leaves both evictors sound. -/
theorem Sound.step {op : EvictorOp} (h : s.Sound) (hop : op.Distinct s)
    (hstep : evictorMachine.step s op = .ok s') : s'.Sound := by
  cases hstep
  cases op with
  | add id m =>
    obtain ⟨htable, hsound⟩ := EvictorOp.apply_add h.evictor cleanupIfNecessary_keepsSound hop.1
    obtain ⟨htable', hsound'⟩ := EvictorOp.apply_add h.neverCleaned ok_keepsSound hop.2
    refine ⟨hsound, hsound', by rw [htable, htable', h.table], fun j mj hj => ?_⟩
    change Function.update s.added id (some m.contentHash) j = _
    rw [htable, Dict.get?_set] at hj
    split_ifs at hj with hjid
    · rw [hjid, Function.update_self, Option.some.inj hj]
    · rw [Function.update_of_ne hjid]
      exact h.added j mj hj
  | update id t =>
    have htime : ∀ m ∈ s.neverCleaned.freeTable.get? id, m.lastAccessed = t := by
      rw [h.table]
      exact hop
    obtain ⟨htable, hsound⟩ := EvictorOp.apply_update cleanupIfNecessary h.evictor hop
    obtain ⟨htable', hsound'⟩ := EvictorOp.apply_update .ok h.neverCleaned htime
    refine h.of_rows hsound hsound' (by rw [htable, htable', h.table]) fun j mj hj => ?_
    rwa [htable, EvictorOp.get?_updatedTable hop] at hj
  | remove id =>
    obtain ⟨htable, hsound⟩ :=
      EvictorOp.apply_remove cleanupIfNecessary id h.evictor
    obtain ⟨htable', hsound'⟩ := EvictorOp.apply_remove .ok id h.neverCleaned
    refine h.of_rows hsound hsound' (by rw [htable, htable', h.table]) fun j mj hj => ?_
    rw [htable, Dict.get?_erase] at hj
    split_ifs at hj
    exact hj
  | evict =>
    have hblocks := numBlocks_congr h.table
    rcases EvictorOp.apply_evict cleanupIfNecessary h.evictor with
      ⟨hempty, hsame⟩ | ⟨id, m, hleast, htable, hsound⟩ <;>
    rcases EvictorOp.apply_evict .ok h.neverCleaned with
      ⟨hempty', hsame'⟩ | ⟨id', m', hleast', htable', hsound'⟩
    · change Sound ⟨_, _, s.added⟩
      rw [hsame, hsame']
      exact h
    · exact absurd (hblocks.trans hempty) (numBlocks_ne_zero hleast'.1)
    · exact absurd (hblocks.symm.trans hempty') (numBlocks_ne_zero hleast.1)
    · -- both have evicted the least row of the same table
      obtain ⟨rfl, -⟩ := hleast.unique hleast' h.table.symm
      refine h.of_rows hsound hsound' (by rw [htable, htable', h.table]) fun j mj hj => ?_
      rw [htable, Dict.get?_erase] at hj
      split_ifs at hj
      exact hj

theorem sound_init : evictorMachine.init.Sound where
  evictor := ⟨(fun _ _ h => nomatch h), (fun _ h => nomatch h), Heapq.heapFrom_nil⟩
  neverCleaned := ⟨(fun _ _ h => nomatch h), (fun _ h => nomatch h), Heapq.heapFrom_nil⟩
  table := rfl
  added _ _ h := nomatch h

end EvictorRun

/-- **In all runs that keep entries apart**, the evictor evicts the least row with the hash of its last
`add`, and clearing its heap makes no difference. -/
theorem evict_least {s : EvictorRun}
    (h : evictorMachine.Reach (fun s op => op.Admitted s ∧ op.Distinct s) s) : s.EvictsLeast :=
  (h.invariant (I := EvictorRun.Sound) EvictorRun.sound_init
    fun _ _ _ hs hop hstep => hs.step hop.2 hstep).evictsLeast

/-- Two ids with the same time, of which the one with more tokens is evicted, comes back under another
hash and is removed. -/
def reusedIds : List EvictorOp :=
  [.add 1 ⟨7, 16, 3⟩, .add 2 ⟨8, 32, 3⟩, .update 1 3, .evict, .add 2 ⟨9, 16, 4⟩, .remove 1]

theorem evict_least_reusedIds : ∃ s, evictorMachine.Reach
    (fun s op => op.Admitted s ∧ op.Distinct s) s ∧ s.evictor.numBlocks = 1 ∧ s.EvictsLeast := by
  obtain ⟨s, hreach, hblocks⟩ := evictorMachine.exists_reach
    (fun s op => op.Admitted s ∧ op.Distinct s) reusedIds (fun s => s.evictor.numBlocks = 1)
    (by decide +kernel)
  exact ⟨s, hreach, hblocks, evict_least hreach⟩

/-- After an `update` the row has no entry in the heap. After a `remove` the old entry passes when the
id comes back with the same time. -/
theorem evict_not_least :
    (∃ s, evictorMachine.Reach (fun s op => op.Admitted s) s ∧ s.evictor.numBlocks = 1 ∧
      s.evictor.evict.isOk = false ∧ ¬ s.EvictsLeast) ∧
    ∃ s, evictorMachine.Reach (fun s op => op.Admitted s) s ∧
      s.evictor.evict.map Prod.fst = .ok (1, 7) ∧ s.added 1 = some 8 ∧ ¬ s.EvictsLeast := by
  constructor
  · have hrun : (evictorMachine.execIf (fun s op => op.Admitted s)
        [.add 1 ⟨7, 16, 3⟩, .update 1 4] evictorMachine.init).any (fun s =>
          decide (s.evictor.numBlocks = 1 ∧ s.evictor.evict.isOk = false)) = true := by
      decide +kernel
    obtain ⟨s, hs, hfail⟩ := (Option.any_eq_true ..).mp hrun
    obtain ⟨hblocks, hraises⟩ := of_decide_eq_true hfail
    refine ⟨s, Machine.reach_execIf .start hs, hblocks, hraises, fun hleast => ?_⟩
    obtain ⟨id, h, e', m, hevict, -⟩ := hleast.least (by omega)
    rw [hevict] at hraises
    cases hraises
  · obtain ⟨s, hreach, hblocks, hevicts, hadded⟩ := evictorMachine.exists_reach
      (fun s op => op.Admitted s) [.add 1 ⟨7, 16, 3⟩, .remove 1, .add 1 ⟨8, 16, 3⟩]
      (fun s => s.evictor.numBlocks = 1 ∧ (s.evictor.evict.map Prod.fst).toOption = some (1, 7) ∧
        s.added 1 = some 8) (by decide +kernel)
    have hevicts := toOption_eq_some.mp hevicts
    refine ⟨s, hreach, hevicts, hadded, fun hleast => ?_⟩
    obtain ⟨id, h, e', m, hevict, -, hhash⟩ := hleast.least (by omega)
    rw [hevict] at hevicts
    obtain ⟨rfl, rfl⟩ := pair_of_ok hevicts
    exact absurd (hadded.symm.trans hhash) (by decide)

end InferenceServer.V0
