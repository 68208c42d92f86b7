import InferenceServer.Middleware.Database
import InferenceServer.Lib.Run

/-!
# Usage accounting

`async_insert_usage` (`middleware/src/database.py`) hands a function to a worker thread with
`asyncio.to_thread` and waits until the thread has called it. A call of an ordinary function runs its
body. A call of an `async def` function runs nothing: it returns a coroutine object, which would have to
be awaited. The function that is handed over is `async_insert_usage` itself, so that no row is ever
inserted, and nothing is raised.

The machine has the function that is handed over as a parameter: the wrappers of the queries hand over
the query.
-/

namespace InferenceServer.Middleware

open Outcome

/-! ## Calls that are awaited together -/

/-- A function that is handed to a worker thread. -/
inductive HandedOver where
  | insertUsage
  | asyncInsertUsage
  deriving DecidableEq, Repr

/-- The function that `async_insert_usage` hands over. -/
def handedOver : HandedOver := .asyncInsertUsage

/-- How far a call has got. -/
inductive Phase where
  /-- The coroutine has not been started. -/
  | created
  /-- A worker thread has the function and its arguments. -/
  | inThread
  /-- The thread holds `db_lock`. -/
  | locked
  /-- The row is inserted, and the lock is still held. -/
  | inserted
  /-- The function has returned in the thread. -/
  | returned
  /-- The call has been awaited. -/
  | completed
  deriving DecidableEq, Repr

structure Task where
  call : UsageCall
  phase : Phase := .created
  deriving DecidableEq, Repr

structure UsageState where
  db : Database
  /-- The call whose thread holds `db_lock`. -/
  lock : Option Nat := none
  tasks : List Task

/-- A step of the call with the given number. -/
inductive UsageOp where
  | start (i : Nat)
  /-- The thread calls a coroutine function. -/
  | makeCoroutine (i : Nat)
  /-- The thread calls `insert_usage` and gets the lock. -/
  | acquire (i : Nat)
  | execute (i : Nat) (now : Timestamp)
  | release (i : Nat)
  | complete (i : Nat)
  deriving DecidableEq, Repr

inductive UsageError where
  /-- The step cannot be taken now. -/
  | notEnabled
  | database (e : DbError)
  deriving DecidableEq, Repr

namespace UsageState

/-- The call goes from one phase to the next. -/
def move (s : UsageState) (i : Nat) (fromPhase toPhase : Phase) : Except UsageError UsageState :=
  match s.tasks[i]? with
  | none => .error .notEnabled
  | some t =>
    if t.phase = fromPhase then
      .ok { s with tasks := s.tasks.set i { t with phase := toPhase } }
    else .error .notEnabled

/-- The `INSERT` of a call. -/
def insert (s : UsageState) (i : Nat) (now : Timestamp) : Except UsageError UsageState :=
  match s.tasks[i]? with
  | none => .error .notEnabled
  | some t =>
    match s.db.insertUsage now t.call with
    | .ok db => .ok { s with db }
    | .error e => .error (.database e)

end UsageState

/-- All interleavings of the calls. -/
def usageMachine (handed : HandedOver) (db : Database) (calls : List UsageCall) :
    Machine UsageState UsageOp UsageError where
  init := { db, tasks := calls.map fun call => { call } }
  step s
    | .start i => s.move i .created .inThread
    | .makeCoroutine i => do
      require (handed = .asyncInsertUsage) UsageError.notEnabled
      s.move i .inThread .returned
    | .acquire i => do
      require (handed = .insertUsage ∧ s.lock = none) UsageError.notEnabled
      let s ← s.move i .inThread .locked
      return { s with lock := some i }
    | .execute i now => do
      let s ← s.move i .locked .inserted
      s.insert i now
    | .release i => do
      let s ← s.move i .inserted .returned
      return { s with lock := none }
    | .complete i => s.move i .returned .completed

/-- All calls have been awaited. -/
def UsageState.allCompleted (s : UsageState) : Prop := ∀ t ∈ s.tasks, t.phase = .completed

instance (s : UsageState) : Decidable s.allCompleted := by
  unfold UsageState.allCompleted
  infer_instance

/-- The arguments of the call that a row was made for. -/
def AccessLog.isFor (r : AccessLog) (c : UsageCall) : Prop :=
  r.projectId = some c.projectId ∧ r.projectSource = some c.projectSource ∧
    r.tokensIn = c.tokensIn ∧ r.tokensOut = c.tokensOut

/-- The earlier rows are as before, and there is one more for each call, in some order. -/
def Recorded (calls : List UsageCall) (before after : Database) : Prop :=
  ∃ old new order, before.accessLogs = some old ∧ after.accessLogs = some (old ++ new) ∧
    order.Perm calls ∧ List.Forall₂ AccessLog.isFor new order

variable {db : Database} {calls : List UsageCall} {handed : HandedOver} {s s' : UsageState}
  {i : Nat} {p q : Phase}

theorem UsageState.move_eq_ok (h : s.move i p q = .ok s') : ∃ t, s.tasks[i]? = some t ∧ t.phase = p ∧
    s' = { s with tasks := s.tasks.set i { t with phase := q } } := by
  unfold move at h
  cases ht : s.tasks[i]? with
  | none =>
    rw [ht] at h
    cases h
  | some t =>
    simp only [ht] at h
    split_ifs at h with hphase
    exact ⟨t, rfl, hphase, (Except.ok.inj h).symm⟩

/-! ## What is handed over -/

/-- No call gets to the statement, and the database stays as it is. -/
theorem db_unchanged (h : (usageMachine .asyncInsertUsage db calls).Reach (fun _ _ => True) s) :
    s.db = db ∧ ∀ t ∈ s.tasks, t.phase ≠ .locked ∧ t.phase ≠ .inserted := by
  refine h.invariant (I := fun s => s.db = db ∧
    ∀ t ∈ s.tasks, t.phase ≠ .locked ∧ t.phase ≠ .inserted) ⟨rfl, ?_⟩ ?_
  · intro t ht
    obtain ⟨c, -, rfl⟩ := List.mem_map.mp ht
    exact ⟨nofun, nofun⟩
  -- a move to another phase than these two
  have hmove : ∀ {s s' : UsageState} {i p q}, (s.db = db ∧
      ∀ t ∈ s.tasks, t.phase ≠ .locked ∧ t.phase ≠ .inserted) → q ≠ .locked → q ≠ .inserted →
      s.move i p q = .ok s' →
      s'.db = db ∧ ∀ t ∈ s'.tasks, t.phase ≠ .locked ∧ t.phase ≠ .inserted := by
    intro s s' i p q hs hq hq' hok
    obtain ⟨t, -, -, rfl⟩ := UsageState.move_eq_ok hok
    refine ⟨hs.1, fun t' ht' => ?_⟩
    rcases List.mem_or_eq_of_mem_set ht' with ht' | rfl
    · exact hs.2 t' ht'
    · exact ⟨hq, hq'⟩
  intro s op s' hs _ hstep
  cases op with
  | start i => exact hmove (q := .inThread) hs nofun nofun hstep
  | makeCoroutine i =>
    obtain ⟨-, -, hstep⟩ := bind_eq_ok.mp hstep
    exact hmove (q := .returned) hs nofun nofun hstep
  | acquire i =>
    obtain ⟨_, hrequire, -⟩ := bind_eq_ok.mp hstep
    exact absurd (require_eq_ok.mp hrequire).1 nofun
  | execute i now =>
    obtain ⟨_, hlocked, -⟩ := bind_eq_ok.mp hstep
    obtain ⟨t, ht, hphase, -⟩ := UsageState.move_eq_ok hlocked
    exact absurd hphase (hs.2 t (List.mem_of_getElem? ht)).1
  | release i =>
    obtain ⟨_, hinserted, -⟩ := bind_eq_ok.mp hstep
    obtain ⟨t, ht, hphase, -⟩ := UsageState.move_eq_ok hinserted
    exact absurd hphase (hs.2 t (List.mem_of_getElem? ht)).2
  | complete i => exact hmove (q := .completed) hs nofun nofun hstep

/-- **The calls are recorded only if there are none.** -/
theorem async_insert_usage_recorded_iff {old : List AccessLog} (hlogs : db.accessLogs = some old)
    (h : (usageMachine handedOver db calls).Reach (fun _ _ => True) s) :
    Recorded calls db s.db ↔ calls = [] := by
  rw [(db_unchanged h).1]
  constructor
  · rintro ⟨old', new, order, hold, hnew, hperm, hrows⟩
    rw [hold] at hnew
    have hnil : new = [] := List.self_eq_append_right.mp (Option.some.inj hnew)
    have hlength := hrows.length_eq.trans hperm.length_eq
    rw [hnil] at hlength
    exact List.eq_nil_of_length_eq_zero hlength.symm
  · rintro rfl
    exact ⟨old, [], [], hlogs, by rw [List.append_nil, hlogs], .nil, .nil⟩

/-- Two calls that are awaited together. -/
def twoCalls : List UsageCall := [⟨"p", "web", 10, 20⟩, ⟨"p", "web", 3, 4⟩]

/-- A database with a registered project. -/
def registered : Database :=
  { projects := some ["p"], seqAccessLogsId := some 1, accessLogs := some [] }

/-- The two calls, one after the other. -/
def twoCallsRun : List UsageOp :=
  [.start 0, .start 1, .makeCoroutine 1, .makeCoroutine 0, .complete 0, .complete 1]

theorem async_insert_usage_recorded_two :
    ∃ s, (usageMachine handedOver registered twoCalls).Reach (fun _ _ => True) s ∧
      s.allCompleted ∧ (Recorded twoCalls registered s.db ↔ twoCalls = []) := by
  obtain ⟨s, hreach, hdone⟩ := (usageMachine handedOver registered twoCalls).exists_reach
    (fun _ _ => True) twoCallsRun (fun s => s.allCompleted) (by decide +kernel)
  exact ⟨s, hreach, hdone, async_insert_usage_recorded_iff rfl hreach⟩

/-- Both calls complete, and no row is there. -/
theorem async_insert_usage_not_recorded :
    ∃ s, (usageMachine handedOver registered twoCalls).Reach (fun _ _ => True) s ∧
      s.allCompleted ∧ s.db.accessLogs = some [] ∧ ¬ Recorded twoCalls registered s.db := by
  obtain ⟨s, hreach, hdone, hlogs⟩ := (usageMachine handedOver registered twoCalls).exists_reach
    (fun _ _ => True) twoCallsRun (fun s => s.allCompleted ∧ s.db.accessLogs = some [])
    (by decide +kernel)
  refine ⟨s, hreach, hdone, hlogs, ?_⟩
  rintro ⟨old, new, order, hold, hnew, hperm, hrows⟩
  obtain rfl := Option.some.inj hold
  obtain rfl : [] = new := Option.some.inj (hlogs.symm.trans hnew)
  obtain rfl := List.forall₂_nil_left_iff.mp hrows
  exact absurd hperm.length_eq (by decide)

end InferenceServer.Middleware
