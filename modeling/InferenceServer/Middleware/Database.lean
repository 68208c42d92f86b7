import InferenceServer.Lib.Outcome
import InferenceServer.Lib.Raising
import Mathlib.Data.Prod.Lex

/-!
# The database of the middleware

The middleware keeps its accounts in a DuckDB file (`middleware/src/database.py`): the registered
projects, a log of the calls with their token counts, and a log of errors. `init_db` creates the tables
when the application starts, the queries read them through views, and the routes
(`middleware/src/routes.py`) return what the queries found.

A table, a sequence or a view is in the catalog or not; a statement about one that is not there raises.
Each statement is a transaction of its own, so that what `init_db` has created stays if a later
statement fails. A month is a year and a month, and a time is a month and the microseconds since its
beginning. The rows of `tokens_usage_view` are a relation of their own, since no statement defines it.
-/

namespace InferenceServer.Middleware

open Outcome

/-! ## Tables -/

structure Timestamp where
  year : Nat
  month : Nat
  microseconds : Nat := 0
  deriving DecidableEq, Repr

/-- Times are ordered by the year, the month, and the time within the month. -/
def Timestamp.key (t : Timestamp) : Nat ×ₗ Nat ×ₗ Nat :=
  toLex (t.year, toLex (t.month, t.microseconds))

/-- A row of `access_logs`. -/
structure AccessLog where
  accessLogsId : Nat
  projectId : Option String
  projectSource : Option String
  tokensIn : Int
  tokensOut : Int
  timestamp : Timestamp
  deriving DecidableEq, Repr

/-- A row of `erro_log`. -/
structure ErroLog where
  erroId : Nat
  projectId : Option String
  inferenceLog : Option String
  middlewareLog : Option String
  timestamp : Timestamp
  deriving DecidableEq, Repr

/-- What `query_usage_month` selects and filters by in `tokens_usage_view`. -/
structure UsageRow where
  projectId : Option String
  tokensUsage : Int
  lastUpdate : Timestamp
  month : Timestamp
  deriving DecidableEq, Repr

/-- The exceptions of DuckDB. -/
inductive DbError where
  /-- A table, view or sequence does not exist. -/
  | catalogException (name : String)
  /-- A row breaks a foreign key. -/
  | constraintException
  /-- A number does not fit the type of its column. -/
  | conversionException
  deriving DecidableEq, Repr

/-- The catalog; `none` for what has not been created. -/
structure Database where
  projects : Option (List String) := none
  /-- The next value of the sequence. -/
  seqAccessLogsId : Option Nat := none
  accessLogs : Option (List AccessLog) := none
  recentErroLogView : Bool := false
  seqErroLogId : Option Nat := none
  erroLog : Option (List ErroLog) := none
  tokensUsageView : Option (List UsageRow) := none
  deriving DecidableEq, Repr

/-! ## The statements of `init_db` -/

section Create

/-- `CREATE TABLE IF NOT EXISTS projects`. -/
def createProjects : EStateM DbError Database Unit :=
  modify fun db => { db with projects := some (db.projects.getD []) }

/-- `CREATE SEQUENCE IF NOT EXISTS seq_access_logs_id START 1`. -/
def createSeqAccessLogsId : EStateM DbError Database Unit :=
  modify fun db => { db with seqAccessLogsId := some (db.seqAccessLogsId.getD 1) }

/-- `CREATE TABLE IF NOT EXISTS access_logs`. Its foreign key refers to `projects`. -/
def createAccessLogs : EStateM DbError Database Unit := do
  let db ← get
  if db.projects.isNone then throw (.catalogException "projects")
  set { db with accessLogs := some (db.accessLogs.getD []) }

/-- `CREATE OR REPLACE VIEW recent_erro_log_view`, over `erro_log`. -/
def createRecentErroLogView : EStateM DbError Database Unit := do
  let db ← get
  if db.erroLog.isNone then throw (.catalogException "erro_log")
  set { db with recentErroLogView := true }

/-- `CREATE SEQUENCE IF NOT EXISTS seq_erro_log_id START 1`. -/
def createSeqErroLogId : EStateM DbError Database Unit :=
  modify fun db => { db with seqErroLogId := some (db.seqErroLogId.getD 1) }

/-- `CREATE TABLE IF NOT EXISTS erro_log`. Its foreign key refers to `projects`. -/
def createErroLog : EStateM DbError Database Unit := do
  let db ← get
  if db.projects.isNone then throw (.catalogException "projects")
  set { db with erroLog := some (db.erroLog.getD []) }

/-- `init_db`. -/
def initDb : EStateM DbError Database Unit := do
  createProjects
  createSeqAccessLogsId
  createAccessLogs
  createRecentErroLogView
  createSeqErroLogId
  createErroLog

end Create

/-! ## Queries -/

/-- The values of an `INTEGER` column. -/
def isInteger (n : Int) : Prop := -2 ^ 31 ≤ n ∧ n < 2 ^ 31

instance (n : Int) : Decidable (isInteger n) := by
  unfold isInteger
  infer_instance

/-- The arguments of `insert_usage`. -/
structure UsageCall where
  projectId : String
  projectSource : String
  tokensIn : Int
  tokensOut : Int
  deriving DecidableEq, Repr

namespace Database

/-- The `INSERT` of `insert_usage`. The id and the time are the defaults of their columns. -/
def insertUsage (now : Timestamp) (c : UsageCall) (db : Database) : Except DbError Database := do
  match db.accessLogs, db.seqAccessLogsId with
  | none, _ => throw (.catalogException "access_logs")
  | _, none => throw (.catalogException "seq_access_logs_id")
  | some rows, some nextval =>
    require (isInteger c.tokensIn ∧ isInteger c.tokensOut) DbError.conversionException
    require (c.projectId ∈ db.projects.getD []) DbError.constraintException
    return { db with
      seqAccessLogsId := some (nextval + 1)
      accessLogs := some (rows ++ [{
        accessLogsId := nextval, projectId := c.projectId, projectSource := c.projectSource
        tokensIn := c.tokensIn, tokensOut := c.tokensOut, timestamp := now }]) }

/-- `ORDER BY timestamp DESC`. -/
def orderByTimestampDesc (rows : List ErroLog) : List ErroLog :=
  rows.insertionSort fun a b => b.timestamp.key ≤ a.timestamp.key

/-- The rows of `recent_erro_log_view`. -/
def recentErroLogs (db : Database) : Except DbError (List ErroLog) :=
  if db.recentErroLogView then
    match db.erroLog with
    | some rows => .ok (orderByTimestampDesc rows)
    | none => .error (.catalogException "erro_log")
  else .error (.catalogException "recent_erro_log_view")

/-- The rows of a project, or all of them. -/
def ofProject (projectId : Option String) (rows : List ErroLog) : List ErroLog :=
  match projectId with
  | none => rows
  | some p => rows.filter fun r => r.projectId = some p

/-- `get_last_error_logs`. -/
def getLastErrorLogs (n : Nat) (projectId : Option String) (db : Database) :
    Except DbError (List ErroLog) := do
  let rows ← db.recentErroLogs
  return (orderByTimestampDesc (ofProject projectId rows)).take n

/-- `query_usage_month`. An empty project id does not filter. -/
def queryUsageMonth (projectId : Option String) (year month : Nat) (db : Database) :
    Except DbError (List UsageRow) :=
  match db.tokensUsageView with
  | none => .error (.catalogException "tokens_usage_view")
  | some rows =>
    .ok (rows.filter fun r => r.month = { year, month } ∧
      ∀ p ∈ projectId, p = "" ∨ r.projectId = some p)

end Database

/-! ## Routes -/

/-- How a request fails. -/
inductive RequestError where
  | database (e : DbError)
  /-- A parameter is out of its range. -/
  | requestValidation
  /-- The result is not of the form of the response model. -/
  | responseValidation
  deriving DecidableEq, Repr

/-- `async_get_last_error_logs`. It waits for the rows and returns `None`. -/
def asyncGetLastErrorLogs (n : Nat) (projectId : Option String) (db : Database) :
    Except DbError (Option (List ErroLog)) := do
  let _ ← db.getLastErrorLogs n projectId
  return none

/-- `async_query_usage_month`. -/
def asyncQueryUsageMonth (projectId : Option String) (year month : Nat) (db : Database) :
    Except DbError (Option (List UsageRow)) := do
  let rows ← db.queryUsageMonth projectId year month
  return some rows

/-- A response model with one list: `None` is no list. The form of its rows is not checked here. -/
def respond {α : Type} (result : Except DbError (Option (List α))) : Except RequestError (List α) :=
  match result with
  | .ok (some rows) => .ok rows
  | .ok none => .error .responseValidation
  | .error e => .error (.database e)

/-- `GET /errors`. -/
def getErrors (n : Int) (projectId : Option String) (db : Database) :
    Except RequestError (List ErroLog) := do
  require (0 < n) RequestError.requestValidation
  respond (asyncGetLastErrorLogs n.toNat projectId db)

/-- `GET /usage`. -/
def getUsage (projectId : Option String) (year month : Nat) (db : Database) :
    Except RequestError (List UsageRow) := do
  require (2000 ≤ year ∧ year ≤ 2100) RequestError.requestValidation
  require (1 ≤ month ∧ month ≤ 12) RequestError.requestValidation
  respond (asyncQueryUsageMonth projectId year month db)

end InferenceServer.Middleware
