import Mathlib.Logic.Function.Basic
import NumentaApps.AnomalyService
import NumentaApps.MetricStatusLifeCycle

/-!
# The transactions on one metric, statement by statement

`deleteModel`, the storing of a result batch, the updates of the metric row and the storing of new
data as sessions of the database. A statement that reads for update or writes takes the lock of its
row and waits while another session has it; locks are kept to the end. What a session writes is
its own until it commits. `MetricTables.run` says what each transaction is for.
-/
namespace NumentaApps.AnomalyService
open Repository AnomalyLikelihood TransitionSystem

/-- The row of a metric and its data rows. -/
structure MetricTables (S P τ V : Type) where
  metric : MetricRow S P
  rows : List (AnomalyDataRow τ V)
  deriving DecidableEq, Repr

/-- Processed rows, and the model params with the new likelihood params, computed from whatever
was read before. -/
structure ResultBatch (P τ V : Type) where
  metricDataRows : List (AnomalyDataRow τ V)
  modelParams : P
  deriving DecidableEq, Repr

/-- The transactions that touch only the row of the metric; those of the anomaly service act on a
row that they have read before. -/
inductive MetricUpdate (S P : Type) where
  | monitorMetric (created : Bool) (modelSpec : S) (swarmParams : Option P)
  | startModel (created : Bool) (status : MetricStatus) (swarmParams : P)
  | commandResult (method : CommandMethod) (failure : Option String) (metricObj : MetricRow S P)
  | failedResult (failure : Option String) (metricObj : MetricRow S P)
  deriving DecidableEq, Repr

inductive Transaction (S P τ V : Type) where
  | deleteModel
  | storeResults (batch : ResultBatch P τ V)
  | updateMetric (update : MetricUpdate S P)
  | streamMetricData (rows : List (MetricDataRow τ V))
  deriving DecidableEq, Repr

/-- `clearRows` goes through the rows with `clearRow`. -/
inductive Statement (S P τ V : Type) where
  | resetMetric
  | clearRows
  | clearRow (metricData : AnomalyDataRow τ V)
  | updateRow (metricData : AnomalyDataRow τ V)
  | checkActive
  | saveModelParams (modelParams : P)
  | updateMetric (update : MetricUpdate S P)
  | lockMetric
  | insertRows (rows : List (MetricDataRow τ V))
  deriving DecidableEq, Repr

variable {S P τ V : Type}

/-- A status write of the anomaly service, if it decides on one. -/
def MetricUpdate.write (row : MetricRow S P) :
    Option StatusWrite → Except MonitorError (MetricRow S P)
  | none => .ok row
  | some w => row.setMetricStatus w.status w.message none

def MetricUpdate.apply (row : MetricRow S P) :
    MetricUpdate S P → Except MonitorError (MetricRow S P)
  | .monitorMetric created modelSpec swarmParams =>
      (row.startMonitoringWithRetries created modelSpec swarmParams).map Prod.fst
  | .startModel created status swarmParams =>
      (row.startModelHelper created status swarmParams).map Prod.fst
  | .commandResult method failure metricObj =>
      write row (commandResultWrite method failure metricObj)
  | .failedResult failure metricObj => write row (inferenceResultsWrite failure metricObj)

/-- A row without results. -/
def clearedRow (r : AnomalyDataRow τ V) : AnomalyDataRow τ V :=
  { r with
    rawAnomalyScore := none
    anomalyScore := none
    displayValue := none }

def unscoredRow (r : MetricDataRow τ V) : AnomalyDataRow τ V :=
  { toMetricDataRow := r
    rawAnomalyScore := none
    anomalyScore := none
    displayValue := none }

def Transaction.statements : Transaction S P τ V → List (Statement S P τ V)
  | .deleteModel => [.resetMetric, .clearRows]
  | .storeResults batch =>
      batch.metricDataRows.map .updateRow ++ [.checkActive, .saveModelParams batch.modelParams]
  | .updateMetric update => [.updateMetric update]
  | .streamMetricData rows => [.lockMetric, .insertRows rows]

/-! ## What the transactions are for -/

/-- A transaction that runs alone; `none` if it raises. -/
def MetricTables.run (db : MetricTables S P τ V) :
    Transaction S P τ V → Option (MetricTables S P τ V)
  | .deleteModel => some ⟨db.metric.deleteModel, db.rows.map clearedRow⟩
  | .storeResults batch =>
      if db.metric.status ≠ .active then none
      else some ⟨{ db.metric with modelParams := some batch.modelParams },
        batch.metricDataRows.foldl updateMetricDataColumns db.rows⟩
  | .updateMetric update =>
      match update.apply db.metric with
      | .ok row => some { db with metric := row }
      | .error _ => none
  | .streamMetricData rows => some { db with rows := db.rows ++ rows.map unscoredRow }

/-! ## Sessions -/

/-- A session: its transaction, the statements left of it, and what it has written: the row of the
metric, the results of data rows, and new data rows. -/
structure Session (S P τ V : Type) where
  transaction : Transaction S P τ V
  todo : List (Statement S P τ V)
  metric : Option (MetricRow S P)
  updated : List (AnomalyDataRow τ V)
  inserted : List (AnomalyDataRow τ V)
  deriving DecidableEq, Repr

namespace Session

def start (transaction : Transaction S P τ V) : Session S P τ V :=
  ⟨transaction, transaction.statements, none, [], []⟩

/-- The tables as the session sees them, and as they are once it has committed. -/
def view (session : Session S P τ V) (db : MetricTables S P τ V) : MetricTables S P τ V :=
  ⟨session.metric.getD db.metric,
    session.updated.foldl updateMetricDataColumns db.rows ++ session.inserted⟩

/-- Executes a statement; an exception leaves the transaction. -/
def execute (db : MetricTables S P τ V) (todo : List (Statement S P τ V))
    (session : Session S P τ V) : Statement S P τ V → Except MonitorError (Session S P τ V)
  | .resetMetric =>
      .ok { session with todo := todo, metric := some (session.view db).metric.deleteModel }
  | .clearRows => .ok { session with todo := (session.view db).rows.map .clearRow ++ todo }
  | .clearRow metricData =>
      .ok { session with todo := todo, updated := session.updated ++ [clearedRow metricData] }
  | .updateRow metricData =>
      .ok { session with todo := todo, updated := session.updated ++ [metricData] }
  | .checkActive =>
      if (session.view db).metric.status ≠ .active then .error .metricNotActive
      else .ok { session with todo := todo }
  | .saveModelParams modelParams =>
      .ok { session with
        todo := todo
        metric := some { (session.view db).metric with modelParams := some modelParams } }
  | .updateMetric update => do
      let row ← update.apply (session.view db).metric
      return { session with todo := todo, metric := some row }
  | .lockMetric => .ok { session with todo := todo }
  | .insertRows rows =>
      .ok { session with todo := todo, inserted := session.inserted ++ rows.map unscoredRow }

end Session

/-! ## Locks -/

/-- Whether a statement takes the lock of the metric row. -/
def Statement.locksMetric : Statement S P τ V → Bool
  | .resetMetric | .checkActive | .saveModelParams _ | .updateMetric _ | .lockMetric => true
  | .clearRows | .clearRow _ | .updateRow _ | .insertRows _ => false

/-- The data rows that a statement locks. -/
def Statement.rowids : Statement S P τ V → List ℕ
  | .clearRow metricData => [metricData.rowid]
  | .updateRow metricData => [metricData.rowid]
  | .insertRows rows => rows.map (·.rowid)
  | _ => []

/-- The committed tables, the sessions, and which session has the lock of the metric row and of
each data row. -/
structure Server (S P τ V : Type) where
  db : MetricTables S P τ V
  sessions : ℕ → Option (Session S P τ V)
  metricLock : Option ℕ
  rowLocks : ℕ → Option ℕ

namespace Server

/-- A lock that another session has is waited for. -/
def isFree (session : ℕ) (lock : Option ℕ) : Bool := lock = none || lock = some session

def mayExecute (s : Server S P τ V) (i : ℕ) (statement : Statement S P τ V) : Bool :=
  (!statement.locksMetric || isFree i s.metricLock) &&
    statement.rowids.all fun rowid => isFree i (s.rowLocks rowid)

def acquire (s : Server S P τ V) (i : ℕ) (statement : Statement S P τ V) : Server S P τ V :=
  { s with
    metricLock := if statement.locksMetric then some i else s.metricLock
    rowLocks := fun rowid => if rowid ∈ statement.rowids then some i else s.rowLocks rowid }

/-- The end of a session, which gives its locks back. -/
def close (s : Server S P τ V) (i : ℕ) : Server S P τ V :=
  { s with
    sessions := Function.update s.sessions i none
    metricLock := if s.metricLock = some i then none else s.metricLock
    rowLocks := fun rowid => if s.rowLocks rowid = some i then none else s.rowLocks rowid }

/-- A session may be rolled back at any time, as the victim of a deadlock or with its connection. -/
inductive Action (S P τ V : Type) where
  | begin (session : ℕ) (transaction : Transaction S P τ V)
  | execute (session : ℕ)
  | commit (session : ℕ)
  | rollback (session : ℕ)

def act : Action S P τ V → Server S P τ V → Option (Server S P τ V)
  | .begin i transaction, s =>
      if (s.sessions i).isSome then none
      else some { s with sessions := Function.update s.sessions i (some (.start transaction)) }
  | .execute i, s =>
      (s.sessions i).bind fun session =>
        match session.todo with
        | [] => none
        | statement :: todo =>
            if s.mayExecute i statement then
              match session.execute s.db todo statement with
              | .ok session => some
                  { s.acquire i statement with
                    sessions := Function.update s.sessions i (some session) }
              | .error _ => some (s.close i)
            else none
  | .commit i, s =>
      (s.sessions i).bind fun session =>
        if session.todo.isEmpty then some { s.close i with db := session.view s.db } else none
  | .rollback i, s => (s.sessions i).map fun _ => s.close i

end Server

/-- An unmonitored metric has no model params and no results. -/
def MetricTables.Clean (db : MetricTables S P τ V) : Prop :=
  db.metric.status = .unmonitored →
    db.metric.modelParams = none ∧ ∀ r ∈ db.rows, clearedRow r = r

/-- Tables in order, and no session yet. -/
def serverSystem (S P τ V : Type) : System (Server S P τ V) (Server.Action S P τ V) where
  init s := s.db.Clean ∧ s.sessions = (fun _ => none) ∧ s.metricLock = none ∧
    s.rowLocks = fun _ => none
  next := Server.act

end NumentaApps.AnomalyService
