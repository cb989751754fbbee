import Mathlib.Data.List.Perm.Basic
import NumentaApps.MobileMetricCache

/-!
# Synchronising the metric data of the mobile application

The server's scored rows, the local metrics with their cache and their data, and a
synchronisation with its downloads: the rows received are put into a queue, from which a
background task saves them in batches. The service thread, the tasks and the server take their
steps in any order.
-/
namespace NumentaApps.HTMITMobile
open MobileCore (MetricData MetricRow raiseTimestamp)
open TransitionSystem

/-! ## The server -/

/-- The metrics with their last row IDs, and the scored rows in the order of their scoring. The
timestamps are in milliseconds, but go over the wire in seconds. -/
structure Server where
  metrics : List (String × ℕ)
  rows : List MetricData
  ordered : rows.Pairwise fun row later => row.metricId = later.metricId →
    row.timestamp < later.timestamp ∧ row.rowid < later.rowid
  valid : ∀ row ∈ rows, 0 < row.timestamp ∧ (1000 : ℤ) ∣ row.timestamp

namespace Server

/-- The row is one of its metric and comes after those that are scored. -/
def CanScore (server : Server) (row : MetricData) : Prop :=
  (∃ metric ∈ server.metrics, metric.1 = row.metricId ∧ row.rowid ≤ metric.2) ∧
    0 < row.timestamp ∧ (1000 : ℤ) ∣ row.timestamp ∧
    ∀ earlier ∈ server.rows, earlier.metricId = row.metricId →
      earlier.timestamp < row.timestamp ∧ earlier.rowid < row.rowid

instance (server : Server) (row : MetricData) : Decidable (server.CanScore row) :=
  inferInstanceAs (Decidable (_ ∧ _ ∧ _ ∧ _))

def score (server : Server) (row : MetricData) (h : server.CanScore row) : Server where
  metrics := server.metrics
  rows := server.rows ++ [row]
  ordered := by
    refine List.pairwise_append.mpr ⟨server.ordered, List.pairwise_singleton _ _, ?_⟩
    intro earlier hearlier later hlater
    obtain rfl := List.mem_singleton.mp hlater
    exact h.2.2.2 earlier hearlier
  valid := by
    intro r hr
    rcases List.mem_append.mp hr with hr | hr
    · exact server.valid r hr
    · obtain rfl := List.mem_singleton.mp hr
      exact ⟨h.2.1, h.2.2.1⟩

def createMetric (server : Server) (id : String) : Server :=
  { server with metrics := server.metrics ++ [(id, 0)] }

/-- Input rows are stored before they are scored. -/
def ingest (server : Server) (id : String) (count : ℕ) : Server :=
  { server with metrics := server.metrics.map fun metric =>
      if metric.1 = id then (id, metric.2 + count) else metric }

/-- The rows that `getMetricData` asks for, of one metric or of all. -/
def range (server : Server) (metricId : Option String) (fromDate toDate : ℤ) : List MetricData :=
  server.rows.filter fun row => (metricId = none ∨ metricId = some row.metricId) ∧
    fromDate ≤ row.timestamp ∧ row.timestamp ≤ toDate

/-- An answer has the rows of the range in ascending order of their timestamps. -/
def Answers (server : Server) (metricId : Option String) (fromDate toDate : ℤ)
    (answer : List MetricData) : Prop :=
  answer.Perm (server.range metricId fromDate toDate) ∧
    answer.Pairwise fun row later => row.timestamp ≤ later.timestamp

instance (server : Server) (metricId : Option String) (fromDate toDate : ℤ)
    (answer : List MetricData) : Decidable (server.Answers metricId fromDate toDate answer) :=
  inferInstanceAs (Decidable (_ ∧ _))

end Server

/-! ## The local database -/

structure Metric where
  id : String
  lastRowId : ℕ
  lastTimestamp : ℤ
  deriving DecidableEq, Repr

instance : MetricRow Metric where
  id := Metric.id
  lastTimestamp := Metric.lastTimestamp
  withLastTimestamp timestamp metric := { metric with lastTimestamp := timestamp }
  id_with _ _ := rfl

/-- The metric table, the metrics in the cache, from which all reads are made, and the data. -/
structure Database where
  metric : List Metric
  metricCache : List Metric
  metricData : List MetricData
  deriving DecidableEq, Repr

namespace Database

def getMetric (db : Database) (id : String) : Option Metric :=
  db.metricCache.find? fun metric => metric.id = id

def getMetricLastTimestamp (db : Database) (id : String) : ℤ :=
  ((db.getMetric id).map Metric.lastTimestamp).getD 0

/-- The largest timestamp of the cached metrics, and at least zero. -/
def getLastTimestamp (db : Database) : ℤ :=
  db.metricCache.foldl (fun timestamp metric => max timestamp metric.lastTimestamp) 0

/-- A row that is replaced takes its data along. -/
def addMetric (metric : Metric) (db : Database) : Database where
  metric := db.metric.filter (fun other => other.id ≠ metric.id) ++ [metric]
  metricCache := db.metricCache.filter (fun other => other.id ≠ metric.id) ++ [metric]
  metricData := db.metricData.filter fun row => row.metricId ≠ metric.id

def updateMetric (metric : Metric) (db : Database) : Database :=
  { db with
    metric := db.metric.map fun other => if other.id = metric.id then metric else other
    metricCache := db.metricCache.map fun other => if other.id = metric.id then metric else other }

def deleteMetric (id : String) (db : Database) : Database where
  metric := db.metric.filter fun other => other.id ≠ id
  metricCache := db.metricCache.filter fun other => other.id ≠ id
  metricData := db.metricData.filter fun row => row.metricId ≠ id

/-- One row of a batch; a row that is there already is ignored, and a row without a metric
throws. -/
def insertRow (row : MetricData) (db : Database) : Option Database :=
  if !db.metric.any fun metric => metric.id = row.metricId then none
  else if db.metricData.any fun other => other.key = row.key then some db
  else match db.getMetric row.metricId with
    | none => none
    | some metric =>
      let db := { db with metricData := db.metricData ++ [row] }
      if metric.lastTimestamp < row.timestamp ∧ db.metric.any fun other =>
          other.id = row.metricId ∧ other.lastTimestamp < row.timestamp then
        some { db with
          metric := raiseTimestamp row.metricId row.timestamp db.metric
          metricCache := raiseTimestamp row.metricId row.timestamp db.metricCache }
      else some db

/-- The rows up to the first that throws, and whether there was none; another statement may
throw at any row, or the commit after the last. -/
def insertRows : Option ℕ → List MetricData → Database → Database × Bool
  | some 0, _, db => (db, false)
  | _, [], db => (db, true)
  | failsAt, row :: batch, db =>
    match db.insertRow row with
    | some db => insertRows (failsAt.map Nat.pred) batch db
    | none => (db, false)

/-- What is rolled back are the tables. -/
def addMetricDataBatch (batch : List MetricData) (failsAt : Option ℕ) (db : Database) : Database :=
  if batch = [] then db
  else match db.insertRows failsAt batch with
    | (inserted, true) => inserted
    | (inserted, false) => { db with metricCache := inserted.metricCache }

/-- What `loadAllMetrics` does with a metric of the server. -/
def loadMetric (db : Database) (remote : String × ℕ) : Database :=
  match db.getMetric remote.1 with
  | none => db.addMetric ⟨remote.1, remote.2, 0⟩
  | some metric =>
    if remote.2 ≠ metric.lastRowId then
      db.updateMetric ⟨remote.1, remote.2, metric.lastTimestamp⟩
    else db

/-- The metrics that are not on the server are removed in the end. -/
def loadAllMetrics (remoteMetrics : List (String × ℕ)) (db : Database) : Database :=
  let db := remoteMetrics.foldl loadMetric db
  (db.metricCache.filter fun metric => metric.id ∉ remoteMetrics.map Prod.fst).foldl
    (fun db metric => db.deleteMetric metric.id) db

end Database

/-! ## Downloads -/

def millisPerHour : ℤ := 3600000

def millisPerDay : ℤ := 24 * millisPerHour

/-- Java's division. -/
def floorTo5minutes (time : ℤ) : ℤ := time.tdiv 300000 * 300000

/-- The background task of a download with its queue; `eof` says that `METRIC_DATA_EOF` is at
the end of the queue. -/
structure Task where
  metricId : Option String
  pending : List MetricData
  eof : Bool
  batch : List MetricData
  batchTimestamp : ℤ
  running : Bool
  deriving DecidableEq, Repr

namespace Task

def start (metricId : Option String) : Task := ⟨metricId, [], false, [], 0, true⟩

/-- One hour for all metrics or one week for a single one. -/
def batchSize (t : Task) : ℤ :=
  if t.metricId = none then millisPerHour else 24 * 7 * millisPerHour

/-- Takes the next row of the queue, and saves the batch if the row is later than the batch
timestamp. -/
def take (failsAt : Option ℕ) (db : Database) (t : Task) : Option (Task × Database) :=
  match t.running, t.pending with
  | true, row :: pending =>
    if row.timestamp > t.batchTimestamp then
      some ({ t with pending := pending, batch := [],
                     batchTimestamp := row.timestamp + t.batchSize },
        db.addMetricDataBatch (t.batch ++ [row]) failsAt)
    else some ({ t with pending := pending, batch := t.batch ++ [row] }, db)
  | _, _ => none

/-- Takes the end of the queue, or times out, and saves the last batch. -/
def finish (failsAt : Option ℕ) (db : Database) (t : Task) : Option (Task × Database) :=
  match t.running, t.pending with
  | true, [] => some ({ t with batch := [], running := false },
      db.addMetricDataBatch t.batch failsAt)
  | _, _ => none

end Task

/-! ## Synchronisations -/

/-- The variables of `loadAllData`, and the metrics that its loop has not looked at. -/
structure Scan where
  lastTimestamp : ℤ
  lowestTimestampAllowed : ℤ
  now : ℤ
  rest : List Metric
  deriving DecidableEq, Repr

/-- A call of `loadMetricData` up to `now`, and what follows it. -/
structure Request where
  metricId : Option String
  fromDate : ℤ
  toDate : ℤ
  resume : Option Scan
  deriving DecidableEq, Repr

namespace Scan

/-- Is the metric stale? -/
def Stale (db : Database) (scan : Scan) (metric : Metric) : Prop :=
  0 < metric.lastRowId ∧ db.getMetricLastTimestamp metric.id < scan.lastTimestamp

instance (db : Database) (scan : Scan) (metric : Metric) : Decidable (scan.Stale db metric) :=
  inferInstanceAs (Decidable (_ ∧ _))

/-- From where a stale metric has to be downloaded. -/
def nextTimestamp (db : Database) (scan : Scan) (metric : Metric) : ℤ :=
  if db.getMetricLastTimestamp metric.id < scan.lowestTimestampAllowed then
    scan.lowestTimestampAllowed
  else db.getMetricLastTimestamp metric.id

/-- The next step of `loadAllData`: a turn of the loop, or a request. A metric that is stale for
less than one hour is downloaded together with the others. -/
def next (db : Database) (scan : Scan) : Scan ⊕ Request :=
  match scan.rest with
  | [] => .inr
      { metricId := none
        fromDate := max (scan.lastTimestamp + 1000) scan.lowestTimestampAllowed
        toDate := scan.now
        resume := none }
  | metric :: rest =>
    if scan.Stale db metric then
      if scan.nextTimestamp db metric > scan.lastTimestamp - millisPerHour then
        .inl { scan with
          lastTimestamp := min (scan.nextTimestamp db metric) scan.lastTimestamp
          rest := rest }
      else .inr
        { metricId := some metric.id
          fromDate := scan.nextTimestamp db metric
          toDate := scan.now
          resume := some { scan with rest := rest } }
    else .inl { scan with rest := rest }

end Scan

/-- Where the service thread is: between synchronisations, before `loadAllMetrics`, before
`loadAllData`, in its loop, receiving the rest of an answer, or waiting for the task with the
given number. -/
inductive Phase where
  | idle
  | begun
  | metricsLoaded
  | scanning (scan : Scan)
  | downloading (i : ℕ) (answer : List MetricData) (resume : Option Scan)
  | waiting (i : ℕ) (resume : Option Scan)
  deriving DecidableEq, Repr

/-- What follows a download; the one for all metrics is the last of a synchronisation. -/
def Phase.ofResume : Option Scan → Phase
  | none => .idle
  | some scan => .scanning scan

/-- The state of the system. `begunRows` are the rows that were on the server when the last
synchronisation began, and `allowed` the oldest timestamps allowed so far. -/
structure State where
  server : Server
  db : Database
  phase : Phase
  tasks : List Task
  begunRows : List MetricData
  allowed : List ℤ

inductive Action where
  | createMetric (id : String)
  | ingest (id : String) (count : ℕ)
  | score (row : MetricData)
  | begin
  | loadAllMetrics (answered : Bool)
  | loadAllData (now lowestNow : ℤ) (order : List Metric)
  | visit
  | request (answer : List MetricData)
  | deliver
  | interruptPut
  | endOfData
  | resume
  | interruptWait
  | abort
  | take (i : ℕ) (failsAt : Option ℕ)
  | finish (i : ℕ) (failsAt : Option ℕ)
  | interruptTask (i : ℕ)

namespace State

def known (s : State) (id : String) : Bool := (s.db.getMetric id).isSome

/-- A step of the server, of the service thread, or of a task; `syncDays` is the number of days
to sync. The rows of a metric that is not known locally are dropped. A put that is interrupted
clears the queue and drops its row, and the parser goes on with the next one. -/
def act (syncDays : ℤ) (s : State) : Action → Option State
  | .createMetric id =>
    if id ∈ s.server.metrics.map Prod.fst then none
    else some { s with server := s.server.createMetric id }
  | .ingest id count => some { s with server := s.server.ingest id count }
  | .score row =>
    if h : s.server.CanScore row then some { s with server := s.server.score row h } else none
  | .begin =>
    match s.phase with
    | .idle => some { s with phase := .begun, begunRows := s.server.rows }
    | _ => none
  | .loadAllMetrics answered =>
    match s.phase with
    | .begun => some { s with
        phase := .metricsLoaded
        db := if answered then s.db.loadAllMetrics s.server.metrics else s.db }
    | _ => none
  | .loadAllData now lowestNow order =>
    match s.phase with
    | .metricsLoaded =>
      if order.Perm s.db.metricCache then
        let lastTimestamp := s.db.getLastTimestamp
        let lowestTimestampAllowed := floorTo5minutes (lowestNow - syncDays * millisPerDay)
        some { s with
          phase := .scanning
            { lastTimestamp := lastTimestamp
              lowestTimestampAllowed := lowestTimestampAllowed
              now := now
              rest := if lastTimestamp > lowestTimestampAllowed then order else [] }
          allowed := lowestTimestampAllowed :: s.allowed }
      else none
    | _ => none
  | .visit =>
    match s.phase with
    | .scanning scan =>
      match scan.next s.db with
      | .inl scan => some { s with phase := .scanning scan }
      | .inr _ => none
    | _ => none
  | .request answer =>
    match s.phase with
    | .scanning scan =>
      match scan.next s.db with
      | .inl _ => none
      | .inr req =>
        if s.server.Answers req.metricId req.fromDate req.toDate answer then
          some { s with
            phase := .downloading s.tasks.length answer req.resume
            tasks := s.tasks ++ [Task.start req.metricId] }
        else none
    | _ => none
  | .deliver =>
    match s.phase with
    | .downloading i (row :: answer) resume =>
      some { s with
        phase := .downloading i answer resume
        tasks := if s.known row.metricId then
            s.tasks.modify i fun t => { t with pending := t.pending ++ [row] }
          else s.tasks }
    | _ => none
  | .interruptPut =>
    match s.phase with
    | .downloading i (row :: answer) resume =>
      if s.known row.metricId then
        some { s with
          phase := .downloading i answer resume
          tasks := s.tasks.modify i fun t => { t with pending := [] } }
      else none
    | _ => none
  | .endOfData =>
    match s.phase with
    | .downloading i [] resume =>
      some { s with
        phase := .waiting i resume
        tasks := s.tasks.modify i fun t => { t with eof := true } }
    | _ => none
  | .resume =>
    match s.phase with
    | .waiting i resume =>
      if s.tasks[i]?.any Task.running then none else some { s with phase := .ofResume resume }
    | _ => none
  | .interruptWait =>
    match s.phase with
    | .waiting _ resume => some { s with phase := .ofResume resume }
    | _ => none
  | .abort => some { s with phase := .idle }
  | .take i failsAt =>
    (s.tasks[i]?.bind (·.take failsAt s.db)).map fun p =>
      { s with tasks := s.tasks.set i p.1, db := p.2 }
  | .finish i failsAt =>
    (s.tasks[i]?.bind (·.finish failsAt s.db)).map fun p =>
      { s with tasks := s.tasks.set i p.1, db := p.2 }
  | .interruptTask i =>
    some { s with tasks := s.tasks.modify i fun t =>
      { t with pending := [], batch := [], running := false } }

end State

/-- The application starts with an empty database. -/
def syncSystem (syncDays : ℤ) : System State Action where
  init s := s.db = ⟨[], [], []⟩ ∧ s.phase = .idle ∧ s.tasks = [] ∧ s.begunRows = [] ∧
    s.allowed = []
  next a s := s.act syncDays a

end NumentaApps.HTMITMobile
