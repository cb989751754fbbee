import NumentaApps.TransitionSystem
import Mathlib.Data.Int.Notation

/-!
# The metric cache of the mobile database

Two maps shadow the metric table: the metrics by ID, and the names of their instances. They
are updated inside the transactions, by the same statements that change the table, and are
loaded from it when they are found empty.
-/
namespace NumentaApps.MobileCore
open TransitionSystem

/-- A row of the metric table, or a metric in the cache. -/
structure Metric where
  id : String
  instanceId : Option String
  serverName : Option String
  lastTimestamp : ℤ
  deriving DecidableEq, Repr

/-- A row of the metric table, read with its ID, its last timestamp and maybe other columns. -/
class MetricRow (M : Type) where
  id : M → String
  lastTimestamp : M → ℤ
  withLastTimestamp : ℤ → M → M
  id_with : ∀ timestamp metric, id (withLastTimestamp timestamp metric) = id metric

/-- "UPDATE metric SET last_timestamp". -/
def raiseTimestamp {M : Type} [MetricRow M] (id : String) (timestamp : ℤ) (rows : List M) : List M :=
  rows.map fun metric => if MetricRow.id metric = id ∧ MetricRow.lastTimestamp metric < timestamp then
    MetricRow.withLastTimestamp timestamp metric else metric

theorem raiseTimestamp_ids {M : Type} [MetricRow M] (id : String) (timestamp : ℤ) (rows : List M) :
    (raiseTimestamp id timestamp rows).map MetricRow.id = rows.map MetricRow.id := by
  rw [raiseTimestamp, List.map_map]
  refine List.map_congr_left fun metric _ => ?_
  simp only [Function.comp_apply]
  split
  · exact MetricRow.id_with timestamp metric
  · rfl

instance : MetricRow Metric where
  id := Metric.id
  lastTimestamp := Metric.lastTimestamp
  withLastTimestamp timestamp metric := { metric with lastTimestamp := timestamp }
  id_with _ _ := rfl

structure MetricData where
  metricId : String
  rowid : ℤ
  timestamp : ℤ
  deriving DecidableEq, Repr

def MetricData.key (row : MetricData) : String × ℤ := (row.metricId, row.rowid)

/-- The maps take no null. -/
def Metric.Named (metric : Metric) : Prop := metric.instanceId.isSome ∧ metric.serverName.isSome

instance (metric : Metric) : Decidable metric.Named := inferInstanceAs (Decidable (_ ∧ _))

structure Caches where
  metricCache : List Metric
  instanceToName : List (String × String)
  deriving DecidableEq, Repr

namespace Caches

def put (metric : Metric) (c : Caches) : Caches :=
  { c with metricCache := c.metricCache.filter (fun other => other.id ≠ metric.id) ++ [metric] }

def putName (instanceId serverName : String) (c : Caches) : Caches :=
  { c with instanceToName :=
      c.instanceToName.filter (fun entry => entry.1 ≠ instanceId) ++ [(instanceId, serverName)] }

def putNameIfAbsent (instanceId serverName : String) (c : Caches) : Caches :=
  if c.instanceToName.any fun entry => entry.1 = instanceId then c
  else { c with instanceToName := c.instanceToName ++ [(instanceId, serverName)] }

def removeName (instanceId : String) (c : Caches) : Caches :=
  { c with instanceToName := c.instanceToName.filter fun entry => entry.1 ≠ instanceId }

/-- Reads the rows of the cursor; reading fails at one of them, or after the last, or at a
row with a null. -/
def loadRows : List Metric → Option ℕ → Caches → Except Caches Caches
  | _, some 0, c => .error c
  | [], _, c => .ok c
  | metric :: rows, failsAt, c =>
    match metric.instanceId, metric.serverName with
    | some instanceId, some serverName =>
      loadRows rows (failsAt.map Nat.pred) ((c.putNameIfAbsent instanceId serverName).put metric)
    | _, _ => .error c

/-- After a failure the names are cleared. -/
def loadMetricCache (rows : List Metric) (failsAt : Option ℕ) : Caches :=
  match loadRows rows failsAt ⟨[], []⟩ with
  | .ok c => c
  | .error c => { c with instanceToName := [] }

def getMetricCache (rows : List Metric) (failsAt : Option ℕ) (c : Caches) : Caches :=
  if c.metricCache = [] then loadMetricCache rows failsAt else c

/-- What is thrown leaves the maps as they are then. -/
def updateMetricCache (rows : List Metric) (failsAt : Option ℕ) (metric : Metric) (c : Caches) :
    Except Caches Caches :=
  let c := (c.getMetricCache rows failsAt).put metric
  match metric.instanceId, metric.serverName with
  | some instanceId, some serverName => .ok (c.putName instanceId serverName)
  | _, _ => .error c

/-- A metric of the cache without an instance is a null pointer here. -/
def getMetricsByInstanceId (instanceId : String) (c : Caches) : Option (List Metric) :=
  if c.metricCache.any fun metric => metric.instanceId.isNone then none
  else some (c.metricCache.filter fun metric => metric.instanceId = some instanceId)

def removeMetricFromCache (rows : List Metric) (failsAt failsAgainAt : Option ℕ) (id : String)
    (c : Caches) : Except Caches Caches :=
  let c := c.getMetricCache rows failsAt
  match c.metricCache.find? fun metric => metric.id = id with
  | none => .ok c
  | some metric =>
    let c := { c with metricCache := c.metricCache.filter fun other => other.id ≠ id }
    match metric.instanceId with
    | none => .error (c.getMetricCache rows failsAgainAt)
    | some instanceId =>
      let c := c.getMetricCache rows failsAgainAt
      match c.getMetricsByInstanceId instanceId with
      | none => .error c
      | some metrics => .ok (if metrics = [] then c.removeName instanceId else c)

end Caches

/-- The committed rows of the metrics and the keys of their data, and the maps. -/
structure CoreDatabase where
  metric : List Metric
  metricData : List (String × ℤ)
  caches : Caches
  deriving DecidableEq, Repr

namespace CoreDatabase

/-- A transaction that is not committed leaves the tables as they were, but not the maps. -/
def endTransaction (s : CoreDatabase) (commits : Bool) (metric : List Metric)
    (metricData : List (String × ℤ)) : Except Caches Caches → CoreDatabase
  | .ok caches => if commits then ⟨metric, metricData, caches⟩ else { s with caches := caches }
  | .error caches => { s with caches := caches }

def replaceRow (metric : Metric) (rows : List Metric) : List Metric :=
  rows.filter (fun other => other.id ≠ metric.id) ++ [metric]

def updateRow (metric : Metric) (rows : List Metric) : List Metric :=
  rows.map fun other => if other.id = metric.id then metric else other

def deleteRow (id : String) (rows : List Metric) : List Metric :=
  rows.filter fun other => other.id ≠ id

/-- The data of a metric goes with its row. -/
def deleteData (id : String) (data : List (String × ℤ)) : List (String × ℤ) :=
  data.filter fun key => key.1 ≠ id

def addMetric (metric : Metric) (inserts commits : Bool) (failsAt : Option ℕ)
    (s : CoreDatabase) : CoreDatabase :=
  if !inserts then s
  else
    let rows := replaceRow metric s.metric
    s.endTransaction commits rows (deleteData metric.id s.metricData)
      (s.caches.updateMetricCache rows failsAt metric)

def updateMetric (metric : Metric) (updates commits : Bool) (failsAt : Option ℕ)
    (s : CoreDatabase) : CoreDatabase :=
  if !updates || !s.metric.any fun other => other.id = metric.id then s
  else
    let rows := updateRow metric s.metric
    s.endTransaction commits rows s.metricData (s.caches.updateMetricCache rows failsAt metric)

/-- The transaction is not committed either if the annotations of the last metric's
instance cannot be deleted. -/
def deleteMetric (id : String) (deletes commits : Bool) (failsAt failsAgainAt : Option ℕ)
    (s : CoreDatabase) : CoreDatabase :=
  if !deletes || !s.metric.any fun other => other.id = id then s
  else
    let rows := deleteRow id s.metric
    s.endTransaction commits rows (deleteData id s.metricData)
      (s.caches.removeMetricFromCache rows failsAt failsAgainAt id)

/-- One row of a batch. A metric that is not in the table violates the foreign key, and a
row that is there already is ignored. -/
def addMetricData (failsAt : Option ℕ) (row : MetricData) (s : CoreDatabase) :
    Except Caches CoreDatabase :=
  if !s.metric.any fun metric => metric.id = row.metricId then .error s.caches
  else if row.key ∈ s.metricData then .ok s
  else
    let s := { s with
      metricData := row.key :: s.metricData
      caches := s.caches.getMetricCache s.metric failsAt }
    match s.caches.metricCache.find? fun metric => metric.id = row.metricId with
    | none => .error s.caches
    | some metric =>
      if row.timestamp ≤ metric.lastTimestamp then .ok s
      else if s.metric.any fun other =>
          other.id = metric.id ∧ other.lastTimestamp < row.timestamp then
        let rows := raiseTimestamp metric.id row.timestamp s.metric
        (s.caches.updateMetricCache rows failsAt
          { metric with lastTimestamp := row.timestamp }).map fun caches =>
            { s with metric := rows, caches := caches }
      else .ok s

/-- The rows in their order; a statement may fail at any of them. -/
def addMetricDataRows (loadFailsAt : Option ℕ) :
    Option ℕ → List MetricData → CoreDatabase → Except Caches CoreDatabase
  | some 0, _, s => .error s.caches
  | _, [], s => .ok s
  | failsAt, row :: batch, s =>
    match s.addMetricData loadFailsAt row with
    | .ok s => addMetricDataRows loadFailsAt (failsAt.map Nat.pred) batch s
    | .error caches => .error caches

def addMetricDataBatch (batch : List MetricData) (failsAt : Option ℕ) (commits : Bool)
    (loadFailsAt : Option ℕ) (s : CoreDatabase) : CoreDatabase :=
  if batch = [] then s
  else match addMetricDataRows loadFailsAt failsAt batch s with
    | .ok t => s.endTransaction commits t.metric t.metricData (.ok t.caches)
    | .error caches => s.endTransaction commits s.metric s.metricData (.error caches)

/-- The operations, with where they fail. All that reads metrics reads them as
`getAllMetrics` does. -/
inductive Action where
  | getAllMetrics (failsAt : Option ℕ)
  | getAllInstances (failsAt : Option ℕ)
  | addMetric (metric : Metric) (inserts commits : Bool) (failsAt : Option ℕ)
  | updateMetric (metric : Metric) (updates commits : Bool) (failsAt : Option ℕ)
  | deleteMetric (id : String) (deletes commits : Bool) (failsAt failsAgainAt : Option ℕ)
  | addMetricDataBatch (batch : List MetricData) (failsAt : Option ℕ) (commits : Bool)
      (loadFailsAt : Option ℕ)

def act (a : Action) (s : CoreDatabase) : CoreDatabase :=
  match a with
  | .getAllMetrics failsAt => { s with caches := s.caches.getMetricCache s.metric failsAt }
  | .getAllInstances failsAt =>
    if s.caches.instanceToName = [] then
      { s with caches := Caches.loadMetricCache s.metric failsAt }
    else s
  | .addMetric metric inserts commits failsAt => s.addMetric metric inserts commits failsAt
  | .updateMetric metric updates commits failsAt => s.updateMetric metric updates commits failsAt
  | .deleteMetric id deletes commits failsAt failsAgainAt =>
    s.deleteMetric id deletes commits failsAt failsAgainAt
  | .addMetricDataBatch batch failsAt commits loadFailsAt =>
    s.addMetricDataBatch batch failsAt commits loadFailsAt

/-- A database that the application finds on starting. -/
def system : System CoreDatabase Action where
  init s := (s.metric.map Metric.id).Nodup ∧ s.caches = ⟨[], []⟩
  next a s := some (s.act a)

/-- A cache that is not empty has the metrics of the table with their timestamps, and the
names are those of the instances of the cached metrics. -/
structure Coherent (s : CoreDatabase) : Prop where
  metrics : s.caches.metricCache ≠ [] → ∀ id timestamp,
    (∃ metric ∈ s.caches.metricCache, metric.id = id ∧ metric.lastTimestamp = timestamp) ↔
      ∃ metric ∈ s.metric, metric.id = id ∧ metric.lastTimestamp = timestamp
  instances : ∀ instanceId, instanceId ∈ s.caches.instanceToName.map Prod.fst ↔
    ∃ metric ∈ s.caches.metricCache, metric.instanceId = some instanceId

/-! ## When the maps follow the table -/

/-- A load reads every row. -/
def Loads (rows : List Metric) (failsAt : Option ℕ) : Prop :=
  (∀ metric ∈ rows, metric.Named) ∧ ∀ k ∈ failsAt, rows.length < k

/-- A load fails before it has put a metric. -/
def LoadsNone (rows : List Metric) (failsAt : Option ℕ) : Prop :=
  failsAt = some 0 ∨ ∃ metric ∈ rows.head?, ¬ metric.Named

/-- What puts a metric is committed, its instance and server have names, the cache can be
loaded if it is empty, and the instance that the metric had keeps a metric. -/
def Puts (s : CoreDatabase) (metric : Metric) (rows : List Metric) (commits : Bool)
    (failsAt : Option ℕ) : Prop :=
  commits ∧ metric.Named ∧ (s.caches.metricCache = [] → Loads rows failsAt) ∧
    ∀ old ∈ s.caches.metricCache, old.id = metric.id →
      ∃ other ∈ (s.caches.put metric).metricCache, other.instanceId = old.instanceId

/-- The rows of a batch before the first that fails. -/
def processed (ids : List String) : Option ℕ → List MetricData → List MetricData
  | some 0, _ => []
  | _, [] => []
  | failsAt, row :: batch =>
    if row.metricId ∈ ids then row :: processed ids (failsAt.map Nat.pred) batch else []

/-- Some row is inserted that is later than the last of its metric. -/
def Raises (rows : List Metric) : List (String × ℤ) → List MetricData → Prop
  | _, [] => False
  | data, row :: batch =>
    if row.key ∈ data then Raises rows data batch
    else (∃ metric ∈ rows, metric.id = row.metricId ∧ metric.lastTimestamp < row.timestamp) ∨
      Raises rows (row.key :: data) batch

/-- The operation is not undone after it has changed the maps, loads the cache whole if it
loads it, and leaves no instance without a metric. -/
def Follows (s : CoreDatabase) : Action → Prop
  | .getAllMetrics failsAt => s.caches.metricCache = [] →
      Loads s.metric failsAt ∨ LoadsNone s.metric failsAt
  | .getAllInstances failsAt => s.caches.instanceToName = [] →
      Loads s.metric failsAt ∨ LoadsNone s.metric failsAt
  | .addMetric metric inserts commits failsAt => inserts →
      s.Puts metric (replaceRow metric s.metric) commits failsAt
  | .updateMetric metric updates commits failsAt => updates →
      metric.id ∈ s.metric.map Metric.id →
      s.Puts metric (updateRow metric s.metric) commits failsAt
  | .deleteMetric id deletes commits failsAt _ => deletes → id ∈ s.metric.map Metric.id →
      commits ∧ (s.caches.metricCache = [] →
        Loads (deleteRow id s.metric) failsAt ∨ LoadsNone (deleteRow id s.metric) failsAt)
  | .addMetricDataBatch batch failsAt commits loadFailsAt =>
      let rows := processed (s.metric.map Metric.id) failsAt batch
      (s.caches.metricCache = [] → (∃ row ∈ rows, row.key ∉ s.metricData) →
        Loads s.metric loadFailsAt) ∧
      ((rows = batch ∧ (∀ k ∈ failsAt, batch.length < k) ∧ commits) ∨
        ¬ Raises s.metric s.metricData rows)

end CoreDatabase
end NumentaApps.MobileCore
