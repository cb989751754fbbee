import NumentaApps.CoreDatabaseImpl
import NumentaApps.GapFilling
import NumentaApps.GroupedByKey
import NumentaApps.MobileMetricCache
import Mathlib.Data.List.Sort
import Mathlib.Data.Rat.Defs
import Mathlib.Algebra.Order.Ring.Rat

/-!
# The database of the mobile application

Metrics, their data, and the anomaly scores aggregated by instance, with the caches of the
series that are read. Scores are what the columns give when they are read as floats.
-/
namespace NumentaApps

def HTMITDatabase.numberOfDaysToSync : ℕ := 14

namespace MobileCore.AggregationType

/-- The number of buckets that are kept of a series. -/
def size (aggregation : AggregationType) : ℕ :=
  HTMITDatabase.numberOfDaysToSync * 24 * 60 / aggregation.minutes

/-- The bucket of a timestamp, as the statements and the code both compute it. -/
def bucket (aggregation : AggregationType) (timestamp : ℤ) : ℤ :=
  timestamp.tdiv aggregation.milliseconds * aggregation.milliseconds

end MobileCore.AggregationType

namespace HTMITDatabase
open TransitionSystem
open MobileCore (AggregationType MetricRow raiseTimestamp)

/-- "aggregation_type_options" -/
def validAggregationTypes : List AggregationType := [.Hour, .Day, .Week]

def learningThreshold : ℤ := 1000

structure Metric where
  id : String
  instanceId : String
  lastTimestamp : ℤ
  deriving DecidableEq, Repr

instance : MetricRow Metric where
  id := Metric.id
  lastTimestamp := Metric.lastTimestamp
  withLastTimestamp timestamp metric := { metric with lastTimestamp := timestamp }
  id_with _ _ := rfl

structure MetricData extends MobileCore.MetricData where
  anomalyScore : ℚ
  nonneg : 0 ≤ anomalyScore
  deriving DecidableEq

/-- The row is of the learning period. -/
def MetricData.Learning (row : MetricData) : Prop := row.rowid < learningThreshold

instance (row : MetricData) : Decidable row.Learning := inferInstanceAs (Decidable (_ < _))

/-- A row of the table of that name; the aggregation is given in minutes. -/
structure InstanceData where
  aggregation : ℕ
  instanceId : String
  timestamp : ℤ
  anomalyScore : ℚ
  deriving DecidableEq, Repr

def InstanceData.key (row : InstanceData) : ℕ × String × ℤ :=
  (row.aggregation, row.instanceId, row.timestamp)

/-- A bucket and its score, if there is one. -/
abbrev Entry := ℤ × Option ℚ

/-! ## The statements -/

/-- "MAX" over the rows of a group. -/
def maxScore (scores : List ℚ) : ℚ := scores.max?.getD 0

def maxRowid (rows : List MetricData) : ℤ := (rows.map fun row => row.rowid).max?.getD 0

/-- The score of a group in `CREATE_INSTANCE_DATA`. -/
def instanceScore (rows : List MetricData) : ℚ :=
  if maxRowid rows < learningThreshold then -maxScore (rows.map MetricData.anomalyScore)
  else maxScore (rows.map MetricData.anomalyScore)

/-- "metric JOIN metric_data", of an instance. -/
def joined (metric : List Metric) (metricData : List MetricData) (instanceId : String) :
    List MetricData :=
  (metric.filter fun m => m.instanceId = instanceId).flatMap fun m =>
    metricData.filter fun row => row.metricId = m.id

def createInstanceData (metric : List Metric) (metricData : List MetricData) (instanceId : String)
    (aggregation : AggregationType) : List InstanceData :=
  (GroupedByKey.group (fun row : MetricData => aggregation.bucket row.timestamp)
    (joined metric metricData instanceId)).map fun entry =>
      ⟨aggregation.minutes, instanceId, entry.1, instanceScore entry.2⟩

def insertInstanceDataAnomalyScore (row : InstanceData) (table : List InstanceData) :
    List InstanceData :=
  if table.any fun other => other.key = row.key then table else table ++ [row]

def updateInstanceDataRow (probation : Prop) [Decidable probation] (row : InstanceData)
    (table : List InstanceData) : List InstanceData :=
  table.map fun other =>
    if other.key = row.key then
      { other with
        anomalyScore :=
          if probation then min other.anomalyScore row.anomalyScore
          else max other.anomalyScore row.anomalyScore }
    else other

/-- The score that a row of metric data brings, negative in the learning period. -/
def probationScore (row : MetricData) : ℚ :=
  if row.Learning then -row.anomalyScore else row.anomalyScore

def updateInstanceDataAnomalyScore (instanceId : String) (row : MetricData)
    (table : List InstanceData) : List InstanceData :=
  validAggregationTypes.foldl (fun table aggregation =>
    let new := ⟨aggregation.minutes, instanceId, aggregation.bucket row.timestamp,
      probationScore row⟩
    updateInstanceDataRow row.Learning new (insertInstanceDataAnomalyScore new table)) table

/-- A row of a cursor on a series; only the series of a metric has the columns of the
probation score and the rowid. -/
structure CursorRow where
  timestamp : ℤ
  anomalyScore : ℚ
  probation : Option (ℚ × ℤ)

/-- What a long that is read as an int is. -/
def getInt (x : ℤ) : ℤ := x.bmod (2 ^ 32)

/-- The score of a row, negative in the learning period. -/
def CursorRow.score (row : CursorRow) : ℚ :=
  match row.probation with
  | some (probationScore, rowid) =>
    if getInt rowid < learningThreshold then -probationScore else row.anomalyScore
  | none => row.anomalyScore

/-- "ORDER BY timestamp DESC LIMIT" -/
def newest (limit : ℕ) (rows : List CursorRow) : List CursorRow :=
  (rows.insertionSort fun a b => b.timestamp ≤ a.timestamp).take limit

/-- What `AGGREGATED_METRIC_ANOMALY_SCORE` selects from a group. -/
def metricRow (entry : ℤ × List MetricData) : CursorRow :=
  { timestamp := entry.1
    anomalyScore := maxScore (entry.2.map fun row => if row.Learning then 0 else row.anomalyScore)
    probation := some
      (maxScore (entry.2.map fun row => if row.Learning then row.anomalyScore else 0),
        maxRowid entry.2) }

def aggregatedMetricAnomalyScore (metricId : String) (aggregation : AggregationType)
    (lastTimestamp : ℤ) (size : ℕ) (metricData : List MetricData) : List CursorRow :=
  newest size ((GroupedByKey.group (fun row : MetricData => aggregation.bucket row.timestamp)
    (metricData.filter fun row =>
      row.metricId = metricId ∧ row.timestamp ≤ lastTimestamp)).map metricRow)

def aggregatedInstanceAnomalyScore (instanceId : String) (aggregation : AggregationType)
    (lastTimestamp : ℤ) (size : ℕ) (instanceData : List InstanceData) : List CursorRow :=
  newest size ((instanceData.filter fun row => row.aggregation = aggregation.minutes ∧
    row.instanceId = instanceId ∧ row.timestamp ≤ lastTimestamp).map fun row =>
      ⟨row.timestamp, row.anomalyScore, none⟩)

/-! ## The caches -/

/-- A map from keys to series, the one last used first. -/
abbrev SeriesCache := List (String × List Entry)

namespace SeriesCache

def get (key : String) (cache : SeriesCache) : Option (List Entry) := cache.lookup key

def remove (key : String) (cache : SeriesCache) : SeriesCache :=
  cache.filter fun entry => entry.1 ≠ key

def put (key : String) (series : List Entry) (cache : SeriesCache) : SeriesCache :=
  (key, series) :: cache.remove key

end SeriesCache

/-- `_aggregateMetricCache` holds no more than this. -/
def lruSize : ℕ := 100

structure Caches where
  metricCache : List Metric
  aggregateMetricCache : SeriesCache
  aggregateInstanceCache : SeriesCache

def seriesKey (id : String) (aggregation : AggregationType) : String := id ++ aggregation.name

namespace Caches

def getMetric (id : String) (c : Caches) : Option Metric := c.metricCache.find? fun m => m.id = id

/-- The latest of the cached metrics; none is earlier than 0. -/
def getLastTimestamp (c : Caches) : ℤ :=
  c.metricCache.foldl (fun timestamp m =>
    if timestamp < m.lastTimestamp then m.lastTimestamp else timestamp) 0

def getMetricsByInstanceId (instanceId : String) (c : Caches) : List Metric :=
  c.metricCache.filter fun m => m.instanceId = instanceId

def invalidateMetricDataCache (c : Caches) : Caches :=
  { c with aggregateMetricCache := [], aggregateInstanceCache := [] }

/-- A cache that is empty is loaded from the table, which drops all series. -/
def getMetricCache (metric : List Metric) (c : Caches) : Caches :=
  if c.metricCache = [] then ⟨metric, [], []⟩ else c

def putMetric (m : Metric) (c : Caches) : Caches :=
  { c with metricCache := c.metricCache.filter (fun other => other.id ≠ m.id) ++ [m] }

def updateMetricCache (metric : List Metric) (m : Metric) (c : Caches) : Caches :=
  (c.getMetricCache metric).putMetric m

def removeInstanceDataCache (instanceId : String) (c : Caches) : Caches :=
  { c with
    aggregateInstanceCache := validAggregationTypes.foldl
      (fun cache aggregation => cache.remove (seriesKey instanceId aggregation))
      c.aggregateInstanceCache }

def removeMetricDataCache (m : Metric) (c : Caches) : Caches :=
  removeInstanceDataCache m.instanceId
    { c with
      aggregateMetricCache := validAggregationTypes.foldl
        (fun cache aggregation => cache.remove (seriesKey m.id aggregation))
        c.aggregateMetricCache }

/-- The metrics of its instance are looked up before the series are removed. -/
def removeMetricFromCache (metric : List Metric) (id : String) (c : Caches) : Caches :=
  let c := c.getMetricCache metric
  match c.getMetric id with
  | none => c
  | some m =>
    let c := { c with metricCache := c.metricCache.filter fun other => other.id ≠ id }
    (c.getMetricCache metric).removeMetricDataCache m

end Caches

/-- What the scores are aggregated of. -/
inductive Series where
  | ofMetric (id : String)
  | ofInstance (id : String)
  deriving DecidableEq, Repr

def Series.id : Series → String
  | .ofMetric id => id
  | .ofInstance id => id

namespace Caches

def getSeries (series : Series) (aggregation : AggregationType) (c : Caches) :
    Option (List Entry) :=
  match series with
  | .ofMetric id => c.aggregateMetricCache.get (seriesKey id aggregation)
  | .ofInstance id => c.aggregateInstanceCache.get (seriesKey id aggregation)

/-- Puts a series first, and drops what has not been used for longest. -/
def putSeries (series : Series) (aggregation : AggregationType) (entries : List Entry)
    (c : Caches) : Caches :=
  match series with
  | .ofMetric id =>
    { c with
      aggregateMetricCache :=
        (c.aggregateMetricCache.put (seriesKey id aggregation) entries).take lruSize }
  | .ofInstance id =>
    { c with
      aggregateInstanceCache := c.aggregateInstanceCache.put (seriesKey id aggregation) entries }

end Caches

structure Database where
  metric : List Metric
  metricData : List MetricData
  instanceData : List InstanceData
  caches : Caches

namespace Database

def deleteData (id : String) (metricData : List MetricData) : List MetricData :=
  metricData.filter fun row => row.metricId ≠ id

/-- The data of a metric that is replaced goes with its row. -/
def addMetric (m : Metric) (s : Database) : Database :=
  let metric := s.metric.filter (fun other => other.id ≠ m.id) ++ [m]
  { s with
    metric := metric
    metricData := deleteData m.id s.metricData
    caches := s.caches.updateMetricCache metric m }

def updateMetric (m : Metric) (s : Database) : Database :=
  if s.metric.any fun other => other.id = m.id then
    let metric := s.metric.map fun other => if other.id = m.id then m else other
    { s with metric := metric, caches := s.caches.updateMetricCache metric m }
  else s

def deleteMetric (id : String) (s : Database) : Database :=
  if s.metric.any fun other => other.id = id then
    let metric := s.metric.filter fun other => other.id ≠ id
    { s with
      metric := metric
      metricData := deleteData id s.metricData
      caches := s.caches.removeMetricFromCache metric id }
  else s

/-- The rows that `refreshInstanceData` writes. -/
def refreshedInstanceData (instanceId : String) (s : Database) : List InstanceData :=
  validAggregationTypes.flatMap (createInstanceData s.metric s.metricData instanceId)

def deleteInstanceData (instanceId : String) (table : List InstanceData) : List InstanceData :=
  table.filter fun row => row.instanceId ≠ instanceId

def refreshInstanceData (instanceId : String) (s : Database) : Database :=
  { s with
    instanceData := deleteInstanceData instanceId s.instanceData ++
      s.refreshedInstanceData instanceId
    caches := s.caches.removeInstanceDataCache instanceId }

def addInstance (instanceId : String) (s : Database) : Database :=
  s.refreshInstanceData instanceId

def deleteInstance (instanceId : String) (s : Database) : Database :=
  let s := { s with
    instanceData := deleteInstanceData instanceId s.instanceData
    caches := s.caches.getMetricCache s.metric }
  (s.caches.getMetricsByInstanceId instanceId).foldl (fun s m => s.deleteMetric m.id) s

/-- With the number of the notifications and annotations that are deleted as well. -/
def deleteOldRecords (time : ℤ) (others : ℕ) (s : Database) : Database :=
  let oldest := time - numberOfDaysToSync * 24 * 60 * 60 * 1000
  let metricData := s.metricData.filter fun row => ¬ row.timestamp < oldest
  let instanceData := s.instanceData.filter fun row => ¬ row.timestamp < oldest
  let deleted := (s.metricData.length - metricData.length) +
    (s.instanceData.length - instanceData.length) + others
  { s with
    metricData := metricData
    instanceData := instanceData
    caches := if 0 < deleted then s.caches.invalidateMetricDataCache else s.caches }

/-- The metric's last timestamp after a row, in the table and in the cache. -/
def updateLastTimestamp (m : Metric) (timestamp : ℤ) (s : Database) : Database :=
  if m.lastTimestamp < timestamp then
    if s.metric.any fun other => other.id = m.id ∧ other.lastTimestamp < timestamp then
      let metric := raiseTimestamp m.id timestamp s.metric
      { s with
        metric := metric
        caches := s.caches.updateMetricCache metric { m with lastTimestamp := timestamp } }
    else s
  else s

/-- One row of a batch. A metric that is not in the table violates the foreign key, and a row
that is there already is ignored. -/
def addMetricData (row : MetricData) (s : Database) : Except Caches Database :=
  if !s.metric.any fun m => m.id = row.metricId then .error s.caches
  else if s.metricData.any fun other => other.key = row.key then .ok s
  else
    let caches := s.caches.getMetricCache s.metric
    match caches.getMetric row.metricId with
    | none => .error caches
    | some m =>
      let s := updateLastTimestamp m row.timestamp { s with
        metricData := s.metricData ++ [row]
        caches := caches.removeMetricDataCache m }
      .ok { s with
        instanceData := updateInstanceDataAnomalyScore m.instanceId row s.instanceData }

def addMetricDataRows : List MetricData → Database → Except Caches Database
  | [], s => .ok s
  | row :: batch, s =>
    match s.addMetricData row with
    | .ok s => addMetricDataRows batch s
    | .error caches => .error caches

/-- What is thrown undoes the tables, but not the caches. -/
def addMetricDataBatch (batch : List MetricData) (s : Database) : Database :=
  match addMetricDataRows batch s with
  | .ok s => s
  | .error caches => { s with caches := caches }

/-! ### Queries -/

def cursor (series : Series) (aggregation : AggregationType) (lastTimestamp : ℤ) (s : Database) :
    List CursorRow :=
  match series with
  | .ofMetric id =>
    aggregatedMetricAnomalyScore id aggregation lastTimestamp aggregation.size s.metricData
  | .ofInstance id =>
    aggregatedInstanceAnomalyScore id aggregation lastTimestamp aggregation.size s.instanceData

/-- The buckets up to the last, in descending order. -/
def expectedTimestamp (aggregation : AggregationType) (last : ℤ) (i : ℕ) : ℤ :=
  last - aggregation.milliseconds * i

/-- As many turns as the inner loop can take from a bucket to a timestamp. -/
def turns (aggregation : AggregationType) (last timestamp : ℤ) (i : ℕ) : ℕ :=
  ((expectedTimestamp aggregation last i - timestamp) / aggregation.milliseconds).toNat + 1

def getAggregatedAnomalyScore (series : Series) (aggregation : AggregationType) (s : Database) :
    List Entry :=
  let lastTimestamp := s.caches.getLastTimestamp
  if lastTimestamp = 0 then []
  else
    let last := aggregation.bucket lastTimestamp
    GapFilling.merge (expectedTimestamp aggregation last) (turns aggregation last) aggregation.size
      ((s.cursor series aggregation (last + aggregation.milliseconds)).map fun row =>
        (row.timestamp, row.score)) 0

/-- The loop over a cached series, which puts each row before those it has taken. -/
def filterResults (timestamp : ℤ) : ℕ → List Entry → List Entry → List Entry
  | _, [], results => results
  | len, row :: rows, results =>
    if len = 0 then results
    else if 0 < timestamp ∧ timestamp < row.1 then filterResults timestamp len rows results
    else filterResults timestamp (len - 1) rows (row :: results)

/-- An aggregation that is not valid is an exception. -/
def getAggregatedScore (series : Series) (aggregation : AggregationType) (timestamp : ℤ)
    (limit : ℕ) (s : Database) : Option (List Entry) × Database :=
  if aggregation ∉ validAggregationTypes then (none, s)
  else
    match s.caches.getSeries series aggregation with
    | some cached =>
      (some (filterResults timestamp limit cached []),
        { s with caches := s.caches.putSeries series aggregation cached })
    | none =>
      let s := { s with caches := s.caches.getMetricCache s.metric }
      let cached := s.getAggregatedAnomalyScore series aggregation
      (some (filterResults timestamp limit cached []),
        { s with caches := s.caches.putSeries series aggregation cached })

def getAggregatedScoreByMetricId (metricId : String) (aggregation : AggregationType)
    (timestamp : ℤ) (limit : ℕ) (s : Database) : Option (List Entry) × Database :=
  s.getAggregatedScore (.ofMetric metricId) aggregation timestamp limit

def getAggregatedScoreByInstanceId (instanceId : String) (aggregation : AggregationType)
    (timestamp : ℤ) (limit : ℕ) (s : Database) : Option (List Entry) × Database :=
  s.getAggregatedScore (.ofInstance instanceId) aggregation timestamp limit

inductive Action where
  | addMetric (m : Metric)
  | updateMetric (m : Metric)
  | deleteMetric (id : String)
  | addInstance (instanceId : String)
  | deleteInstance (instanceId : String)
  | addMetricDataBatch (batch : List MetricData)
  | refreshInstanceData (instanceId : String)
  | deleteOldRecords (time : ℤ) (others : ℕ)
  | getAggregatedScoreByMetricId (metricId : String) (aggregation : AggregationType)
      (timestamp : ℤ) (limit : ℕ)
  | getAggregatedScoreByInstanceId (instanceId : String) (aggregation : AggregationType)
      (timestamp : ℤ) (limit : ℕ)

def act (a : Action) (s : Database) : Database :=
  match a with
  | .addMetric m => s.addMetric m
  | .updateMetric m => s.updateMetric m
  | .deleteMetric id => s.deleteMetric id
  | .addInstance instanceId => s.addInstance instanceId
  | .deleteInstance instanceId => s.deleteInstance instanceId
  | .addMetricDataBatch batch => s.addMetricDataBatch batch
  | .refreshInstanceData instanceId => s.refreshInstanceData instanceId
  | .deleteOldRecords time others => s.deleteOldRecords time others
  | .getAggregatedScoreByMetricId metricId aggregation timestamp limit =>
    (s.getAggregatedScoreByMetricId metricId aggregation timestamp limit).2
  | .getAggregatedScoreByInstanceId instanceId aggregation timestamp limit =>
    (s.getAggregatedScoreByInstanceId instanceId aggregation timestamp limit).2

/-- The scores of instances are of buckets, one for each key. -/
structure Stored (table : List InstanceData) : Prop where
  nodup : (table.map InstanceData.key).Nodup
  bucket : ∀ row ∈ table, ∃ aggregation ∈ validAggregationTypes,
    row.aggregation = aggregation.minutes ∧ aggregation.bucket row.timestamp = row.timestamp

/-- A database that the application finds on starting. -/
def system : System Database Action where
  init s := Stored s.instanceData ∧ s.caches = ⟨[], [], []⟩
  next a s := some (s.act a)

end Database
end HTMITDatabase
end NumentaApps
