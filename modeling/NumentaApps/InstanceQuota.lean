import Mathlib.Data.Finset.Card
import Mathlib.Data.List.Perm.Basic
import NumentaApps.MetricRepository
import NumentaApps.TransitionSystem

/-!
# The instance quota

The tables that `getInstanceCount` reads, the two quota checks, and the requests that create
models: a request is checked against the committed database and then goes through the
transactions of its datasource adapter, one at a time.
-/
namespace NumentaApps.Quota
open Repository TransitionSystem

/-- Texts as the collation of the database takes them: those that it does not tell apart, as
utf8_general_ci does not tell cases apart, are one. -/
class Collation (S : Type) where
  ofString : String → S
  append : S → S → S

inductive Datasource where
  | cloudwatch | autostack | custom
  deriving DecidableEq, Repr

/-- A row of the metric table; the dimensions are those of a cloudwatch metric's parameters. -/
structure MetricRow (S K : Type) where
  uid : S
  datasource : Datasource
  name : S
  server : Option S
  status : MetricStatus
  dimensions : Option K
  deriving DecidableEq, Repr

structure AutostackRow (S : Type) where
  uid : S
  name : S
  region : S
  deriving DecidableEq, Repr

/-- The tables metric, autostack and metric_set; a row of the last one is a metric with the
autostack it belongs to. -/
structure Database (S K : Type) where
  metric : List (MetricRow S K)
  autostack : List (AutostackRow S)
  metricSet : List (S × S)
  uid_nodup : (metric.map MetricRow.uid).Nodup

variable {S K : Type} [DecidableEq S] [Collation S]

/-- `_getCanonicalResourceName` of the autostack adapter. -/
def canonicalResourceName (autostackUid : S) : S :=
  Collation.append (Collation.ofString "Autostacks/") autostackUid

namespace Database

/-! ## Queries -/

/-- The servers of the monitored metrics. -/
def monitoredServers (db : Database S K) : Finset S :=
  ((db.metric.filter fun m => m.status ≠ .unmonitored).filterMap MetricRow.server).toFinset

/-- The autostacks without metrics. -/
def emptyAutostacks (db : Database S K) : Finset S :=
  ((db.autostack.map AutostackRow.uid).filter fun uid =>
    uid ∉ db.metricSet.map Prod.snd).toFinset

def getInstanceCount (db : Database S K) : ℕ := db.monitoredServers.card + db.emptyAutostacks.card

/-- The metrics of a server, whether they are monitored or not; no server is matched by the
metrics without one. -/
def listMetricIDsForInstance (server : Option S) (db : Database S K) : List S :=
  (db.metric.filter fun m => m.server = server).map MetricRow.uid

def getAutostackForNameAndRegion (name region : S) (db : Database S K) : Option (AutostackRow S) :=
  db.autostack.find? fun a => a.name = name ∧ a.region = region

def getMetric (uid : S) (db : Database S K) : Option (MetricRow S K) :=
  db.metric.find? fun m => m.uid = uid

def getCustomMetricByName (name : S) (db : Database S K) : Option (MetricRow S K) :=
  db.metric.find? fun m => m.name = name ∧ m.datasource = .custom

/-- The metrics of an autostack with the given name. -/
def getAutostackMetricsWithMetricName (autostackId name : S) (db : Database S K) :
    List (MetricRow S K) :=
  db.metric.filter fun m => (m.uid, autostackId) ∈ db.metricSet ∧ m.name = name

/-- The cloudwatch metrics that monitor the same dimensions. -/
def matchingCloudwatchMetrics [DecidableEq K] (name server : S) (dimensions : K)
    (db : Database S K) : List (MetricRow S K) :=
  db.metric.filter fun m => m.datasource = .cloudwatch ∧ m.server = some server ∧
    m.name = name ∧ m.dimensions = some dimensions

/-! ## Updates -/

/-- An identifier from `createGuid` occurs nowhere in the database. -/
def Fresh (uid : S) (db : Database S K) : Prop :=
  uid ∉ db.metric.map MetricRow.uid ∧ uid ∉ db.autostack.map AutostackRow.uid ∧
    uid ∉ db.metricSet.map Prod.snd ∧
      some (canonicalResourceName uid) ∉ db.metric.map MetricRow.server

instance (uid : S) (db : Database S K) : Decidable (db.Fresh uid) :=
  inferInstanceAs (Decidable (_ ∧ _ ∧ _ ∧ _))

def addMetric (row : MetricRow S K) (db : Database S K)
    (h : row.uid ∉ db.metric.map MetricRow.uid) : Database S K where
  metric := db.metric ++ [row]
  autostack := db.autostack
  metricSet := db.metricSet
  uid_nodup := by
    rw [List.map_append, List.nodup_append]
    refine ⟨db.uid_nodup, List.nodup_singleton _, ?_⟩
    rintro uid hmem uid' hrow rfl
    exact h (List.mem_singleton.mp hrow ▸ hmem)

def addAutostack (row : AutostackRow S) (db : Database S K) : Database S K :=
  { db with autostack := db.autostack ++ [row] }

def addMetricToAutostack (autostackId metricId : S) (db : Database S K) : Database S K :=
  { db with metricSet := db.metricSet ++ [(metricId, autostackId)] }

/-- Updates the metric row with the given identifier. -/
def updateMetric (uid : S) (columns : MetricRow S K → MetricRow S K)
    (hcolumns : ∀ m, (columns m).uid = m.uid) (db : Database S K) : Database S K where
  metric := db.metric.map fun m => if m.uid = uid then columns m else m
  autostack := db.autostack
  metricSet := db.metricSet
  uid_nodup := by
    have hmap : (db.metric.map fun m => if m.uid = uid then columns m else m).map MetricRow.uid =
        db.metric.map MetricRow.uid := by
      rw [List.map_map]
      refine List.map_congr_left fun m _ => ?_
      simp only [Function.comp]
      split
      · exact hcolumns m
      · rfl
    exact hmap ▸ db.uid_nodup

def deleteModel (uid : S) (db : Database S K) : Database S K :=
  db.updateMetric uid (fun m => { m with dimensions := none, status := .unmonitored }) fun _ => rfl

/-- The rows of metric_set go with their metric. -/
def deleteMetric (uid : S) (db : Database S K) : Database S K where
  metric := db.metric.filter fun m => m.uid ≠ uid
  autostack := db.autostack
  metricSet := db.metricSet.filter fun p => p.1 ≠ uid
  uid_nodup := db.uid_nodup.sublist (List.filter_sublist.map _)

end Database

/-! ## Quota checks -/

def checkQuotaForInstanceAndRaise (quota : ℕ) (instanceName : Option S) (db : Database S K) :
    Bool :=
  quota ≤ db.getInstanceCount ∧ db.listMetricIDsForInstance instanceName = []

def checkQuotaForCustomMetricAndRaise (quota : ℕ) (db : Database S K) : Bool :=
  quota ≤ db.getInstanceCount

/-! ## Requests -/

/-- A custom metric is referred to by its identifier or by its name. -/
inductive CustomMetric (S : Type) where
  | uid (uid : S)
  | metric (name : S)
  deriving DecidableEq, Repr

/-- Model specifications as `createModel` has upgraded them; those of cloudwatch metrics come
with the name and the canonical server name that the metric adapter makes of them. -/
inductive ModelSpec (S K : Type) where
  | cloudwatch (name server : S) (dimensions : K)
  | autostack (name region metricName : S)
  | custom (metric : CustomMetric S) (resource : Option S)
  deriving DecidableEq, Repr

/-- Where a request is in `createModel`. The instance name is read before the check, the
autostack and the custom metric before the transaction that starts the monitoring. -/
inductive Request (S K : Type) where
  | received (spec : ModelSpec S K)
  | named (spec : ModelSpec S K) (instanceName : Option S)
  | admitted (spec : ModelSpec S K)
  | createAutostack (name region metricName : S)
  | monitorAutostack (autostackId metricName : S)
  | monitorCustom (uid : S) (resource : Option S)
  | quotaError
  | failed
  | done
  deriving DecidableEq, Repr

def ModelSpec.getInstanceName (db : Database S K) : ModelSpec S K → Option S
  | .cloudwatch _ server _ => some server
  | .autostack name region _ =>
    (db.getAutostackForNameAndRegion name region).map fun a => canonicalResourceName a.uid
  | .custom _ resource => resource

/-- Does the check raise? -/
def ModelSpec.checkQuota (quota : ℕ) (instanceName : Option S) (db : Database S K) :
    ModelSpec S K → Bool
  | .custom _ _ => checkQuotaForCustomMetricAndRaise quota db
  | _ => checkQuotaForInstanceAndRaise quota instanceName db

/-- The status that `startMonitoring` leaves; without swarm params the model waits for data. -/
def startStatus (swarmParams : Bool) : MetricStatus :=
  if swarmParams then .createPending else .pendingData

namespace Request

variable [DecidableEq K] (uid : S) (swarmParams : Bool) (db : Database S K)

/-- The transaction of a cloudwatch metric. -/
def monitorCloudwatch (name server : S) (dimensions : K) :
    Option (Database S K × Request S K) :=
  if db.matchingCloudwatchMetrics name server dimensions ≠ [] then some (db, .done)
  else if h : db.Fresh uid then
    some (db.addMetric
      ⟨uid, .cloudwatch, name, some server, startStatus swarmParams, some dimensions⟩ h.1, .done)
  else none

/-- `createAutostack`; the index on name and region is unique. -/
def addNewAutostack (name region metricName : S) : Option (Database S K × Request S K) :=
  if (db.getAutostackForNameAndRegion name region).isSome then some (db, .failed)
  else if db.Fresh uid then
    some (db.addAutostack ⟨uid, name, region⟩, .monitorAutostack uid metricName)
  else none

/-- The transaction of an autostack metric, which refers to its autostack. -/
def monitorAutostackMetric (autostackId metricName : S) :
    Option (Database S K × Request S K) :=
  if autostackId ∉ db.autostack.map AutostackRow.uid then some (db, .failed)
  else if db.getAutostackMetricsWithMetricName autostackId metricName ≠ [] then some (db, .done)
  else if h : db.Fresh uid then
    some ((db.addMetric ⟨uid, .autostack, metricName, some (canonicalResourceName autostackId),
      .createPending, none⟩ h.1).addMetricToAutostack autostackId uid, .done)
  else none

/-- A new custom metric is its own server. -/
def findCustomMetric (resource : Option S) : CustomMetric S →
    Option (Database S K × Request S K)
  | .uid metricId =>
    if (db.getMetric metricId).isSome then some (db, .monitorCustom metricId resource)
    else some (db, .failed)
  | .metric name =>
    match db.getCustomMetricByName name with
    | some m => some (db, .monitorCustom m.uid resource)
    | none =>
      if h : db.Fresh uid then
        some (db.addMetric ⟨uid, .custom, name, some name, .unmonitored, none⟩ h.1,
          .monitorCustom uid resource)
      else none

/-- The transaction of a custom metric. -/
def monitorCustomMetric (metricId : S) (resource : Option S) :
    Database S K × Request S K :=
  match db.getMetric metricId with
  | none => (db, .failed)
  | some m =>
    if m.datasource ≠ .custom then (db, .failed)
    else if m.status ≠ .unmonitored then (db, .done)
    else (db.updateMetric metricId (fun m => { m with
        server := resource.or m.server
        status := startStatus swarmParams }) fun _ => rfl, .done)

/-- The next step of a request; the identifier and the swarm params are for the steps that
need them. -/
def step (quota : ℕ) : Request S K → Option (Database S K × Request S K)
  | .received spec => some (db, .named spec (spec.getInstanceName db))
  | .named spec instanceName =>
    some (db, if spec.checkQuota quota instanceName db then .quotaError else .admitted spec)
  | .admitted (.cloudwatch name server dimensions) =>
    monitorCloudwatch uid swarmParams db name server dimensions
  | .admitted (.autostack name region metricName) =>
    match db.getAutostackForNameAndRegion name region with
    | some a => some (db, .monitorAutostack a.uid metricName)
    | none => some (db, .createAutostack name region metricName)
  | .admitted (.custom metric resource) => findCustomMetric uid db resource metric
  | .createAutostack name region metricName => addNewAutostack uid db name region metricName
  | .monitorAutostack autostackId metricName =>
    monitorAutostackMetric uid db autostackId metricName
  | .monitorCustom metricId resource =>
    some (monitorCustomMetric swarmParams db metricId resource)
  | .quotaError | .failed | .done => none

end Request

/-! ## Interleavings -/

/-- The committed database and the requests, each run by a thread of its own. -/
structure Service (S K : Type) where
  db : Database S K
  requests : List (Request S K)

inductive Action (S K : Type) where
  | createModel (spec : ModelSpec S K)
  | advance (i : ℕ) (uid : S) (swarmParams : Bool)
  | raise (i : ℕ)
  | deleteModel (uid : S)
  | deleteMetric (uid : S)

namespace Service

variable [DecidableEq K]

/-- A request may fail at any step for reasons of its own; unmonitoring a metric resets its
row, and deletes it unless it is a custom one. -/
def act (quota : ℕ) (s : Service S K) : Action S K → Option (Service S K)
  | .createModel spec => some { s with requests := s.requests ++ [.received spec] }
  | .advance i uid swarmParams =>
    (s.requests[i]?.bind (·.step uid swarmParams s.db quota)).map fun p =>
      ⟨p.1, s.requests.set i p.2⟩
  | .raise i => some { s with requests := s.requests.set i .failed }
  | .deleteModel uid => some { s with db := s.db.deleteModel uid }
  | .deleteMetric uid => some { s with db := s.db.deleteMetric uid }

end Service

end NumentaApps.Quota
