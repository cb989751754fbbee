import NumentaApps.CollectionTiling
import NumentaApps.MetricRepository
import Mathlib.Logic.Function.Basic

/-!
# The metric collector

In each cycle the collector takes the metrics that are due and not in quarantine, lets its pool of
workers collect them, and processes the results one by one as they come. Times are in microseconds.
-/
namespace NumentaApps.MetricCollection
open TransitionSystem CloudWatch Repository

/-- What an adapter raises. -/
inductive CollectorException where
  | collect (ex : CollectError)
  | other (text : String)
  deriving DecidableEq, Repr

/-- The start of an error grace period, as its deadline. -/
structure CollectorError where
  deadline : ℤ
  error : CollectorException
  deriving DecidableEq, Repr

/-- The columns that the collector changes. -/
structure MetricRow where
  uid : String
  lastTimestamp : Option ℤ
  status : MetricStatus
  message : Option CollectorException
  collectorError : Option CollectorError
  deriving DecidableEq, Repr

/-- Those that do not change. -/
structure MetricFacts where
  server : String → String
  pollInterval : String → {p : ℕ // 0 < p}

structure Task where
  metricID : String
  rangeStart : Option ℤ
  updateResourceStatus : Bool

/-- `_DataCollectionResult`, with the ranges that were queried for it. -/
structure Result (V : Type) where
  metricID : String
  creationTime : ℤ
  resourceStatus : Option (Except CollectorException String)
  data : Except CollectorException (List (Datapoint V))
  nextCallStart : Option ℤ
  queried : List (ℤ × ℤ)

structure MetricInfoCacheItem where
  quarantineEndTime : ℤ
  lastAccessTime : ℤ

structure ResourceInfoCacheItem where
  nextResourceStatusUpdateTime : ℤ
  error : Option CollectorException

/-- Where the thread is that processes the results. -/
inductive Dispatch (V : Type) where
  | waiting
  | saving (result : Result V)
  | streaming (result : Result V)
  | concluding (result : Result V)

inductive Cycle (V : Type) where
  | idle
  | selected (metricsToUpdate : List MetricRow)
  | collecting (metricsToUpdate : List MetricRow) (launched : ℤ) (tasks : List Task)
      (results : List (Result V)) (dispatch : Dispatch V)

structure MetricCollector (V : Type) where
  nextCacheGarbageCollectionTime : ℤ
  metricInfoCache : String → Option MetricInfoCacheItem
  resourceInfoCache : String → ResourceInfoCacheItem
  cycle : Cycle V

/-- What became of the data of a result: it was given to the metric streamer, or the collector died
before that. -/
inductive Fate where
  | pending
  | streamed
  | lost
  deriving DecidableEq, Repr

structure Batch (V : Type) where
  uid : String
  samples : List (Datapoint V)
  fate : Fate
  deriving DecidableEq, Repr

/-- The end of the processing of a result, and the run of the collector that it was in. -/
structure Outcome where
  run : ℕ
  time : ℤ
  creationTime : ℤ
  failed : Bool
  empty : Bool
  deriving DecidableEq, Repr

/-- The table of the CloudWatch metrics, and the collector. The rest says what has happened: the uids
that were in use, the collection that the saved results of a metric make up, their data, the outcomes of
all results, and how often the collector died. -/
structure HtmIt (V : Type) where
  clock : ℤ
  metrics : List MetricRow
  collector : Option (MetricCollector V)
  known : List String
  collection : String → Collection V
  batches : List (Batch V)
  outcomes : String → List Outcome
  deaths : ℕ

variable {V : Type}

def second : ℤ := 1000000

def resourceStatusUpdateInterval : ℤ := 150 * second

def metricInfoCacheItemExpiration : ℤ := 3600 * second

/-- Half of the polling interval. -/
def quarantineDuration (pollInterval : {p : ℕ // 0 < p}) : ℤ := pollInterval.1 * (second / 2)

def emptyResourceInfo : ResourceInfoCacheItem := ⟨0, none⟩

/-- The caches of a new collector. -/
def MetricCollector.new : MetricCollector V where
  nextCacheGarbageCollectionTime := 0
  metricInfoCache := fun _ => none
  resourceInfoCache := fun _ => emptyResourceInfo
  cycle := .idle

namespace MetricCollector

/-- Reads the end of the quarantine; the item is created when it is missing. -/
def quarantineEndTime (uid : String) (collector : MetricCollector V) : ℤ :=
  match collector.metricInfoCache uid with
  | some item => item.quarantineEndTime
  | none => 0

def touch (now : ℤ) (uid : String) (collector : MetricCollector V) : MetricCollector V :=
  { collector with
    metricInfoCache := Function.update collector.metricInfoCache uid
      (some ⟨collector.quarantineEndTime uid, now⟩) }

def setQuarantine (now quarantineEndTime : ℤ) (uid : String) (collector : MetricCollector V) :
    MetricCollector V :=
  { collector with
    metricInfoCache := Function.update collector.metricInfoCache uid (some ⟨quarantineEndTime, now⟩) }

def garbageCollectInfoCache (interval now : ℤ) (collector : MetricCollector V) : MetricCollector V :=
  { collector with
    nextCacheGarbageCollectionTime := now + interval
    resourceInfoCache := fun _ => emptyResourceInfo
    metricInfoCache := fun uid => (collector.metricInfoCache uid).filter fun item =>
      !decide (item.lastAccessTime + metricInfoCacheItemExpiration < now) }

def setResourceError (server : String) (error : Option CollectorException)
    (collector : MetricCollector V) : MetricCollector V :=
  { collector with
    resourceInfoCache := Function.update collector.resourceInfoCache server
      { collector.resourceInfoCache server with error := error } }

/-- The task of a metric. The status of its resource is asked for now and then. -/
def task (facts : MetricFacts) (now : ℤ) (metric : MetricRow) (collector : MetricCollector V) :
    Task × MetricCollector V :=
  let item := collector.resourceInfoCache (facts.server metric.uid)
  if item.nextResourceStatusUpdateTime ≤ now then
    (⟨metric.uid, metric.lastTimestamp, true⟩, { collector with
      resourceInfoCache := Function.update collector.resourceInfoCache (facts.server metric.uid)
        { item with nextResourceStatusUpdateTime := now + resourceStatusUpdateInterval } })
  else (⟨metric.uid, metric.lastTimestamp, false⟩, collector)

def tasks (facts : MetricFacts) (now : ℤ) : List MetricRow → MetricCollector V →
    List Task × MetricCollector V
  | [], collector => ([], collector)
  | metric :: metrics, collector =>
    let first := collector.task facts now metric
    let rest := first.2.tasks facts now metrics
    (first.1 :: rest.1, rest.2)

end MetricCollector

/-- What a worker meets: no adapter, or one that answers or raises. -/
inductive Answer (V : Type) where
  | failed (text : String)
  | called (service : Service V) (now : ℤ)

/-- `_collect`. -/
def collect (facts : MetricFacts) (task : Task) (creationTime : ℤ) (answer : Answer V)
    (status : Except CollectorException String) : Result V :=
  let resourceStatus := if task.updateResourceStatus then some status else none
  match answer with
  | .failed text => ⟨task.metricID, creationTime, resourceStatus, .error (.other text), none, []⟩
  | .called service now =>
    let collected := CloudWatch.getMetricData service (facts.pollInterval task.metricID) now task.rangeStart none
    match collected.result with
    | .error ex =>
      ⟨task.metricID, creationTime, resourceStatus, .error (.collect ex), none, collected.queried⟩
    | .ok (samples, next) =>
      ⟨task.metricID, creationTime, resourceStatus, .ok samples, some next, collected.queried⟩

namespace Result

/-- The data, where there is some. -/
def samples (result : Result V) : List (Datapoint V) := result.data.toOption.getD []

def dataError (result : Result V) : Option CollectorException :=
  match result.data with
  | .error ex => some ex
  | .ok _ => none

def newResourceStatus (result : Result V) : Option String := result.resourceStatus.bind Except.toOption

/-- There is something to process, and no data. -/
def isEmpty (result : Result V) : Bool :=
  (result.dataError.isNone || result.newResourceStatus.isSome) && result.samples.isEmpty

end Result

namespace HtmIt

variable (facts : MetricFacts) (gracePeriod : ℤ)

/-- Changes the row of a metric, where it exists. -/
def updateMetric (uid : String) (f : MetricRow → MetricRow) (metrics : List MetricRow) : List MetricRow :=
  metrics.map fun row => if row.uid = uid then f row else row

instance metricReadinessDecidable (lastTimestamp : Option ℤ) (pollInterval : ℕ) (utcTimestamp : ℤ) :
    Decidable (metricReadinessPredicate lastTimestamp pollInterval utcTimestamp) :=
  match lastTimestamp with
  | none => isTrue trivial
  | some _ => inferInstanceAs (Decidable (_ ≥ _))

/-- `getCloudwatchMetricsPendingDataCollection`. -/
def getMetricsPendingDataCollection (s : HtmIt V) : List MetricRow :=
  s.metrics.filter fun row =>
    (row.status = .active ∨ row.status = .pendingData) ∧
      metricReadinessPredicate row.lastTimestamp (facts.pollInterval row.uid).1 (s.clock - s.clock % second)

/-- The metrics that are not in quarantine; all are looked up in the cache. -/
def candidates (metrics : List MetricRow) (s : HtmIt V) (collector : MetricCollector V) :
    List MetricRow × MetricCollector V :=
  (metrics.filter fun row => decide (collector.quarantineEndTime row.uid ≤ s.clock),
    metrics.foldl (fun collector row => collector.touch s.clock row.uid) collector)

/-- The collector dies, with what it has not given to the streamer yet. -/
def die (s : HtmIt V) : HtmIt V := { s with
  collector := none
  batches := s.batches.map fun batch => if batch.fate = .pending then { batch with fate := .lost } else batch
  deaths := s.deaths + 1 }

/-- Garbage collection of the caches, if it is due, and the selection of the metrics. -/
def select (s : HtmIt V) (collector : MetricCollector V) : HtmIt V :=
  let collector := if collector.nextCacheGarbageCollectionTime < s.clock then
    collector.garbageCollectInfoCache (gracePeriod * 2) s.clock else collector
  let chosen := s.candidates (s.getMetricsPendingDataCollection facts) collector
  { s with collector := some { chosen.2 with
      cycle := if chosen.1 = [] then .idle else .selected chosen.1 } }

/-- The caches are updated from the next result. -/
def receive (result : Result V) (s : HtmIt V) (collector : MetricCollector V) : MetricCollector V :=
  let collector := match result.resourceStatus with
    | none => collector
    | some (.error ex) => collector.setResourceError (facts.server result.metricID) (some ex)
    | some (.ok _) => collector.setResourceError (facts.server result.metricID) none
  if result.isEmpty then
    collector.setQuarantine s.clock
      (result.creationTime + quarantineDuration (facts.pollInterval result.metricID)) result.metricID
  else collector

/-- The start time of the next call is saved, if the metric is still there. -/
def save (result : Result V) (s : HtmIt V) : HtmIt V :=
  match result.nextCallStart with
  | none => s
  | some next =>
    if result.metricID ∈ s.metrics.map MetricRow.uid then
      { s with
        metrics := updateMetric result.metricID (fun row => { row with lastTimestamp := some next }) s.metrics
        collection := Function.update s.collection result.metricID ⟨some next,
          (s.collection result.metricID).queried ++ result.queried,
          (s.collection result.metricID).samples ++ result.samples⟩
        batches := s.batches ++ [⟨result.metricID, result.samples, .pending⟩] }
    else s

/-- The data are given to the metric streamer. -/
def stream (s : HtmIt V) : HtmIt V := { s with
  batches := s.batches.map fun batch =>
    if batch.fate = .pending then { batch with fate := .streamed } else batch }

/-- `_handleMetricCollectionError`, but for the quarantine. -/
def handleMetricCollectionError (metric : MetricRow) (error : CollectorException) (s : HtmIt V) :
    List MetricRow :=
  match metric.collectorError with
  | none =>
    -- the error grace period begins
    updateMetric metric.uid
      (fun row => { row with collectorError := some ⟨s.clock + gracePeriod, error⟩ }) s.metrics
  | some old =>
    if old.deadline < s.clock then
      updateMetric metric.uid (fun row => { row with
        status := .error
        message := some error }) s.metrics
    else s.metrics

/-- The error of the data, or else the last one of the resource. -/
def errorOf (metric : MetricRow) (result : Result V) (collector : MetricCollector V) :
    Option CollectorException :=
  result.dataError <|> (collector.resourceInfoCache (facts.server metric.uid)).error

/-- Errors are taken care of. -/
def conclude (metric : MetricRow) (result : Result V) (s : HtmIt V) (collector : MetricCollector V) :
    HtmIt V :=
  let outcome : Outcome :=
    ⟨s.deaths, s.clock, result.creationTime, (errorOf facts metric result collector).isSome, result.isEmpty⟩
  let s' := { s with
    outcomes := Function.update s.outcomes metric.uid (s.outcomes metric.uid ++ [outcome]) }
  match errorOf facts metric result collector with
  | some error => { s' with
      metrics := s.handleMetricCollectionError gracePeriod metric error
      collector := some (collector.setQuarantine s.clock
        (result.creationTime + quarantineDuration (facts.pollInterval metric.uid)) metric.uid) }
  | none => { s' with
      metrics := if metric.collectorError.isSome then
        updateMetric metric.uid (fun row => { row with collectorError := none }) s.metrics else s.metrics
      collector := some collector }

/-- The next step of the dispatching thread. A result of no metric of the cycle would end the program. -/
def dispatch (s : HtmIt V) (collector : MetricCollector V) : Option (HtmIt V) :=
  match collector.cycle with
  | .collecting metrics launched tasks (result :: results) .waiting =>
    some { s with collector := some { s.receive facts result collector with
      cycle := .collecting metrics launched tasks results (.saving result) } }
  | .collecting metrics launched tasks results (.saving result) =>
    some { s.save result with collector := some { collector with
      cycle := .collecting metrics launched tasks results (.streaming result) } }
  | .collecting metrics launched tasks results (.streaming result) =>
    some { s.stream with collector := some { collector with
      cycle := .collecting metrics launched tasks results (.concluding result) } }
  | .collecting metrics launched tasks results (.concluding result) =>
    match metrics.find? fun metric => metric.uid = result.metricID with
    | none => some s.die
    | some metric =>
      some (s.conclude facts gracePeriod metric result { collector with
        cycle := .collecting metrics launched tasks results .waiting })
  | _ => none

/-- Metrics are added, removed and activated by others at any time, and the collector may die at any
time and is started again. -/
inductive Action (V : Type) where
  | tick (now : ℤ)
  | add (uid : String)
  | remove (uid : String)
  | setStatus (uid : String) (status : MetricStatus) (message : Option CollectorException)
  | start
  | die
  | select
  | launch
  | collect (i : ℕ) (creationTime : ℤ) (answer : Answer V) (status : Except CollectorException String)
  | dispatch
  | finish

def act (action : Action V) (s : HtmIt V) : Option (HtmIt V) :=
  match action, s.collector with
  | .tick now, _ => if s.clock ≤ now then some { s with clock := now } else none
  | .add uid, _ =>
    if uid ∈ s.known then none
    else some { s with
      metrics := s.metrics ++ [⟨uid, none, .unmonitored, none, none⟩]
      known := uid :: s.known }
  | .remove uid, _ => some { s with metrics := s.metrics.filter fun row => row.uid ≠ uid }
  | .setStatus uid status message, _ =>
    some { s with metrics := updateMetric uid (fun row => { row with
      status := status
      message := message }) s.metrics }
  | .start, none => some { s with collector := some .new }
  | .die, some _ => some s.die
  | .select, some collector =>
    match collector.cycle with
    | .idle => some (s.select facts gracePeriod collector)
    | _ => none
  | .launch, some collector =>
    match collector.cycle with
    | .selected metrics =>
      let launched := collector.tasks facts s.clock metrics
      some { s with collector := some { launched.2 with
        cycle := .collecting metrics s.clock launched.1 [] .waiting } }
    | _ => none
  | .collect i creationTime answer status, some collector =>
    match collector.cycle with
    | .collecting metrics launched tasks results dispatch =>
      match tasks[i]? with
      | some task =>
        if launched ≤ creationTime ∧ creationTime ≤ s.clock then
          some { s with collector := some { collector with
            cycle := .collecting metrics launched (tasks.eraseIdx i)
              (results ++ [MetricCollection.collect facts task creationTime answer status]) dispatch } }
        else none
      | none => none
    | _ => none
  | .dispatch, some collector => s.dispatch facts gracePeriod collector
  | .finish, some collector =>
    match collector.cycle with
    | .collecting _ _ [] [] .waiting => some { s with collector := some { collector with cycle := .idle } }
    | _ => none
  | _, _ => none

/-- No metrics at first. -/
def system : System (HtmIt V) (Action V) where
  init s := s.metrics = [] ∧ s.collector = none ∧ s.known = [] ∧ s.collection = (fun _ => ⟨none, [], []⟩) ∧
    s.batches = [] ∧ s.outcomes = (fun _ => []) ∧ s.deaths = 0
  next := act facts gracePeriod

end HtmIt

end NumentaApps.MetricCollection
