import NumentaApps.KeyRange
import NumentaApps.TaurusDatabase
import NumentaApps.TransitionSystem
import Mathlib.Logic.Function.Basic

/-!
# The notifications of the Taurus application

`TaurusNotificationService.synchronizeNotifications` looks for anomalies of the favorite companies
since the hour of its last run. The time that it keeps for a company is that of the anomaly it has
notified last. Times are in milliseconds.
-/
namespace NumentaApps.Taurus
open TransitionSystem
open KeyRange (OrderedMap)

inductive MetricType where
  | stockPrice
  | stockVolume
  | twitterVolume
  | newsVolume
  deriving DecidableEq, Repr

def MetricType.flag : MetricType → BitVec 32
  | stockPrice => 1
  | stockVolume => 2
  | twitterVolume => 4
  | newsVolume => 8

namespace MetricType

def stockTypes : List MetricType := [stockVolume, stockPrice]

def fromMask (bitmask : BitVec 32) : List MetricType :=
  [stockPrice, stockVolume, twitterVolume, newsVolume].filter fun t => bitmask &&& t.flag ≠ 0

end MetricType

structure AnomalyValue (Single : Type) where
  anomaly : Single
  metricMask : BitVec 32

/-- The values of an instance, one at the beginning of an hour. -/
structure InstanceValues (Single : Type) where
  values : OrderedMap ℤ (Option (AnomalyValue Single))
  hourly : ∀ e ∈ values.entries, e.1 % millisPerHour = 0

/-- A notification that was fired, with the number and the time of the run. -/
structure Fired where
  run : ℕ
  time : ℤ
  instanceId : String
  timestamp : ℤ
  deriving DecidableEq, Repr

structure TaurusNotificationService where
  favorites : List String
  favorites_nodup : favorites.Nodup
  /-- Zero for never. -/
  lastNotificationTime : String → ℤ
  lastRunTime : Option ℤ
  runs : ℕ
  fired : List Fired

/-- What a run finds: the preference, the clock and the database, if there is one. -/
structure SynchronizeNotifications (Single : Type) where
  enable : Bool
  now : ℤ
  database : Option (String → InstanceValues Single)

namespace TaurusNotificationService

variable {Single : Type} (isRed : Single → Bool)

/-- The anomaly is red, that is its logarithmic scale reaches the floor of the red bars, and one of the
stock. -/
def isStockAnomaly : Option (AnomalyValue Single) → Bool
  | none => false
  | some value =>
    isRed value.anomaly && (MetricType.fromMask value.metricMask).any (· ∈ MetricType.stockTypes)

/-- Both ends included; no time is zero. -/
def getInstanceData (database : String → InstanceValues Single) (instanceId : String)
    (fromTime toTime : ℤ) : List (ℤ × Option (AnomalyValue Single)) :=
  (database instanceId).values.range fromTime (toTime + 1)

/-- The time of the first anomaly of a period. -/
def firstAnomaly (database : String → InstanceValues Single) (instanceId : String)
    (fromTime toTime : ℤ) : Option ℤ :=
  ((getInstanceData database instanceId fromTime toTime).find? fun e => isStockAnomaly isRed e.2).map
    Prod.fst

def getPendingNotifications (s : TaurusNotificationService)
    (database : Option (String → InstanceValues Single)) (fromTime toTime frequency : ℤ) :
    List (String × ℤ) :=
  match database with
  | none => []
  | some database => s.favorites.filterMap fun instanceId =>
    if toTime - frequency < s.lastNotificationTime instanceId then none
    else (firstAnomaly isRed database instanceId fromTime toTime).map fun time => (instanceId, time)

/-- The hour of the last run. -/
def checkedSince (s : TaurusNotificationService) (now : ℤ) : ℤ :=
  floorTo60minutes (s.lastRunTime.getD now)

def synchronizeNotifications (frequency : ℤ) (run : SynchronizeNotifications Single)
    (s : TaurusNotificationService) : TaurusNotificationService :=
  if run.enable then
    let notifications :=
      s.getPendingNotifications isRed run.database (s.checkedSince run.now) run.now frequency
    { s with
      lastRunTime := some run.now
      runs := s.runs + 1
      lastNotificationTime := notifications.foldl (fun times n => Function.update times n.1 n.2)
        s.lastNotificationTime
      fired := s.fired ++ notifications.map fun n => ⟨s.runs, run.now, n.1, n.2⟩ }
  else s

/-- Runs at times that do not decrease. -/
def system (frequency : ℤ) :
    System TaurusNotificationService (SynchronizeNotifications Single) where
  init s := s.fired = [] ∧ ∀ time ∈ s.lastRunTime, 0 < time
  next run s :=
    if 0 < run.now ∧ s.lastRunTime.getD run.now ≤ run.now then
      some (s.synchronizeNotifications isRed frequency run)
    else none

end TaurusNotificationService

end NumentaApps.Taurus
