import NumentaApps.CallbackDelivery
import NumentaApps.HourlyQueries
import NumentaApps.KeyRange
import NumentaApps.MetricDataParser
import NumentaApps.TransitionSystem
import Mathlib.Logic.Function.Basic

/-!
# The metric values of the server

`TaurusClient.getMetricValues` answers from the values that it has kept, or queries the metric data
table page by page and keeps what it reads.
-/
namespace NumentaApps.Taurus
open UtcCalendar TransitionSystem CallbackDelivery
open HTMIT (DataUtils.parseHTMDate)
open KeyRange (OrderedMap)

variable {Single : Type} (parseFloat : String → Single)

/-- An item of the table; its numbers are texts. -/
structure MetricDataItem where
  timestamp : String
  metricValue : String
  anomalyScore : String

/-- The server writes times to the second, with years of four digits. -/
def IsTimestamp (time : ℤ) (text : String) : Prop :=
  text = String.ofList (timestampText time) ∧ time % 1000 = 0 ∧ 1582 < yearOfDay (time / 86400000) ∧
    yearOfDay (time / 86400000) < 10000

/-- The items of each `uid`, in the order of their range key. -/
structure MetricDataTable where
  items : String → List MetricDataItem
  written : ∀ uid, ∀ item ∈ items uid, ∃ time, IsTimestamp time item.timestamp
  ascending : ∀ uid, (items uid).Pairwise fun item item' =>
    before item.timestamp.toList item'.timestamp.toList = true

structure CachedMetricValue (Single : Type) where
  value : Single
  anomaly : Single
  deriving DecidableEq, Repr

abbrev MetricValue (Single : Type) := ℤ × CachedMetricValue Single

structure TaurusClient (Single : Type) where
  cachedMetricValues : String → Option (OrderedMap ℤ (CachedMetricValue Single))

structure GetMetricValues (Single : Type) where
  modelId : String
  fromTime : ℤ
  toTime : ℤ
  ascending : Bool
  /-- Its answer when it has been given these values. -/
  callback : List (MetricValue Single) → Bool
  /-- The sizes of the pages of the result, but for the last. -/
  pageSizes : List ℕ

/-- None where the text of the timestamp is not one. -/
def MetricDataItem.read (item : MetricDataItem) : Option (MetricValue Single) :=
  match DataUtils.parseHTMDate item.timestamp with
  | .ok (some time) => some (time, ⟨parseFloat item.metricValue, parseFloat item.anomalyScore⟩)
  | _ => none

def inOrder {α : Type} (ascending : Bool) (rows : List α) : List α :=
  if ascending then rows else rows.reverse

namespace GetMetricValues

variable (call : GetMetricValues Single)

/-- `cache.subMap(from, true, to, true)` -/
def subMap (cache : OrderedMap ℤ (CachedMetricValue Single)) : List (MetricValue Single) :=
  cache.entries.filter fun e => call.fromTime ≤ e.1 && e.1 ≤ call.toTime

def timestampCondition : Condition :=
  .between (timestampText call.fromTime) (timestampText call.toTime)

/-- The result of the query, of all pages. -/
def queryItems (table : MetricDataTable) : List MetricDataItem :=
  inOrder call.ascending ((table.items call.modelId).filter fun item =>
    call.timestampCondition.holds item.timestamp.toList)

/-- What is kept and what the callback has been given. -/
structure Loading (Single : Type) where
  cache : OrderedMap ℤ (CachedMetricValue Single)
  done : List (MetricValue Single)

def loadPage : List MetricDataItem → Loading Single → Option (Loading Single)
  | [], s => some s
  | item :: items, s =>
    match item.read parseFloat with
    | none => none
    | some value =>
      let s' : Loading Single := ⟨s.cache.put value.1 value.2, s.done ++ [value]⟩
      if call.callback s'.done then loadPage items s' else some s'

def loadPages : List (List MetricDataItem) → Loading Single → Option (Loading Single)
  | [], s => some s
  | page :: pages, s => (call.loadPage parseFloat page s).bind (loadPages pages)

end GetMetricValues

namespace TaurusClient

def cacheOf (client : TaurusClient Single) (modelId : String) :
    OrderedMap ℤ (CachedMetricValue Single) := (client.cachedMetricValues modelId).getD .empty

def withCache (client : TaurusClient Single) (modelId : String)
    (cache : OrderedMap ℤ (CachedMetricValue Single)) : TaurusClient Single :=
  ⟨Function.update client.cachedMetricValues modelId (some cache)⟩

/-- What the callback is given. A range that ends before it begins is refused by the map. -/
def getMetricValues (table : MetricDataTable) (client : TaurusClient Single)
    (call : GetMetricValues Single) : Option (TaurusClient Single × List (MetricValue Single)) :=
  let cache := client.cacheOf call.modelId
  let cached := call.subMap cache
  if call.toTime < call.fromTime then none
  else if cached ≠ [] then
    some (client.withCache call.modelId cache,
      deliver call.callback [] (inOrder call.ascending cached))
  else
    (call.loadPages parseFloat (paginate call.pageSizes (call.queryItems table)) ⟨cache, []⟩).map
      fun s => (client.withCache call.modelId s.cache, s.done)

def clearCache (_ : TaurusClient Single) : TaurusClient Single := ⟨fun _ => none⟩

inductive Operation (Single : Type) where
  | getMetricValues (call : GetMetricValues Single)
  | clearCache

/-- The calls of a client, one after the other. -/
def system (table : MetricDataTable) : System (TaurusClient Single) (Operation Single) where
  init client := client = ⟨fun _ => none⟩
  next
    | .getMetricValues call, client => (client.getMetricValues parseFloat table call).map Prod.fst
    | .clearCache, client => some client.clearCache

end TaurusClient

end NumentaApps.Taurus
