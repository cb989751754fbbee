import NumentaApps.BackwardFill
import NumentaApps.MetricValues
import NumentaApps.TaurusDatabase

/-!
# The chart data of a metric

The values of a metric, one for each five minutes of the last days, its hourly scores, and the part
of both that the chart shows. In the collapsed view the hours in which the market is closed are left
out. A missing value is `none`, and a failing operation an index out of bounds. The arithmetic of
`float` is a parameter.
-/
namespace NumentaApps.Taurus
open BackwardFill

def metricDataInterval : ℤ := 5 * millisPerMinute

/-- `getAggregation().milliseconds()`, of `AggregationType.Day`. -/
def barInterval : ℤ := 60 * millisPerMinute

/-- `chart_total_bars`. -/
def totalBarsOnChart : ℤ := 24

def pointsPerBar : ℤ := barInterval / metricDataInterval

/-- `(int) x`. -/
def asInt (x : ℤ) : ℤ := x.bmod (2 ^ 32)

/-- The days that are loaded, up to the last timestamp, and the date at which the view ends. -/
structure ChartPeriod where
  numOfDays : ℕ
  lastTimestamp : ℤ
  endDate : ℤ
  numOfDays_pos : 0 < numOfDays
  /-- `numOfDays * MILLIS_PER_DAY` is an `int`. -/
  days_lt : numOfDays * millisPerDay < 2 ^ 31
  lastTimestamp_hourly : lastTimestamp % millisPerHour = 0
  endDate_le : endDate ≤ lastTimestamp
  /-- `_lastTimestamp - _endDate` is a `long`. -/
  scrolled_lt : lastTimestamp - endDate < 2 ^ 63

namespace ChartPeriod

variable (period : ChartPeriod)

/-- Up to the end of the last hour. -/
def toTime : ℤ := period.lastTimestamp + millisPerHour

def fromTime : ℤ := period.toTime - period.numOfDays * millisPerDay

def rawSize : ℕ := (period.numOfDays * millisPerDay / metricDataInterval).toNat

/-- The times of the loop over the scrollable period. -/
def hours : List ℤ :=
  (List.range ((period.toTime - period.fromTime) / millisPerHour).toNat).map
    fun k : ℕ => period.fromTime + k * millisPerHour

end ChartPeriod

variable {Single : Type}

structure MetricAnomalyChartData (Single : Type) extends ChartPeriod where
  collapsed : Bool
  allRawData : List (Option Single)
  allAnomalies : List (ℤ × Option Single)
  allRawData_length : allRawData.length = toChartPeriod.rawSize
  allAnomalies_hours : allAnomalies.map Prod.fst = toChartPeriod.hours

/-! ## Loading -/

/-- What the callback has filled. -/
structure Loading (Single : Type) where
  allRawData : List (Option Single)
  aggregated : ℤ → Option Single

/-- Of the scores of an hour the highest is kept. -/
def aggregate [LT Single] [DecidableLT Single] (aggregated : ℤ → Option Single) (hour : ℤ)
    (anomaly : Single) : ℤ → Option Single :=
  if (aggregated hour).all fun score => score < anomaly then
    Function.update aggregated hour (some anomaly)
  else aggregated

def onData [LT Single] [DecidableLT Single] (fromTime : ℤ) (s : Loading Single)
    (e : MetricValue Single) : Option (Loading Single) := do
  let idx := asInt ((e.1 - fromTime).tdiv metricDataInterval)
  let idx := if (s.allRawData.length : ℤ) ≤ idx then (s.allRawData.length : ℤ) - 1 else idx
  let allRawData ← setAt s.allRawData idx (some e.2.value)
  return ⟨allRawData, aggregate s.aggregated (floorTo60minutes e.1) e.2.anomaly⟩

theorem onData_length [LT Single] [DecidableLT Single] {fromTime : ℤ} {s s' : Loading Single}
    {e : MetricValue Single} (h : onData fromTime s e = some s') :
    s'.allRawData.length = s.allRawData.length := by
  obtain ⟨raw, hraw, hs⟩ := Option.bind_eq_some_iff.mp h
  rw [← Option.some.inj hs]
  exact setAt_length hraw

theorem loading_length [LT Single] [DecidableLT Single] {fromTime : ℤ}
    {values : List (MetricValue Single)} {s s' : Loading Single}
    (h : values.foldlM (onData fromTime) s = some s') :
    s'.allRawData.length = s.allRawData.length := by
  induction values generalizing s with
  | nil => rw [Option.some.inj h]
  | cons e values ih =>
    obtain ⟨t, ht, hrest⟩ := Option.bind_eq_some_iff.mp h
    rw [ih hrest, onData_length ht]

/-- `_endDate`, once the data are loaded. -/
def ChartPeriod.withEndDate (period : ChartPeriod) : ChartPeriod :=
  if hdate : period.endDate ≤ 0 then
    { period with
      endDate := period.lastTimestamp
      endDate_le := Int.le_refl period.lastTimestamp
      scrolled_lt := by omega }
  else period

theorem withEndDate_rawSize (period : ChartPeriod) : period.withEndDate.rawSize = period.rawSize := by
  rw [ChartPeriod.withEndDate]
  split <;> rfl

theorem withEndDate_fromTime (period : ChartPeriod) :
    period.withEndDate.fromTime = period.fromTime := by
  rw [ChartPeriod.withEndDate]
  split <;> rfl

theorem loading_rawSize [LT Single] [DecidableLT Single] {period : ChartPeriod}
    {values : List (MetricValue Single)} {s : Loading Single}
    (h : values.foldlM (onData period.fromTime) ⟨List.replicate period.rawSize none, fun _ => none⟩ =
      some s) : s.allRawData.length = period.withEndDate.rawSize := by
  rw [loading_length h, List.length_replicate, withEndDate_rawSize]

theorem map_pair_fst {β : Type} (times : List ℤ) (score : ℤ → β) :
    (times.map fun time => (time, score time)).map Prod.fst = times := by
  rw [List.map_map]
  exact List.map_id times

/-- Loads what `getMetricValues` delivers. -/
def load [LT Single] [DecidableLT Single] (period : ChartPeriod) (collapsed : Bool)
    (values : List (MetricValue Single)) : Option (MetricAnomalyChartData Single) :=
  match h : values.foldlM (onData period.fromTime)
      ⟨List.replicate period.rawSize none, fun _ => none⟩ with
  | none => none
  | some s => some
    { period.withEndDate with
      collapsed
      allRawData := s.allRawData
      allAnomalies := period.withEndDate.hours.map fun time => (time, s.aggregated time)
      allRawData_length := loading_rawSize h
      allAnomalies_hours := map_pair_fst _ _ }

/-! ## The view -/

/-- The arithmetic of scores. -/
structure ScoreDisplay (Single : Type) where
  /-- `(float) DataUtils.logScale(Math.abs(score))`. -/
  logScale : Single → Single
  /-- `value >= getYellowBarFloor()`. -/
  yellow : Single → Bool

/-- The hour whose score it carries is not kept by the source. -/
structure Marker (Single : Type) where
  index : ℤ
  score : Single
  hour : ℤ
  deriving DecidableEq

/-- What is computed for the view: the collapsed series only for the collapsed view. -/
structure Series (Single : Type) where
  data : List (ℤ × Option Single)
  rawData : List (Option Single)
  anomalies : List (Marker Single)
  collapsed : Option (List (Option Single) × List (Marker Single))

/-- A traversal of the hours. `fill.size` and `fill.cells` are `size` and `_collapsedData`. -/
structure Traversal (Single : Type) where
  fill : Fill (Option Single)
  anomalies : List (Marker Single)
  /-- `closed` and the periods before it, the last first. -/
  closed : List (ℤ × ℤ)
  closedPeriod : Bool

/-- None within the closed period, otherwise what is left of the closed periods. -/
def passClosed (time : ℤ) : List (ℤ × ℤ) → Option (List (ℤ × ℤ))
  | [] => some []
  | closed :: before =>
    if closed.1 ≤ time ∧ time ≤ closed.2 then none
    else if time < closed.1 then some before
    else some (closed :: before)

variable (display : ScoreDisplay Single)

def ScoreDisplay.marker (index : ℤ) (value : ℤ × Option Single) : Option (Marker Single) :=
  match value.2 with
  | none => none
  | some score =>
    if display.yellow (display.logScale score) then
      some ⟨index, display.logScale score, value.1⟩
    else none

def computeAnomalies (data : List (ℤ × Option Single)) : Option (List (Marker Single)) := do
  let first ← getAt data 0
  return data.filterMap fun point =>
    display.marker ((asInt (point.1 - first.1)).tdiv metricDataInterval) point

def visit (allRawData : List (Option Single)) (startDate : ℤ) (t : Traversal Single)
    (value : ℤ × Option Single) : Option (Traversal Single) :=
  match passClosed (value.1 + metricDataInterval) t.closed with
  | none => some { t with closedPeriod := true }
  | some closed => do
    let size := if t.closedPeriod then t.fill.size - pointsPerBar else t.fill.size
    let idx := asInt ((value.1 - startDate) / metricDataInterval + pointsPerBar) - 1
    let fill ← copyBack allRawData pointsPerBar.toNat idx ⟨size, t.fill.cells⟩
    return ⟨fill, t.anomalies ++ (display.marker fill.size value).toList, closed, false⟩

/-- The values come from the last one on. -/
def traverse (allRawData : List (Option Single)) (startDate : ℤ) :
    List (ℤ × Option Single) → Traversal Single → Option (Traversal Single)
  | [], t => some t
  | value :: values, t =>
    if 0 < t.fill.size then
      (visit display allRawData startDate t value).bind (traverse allRawData startDate values)
    else some t

namespace MetricAnomalyChartData

variable (chart : MetricAnomalyChartData Single) (closedHoursForPeriod : ℤ → ℤ → List (ℤ × ℤ))

/-- `arraycopy` of `size` values to an array of that length is the part of the source. -/
def computeDataForCurrentPeriod : Option (List (ℤ × Option Single) × List (Option Single)) := do
  let scrolled := chart.lastTimestamp - chart.endDate
  let size : ℤ := chart.allAnomalies.length
  let idx := max (size - scrolled / barInterval - totalBarsOnChart) 0
  let data ← subList chart.allAnomalies (asInt idx) (asInt (min (idx + totalBarsOnChart) size))
  let size := asInt (totalBarsOnChart * barInterval / metricDataInterval)
  let idx := max 0 (chart.allRawData.length - scrolled / metricDataInterval - size - 1)
  let rawData ← subList chart.allRawData (asInt idx) (asInt idx + size)
  return (data, rawData)

/-- `endIdx`. -/
def collapsedEnd : ℤ :=
  max 0 (asInt (chart.allAnomalies.length - (chart.lastTimestamp - chart.endDate) / barInterval))

def fillCollapsed : Option (List (Option Single) × List (Marker Single)) := do
  let size := asInt (totalBarsOnChart * barInterval / metricDataInterval)
  let last ← getAt chart.allAnomalies (min chart.collapsedEnd (chart.allAnomalies.length - 1))
  let first ← getAt chart.allAnomalies 0
  let closedHours := closedHoursForPeriod first.1 last.1
  let values ← subList chart.allAnomalies 0 chart.collapsedEnd
  let t ← traverse display chart.allRawData first.1 values.reverse
    ⟨⟨size, List.replicate size.toNat none⟩, [], closedHours.reverse, false⟩
  return (t.fill.cells, t.anomalies)

def computeCollapsed : Option (Option (List (Option Single) × List (Marker Single))) :=
  if chart.collapsed then (chart.fillCollapsed display closedHoursForPeriod).map some else some none

/-- A loaded chart has values and scores, so that there is no test for them. -/
def refreshData : Option (Series Single) := do
  let period ← chart.computeDataForCurrentPeriod
  let anomalies ← computeAnomalies display period.1
  let collapsed ← chart.computeCollapsed display closedHoursForPeriod
  return ⟨period.1, period.2, anomalies, collapsed⟩

/-- The series from which the view copies; the collapsed view has its own. -/
def shownData (series : Series Single) : Option (List (Option Single)) :=
  if chart.collapsed then series.collapsed.map Prod.fst else some series.rawData

def getRawData (series : Series Single) : Option (List (Option Single)) := do
  let size := asInt (totalBarsOnChart * barInterval / metricDataInterval)
  let shown ← chart.shownData series
  subList shown (shown.length - size) shown.length

def getAnomalies (series : Series Single) : List (Marker Single) :=
  if chart.collapsed then (series.collapsed.map Prod.snd).getD [] else series.anomalies

end MetricAnomalyChartData

end NumentaApps.Taurus
