import NumentaApps.MetricAnomalyChartData
import Mathlib.Algebra.Order.Group.Int

/-!
# The window of the chart

The hours and the values that the view shows when no hour is left out.
-/
namespace NumentaApps.Taurus
open BackwardFill

theorem asInt_eq {x : ℤ} (hlow : 0 ≤ x) (hhigh : x < 2 ^ 31) : asInt x = x :=
  Int.bmod_eq_of_le (by omega) (by omega)

theorem asInt_viewSize : asInt (totalBarsOnChart * barInterval / metricDataInterval) = (288 : ℕ) := by
  decide

theorem filterMap_map_sublist {α β γ : Type} {f : α → Option β} {g : β → γ} {g' : α → γ}
    (h : ∀ x y, f x = some y → g y = g' x) (l : List α) :
    ((l.filterMap f).map g).Sublist (l.map g') := by
  induction l with
  | nil => exact List.Sublist.slnil
  | cons x l ih =>
    cases hx : f x with
    | none => simpa [List.filterMap_cons, hx] using ih.cons (g' x)
    | some y => simpa [List.filterMap_cons, hx, h x y hx] using ih

namespace ScoreDisplay

variable {Single : Type} {display : ScoreDisplay Single}

theorem marker_eq_some_iff {index : ℤ} {value : ℤ × Option Single} {m : Marker Single} :
    display.marker index value = some m ↔ ∃ score, value.2 = some score ∧
      display.yellow (display.logScale score) = true ∧
      m = ⟨index, display.logScale score, value.1⟩ := by
  cases hscore : value.2 with
  | none => simp [marker, hscore]
  | some score =>
    rw [marker, hscore]
    constructor
    · intro h
      obtain ⟨hyellow, hm⟩ := Option.ite_none_right_eq_some.mp h
      exact ⟨score, rfl, hyellow, (Option.some.inj hm).symm⟩
    · intro h
      obtain ⟨score', hscore', hyellow, rfl⟩ := h
      cases hscore'
      exact if_pos hyellow

end ScoreDisplay

namespace ChartPeriod

variable (period : ChartPeriod)

theorem numOfDays_lt : (period.numOfDays : ℤ) < 25 := by
  have h := period.days_lt
  simp only [millisPerDay, millisPerHour, millisPerMinute] at h
  omega

theorem hours_length : period.hours.length = 24 * period.numOfDays := by
  simp only [hours, List.length_map, List.length_range, fromTime, millisPerDay, millisPerHour,
    millisPerMinute]
  omega

theorem rawSize_eq : period.rawSize = 288 * period.numOfDays := by
  simp only [rawSize, metricDataInterval, millisPerDay, millisPerHour, millisPerMinute]
  omega

theorem getElem?_hours {k : ℕ} {time : ℤ} (h : period.hours[k]? = some time) :
    time = period.fromTime + k * millisPerHour := by
  rw [hours, List.getElem?_map] at h
  obtain ⟨i, hi, rfl⟩ := Option.map_eq_some_iff.mp h
  have hk : i = k := by
    obtain ⟨hlt, hget⟩ := List.getElem?_eq_some_iff.mp hi
    rw [← hget, List.getElem_range]
  rw [hk]

theorem hours_nodup : period.hours.Nodup := by
  apply List.nodup_range.map
  intro k k' h
  simp only [millisPerHour, millisPerMinute] at h
  omega

/-- The bars by which the view is scrolled back. -/
def scrolledBars : ℤ := (period.lastTimestamp - period.endDate) / barInterval

def scrolledValues : ℤ := (period.lastTimestamp - period.endDate) / metricDataInterval

/-- The number of hours before the view. -/
def firstHour : ℕ := (24 * period.numOfDays - period.scrolledBars - 24).toNat

/-- The number of values before the view. -/
def firstValue : ℕ := (288 * period.numOfDays - period.scrolledValues - 288 - 1).toNat

/-- How many values the part of the values starts ahead of the hours. -/
def ahead : ℕ := (period.scrolledValues % 12 + 1).toNat

theorem scrolledBars_nonneg : 0 ≤ period.scrolledBars := by
  have h := period.endDate_le
  simp only [scrolledBars, barInterval, millisPerMinute]
  omega

theorem scrolledValues_eq :
    period.scrolledValues = 12 * period.scrolledBars + period.scrolledValues % 12 := by
  simp only [scrolledValues, scrolledBars, barInterval, metricDataInterval, millisPerMinute]
  omega

theorem firstHour_add_le : period.firstHour + 24 ≤ 24 * period.numOfDays := by
  have hpos := period.numOfDays_pos
  have hscrolled := period.scrolledBars_nonneg
  simp only [firstHour]
  omega

theorem firstValue_add_le : period.firstValue + 288 ≤ 288 * period.numOfDays := by
  have hpos := period.numOfDays_pos
  have hscrolled := period.scrolledBars_nonneg
  have hvalues := period.scrolledValues_eq
  simp only [firstValue]
  omega

/-- A view that starts with the first of all hours starts with the first of all values; any other
starts ahead of its first hour. -/
theorem window_cases :
    (24 * ((period.numOfDays : ℤ) - 1) ≤ period.scrolledBars ∧ period.firstHour = 0 ∧
      period.firstValue = 0) ∨
    (period.scrolledBars < 24 * ((period.numOfDays : ℤ) - 1) ∧
      period.firstValue + period.ahead = 12 * period.firstHour) := by
  have hvalues := period.scrolledValues_eq
  have hlow := Int.emod_nonneg period.scrolledValues (by decide : (12 : ℤ) ≠ 0)
  have hhigh := Int.emod_lt_of_pos period.scrolledValues (by decide : (0 : ℤ) < 12)
  simp only [firstHour, firstValue, ahead]
  omega

end ChartPeriod

namespace MetricAnomalyChartData

variable {Single : Type} (chart : MetricAnomalyChartData Single)

theorem anomalies_length : chart.allAnomalies.length = 24 * chart.numOfDays := by
  rw [← List.length_map Prod.fst, chart.allAnomalies_hours, chart.toChartPeriod.hours_length]

theorem raw_length : chart.allRawData.length = 288 * chart.numOfDays := by
  rw [chart.allRawData_length, chart.toChartPeriod.rawSize_eq]

theorem time_eq {k : ℕ} {value : ℤ × Option Single} (h : chart.allAnomalies[k]? = some value) :
    value.1 = chart.fromTime + k * millisPerHour := by
  apply chart.toChartPeriod.getElem?_hours
  rw [← chart.allAnomalies_hours, List.getElem?_map, h]
  rfl

theorem lt_of_getElem? {k : ℕ} {value : ℤ × Option Single} (h : chart.allAnomalies[k]? = some value) :
    k < 24 * chart.numOfDays := by
  rw [← chart.anomalies_length]
  exact (List.getElem?_eq_some_iff.mp h).1

theorem times_nodup : (chart.allAnomalies.map Prod.fst).Nodup := by
  rw [chart.allAnomalies_hours]
  exact chart.toChartPeriod.hours_nodup

/-- The raw value, or the missing one, at a time; none before and after all values. -/
def rawAt (time : ℤ) : Option (Option Single) :=
  getAt chart.allRawData ((time - chart.fromTime) / metricDataInterval)

theorem rawAt_eq {time : ℤ} {i : ℕ} (h : time = chart.fromTime + i * metricDataInterval) :
    chart.rawAt time = chart.allRawData[i]? := by
  have hindex : (time - chart.fromTime) / metricDataInterval = i := by
    simp only [h, metricDataInterval, millisPerMinute]
    omega
  rw [rawAt, hindex, getAt_natCast]

/-- The values that are cut for the view, and their scores. -/
def window : List (ℤ × Option Single) := (chart.allAnomalies.drop chart.firstHour).take 24

def rawWindow : List (Option Single) := (chart.allRawData.drop chart.firstValue).take 288

theorem computeDataForCurrentPeriod_eq :
    chart.computeDataForCurrentPeriod = some (chart.window, chart.rawWindow) := by
  have hbars := chart.firstHour_add_le
  have hvalues := chart.firstValue_add_le
  have hdays := chart.numOfDays_lt
  have hhour : max ((24 * chart.numOfDays : ℕ) - (chart.lastTimestamp - chart.endDate) / barInterval -
      totalBarsOnChart) 0 = chart.firstHour := by
    simp only [ChartPeriod.firstHour, ChartPeriod.scrolledBars, totalBarsOnChart]
    omega
  have hvalue : max 0 ((288 * chart.numOfDays : ℕ) -
      (chart.lastTimestamp - chart.endDate) / metricDataInterval - (288 : ℕ) - 1) =
      chart.firstValue := by
    simp only [ChartPeriod.firstValue, ChartPeriod.scrolledValues]
    omega
  have hstop : min ((chart.firstHour : ℤ) + totalBarsOnChart) (24 * chart.numOfDays : ℕ) =
      (chart.firstHour + 24 : ℕ) := by
    simp only [totalBarsOnChart]
    omega
  simp only [computeDataForCurrentPeriod, chart.anomalies_length, chart.raw_length, asInt_viewSize,
    hhour, hvalue, hstop]
  rw [asInt_eq (by omega) (by omega), asInt_eq (by omega) (by omega),
    asInt_eq (by omega) (by omega), subList_natCast (by rw [chart.anomalies_length]; omega),
    ← Nat.cast_add, subList_natCast (by rw [chart.raw_length]; omega)]
  rfl

theorem window_length : chart.window.length = 24 := by
  have h := chart.firstHour_add_le
  rw [window, List.length_take, List.length_drop, chart.anomalies_length]
  omega

theorem getElem?_window {j : ℕ} (hj : j < 24) :
    chart.window[j]? = chart.allAnomalies[chart.firstHour + j]? := by
  rw [window, List.getElem?_take_of_lt hj, List.getElem?_drop]

theorem rawWindow_length : chart.rawWindow.length = 288 := by
  have h := chart.firstValue_add_le
  rw [rawWindow, List.length_take, List.length_drop, chart.raw_length]
  omega

theorem getElem?_rawWindow {i : ℕ} (hi : i < 288) :
    chart.rawWindow[i]? = chart.allRawData[chart.firstValue + i]? := by
  rw [rawWindow, List.getElem?_take_of_lt hi, List.getElem?_drop]

variable (display : ScoreDisplay Single)

def windowMarkers : List (Marker Single) :=
  chart.window.filterMap fun point =>
    display.marker
      ((asInt (point.1 - (chart.fromTime + chart.firstHour * millisPerHour))).tdiv metricDataInterval)
      point

theorem computeAnomalies_eq :
    computeAnomalies display chart.window = some (chart.windowMarkers display) := by
  have hlt : 0 < chart.window.length := by
    rw [chart.window_length]
    omega
  obtain ⟨first, hfirst⟩ : ∃ first, chart.window[0]? = some first :=
    ⟨_, List.getElem?_eq_getElem hlt⟩
  have htime : first.1 = chart.fromTime + chart.firstHour * millisPerHour :=
    chart.time_eq ((chart.getElem?_window (by omega)).symm.trans hfirst)
  have hget : getAt chart.window 0 = some first := (getAt_natCast chart.window 0).trans hfirst
  rw [computeAnomalies, hget, windowMarkers, ← htime]
  rfl

/-- The hours that carry a marker, with its place. -/
theorem mem_windowMarkers {m : Marker Single} : m ∈ chart.windowMarkers display ↔
    ∃ j < 24, ∃ score,
      chart.allAnomalies[chart.firstHour + j]? = some (m.hour, some score) ∧
      display.yellow (display.logScale score) = true ∧ m.index = (12 * j : ℕ) ∧
      m.score = display.logScale score := by
  have hindex : ∀ j < 24, ∀ point, chart.allAnomalies[chart.firstHour + j]? = some point →
      (asInt (point.1 - (chart.fromTime + chart.firstHour * millisPerHour))).tdiv metricDataInterval =
        (12 * j : ℕ) := by
    intro j hj point hpoint
    have hmillis : point.1 - (chart.fromTime + chart.firstHour * millisPerHour) =
        (j * 3600000 : ℕ) := by
      rw [chart.time_eq hpoint]
      simp only [millisPerHour, millisPerMinute]
      omega
    rw [hmillis, asInt_eq (by omega) (by omega), Int.tdiv_eq_ediv_of_nonneg (by omega)]
    simp only [metricDataInterval, millisPerMinute]
    omega
  rw [windowMarkers, List.mem_filterMap]
  constructor
  · intro h
    obtain ⟨point, hpoint, hm⟩ := h
    obtain ⟨j, hj⟩ := List.mem_iff_getElem?.mp hpoint
    have hlt : j < 24 := by
      rw [← chart.window_length]
      exact (List.getElem?_eq_some_iff.mp hj).1
    rw [chart.getElem?_window hlt] at hj
    rw [hindex j hlt point hj, ScoreDisplay.marker_eq_some_iff] at hm
    obtain ⟨score, hscore, hyellow, rfl⟩ := hm
    refine ⟨j, hlt, score, ?_, hyellow, rfl, rfl⟩
    rw [hj, ← hscore]
  · intro h
    obtain ⟨j, hj, score, hpoint, hyellow, hplace, hscore⟩ := h
    refine ⟨(m.hour, some score), ?_, ?_⟩
    · exact List.mem_iff_getElem?.mpr ⟨j, (chart.getElem?_window hj).trans hpoint⟩
    · rw [hindex j hj _ hpoint, ScoreDisplay.marker_eq_some_iff]
      refine ⟨score, rfl, hyellow, ?_⟩
      rw [← hplace, ← hscore]

/-- No two hours have one time, and the place of a marker gives the time of its hour. -/
theorem windowMarkers_nodup : ((chart.windowMarkers display).map Marker.index).Nodup := by
  have htimes : ((chart.windowMarkers display).map Marker.hour).Nodup := by
    have hsublist : ((chart.windowMarkers display).map Marker.hour).Sublist
        (chart.window.map Prod.fst) := by
      apply filterMap_map_sublist
      intro point m hm
      obtain ⟨score, -, -, rfl⟩ := ScoreDisplay.marker_eq_some_iff.mp hm
      rfl
    have hwindow : (chart.window.map Prod.fst).Sublist (chart.allAnomalies.map Prod.fst) :=
      ((List.take_sublist _ _).trans (List.drop_sublist _ _)).map Prod.fst
    exact (hsublist.trans hwindow).nodup chart.times_nodup
  have hplace : (chart.windowMarkers display).map Marker.hour =
      ((chart.windowMarkers display).map Marker.index).map
        fun i => chart.fromTime + chart.firstHour * millisPerHour + i * metricDataInterval := by
    rw [List.map_map]
    apply List.map_congr_left
    intro m hm
    obtain ⟨j, hj, score, hpoint, -, hindex, -⟩ := (chart.mem_windowMarkers display).mp hm
    have htime : m.hour = _ := chart.time_eq hpoint
    simp only [Function.comp_apply, hindex]
    simp only [millisPerHour, metricDataInterval, millisPerMinute] at htime ⊢
    omega
  rw [hplace] at htimes
  exact htimes.of_map _

end MetricAnomalyChartData

end NumentaApps.Taurus
