import NumentaApps.CollapsedChart

/-!
# Markers and values of the chart

When every marker of the view stands at the value with which its hour starts.
-/
namespace NumentaApps.Taurus
open BackwardFill

variable {Single : Type} (display : ScoreDisplay Single) (closedHoursForPeriod : ℤ → ℤ → List (ℤ × ℤ))

namespace MetricAnomalyChartData

variable (chart : MetricAnomalyChartData Single)

/-- The starts of the hours that the view shows. -/
def shownHours : List ℤ :=
  if chart.collapsed then
    (((chart.collapsedBars closedHoursForPeriod).take 24).filterMap id).map Prod.fst
  else chart.window.map Prod.fst

end MetricAnomalyChartData

/-- A marker stands at the raw value with which the hour starts whose score it carries. -/
structure Marker.Aligned (chart : MetricAnomalyChartData Single) (rawData : List (Option Single))
    (m : Marker Single) : Prop where
  index_nonneg : 0 ≤ m.index
  index_lt : m.index < rawData.length
  raw : rawData[m.index.toNat]? = chart.rawAt m.hour
  shown : m.hour ∈ chart.shownHours closedHoursForPeriod
  score : ∃ score, (m.hour, some score) ∈ chart.allAnomalies ∧ m.score = display.logScale score

namespace MetricAnomalyChartData

variable (chart : MetricAnomalyChartData Single)

/-- No index is out of bounds, and the markers are aligned, each at its own index. -/
def MarkersAligned : Prop :=
  ∃ series rawData, chart.refreshData display closedHoursForPeriod = some series ∧
    chart.getRawData series = some rawData ∧
    (∀ m ∈ chart.getAnomalies series, m.Aligned display closedHoursForPeriod chart rawData) ∧
    ((chart.getAnomalies series).map Marker.index).Nodup

/-! ## The view of all hours -/

theorem refreshData_normal (h : chart.collapsed = false) :
    chart.refreshData display closedHoursForPeriod =
      some ⟨chart.window, chart.rawWindow, chart.windowMarkers display, none⟩ := by
  have hcollapsed : chart.computeCollapsed display closedHoursForPeriod = some none := by
    rw [computeCollapsed, h]
    rfl
  simp only [refreshData, chart.computeDataForCurrentPeriod_eq, Option.bind_eq_bind,
    Option.bind_some, chart.computeAnomalies_eq, hcollapsed]
  rfl

theorem getRawData_eq {series : Series Single} {cells : List (Option Single)}
    (hlength : cells.length = 288) (h : chart.shownData series = some cells) :
    chart.getRawData series = some cells := by
  have hall : subList cells (0 : ℕ) (0 + 288 : ℕ) = some cells := by
    rw [subList_natCast (by omega), List.drop_zero, List.take_of_length_le (by omega)]
  simp only [getRawData, h, Option.bind_eq_bind, Option.bind_some, hlength, asInt_viewSize]
  exact hall

theorem markersAligned_normal (h : chart.collapsed = false) :
    chart.MarkersAligned display closedHoursForPeriod ↔
      ∀ m ∈ chart.windowMarkers display,
        m.Aligned display closedHoursForPeriod chart chart.rawWindow := by
  have hraw : chart.getRawData ⟨chart.window, chart.rawWindow, chart.windowMarkers display, none⟩ =
      some chart.rawWindow := chart.getRawData_eq chart.rawWindow_length (by rw [shownData, h]; rfl)
  have hmarkers : chart.getAnomalies
      ⟨chart.window, chart.rawWindow, chart.windowMarkers display, none⟩ =
      chart.windowMarkers display := by
    rw [getAnomalies, h]
    rfl
  constructor
  · intro haligned
    obtain ⟨series, rawData, hseries, hrawData, hall, -⟩ := haligned
    rw [chart.refreshData_normal display closedHoursForPeriod h] at hseries
    rw [← Option.some.inj hseries, hraw] at hrawData
    rw [← Option.some.inj hseries, hmarkers, ← Option.some.inj hrawData] at hall
    exact hall
  · intro hall
    refine ⟨_, _, chart.refreshData_normal display closedHoursForPeriod h, hraw, ?_, ?_⟩
    · rw [hmarkers]
      exact hall
    · rw [hmarkers]
      exact chart.windowMarkers_nodup display

theorem aligned_windowMarker_iff (h : chart.collapsed = false) {m : Marker Single}
    (hm : m ∈ chart.windowMarkers display) :
    m.Aligned display closedHoursForPeriod chart chart.rawWindow ↔
      24 * ((chart.numOfDays : ℤ) - 1) ≤ chart.scrolledBars ∨
        chart.rawAt (m.hour - chart.ahead * metricDataInterval) = chart.rawAt m.hour := by
  obtain ⟨j, hj, score, hpoint, hyellow, hindex, hscore⟩ := (chart.mem_windowMarkers display).mp hm
  have htime : m.hour = _ := chart.time_eq hpoint
  have hlength := chart.rawWindow_length
  have hcell : chart.rawWindow[m.index.toNat]? = chart.allRawData[chart.firstValue + 12 * j]? := by
    rw [hindex, Int.toNat_natCast]
    exact chart.getElem?_rawWindow (by omega)
  have hstart : chart.rawAt m.hour = chart.allRawData[12 * (chart.firstHour + j)]? := by
    apply chart.rawAt_eq
    simp only [htime, millisPerHour, metricDataInterval, millisPerMinute]
    omega
  have haligned : m.Aligned display closedHoursForPeriod chart chart.rawWindow ↔
      chart.allRawData[chart.firstValue + 12 * j]? =
        chart.allRawData[12 * (chart.firstHour + j)]? := by
    constructor
    · intro haligned
      rw [← hcell, ← hstart]
      exact haligned.raw
    · intro heq
      refine ⟨by omega, by omega, ?_, ?_, ?_⟩
      · rw [hcell, hstart, heq]
      · rw [shownHours, h]
        refine List.mem_map.mpr ⟨(m.hour, some score), ?_, rfl⟩
        exact List.mem_iff_getElem?.mpr ⟨j, (chart.getElem?_window hj).trans hpoint⟩
      · exact ⟨score, List.mem_of_getElem? hpoint, hscore⟩
  rw [haligned]
  rcases chart.window_cases with ⟨hscrolled, hhour, hvalue⟩ | ⟨hscrolled, hstep⟩
  · have hcells : chart.firstValue + 12 * j = 12 * (chart.firstHour + j) := by omega
    rw [hcells]
    exact ⟨fun _ => Or.inl hscrolled, fun _ => rfl⟩
  · have hahead : chart.rawAt (m.hour - chart.ahead * metricDataInterval) =
        chart.allRawData[chart.firstValue + 12 * j]? := by
      apply chart.rawAt_eq
      simp only [htime, millisPerHour, metricDataInterval, millisPerMinute]
      omega
    rw [hahead, hstart]
    exact (or_iff_right (by omega)).symm

/-! ## The collapsed view -/

/-- The marker of a bar that is shown is aligned. -/
theorem aligned_of_mem_marks (h : chart.collapsed = true) {m : Marker Single}
    (hm : m ∈ (marks 12 display.mark 24 (chart.collapsedBars closedHoursForPeriod)).map
      Marker.ofMark) :
    m.Aligned display closedHoursForPeriod chart (chart.collapsedCells closedHoursForPeriod) := by
  obtain ⟨j, hj, score, hbar, -, hindex, hscore⟩ :=
    (chart.mem_marks_collapsed display closedHoursForPeriod).mp hm
  have hmem := mem_allAnomalies (List.mem_of_getElem? hbar)
  obtain ⟨k, hk, htime, hplace⟩ := exists_place hmem
  have hraw := chart.raw_length
  refine ⟨by omega, ?_, ?_, ?_, score, hmem, hscore⟩
  · rw [collapsedCells_length, hindex]
    omega
  · have hcell : (rendered 12 none chart.render 24
        (chart.collapsedBars closedHoursForPeriod))[12 * (24 - 1 - j) + 0]? =
        (chart.render (some (m.hour, some score)))[0]? :=
      getElem?_rendered bar_length hbar hj (by omega)
    have hstart : chart.rawAt m.hour = chart.allRawData[12 * k]? := by
      rw [rawAt, hplace, getAt_natCast]
    rw [hindex, Int.toNat_natCast, collapsedCells, ← Nat.add_zero (12 * (24 - 1 - j)), hcell, hstart,
      render, hplace, Int.toNat_natCast, List.getElem?_take_of_lt (by omega), List.getElem?_drop]
    rfl
  · rw [shownHours, h, if_pos rfl]
    refine List.mem_map.mpr ⟨(m.hour, some score), ?_, rfl⟩
    refine List.mem_filterMap.mpr ⟨_, ?_, rfl⟩
    exact List.mem_of_getElem? ((List.getElem?_take_of_lt hj).trans hbar)

/-- An hour after the bars of the view is not shown. -/
theorem not_shown_of_overrun (h : chart.collapsed = true) {m : Marker Single}
    (hm : m ∈ overrun display 24 (chart.collapsedBars closedHoursForPeriod)) :
    m.hour ∉ chart.shownHours closedHoursForPeriod := by
  obtain ⟨-, score, hvalue, -⟩ := (chart.mem_overrun display closedHoursForPeriod).mp hm
  have hrest : m.hour ∈
      (((chart.collapsedBars closedHoursForPeriod).drop 24).filterMap id).map Prod.fst := by
    refine List.mem_map.mpr ⟨(m.hour, some score), List.mem_filterMap.mpr ⟨_, ?_, rfl⟩, rfl⟩
    apply @List.mem_of_getElem? _ _ 0
    rw [List.getElem?_drop]
    exact hvalue
  have hnodup := @bars_nodup _ chart closedHoursForPeriod
  rw [← List.take_append_drop 24 (chart.collapsedBars closedHoursForPeriod), List.filterMap_append,
    List.map_append] at hnodup
  rw [shownHours, h, if_pos rfl]
  intro hshown
  exact List.disjoint_of_nodup_append hnodup hshown hrest

/-- The collapsed view is aligned when it has bars and no score is marked without its bar. -/
theorem markersAligned_collapsed (h : chart.collapsed = true) :
    chart.MarkersAligned display closedHoursForPeriod ↔
      chart.collapsedEnd ≤ 24 * chart.numOfDays ∧
        overrun display 24 (chart.collapsedBars closedHoursForPeriod) = [] := by
  by_cases hend : chart.collapsedEnd ≤ 24 * chart.numOfDays
  · let series : Series Single := ⟨chart.window, chart.rawWindow, chart.windowMarkers display,
      some (chart.collapsedCells closedHoursForPeriod,
        chart.collapsedMarkers display closedHoursForPeriod)⟩
    have hcollapsed : chart.computeCollapsed display closedHoursForPeriod = some series.collapsed := by
      rw [computeCollapsed, h, if_pos rfl, chart.fillCollapsed_eq display closedHoursForPeriod hend]
      rfl
    have hseries : chart.refreshData display closedHoursForPeriod = some series := by
      simp only [refreshData, chart.computeDataForCurrentPeriod_eq, Option.bind_eq_bind,
        Option.bind_some, chart.computeAnomalies_eq, hcollapsed]
      rfl
    have hraw : chart.getRawData series = some (chart.collapsedCells closedHoursForPeriod) :=
      chart.getRawData_eq collapsedCells_length (by rw [shownData, h]; rfl)
    have hmarkers : chart.getAnomalies series =
        chart.collapsedMarkers display closedHoursForPeriod := by
      rw [getAnomalies, h]
      rfl
    constructor
    · intro haligned
      obtain ⟨series', rawData, hseries', hrawData, hall, -⟩ := haligned
      rw [← Option.some.inj (hseries.symm.trans hseries'), hmarkers] at hall
      refine ⟨hend, List.eq_nil_iff_forall_not_mem.mpr ?_⟩
      intro m hm
      exact chart.not_shown_of_overrun display closedHoursForPeriod h hm
        (hall m (List.mem_append_right _ hm)).shown
    · intro hcalm
      have hmarks : chart.collapsedMarkers display closedHoursForPeriod =
          (marks 12 display.mark 24 (chart.collapsedBars closedHoursForPeriod)).map
            Marker.ofMark := by
        rw [collapsedMarkers, hcalm.2, List.append_nil]
      refine ⟨series, _, hseries, hraw, ?_, ?_⟩
      · intro m hm
        rw [hmarkers, hmarks] at hm
        exact chart.aligned_of_mem_marks display closedHoursForPeriod h hm
      · rw [hmarkers, hmarks]
        exact chart.marks_nodup display closedHoursForPeriod
  · have hnone : chart.refreshData display closedHoursForPeriod = none := by
      have hcollapsed : chart.computeCollapsed display closedHoursForPeriod = none := by
        rw [computeCollapsed, h, if_pos rfl,
          chart.fillCollapsed_none display closedHoursForPeriod (by omega)]
        rfl
      simp only [refreshData, chart.computeDataForCurrentPeriod_eq, Option.bind_eq_bind,
        Option.bind_some, chart.computeAnomalies_eq, hcollapsed]
      rfl
    constructor
    · intro haligned
      obtain ⟨series, rawData, hseries, -⟩ := haligned
      rw [hnone] at hseries
      cases hseries
    · intro hcalm
      exact absurd hcalm.1 hend

theorem collapsedEnd_le_iff : chart.collapsedEnd ≤ 24 * chart.numOfDays ↔
    asInt (24 * chart.numOfDays - chart.scrolledBars) ≤ 24 * chart.numOfDays := by
  rw [collapsedEnd, chart.anomalies_length, ChartPeriod.scrolledBars, Nat.cast_mul, Nat.cast_ofNat]
  omega

/-- A score that is shown and high enough is marked. -/
theorem exists_windowMarker (h : chart.collapsed = false) {hour : ℤ} {score : Single}
    (hmem : (hour, some score) ∈ chart.allAnomalies)
    (hshown : hour ∈ chart.shownHours closedHoursForPeriod)
    (hyellow : display.yellow (display.logScale score) = true) :
    ∃ m ∈ chart.windowMarkers display, m.hour = hour := by
  rw [shownHours, h] at hshown
  obtain ⟨point, hpoint, htime⟩ := List.mem_map.mp hshown
  have hsame : point = (hour, some score) := by
    apply List.inj_on_of_nodup_map chart.times_nodup _ hmem htime
    exact List.mem_of_mem_drop (List.mem_of_mem_take hpoint)
  obtain ⟨j, hj⟩ := List.mem_iff_getElem?.mp hpoint
  have hlt : j < 24 := by
    rw [← chart.window_length]
    exact (List.getElem?_eq_some_iff.mp hj).1
  rw [chart.getElem?_window hlt, hsame] at hj
  exact ⟨⟨(12 * j : ℕ), display.logScale score, hour⟩,
    (chart.mem_windowMarkers display).mpr ⟨j, hlt, score, hj, hyellow, rfl, rfl⟩, rfl⟩

/-- In the view of all hours the values are cut some places ahead of the hours, unless the view starts
with the first of them. In the collapsed view the hour after the last bar is marked when that bar is
a blank, although it is not shown. -/
theorem markers_aligned_iff (display : ScoreDisplay Single)
    (closedHoursForPeriod : ℤ → ℤ → List (ℤ × ℤ)) (chart : MetricAnomalyChartData Single) :
    chart.MarkersAligned display closedHoursForPeriod ↔
      (chart.collapsed = false →
        24 * ((chart.numOfDays : ℤ) - 1) ≤ chart.scrolledBars ∨
        ∀ hour score, (hour, some score) ∈ chart.allAnomalies →
          hour ∈ chart.shownHours closedHoursForPeriod →
          display.yellow (display.logScale score) = true →
          chart.rawAt (hour - chart.ahead * metricDataInterval) = chart.rawAt hour) ∧
      (chart.collapsed = true →
        asInt (24 * chart.numOfDays - chart.scrolledBars) ≤ 24 * chart.numOfDays ∧
        ∀ hour score, (chart.collapsedBars closedHoursForPeriod)[23]? = some none →
          (chart.collapsedBars closedHoursForPeriod)[24]? = some (some (hour, some score)) →
          display.yellow (display.logScale score) = false) := by
  cases h : chart.collapsed with
  | true =>
    rw [chart.markersAligned_collapsed display closedHoursForPeriod h, chart.collapsedEnd_le_iff,
      chart.overrun_eq_nil_iff display closedHoursForPeriod]
    simp
  | false =>
    rw [chart.markersAligned_normal display closedHoursForPeriod h]
    constructor
    · intro hall
      refine ⟨fun _ => ?_, fun hcollapsed => by cases hcollapsed⟩
      apply or_iff_not_imp_left.mpr
      intro hscrolled hour score hmem hshown hyellow
      obtain ⟨m, hm, rfl⟩ :=
        chart.exists_windowMarker display closedHoursForPeriod h hmem hshown hyellow
      have haligned := (chart.aligned_windowMarker_iff display closedHoursForPeriod h hm).mp
        (hall m hm)
      exact haligned.resolve_left hscrolled
    · intro hcalm m hm
      apply (chart.aligned_windowMarker_iff display closedHoursForPeriod h hm).mpr
      apply (hcalm.1 rfl).imp_right
      intro hvalues
      obtain ⟨j, hj, score, hpoint, hyellow, -⟩ := (chart.mem_windowMarkers display).mp hm
      refine hvalues m.hour score (List.mem_of_getElem? hpoint) ?_ hyellow
      rw [shownHours, h]
      refine List.mem_map.mpr ⟨(m.hour, some score), ?_, rfl⟩
      exact List.mem_of_getElem? ((chart.getElem?_window hj).trans hpoint)

/-- Two days, up to the first hour of a year. -/
def newYearPeriod : ChartPeriod where
  numOfDays := 2
  lastTimestamp := 1420070400000
  endDate := 1420070400000
  numOfDays_pos := by decide
  days_lt := by decide
  lastTimestamp_hourly := by decide
  endDate_le := by decide
  scrolled_lt := by decide

/-- A value five minutes before the last hour, and one with a high score at its start. -/
def newYearValues : List (MetricValue ℕ) := [(1420070100000, ⟨3, 0⟩), (1420070400000, ⟨7, 9⟩)]

def plainDisplay : ScoreDisplay ℕ where
  logScale := id
  yellow score := 5 ≤ score

theorem last_hour_misplaced : ∃ chart, load newYearPeriod false newYearValues = some chart ∧
    ¬chart.MarkersAligned plainDisplay fun _ _ => [] := by
  obtain ⟨chart, hchart⟩ := Option.isSome_iff_exists.mp
    (show (load newYearPeriod false newYearValues).isSome = true by decide +kernel)
  refine ⟨chart, hchart, ?_⟩
  have hperiod : (load newYearPeriod false newYearValues).map (fun chart =>
      (chart.collapsed, chart.numOfDays, chart.scrolledBars, chart.ahead, chart.firstHour)) =
      some (false, 2, 0, 1, 24) := by decide +kernel
  have hvalues : (load newYearPeriod false newYearValues).map (fun chart =>
      (chart.allAnomalies[47]?, chart.rawAt 1420070100000, chart.rawAt 1420070400000)) =
      some (some (1420070400000, some 9), some (some 3), some (some 7)) := by decide +kernel
  rw [hchart, Option.map_some, Option.some_inj] at hperiod hvalues
  obtain ⟨hcollapsed, hdays, hscrolled, hahead, hfirst⟩ : chart.collapsed = false ∧
      chart.numOfDays = 2 ∧ chart.scrolledBars = 0 ∧ chart.ahead = 1 ∧ chart.firstHour = 24 := by
    simpa only [Prod.mk.injEq] using hperiod
  obtain ⟨hscore, hbefore, hstart⟩ : chart.allAnomalies[47]? = some (1420070400000, some 9) ∧
      chart.rawAt 1420070100000 = some (some 3) ∧ chart.rawAt 1420070400000 = some (some 7) := by
    simpa only [Prod.mk.injEq] using hvalues
  have hmarker : (⟨276, 9, 1420070400000⟩ : Marker ℕ) ∈ chart.windowMarkers plainDisplay := by
    apply (chart.mem_windowMarkers plainDisplay).mpr
    refine ⟨23, by omega, 9, ?_, rfl, rfl, rfl⟩
    rw [hfirst]
    exact hscore
  intro haligned
  have hmisplaced := (chart.aligned_windowMarker_iff plainDisplay _ hcollapsed hmarker).mp
    ((chart.markersAligned_normal plainDisplay _ hcollapsed).mp haligned _ hmarker)
  rcases hmisplaced with hfar | hsame
  · omega
  · rw [hahead] at hsame
    have htime : (1420070400000 : ℤ) - (1 : ℕ) * metricDataInterval = 1420070100000 := by decide
    rw [htime, hbefore, hstart] at hsame
    cases hsame

end MetricAnomalyChartData

end NumentaApps.Taurus
