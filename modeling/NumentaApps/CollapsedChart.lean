import NumentaApps.ChartWindow

/-!
# The collapsed chart

The traversal of the hours lays out bars from the last one on: the open hours, and a blank bar in
front of each closed period that an open hour comes before.
-/
namespace NumentaApps.Taurus
open BackwardFill

variable {Single : Type} (display : ScoreDisplay Single)

/-- The bars of hours that come from the last one on; `none` is a blank. -/
def openBars : List (ℤ × ℤ) → Bool → List (ℤ × Option Single) → List (Option (ℤ × Option Single))
  | _, _, [] => []
  | closed, closedPeriod, value :: values =>
    match passClosed (value.1 + metricDataInterval) closed with
    | none => openBars closed true values
    | some closed' =>
      (if closedPeriod then [none] else []) ++ some value :: openBars closed' false values

/-- The score that is marked for a bar, with its hour. -/
def ScoreDisplay.mark : Option (ℤ × Option Single) → Option (Single × ℤ)
  | none => none
  | some value => (display.marker 0 value).map fun m => (m.score, m.hour)

def Marker.ofMark (mark : ℕ × Single × ℤ) : Marker Single := ⟨mark.1, mark.2.1, mark.2.2⟩

/-- The mark of an hour for which the blank bar in front of it has left no space. -/
def overrun : ℕ → List (Option (ℤ × Option Single)) → List (Marker Single)
  | 0, _ => []
  | m + 1, bars =>
    match bars[m]?, bars[m + 1]? with
    | some none, some (some value) => (display.marker 0 value).toList
    | _, _ => []

namespace ScoreDisplay

variable {display}

theorem marker_natCast (i : ℕ) (value : ℤ × Option Single) :
    display.marker i value =
      (display.mark (some value)).map fun c => Marker.ofMark (i, c) := by
  cases hscore : value.2 with
  | none => simp [mark, marker, hscore]
  | some score =>
    by_cases hyellow : display.yellow (display.logScale score) = true
    · simp [mark, marker, hscore, hyellow, Marker.ofMark]
    · simp [mark, marker, hscore, hyellow]

end ScoreDisplay

theorem openBars_sublist (closed : List (ℤ × ℤ)) (closedPeriod : Bool)
    (values : List (ℤ × Option Single)) :
    ((openBars closed closedPeriod values).filterMap id).Sublist values := by
  induction values generalizing closed closedPeriod with
  | nil => exact List.Sublist.slnil
  | cons value values ih =>
    rw [openBars]
    split
    · exact (ih closed true).cons value
    · rename_i closed' _
      cases closedPeriod with
      | false => simpa using ih closed' false
      | true => simpa using ih closed' false

theorem mem_of_openBars {closed : List (ℤ × ℤ)} {closedPeriod : Bool}
    {values : List (ℤ × Option Single)} {value : ℤ × Option Single}
    (h : some value ∈ openBars closed closedPeriod values) : value ∈ values :=
  (openBars_sublist closed closedPeriod values).subset
    (List.mem_filterMap.mpr ⟨some value, h, rfl⟩)

namespace MetricAnomalyChartData

variable (chart : MetricAnomalyChartData Single)

/-- The cells of a bar. -/
def render : Option (ℤ × Option Single) → List (Option Single)
  | none => List.replicate 12 none
  | some value =>
    (chart.allRawData.drop ((value.1 - chart.fromTime) / metricDataInterval).toNat).take 12

variable {chart}

theorem exists_place {value : ℤ × Option Single} (h : value ∈ chart.allAnomalies) :
    ∃ k : ℕ, k < 24 * chart.numOfDays ∧ value.1 = chart.fromTime + k * millisPerHour ∧
      (value.1 - chart.fromTime) / metricDataInterval = (12 * k : ℕ) := by
  obtain ⟨k, hk⟩ := List.mem_iff_getElem?.mp h
  have htime := chart.time_eq hk
  refine ⟨k, chart.lt_of_getElem? hk, htime, ?_⟩
  simp only [htime, metricDataInterval, millisPerHour, millisPerMinute]
  omega

theorem render_length {bar : Option (ℤ × Option Single)}
    (h : ∀ value, bar = some value → value ∈ chart.allAnomalies) : (chart.render bar).length = 12 := by
  cases bar with
  | none => rfl
  | some value =>
    obtain ⟨k, hk, -, hplace⟩ := exists_place (h value rfl)
    have hlength := chart.raw_length
    rw [render, hplace, Int.toNat_natCast, List.length_take, List.length_drop]
    omega

/-- The values of an hour take the last free bar. -/
theorem copyBack_render {value : ℤ × Option Single} (h : value ∈ chart.allAnomalies) (m : ℕ)
    (tail : List (Option Single)) :
    copyBack chart.allRawData pointsPerBar.toNat
        (asInt ((value.1 - chart.fromTime) / metricDataInterval + pointsPerBar) - 1)
        ⟨(12 * (m + 1) : ℕ), List.replicate (12 * (m + 1)) none ++ tail⟩ =
      some ⟨(12 * m : ℕ), List.replicate (12 * m) none ++ (chart.render (some value) ++ tail)⟩ := by
  obtain ⟨k, hk, -, hplace⟩ := exists_place h
  have hdays := chart.numOfDays_lt
  have hlength := chart.raw_length
  have hindex : asInt ((12 * k : ℕ) + pointsPerBar) = (12 * k + 12 : ℕ) := by
    change asInt ((12 * k : ℕ) + 12) = _
    exact asInt_eq (by omega) (by omega)
  rw [render, hplace, Int.toNat_natCast, hindex]
  exact copyBack_spec 12 (12 * m) tail (by omega)

/-- The step of the traversal for an hour in which the market is open. -/
theorem visit_open {value : ℤ × Option Single} {closed closed' : List (ℤ × ℤ)}
    {anomalies : List (Marker Single)} {m : ℕ} {tail : List (Option Single)}
    (h : value ∈ chart.allAnomalies)
    (hpass : passClosed (value.1 + metricDataInterval) closed = some closed') :
    visit display chart.allRawData chart.fromTime
        ⟨⟨(12 * (m + 1) : ℕ), List.replicate (12 * (m + 1)) none ++ tail⟩, anomalies, closed, false⟩
        value =
      some ⟨⟨(12 * m : ℕ), List.replicate (12 * m) none ++ (chart.render (some value) ++ tail)⟩,
        anomalies ++ (display.marker (12 * m : ℕ) value).toList, closed', false⟩ := by
  simp only [visit, hpass, Bool.false_eq_true, if_false, copyBack_render h m tail]
  rfl

/-- After a closed period a bar is left blank. -/
theorem visit_blank {value : ℤ × Option Single} {closed closed' : List (ℤ × ℤ)}
    {anomalies : List (Marker Single)} {m : ℕ} {tail : List (Option Single)}
    (h : value ∈ chart.allAnomalies)
    (hpass : passClosed (value.1 + metricDataInterval) closed = some closed') :
    visit display chart.allRawData chart.fromTime
        ⟨⟨(12 * (m + 2) : ℕ), List.replicate (12 * (m + 2)) none ++ tail⟩, anomalies, closed, true⟩
        value =
      some ⟨⟨(12 * m : ℕ), List.replicate (12 * m) none ++
          (chart.render (some value) ++ (List.replicate 12 none ++ tail))⟩,
        anomalies ++ (display.marker (12 * m : ℕ) value).toList, closed', false⟩ := by
  have hsize : ((12 * (m + 2) : ℕ) : ℤ) - pointsPerBar = (12 * (m + 1) : ℕ) := by
    change ((12 * (m + 2) : ℕ) : ℤ) - 12 = _
    omega
  have hcells : List.replicate (12 * (m + 2)) none ++ tail =
      List.replicate (12 * (m + 1)) (none : Option Single) ++ (List.replicate 12 none ++ tail) := by
    rw [← List.append_assoc, List.replicate_append_replicate]
    rfl
  simp only [visit, hpass, if_true, hsize, hcells, copyBack_render h m]
  rfl

/-- When that bar is the last free one, the score of the hour is marked all the same. -/
theorem visit_overrun {value : ℤ × Option Single} {closed closed' : List (ℤ × ℤ)}
    {anomalies : List (Marker Single)} {cells : List (Option Single)}
    (hpass : passClosed (value.1 + metricDataInterval) closed = some closed') :
    visit display chart.allRawData chart.fromTime ⟨⟨12, cells⟩, anomalies, closed, true⟩ value =
      some ⟨⟨0, cells⟩, anomalies ++ (display.marker 0 value).toList, closed', false⟩ := by
  have hsize : (12 : ℤ) - pointsPerBar = 0 := by decide
  have hfull : copyBack chart.allRawData pointsPerBar.toNat
      (asInt ((value.1 - chart.fromTime) / metricDataInterval + pointsPerBar) - 1) ⟨0, cells⟩ =
      some ⟨0, cells⟩ := copyBack_of_full (Int.le_refl 0)
  simp only [visit, hpass, if_true, hsize, hfull]
  rfl

theorem traverse_of_full {t : Traversal Single} (h : t.fill.size = 0)
    (values : List (ℤ × Option Single)) :
    traverse display chart.allRawData chart.fromTime values t = some t := by
  cases values with
  | nil => rfl
  | cons value values => rw [traverse, if_neg (by omega)]

theorem overrun_succ (m : ℕ) (bar : Option (ℤ × Option Single))
    (bars : List (Option (ℤ × Option Single))) (hbar : m = 0 → bar ≠ none) :
    overrun display (m + 1) (bar :: bars) = overrun display m bars := by
  cases m with
  | zero =>
    cases bar with
    | none => exact absurd rfl (hbar rfl)
    | some value => rfl
  | succ m => rfl

/-- What the traversal of the rest of the hours writes and marks. -/
theorem traverse_spec {values : List (ℤ × Option Single)} (h : values ⊆ chart.allAnomalies)
    (closed : List (ℤ × ℤ)) (closedPeriod : Bool) (m : ℕ) (tail : List (Option Single))
    (anomalies : List (Marker Single)) :
    ∃ t, traverse display chart.allRawData chart.fromTime values
        ⟨⟨(12 * m : ℕ), List.replicate (12 * m) none ++ tail⟩, anomalies, closed, closedPeriod⟩ =
          some t ∧
      t.fill.cells = rendered 12 none chart.render m (openBars closed closedPeriod values) ++ tail ∧
      t.anomalies = anomalies ++
        (marks 12 display.mark m (openBars closed closedPeriod values)).map Marker.ofMark ++
        overrun display m (openBars closed closedPeriod values) := by
  induction values generalizing closed closedPeriod m tail anomalies with
  | nil =>
    refine ⟨_, rfl, ?_, ?_⟩
    · rw [openBars, rendered_nil]
    · cases m <;> simp [openBars, marks, overrun]
  | cons value values ih =>
    obtain ⟨hvalue, hvalues⟩ := List.cons_subset.mp h
    cases m with
    | zero =>
      refine ⟨_, traverse_of_full display rfl _, ?_, ?_⟩
      · simp [rendered]
      · simp [marks, overrun]
    | succ m =>
      have hspace : (0 : ℤ) < (12 * (m + 1) : ℕ) := by omega
      cases hpass : passClosed (value.1 + metricDataInterval) closed with
      | none =>
        obtain ⟨t, ht, hcells, hmarked⟩ := ih hvalues closed true (m + 1) tail anomalies
        refine ⟨t, ?_, ?_, ?_⟩
        · rw [traverse, if_pos hspace, visit, hpass, Option.bind_some]
          exact ht
        · rw [hcells, openBars, hpass]
        · rw [hmarked, openBars, hpass]
      | some closed' =>
        cases closedPeriod with
        | false =>
          obtain ⟨t, ht, hcells, hmarked⟩ := ih hvalues closed' false m
            (chart.render (some value) ++ tail) (anomalies ++ (display.marker (12 * m : ℕ) value).toList)
          have hbars : openBars closed false (value :: values) =
              some value :: openBars closed' false values := by
            rw [openBars, hpass]
            rfl
          refine ⟨t, ?_, ?_, ?_⟩
          · rw [traverse, if_pos hspace, visit_open display hvalue hpass]
            exact ht
          · rw [hcells, hbars, rendered, List.append_assoc]
          · rw [hmarked, hbars, marks, overrun_succ display m _ _ (by simp),
              ScoreDisplay.marker_natCast]
            simp [Option.toList_map]
        | true =>
          have hbars : openBars closed true (value :: values) =
              none :: some value :: openBars closed' false values := by
            rw [openBars, hpass]
            rfl
          cases m with
          | zero =>
            refine ⟨⟨⟨0, List.replicate 12 none ++ tail⟩,
              anomalies ++ (display.marker 0 value).toList, closed', false⟩, ?_, ?_, ?_⟩
            · rw [traverse, if_pos hspace]
              refine (congrArg (Option.bind · _) (visit_overrun display hpass)).trans ?_
              exact traverse_of_full display rfl values
            · rw [hbars]
              rfl
            · rw [hbars]
              simp [marks, overrun, ScoreDisplay.mark]
          | succ m =>
            obtain ⟨t, ht, hcells, hmarked⟩ := ih hvalues closed' false m
              (chart.render (some value) ++ (List.replicate 12 none ++ tail))
              (anomalies ++ (display.marker (12 * m : ℕ) value).toList)
            refine ⟨t, ?_, ?_, ?_⟩
            · rw [traverse, if_pos hspace, visit_blank display hvalue hpass]
              exact ht
            · rw [hcells, hbars, rendered, rendered, List.append_assoc, List.append_assoc]
              rfl
            · rw [hmarked, hbars, marks, marks, overrun_succ display (m + 1) _ _ (by simp),
                overrun_succ display m _ _ (by simp), ScoreDisplay.marker_natCast]
              simp [Option.toList_map, ScoreDisplay.mark]

variable (chart) (closedHoursForPeriod : ℤ → ℤ → List (ℤ × ℤ))

/-- The bars of all hours up to the end date. -/
def collapsedBars : List (Option (ℤ × Option Single)) :=
  openBars
    (closedHoursForPeriod chart.fromTime
      (chart.fromTime + min chart.collapsedEnd (24 * chart.numOfDays - 1) * millisPerHour)).reverse
    false (chart.allAnomalies.take chart.collapsedEnd.toNat).reverse

def collapsedCells : List (Option Single) :=
  rendered 12 none chart.render 24 (chart.collapsedBars closedHoursForPeriod)

def collapsedMarkers : List (Marker Single) :=
  (marks 12 display.mark 24 (chart.collapsedBars closedHoursForPeriod)).map Marker.ofMark ++
    overrun display 24 (chart.collapsedBars closedHoursForPeriod)

variable {closedHoursForPeriod chart}

theorem mem_allAnomalies {value : ℤ × Option Single}
    (h : some value ∈ chart.collapsedBars closedHoursForPeriod) : value ∈ chart.allAnomalies :=
  List.mem_of_mem_take (List.mem_reverse.mp (mem_of_openBars h))

theorem bar_length : ∀ bar ∈ chart.collapsedBars closedHoursForPeriod,
    (chart.render bar).length = 12 := by
  intro bar hbar
  apply render_length
  intro value hvalue
  exact mem_allAnomalies (hvalue ▸ hbar)

theorem collapsedCells_length : (chart.collapsedCells closedHoursForPeriod).length = 288 :=
  rendered_length bar_length 24

theorem bars_nodup : (((chart.collapsedBars closedHoursForPeriod).filterMap id).map Prod.fst).Nodup := by
  have hbars := (openBars_sublist (closedHoursForPeriod chart.fromTime
    (chart.fromTime + min chart.collapsedEnd (24 * chart.numOfDays - 1) * millisPerHour)).reverse
    false (chart.allAnomalies.take chart.collapsedEnd.toNat).reverse).map Prod.fst
  apply hbars.nodup
  rw [List.map_reverse]
  exact List.nodup_reverse.mpr (((List.take_sublist _ _).map Prod.fst).nodup chart.times_nodup)

variable (closedHoursForPeriod chart)

theorem fillCollapsed_eq_bind :
    chart.fillCollapsed display closedHoursForPeriod =
      (subList chart.allAnomalies 0 chart.collapsedEnd).bind fun values =>
        (traverse display chart.allRawData chart.fromTime values.reverse
          ⟨⟨(12 * 24 : ℕ), List.replicate (12 * 24) none ++ []⟩, [], (closedHoursForPeriod chart.fromTime
            (chart.fromTime + min chart.collapsedEnd (24 * chart.numOfDays - 1) *
              millisPerHour)).reverse, false⟩).map fun t => (t.fill.cells, t.anomalies) := by
  have hlength := chart.anomalies_length
  have hpos := chart.numOfDays_pos
  have hend : 0 ≤ chart.collapsedEnd := le_max_left 0 _
  obtain ⟨k, hk⟩ : ∃ k : ℕ, min chart.collapsedEnd (24 * chart.numOfDays - 1) = k :=
    Int.eq_ofNat_of_zero_le (by omega)
  obtain ⟨last, hlast⟩ : ∃ last, chart.allAnomalies[k]? = some last :=
    ⟨_, List.getElem?_eq_getElem (by omega)⟩
  obtain ⟨first, hfirst⟩ : ∃ first, chart.allAnomalies[0]? = some first :=
    ⟨_, List.getElem?_eq_getElem (by omega)⟩
  have hgetLast : getAt chart.allAnomalies
      (min chart.collapsedEnd ((24 * chart.numOfDays : ℕ) - 1)) = some last := by
    rw [Nat.cast_mul, Nat.cast_ofNat, hk, getAt_natCast, hlast]
  have hgetFirst : getAt chart.allAnomalies 0 = some first := (getAt_natCast _ 0).trans hfirst
  have hfirstTime : first.1 = chart.fromTime := by
    rw [chart.time_eq hfirst, Nat.cast_zero, Int.zero_mul, Int.add_zero]
  simp only [fillCollapsed, hlength, hgetLast, hgetFirst, asInt_viewSize, hfirstTime,
    chart.time_eq hlast, hk, Option.bind_eq_bind, Option.bind_some, List.append_nil,
    Option.map_eq_bind]
  rfl

theorem fillCollapsed_eq (h : chart.collapsedEnd ≤ 24 * chart.numOfDays) :
    chart.fillCollapsed display closedHoursForPeriod =
      some (chart.collapsedCells closedHoursForPeriod,
        chart.collapsedMarkers display closedHoursForPeriod) := by
  have hend : chart.collapsedEnd = chart.collapsedEnd.toNat :=
    (Int.toNat_of_nonneg (le_max_left 0 _)).symm
  have hvalues : subList chart.allAnomalies 0 chart.collapsedEnd =
      some (chart.allAnomalies.take chart.collapsedEnd.toNat) := by
    have hlist := @subList_natCast _ chart.allAnomalies 0 chart.collapsedEnd.toNat
      (by rw [chart.anomalies_length]; omega)
    rwa [Nat.zero_add, ← hend, List.drop_zero] at hlist
  have hsubset : (chart.allAnomalies.take chart.collapsedEnd.toNat).reverse ⊆ chart.allAnomalies :=
    fun value hvalue => List.mem_of_mem_take (List.mem_reverse.mp hvalue)
  obtain ⟨t, ht, hcells, hmarkers⟩ := traverse_spec display hsubset (closedHoursForPeriod chart.fromTime
    (chart.fromTime + min chart.collapsedEnd (24 * chart.numOfDays - 1) * millisPerHour)).reverse
    false 24 [] []
  rw [fillCollapsed_eq_bind, hvalues, Option.bind_some, ht, Option.map_some, hcells, hmarkers,
    List.append_nil, List.nil_append]
  rfl

theorem fillCollapsed_none (h : 24 * chart.numOfDays < chart.collapsedEnd) :
    chart.fillCollapsed display closedHoursForPeriod = none := by
  have hlength := chart.anomalies_length
  rw [fillCollapsed_eq_bind, subList, if_neg (by omega), Option.bind_none]

/-- The bars that carry a marker, with its place. -/
theorem mem_marks_collapsed {m : Marker Single} :
    m ∈ (marks 12 display.mark 24 (chart.collapsedBars closedHoursForPeriod)).map Marker.ofMark ↔
      ∃ j < 24, ∃ score,
        (chart.collapsedBars closedHoursForPeriod)[j]? = some (some (m.hour, some score)) ∧
        display.yellow (display.logScale score) = true ∧ m.index = (12 * (24 - 1 - j) : ℕ) ∧
        m.score = display.logScale score := by
  rw [List.mem_map]
  constructor
  · intro h
    obtain ⟨⟨i, c⟩, hmark, rfl⟩ := h
    obtain ⟨j, bar, hj, hbar, hc, rfl⟩ := mem_marks.mp hmark
    cases bar with
    | none => cases hc
    | some value =>
      obtain ⟨m', hm', rfl⟩ := Option.map_eq_some_iff.mp hc
      obtain ⟨score, hscore, hyellow, rfl⟩ := ScoreDisplay.marker_eq_some_iff.mp hm'
      refine ⟨j, hj, score, ?_, hyellow, rfl, rfl⟩
      rw [hbar, ← hscore]
      rfl
  · intro h
    obtain ⟨j, hj, score, hbar, hyellow, hindex, hscore⟩ := h
    refine ⟨(12 * (24 - 1 - j), m.score, m.hour), ?_, ?_⟩
    · refine mem_marks.mpr ⟨j, _, hj, hbar, ?_, rfl⟩
      rw [hscore]
      exact Option.map_eq_some_iff.mpr
        ⟨_, ScoreDisplay.marker_eq_some_iff.mpr ⟨score, rfl, hyellow, rfl⟩, rfl⟩
    · rw [Marker.ofMark, ← hindex]

theorem mem_overrun {m : Marker Single} :
    m ∈ overrun display 24 (chart.collapsedBars closedHoursForPeriod) ↔
      (chart.collapsedBars closedHoursForPeriod)[23]? = some none ∧ ∃ score,
        (chart.collapsedBars closedHoursForPeriod)[24]? = some (some (m.hour, some score)) ∧
        display.yellow (display.logScale score) = true ∧ m.index = 0 ∧
        m.score = display.logScale score := by
  constructor
  · intro h
    rw [overrun] at h
    split at h
    · rename_i value hblank hvalue
      obtain ⟨score, hscore, hyellow, rfl⟩ :=
        ScoreDisplay.marker_eq_some_iff.mp (Option.mem_toList.mp h)
      refine ⟨hblank, score, ?_, hyellow, rfl, rfl⟩
      rw [hvalue, ← hscore]
    · exact absurd h List.not_mem_nil
  · intro h
    obtain ⟨hblank, score, hvalue, hyellow, hindex, hscore⟩ := h
    rw [overrun, hblank, hvalue]
    apply Option.mem_toList.mpr
    apply ScoreDisplay.marker_eq_some_iff.mpr
    refine ⟨score, rfl, hyellow, ?_⟩
    rw [← hindex, ← hscore]

theorem marks_nodup : (((marks 12 display.mark 24
    (chart.collapsedBars closedHoursForPeriod)).map Marker.ofMark).map Marker.index).Nodup := by
  have hplaces : ((marks 12 display.mark 24 (chart.collapsedBars closedHoursForPeriod)).map
      Marker.ofMark).map Marker.index = ((marks 12 display.mark 24
        (chart.collapsedBars closedHoursForPeriod)).map Prod.fst).map fun i : ℕ => (i : ℤ) := by
    rw [List.map_map, List.map_map]
    rfl
  rw [hplaces]
  have hdescending : ((marks 12 display.mark 24
      (chart.collapsedBars closedHoursForPeriod)).map Prod.fst).Pairwise (· > ·) :=
    marks_descending (by omega) 24
  have hnodup : ((marks 12 display.mark 24
      (chart.collapsedBars closedHoursForPeriod)).map Prod.fst).Nodup :=
    hdescending.imp fun h => Nat.ne_of_gt h
  exact hnodup.map fun i i' h => Int.ofNat_inj.mp h

theorem overrun_eq_nil_iff :
    overrun display 24 (chart.collapsedBars closedHoursForPeriod) = [] ↔
      ∀ hour score, (chart.collapsedBars closedHoursForPeriod)[23]? = some none →
        (chart.collapsedBars closedHoursForPeriod)[24]? = some (some (hour, some score)) →
        display.yellow (display.logScale score) = false := by
  rw [List.eq_nil_iff_forall_not_mem]
  constructor
  · intro h hour score hblank hvalue
    apply eq_false_of_ne_true
    intro hyellow
    exact h ⟨0, display.logScale score, hour⟩
      ((chart.mem_overrun display closedHoursForPeriod).mpr
        ⟨hblank, score, hvalue, hyellow, rfl, rfl⟩)
  · intro h m hm
    obtain ⟨hblank, score, hvalue, hyellow, -⟩ :=
      (chart.mem_overrun display closedHoursForPeriod).mp hm
    rw [h m.hour score hblank hvalue] at hyellow
    cases hyellow

end MetricAnomalyChartData

end NumentaApps.Taurus
