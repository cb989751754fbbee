import NumentaApps.MetricAnomalyChartData
import Mathlib.Algebra.Order.Group.Int

/-!
# Loaded chart data

A loaded chart keeps, at each place, the last value that was delivered for it, and for each hour the
highest of the scores that were delivered for it.
-/
namespace NumentaApps.Taurus
open BackwardFill

variable {Single : Type}

/-- The place of a value; those after the last place take it too. -/
def ChartPeriod.place (period : ChartPeriod) (e : MetricValue Single) : ℤ :=
  let idx := asInt ((e.1 - period.fromTime).tdiv metricDataInterval)
  if (period.rawSize : ℤ) ≤ idx then (period.rawSize : ℤ) - 1 else idx

def valuesAt (period : ChartPeriod) (values : List (MetricValue Single)) (i : ℕ) : List Single :=
  (values.filter fun e => period.place e = i).map fun e => e.2.value

def scoresAt (values : List (MetricValue Single)) (hour : ℤ) : List Single :=
  (values.filter fun e => floorTo60minutes e.1 = hour).map fun e => e.2.anomaly

theorem valuesAt_concat (period : ChartPeriod) (values : List (MetricValue Single))
    (e : MetricValue Single) (i : ℕ) : valuesAt period (values ++ [e]) i =
      valuesAt period values i ++ if period.place e = i then [e.2.value] else [] := by
  rw [valuesAt, List.filter_append, List.map_append, List.filter_singleton]
  by_cases h : period.place e = i <;> simp [h, valuesAt]

theorem scoresAt_concat (values : List (MetricValue Single)) (e : MetricValue Single) (hour : ℤ) :
    scoresAt (values ++ [e]) hour =
      scoresAt values hour ++ if floorTo60minutes e.1 = hour then [e.2.anomaly] else [] := by
  rw [scoresAt, List.filter_append, List.map_append, List.filter_singleton]
  by_cases h : floorTo60minutes e.1 = hour <;> simp [h, scoresAt]

variable [LinearOrder Single]

theorem max?_concat (xs : List Single) (y : Single) :
    (xs ++ [y]).max? = some (xs.max?.elim y fun greatest => max greatest y) := by
  cases xs with
  | nil => rfl
  | cons x xs =>
    rw [List.cons_append, List.max?_cons', List.foldl_append, List.max?_cons']
    rfl

variable {period : ChartPeriod} {s s' : Loading Single} {e : MetricValue Single}

theorem onData_raw (hlength : s.allRawData.length = period.rawSize)
    (h : onData period.fromTime s e = some s') :
    ∃ i : ℕ, period.place e = i ∧ i < period.rawSize ∧
      s'.allRawData = s.allRawData.set i (some e.2.value) := by
  obtain ⟨raw, hraw, hs⟩ := Option.bind_eq_some_iff.mp h
  rw [hlength] at hraw
  obtain ⟨hbounds, hset⟩ := Option.ite_none_right_eq_some.mp hraw
  change 0 ≤ period.place e ∧ period.place e < s.allRawData.length at hbounds
  refine ⟨(period.place e).toNat, (Int.toNat_of_nonneg hbounds.1).symm, by omega, ?_⟩
  rw [← Option.some.inj hs, ← Option.some.inj hset]
  rfl

theorem aggregate_apply (aggregated : ℤ → Option Single) (hour : ℤ) (anomaly : Single) (hour' : ℤ) :
    aggregate aggregated hour anomaly hour' = if hour = hour' then
      some ((aggregated hour').elim anomaly fun score => max score anomaly)
    else aggregated hour' := by
  rw [aggregate]
  by_cases hhour : hour = hour'
  · subst hhour
    cases hscore : aggregated hour with
    | none => simp
    | some score =>
      by_cases hlt : score < anomaly
      · simp [hlt, max_eq_right (le_of_lt hlt)]
      · simp [hlt, hscore, max_eq_left (not_lt.mp hlt)]
  · rw [if_neg hhour]
    split
    · exact Function.update_of_ne (Ne.symm hhour) _ _
    · rfl

theorem onData_score (h : onData period.fromTime s e = some s') (hour : ℤ) :
    s'.aggregated hour = if floorTo60minutes e.1 = hour then
      some ((s.aggregated hour).elim e.2.anomaly fun score => max score e.2.anomaly)
    else s.aggregated hour := by
  obtain ⟨raw, hraw, hs⟩ := Option.bind_eq_some_iff.mp h
  rw [← Option.some.inj hs]
  exact aggregate_apply s.aggregated (floorTo60minutes e.1) e.2.anomaly hour

/-- What has been filled once the values are delivered. -/
theorem loading_spec (values : List (MetricValue Single))
    (h : values.foldlM (onData period.fromTime)
      ⟨List.replicate period.rawSize none, fun _ => none⟩ = some s) :
    (∀ i < period.rawSize, s.allRawData[i]? = some (valuesAt period values i).getLast?) ∧
      ∀ hour, s.aggregated hour = (scoresAt values hour).max? := by
  induction values using List.reverseRecOn generalizing s with
  | nil =>
    rw [← Option.some.inj h]
    refine ⟨fun i hi => ?_, fun hour => rfl⟩
    simp [hi, valuesAt]
  | append_singleton values e ih =>
    rw [List.foldlM_append] at h
    obtain ⟨t, ht, hlast⟩ := Option.bind_eq_some_iff.mp h
    have hdata : onData period.fromTime t e = some s := by
      simpa using hlast
    obtain ⟨hraw, hscores⟩ := ih ht
    have hlength : t.allRawData.length = period.rawSize := by
      rw [loading_length ht, List.length_replicate]
    constructor
    · intro i hi
      obtain ⟨j, hplace, hj, hset⟩ := onData_raw hlength hdata
      rw [hset, valuesAt_concat, hplace, List.getElem?_set]
      by_cases hij : j = i
      · simp [hij, hlength, hi]
      · simp [hij, hraw i hi]
    · intro hour
      rw [onData_score hdata hour, hscores hour, scoresAt_concat]
      split
      · rw [max?_concat]
      · rw [List.append_nil]

/-- The data of a loaded chart. -/
theorem load_spec {collapsed : Bool} {values : List (MetricValue Single)}
    {chart : MetricAnomalyChartData Single} (h : load period collapsed values = some chart) :
    chart.toChartPeriod = period.withEndDate ∧
      (∀ i < period.rawSize, chart.allRawData[i]? = some (valuesAt period values i).getLast?) ∧
      ∀ hour score, (hour, score) ∈ chart.allAnomalies → score = (scoresAt values hour).max? := by
  unfold load at h
  split at h
  · cases h
  · rename_i s hs
    obtain ⟨hraw, hscores⟩ := loading_spec values hs
    rw [← Option.some.inj h]
    refine ⟨rfl, hraw, ?_⟩
    intro hour score hmem
    obtain ⟨time, -, heq⟩ := List.mem_map.mp hmem
    cases heq
    exact hscores hour

end NumentaApps.Taurus
