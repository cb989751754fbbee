import NumentaApps.SeriesScores

/-!
# The caches of the series

A series that is cached is the one that would be computed. An operation drops the series of the
metrics and instances that it changes, but all series depend on the last timestamp of the whole
database.
-/
namespace NumentaApps.HTMITDatabase
open TransitionSystem
open MobileCore (AggregationType)

/-! ## Keys -/

theorem name_getLast_injective {aggregation other : AggregationType}
    (h : aggregation ∈ validAggregationTypes) (h' : other ∈ validAggregationTypes)
    (hlast : aggregation.name.toList.getLast? = other.name.toList.getLast?) :
    aggregation = other := by
  revert h h' hlast
  cases aggregation <;> cases other <;> decide

theorem seriesKey_getLast (id : String) (aggregation : AggregationType) :
    (seriesKey id aggregation).toList.getLast? = aggregation.name.toList.getLast? := by
  have hne : aggregation.name.toList ≠ [] := by cases aggregation <;> decide
  rw [seriesKey, String.toList_append, List.getLast?_append_of_ne_nil _ hne]

/-- No name of a valid aggregation ends with another, so a key has one reading. -/
theorem seriesKey_injective {id id' : String} {aggregation other : AggregationType}
    (h : aggregation ∈ validAggregationTypes) (h' : other ∈ validAggregationTypes)
    (hkey : seriesKey id aggregation = seriesKey id' other) : id = id' ∧ aggregation = other := by
  have hlast : aggregation.name.toList.getLast? = other.name.toList.getLast? := by
    rw [← seriesKey_getLast id, hkey, seriesKey_getLast]
  obtain rfl := name_getLast_injective h h' hlast
  refine ⟨?_, rfl⟩
  have hlists := congrArg String.toList hkey
  rw [seriesKey, seriesKey, String.toList_append, String.toList_append] at hlists
  exact String.toList_inj.mp (List.append_cancel_right hlists)

namespace SeriesCache
variable {key other : String} {cache : SeriesCache} {entries : List Entry}

theorem get_remove : (cache.remove key).get other =
    if other = key then none else cache.get other := by
  induction cache with
  | nil => simp [remove, get]
  | cons entry cache ih =>
    obtain ⟨k, value⟩ := entry
    rw [remove, get, get] at ih ⊢
    rw [List.filter_cons, List.lookup_cons]
    by_cases hk : k = key
    · subst hk
      rw [if_neg (by simp), ih]
      by_cases hother : other = k
      · simp [hother]
      · rw [if_neg hother, if_neg hother, beq_eq_false_iff_ne.mpr hother]
    · rw [if_pos (by simpa using hk), List.lookup_cons, ih]
      by_cases hother : other = k
      · subst hother
        simp [hk]
      · rw [beq_eq_false_iff_ne.mpr hother]

theorem get_put_self : (cache.put key entries).get key = some entries :=
  List.lookup_cons_self

theorem get_put_of_ne (h : other ≠ key) : (cache.put key entries).get other = cache.get other := by
  rw [put, get, List.lookup_cons, beq_eq_false_iff_ne.mpr h]
  exact get_remove.trans (if_neg h)

theorem get_of_get_take {n : ℕ} (h : SeriesCache.get key (cache.take n) = some entries) :
    cache.get key = some entries := by
  rw [get] at h ⊢
  rw [← List.take_append_drop n cache, List.lookup_append, h]
  rfl

theorem get_foldl_remove (id : String) (aggregations : List AggregationType) :
    (aggregations.foldl (fun cache aggregation => cache.remove (seriesKey id aggregation))
      cache).get key =
        if ∃ aggregation ∈ aggregations, key = seriesKey id aggregation then none
        else cache.get key := by
  induction aggregations generalizing cache with
  | nil => simp
  | cons aggregation aggregations ih =>
    rw [List.foldl_cons, ih, get_remove]
    by_cases hfirst : key = seriesKey id aggregation
    · simp [hfirst]
    · by_cases hrest : ∃ aggregation ∈ aggregations, key = seriesKey id aggregation
      · simp [hrest]
      · simp [hfirst, hrest]

end SeriesCache

namespace Caches
variable {c : Caches} {series other : Series} {aggregation aggregation' : AggregationType}
  {entries : List Entry} {instanceId : String} {m : Metric}

theorem getSeries_removeInstanceDataCache (h : aggregation ∈ validAggregationTypes) :
    (c.removeInstanceDataCache instanceId).getSeries series aggregation =
      if series = .ofInstance instanceId then none else c.getSeries series aggregation := by
  cases series with
  | ofMetric id => rfl
  | ofInstance id =>
    rw [getSeries, removeInstanceDataCache, SeriesCache.get_foldl_remove]
    by_cases hid : id = instanceId
    · subst hid
      rw [if_pos ⟨aggregation, h, rfl⟩, if_pos rfl]
    · rw [if_neg, if_neg]
      · rfl
      · intro heq
        exact hid (Series.ofInstance.inj heq)
      · rintro ⟨aggregation', h', hkey⟩
        exact hid (seriesKey_injective h h' hkey).1

theorem getSeries_removeMetricDataCache (h : aggregation ∈ validAggregationTypes) :
    (c.removeMetricDataCache m).getSeries series aggregation =
      if series = .ofMetric m.id ∨ series = .ofInstance m.instanceId then none
      else c.getSeries series aggregation := by
  rw [removeMetricDataCache, getSeries_removeInstanceDataCache h]
  cases series with
  | ofInstance id =>
    simp only [reduceCtorEq, false_or]
    rfl
  | ofMetric id =>
    rw [if_neg (by simp), getSeries, SeriesCache.get_foldl_remove]
    by_cases hid : id = m.id
    · subst hid
      rw [if_pos ⟨aggregation, h, rfl⟩, if_pos (Or.inl rfl)]
    · rw [if_neg, if_neg]
      · rfl
      · rintro (heq | heq)
        · exact hid (Series.ofMetric.inj heq)
        · cases heq
      · rintro ⟨aggregation', h', hkey⟩
        exact hid (seriesKey_injective h h' hkey).1

/-- What is put is found, and what else is found was there. -/
theorem getSeries_putSeries (h : aggregation ∈ validAggregationTypes)
    (h' : aggregation' ∈ validAggregationTypes) {found : List Entry}
    (hfound : (c.putSeries series aggregation entries).getSeries other aggregation' = some found) :
    other = series ∧ aggregation' = aggregation ∧ found = entries ∨
      c.getSeries other aggregation' = some found := by
  by_cases hsame : other = series ∧ aggregation' = aggregation
  · obtain ⟨rfl, rfl⟩ := hsame
    refine Or.inl ⟨rfl, rfl, ?_⟩
    have hput : ∀ cache : SeriesCache,
        (cache.put (seriesKey other.id aggregation') entries).get (seriesKey other.id aggregation') =
          some entries := fun cache => SeriesCache.get_put_self
    cases other with
    | ofMetric id =>
      have htaken := SeriesCache.get_of_get_take hfound
      exact Option.some.inj (htaken.symm.trans (hput c.aggregateMetricCache))
    | ofInstance id =>
      exact Option.some.inj (hfound.symm.trans (hput c.aggregateInstanceCache))
  · refine Or.inr ?_
    cases series with
    | ofMetric id =>
      cases other with
      | ofInstance id' => exact hfound
      | ofMetric id' =>
        have hkey : seriesKey id' aggregation' ≠ seriesKey id aggregation := by
          intro hkey
          obtain ⟨rfl, rfl⟩ := seriesKey_injective h' h hkey
          exact hsame ⟨rfl, rfl⟩
        exact (SeriesCache.get_put_of_ne hkey).symm.trans (SeriesCache.get_of_get_take hfound)
    | ofInstance id =>
      cases other with
      | ofMetric id' => exact hfound
      | ofInstance id' =>
        have hkey : seriesKey id' aggregation' ≠ seriesKey id aggregation := by
          intro hkey
          obtain ⟨rfl, rfl⟩ := seriesKey_injective h' h hkey
          exact hsame ⟨rfl, rfl⟩
        exact (SeriesCache.get_put_of_ne hkey).symm.trans hfound

theorem getMetricCache_of_ne {metric : List Metric} (h : c.metricCache ≠ []) :
    c.getMetricCache metric = c := if_neg h

/-- Loading the metrics leaves all series or none. -/
theorem getSeries_getMetricCache {metric : List Metric}
    (h : (c.getMetricCache metric).getSeries series aggregation = some entries) :
    c.metricCache ≠ [] ∧ c.getSeries series aggregation = some entries := by
  rw [getMetricCache] at h
  split at h
  · cases series <;> cases h
  · rename_i hne
    exact ⟨hne, h⟩

end Caches

/-! ## What an operation leaves alone -/

namespace Database

/-- The rows of a series are the same. -/
def SameRows (s t : Database) (series : Series) (aggregation : AggregationType) : Prop :=
  match series with
  | .ofMetric id => (t.metricData.filter fun row => row.metricId = id) =
      s.metricData.filter fun row => row.metricId = id
  | .ofInstance id =>
    (t.instanceData.filter fun row => row.aggregation = aggregation.minutes ∧ row.instanceId = id) =
      s.instanceData.filter fun row => row.aggregation = aggregation.minutes ∧ row.instanceId = id

/-- The series that stay in the caches have the rows they had. -/
def Keeps (s t : Database) : Prop :=
  ∀ series, ∀ aggregation ∈ validAggregationTypes, ∀ entries,
    t.caches.getSeries series aggregation = some entries →
      s.caches.getSeries series aggregation = some entries ∧ s.SameRows t series aggregation

/-- The aggregations with a series in the caches have the window they had. -/
def KeepsWindows (s t : Database) : Prop :=
  ∀ series, ∀ aggregation ∈ validAggregationTypes,
    (t.caches.getSeries series aggregation).isSome → t.window aggregation = s.window aggregation

/-- What is cached is what would be computed. -/
def Current (s : Database) : Prop :=
  ∀ series, ∀ aggregation ∈ validAggregationTypes, ∀ entries,
    s.caches.getSeries series aggregation = some entries →
      entries = s.loaded.getAggregatedAnomalyScore series aggregation

end Database

section Keeps
variable {s t u : Database} {series : Series} {aggregation : AggregationType}

theorem Database.SameRows.refl (s : Database) (series : Series) (aggregation : AggregationType) :
    s.SameRows s series aggregation := by
  cases series <;> exact rfl

theorem Database.SameRows.trans (h : s.SameRows t series aggregation)
    (h' : t.SameRows u series aggregation) : s.SameRows u series aggregation := by
  cases series <;> exact Eq.trans h' h

theorem Database.Keeps.trans (h : s.Keeps t) (h' : t.Keeps u) : s.Keeps u := by
  intro series aggregation hvalid entries hentries
  obtain ⟨hentries', hrows'⟩ := h' series aggregation hvalid entries hentries
  obtain ⟨hentries'', hrows⟩ := h series aggregation hvalid entries hentries'
  exact ⟨hentries'', Database.SameRows.trans hrows hrows'⟩

/-- If the tables stay as they are, it is enough that no series is put. -/
theorem Database.Keeps.of_tables (hdata : t.metricData = s.metricData)
    (htable : t.instanceData = s.instanceData)
    (hcaches : ∀ series aggregation entries,
      t.caches.getSeries series aggregation = some entries →
        s.caches.getSeries series aggregation = some entries) : s.Keeps t := by
  intro series aggregation _ entries hentries
  refine ⟨hcaches series aggregation entries hentries, ?_⟩
  cases series with
  | ofMetric id =>
    rw [Database.SameRows, hdata]
  | ofInstance id =>
    rw [Database.SameRows, htable]

theorem selected_congr (h : s.SameRows t series aggregation) (lastTimestamp : ℤ) :
    t.selected series aggregation lastTimestamp = s.selected series aggregation lastTimestamp := by
  cases series with
  | ofMetric id =>
    have hfilter : ∀ metricData : List MetricData,
        (metricData.filter fun row => row.metricId = id ∧ row.timestamp ≤ lastTimestamp) =
          (metricData.filter fun row => row.metricId = id).filter
            fun row => row.timestamp ≤ lastTimestamp := by
      intro metricData
      rw [List.filter_filter]
      apply List.filter_congr
      intro row _
      rw [Bool.and_comm, Bool.decide_and]
    rw [Database.selected, Database.selected, hfilter, hfilter]
    rw [show (t.metricData.filter fun row => row.metricId = id) =
      s.metricData.filter fun row => row.metricId = id from h]
  | ofInstance id =>
    have hfilter : ∀ table : List InstanceData,
        (table.filter fun row => row.aggregation = aggregation.minutes ∧ row.instanceId = id ∧
          row.timestamp ≤ lastTimestamp) =
          (table.filter fun row =>
            row.aggregation = aggregation.minutes ∧ row.instanceId = id).filter
              fun row => row.timestamp ≤ lastTimestamp := by
      intro table
      rw [List.filter_filter]
      apply List.filter_congr
      intro row _
      rw [Bool.and_comm, ← Bool.decide_and]
      exact decide_eq_decide.mpr and_assoc.symm
    rw [Database.selected, Database.selected, hfilter, hfilter]
    rw [show (t.instanceData.filter fun row =>
      row.aggregation = aggregation.minutes ∧ row.instanceId = id) = _ from h]

theorem size_pos (aggregation : AggregationType) : 0 < aggregation.size := by
  cases aggregation <;> decide

/-- The window tells the bucket of the last timestamp. -/
theorem window_eq_iff : t.window aggregation = s.window aggregation ↔
    (t.lastTimestamp = 0 ↔ s.lastTimestamp = 0) ∧ (s.lastTimestamp ≠ 0 →
      aggregation.bucket t.lastTimestamp = aggregation.bucket s.lastTimestamp) := by
  have hhead : ∀ last : ℤ, ((List.range aggregation.size).map
      (Database.expectedTimestamp aggregation last)).head? = some last := by
    intro last
    obtain ⟨n, hn⟩ := Nat.exists_eq_succ_of_ne_zero (size_pos aggregation).ne'
    rw [hn, List.range_succ_eq_map]
    simp [Database.expectedTimestamp]
  rw [Database.window, Database.window]
  constructor
  · intro h
    have hheads := congrArg List.head? h
    by_cases ht : t.lastTimestamp = 0
    · by_cases hs : s.lastTimestamp = 0
      · exact ⟨iff_of_true ht hs, fun hne => absurd hs hne⟩
      · rw [if_pos ht, if_neg hs, hhead] at hheads
        cases hheads
    · by_cases hs : s.lastTimestamp = 0
      · rw [if_neg ht, if_pos hs, hhead] at hheads
        cases hheads
      · rw [if_neg ht, if_neg hs, hhead, hhead] at hheads
        exact ⟨iff_of_false ht hs, fun _ => Option.some.inj hheads⟩
  · rintro ⟨hzero, hbucket⟩
    by_cases hs : s.lastTimestamp = 0
    · rw [if_pos hs, if_pos (hzero.mpr hs)]
    · rw [if_neg hs, if_neg (mt hzero.mp hs), hbucket hs]

/-- What is computed for a series depends on its rows and on the window. -/
theorem getAggregatedAnomalyScore_congr (hrows : s.SameRows t series aggregation)
    (hwindow : t.window aggregation = s.window aggregation) :
    t.loaded.getAggregatedAnomalyScore series aggregation =
      s.loaded.getAggregatedAnomalyScore series aggregation := by
  have hlast : ∀ u : Database, u.loaded.caches.getLastTimestamp = u.lastTimestamp := fun _ => rfl
  obtain ⟨hzero, hbucket⟩ := window_eq_iff.mp hwindow
  rw [Database.getAggregatedAnomalyScore, Database.getAggregatedAnomalyScore, hlast, hlast]
  by_cases hs : s.lastTimestamp = 0
  · rw [if_pos hs, if_pos (hzero.mpr hs)]
  · rw [if_neg hs, if_neg (mt hzero.mp hs), hbucket hs]
    simp only [cursor_eq, selected_congr hrows]

theorem Database.Current.of_keeps (h : s.Current) (hkeeps : s.Keeps t) (hwindows : s.KeepsWindows t) :
    t.Current := by
  intro series aggregation hvalid entries hentries
  obtain ⟨hentries', hrows⟩ := hkeeps series aggregation hvalid entries hentries
  rw [h series aggregation hvalid entries hentries']
  apply (getAggregatedAnomalyScore_congr hrows _).symm
  exact hwindows series aggregation hvalid (by rw [hentries]; rfl)

end Keeps

end NumentaApps.HTMITDatabase
