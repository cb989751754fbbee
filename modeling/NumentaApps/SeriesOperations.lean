import NumentaApps.SeriesCaches

/-!
# The operations and the series they keep

Each operation changes the rows of those series only that it drops from the caches; adding a
metric again and deleting an instance without metrics are the exceptions.
-/
namespace NumentaApps.HTMITDatabase
open MobileCore (AggregationType raiseTimestamp)

/-! ## What stays true of the database -/

/-- The metrics of two lists have the same IDs. -/
def SameIds (metrics others : List Metric) : Prop :=
  ∀ id, (∃ m ∈ metrics, m.id = id) ↔ ∃ m ∈ others, m.id = id

/-- The cache, if it has been loaded, has the metrics of the table. -/
structure Sound (s : Database) : Prop where
  stored : Database.Stored s.instanceData
  ids : s.caches.metricCache ≠ [] → SameIds s.caches.metricCache s.metric

section Ids
variable {metrics others : List Metric} {m : Metric} {id : String} {c : Caches}

theorem SameIds.refl (metrics : List Metric) : SameIds metrics metrics := fun _ => Iff.rfl

theorem SameIds.trans {third : List Metric} (h : SameIds metrics others)
    (h' : SameIds others third) : SameIds metrics third := fun id => (h id).trans (h' id)

theorem SameIds.symm (h : SameIds metrics others) : SameIds others metrics := fun id => (h id).symm

theorem exists_id_put : (∃ other ∈ metrics.filter (fun other => other.id ≠ m.id) ++ [m],
    other.id = id) ↔ id = m.id ∨ ∃ other ∈ metrics, other.id = id := by
  constructor
  · rintro ⟨other, hmem, rfl⟩
    rcases List.mem_append.mp hmem with hmem | hmem
    · exact Or.inr ⟨other, List.mem_of_mem_filter hmem, rfl⟩
    · obtain rfl := List.mem_singleton.mp hmem
      exact Or.inl rfl
  · intro h
    by_cases hid : id = m.id
    · exact ⟨m, List.mem_append_right _ (List.mem_singleton_self m), hid.symm⟩
    · obtain ⟨other, hmem, rfl⟩ := h.resolve_left hid
      exact ⟨other, List.mem_append_left _ (List.mem_filter.mpr ⟨hmem, by simpa using hid⟩), rfl⟩

theorem exists_id_remove : (∃ other ∈ metrics.filter (fun other => other.id ≠ m.id),
    other.id = id) ↔ id ≠ m.id ∧ ∃ other ∈ metrics, other.id = id := by
  constructor
  · rintro ⟨other, hmem, rfl⟩
    obtain ⟨hmem, hid⟩ := List.mem_filter.mp hmem
    exact ⟨by simpa using hid, other, hmem, rfl⟩
  · rintro ⟨hid, other, hmem, rfl⟩
    exact ⟨other, List.mem_filter.mpr ⟨hmem, by simpa using hid⟩, rfl⟩

theorem SameIds.map {f : Metric → Metric} (hf : ∀ m ∈ metrics, (f m).id = m.id) :
    SameIds (metrics.map f) metrics := by
  intro id
  constructor
  · rintro ⟨_, hmem, rfl⟩
    obtain ⟨m, hm, rfl⟩ := List.mem_map.mp hmem
    exact ⟨m, hm, (hf m hm).symm⟩
  · rintro ⟨m, hm, rfl⟩
    exact ⟨f m, List.mem_map_of_mem hm, hf m hm⟩

/-- A loaded cache that had the metrics of a table has them after a change of the table that
keeps the IDs. -/
theorem sameIds_getMetricCache (h : c.metricCache ≠ [] → SameIds c.metricCache metrics) :
    SameIds (c.getMetricCache metrics).metricCache metrics := by
  rw [Caches.getMetricCache]
  split
  · exact SameIds.refl _
  · rename_i hne
    exact h hne

theorem sameIds_updateMetricCache (h : c.metricCache ≠ [] →
    ∀ id, (id = m.id ∨ ∃ other ∈ c.metricCache, other.id = id) ↔ ∃ other ∈ metrics, other.id = id)
    (hm : ∃ other ∈ metrics, other.id = m.id) :
    SameIds (c.updateMetricCache metrics m).metricCache metrics := by
  intro id
  rw [Caches.updateMetricCache, Caches.putMetric, exists_id_put, Caches.getMetricCache]
  split
  · constructor
    · rintro (rfl | hid)
      · exact hm
      · exact hid
    · exact Or.inr
  · rename_i hne
    exact h hne id

theorem getSeries_updateMetricCache {series : Series} {aggregation : AggregationType}
    {entries : List Entry}
    (h : (c.updateMetricCache metrics m).getSeries series aggregation = some entries) :
    c.getSeries series aggregation = some entries := by
  have hloaded : (c.getMetricCache metrics).getSeries series aggregation = some entries := by
    cases series <;> exact h
  exact (Caches.getSeries_getMetricCache hloaded).2

end Ids

/-! ## Metrics -/

section Metrics
variable {s : Database} {m : Metric} {id : String}

theorem filter_deleteData {other : String} (h : other ≠ id) (metricData : List MetricData) :
    (Database.deleteData id metricData).filter (fun row => row.metricId = other) =
      metricData.filter fun row => row.metricId = other := by
  rw [Database.deleteData, List.filter_filter]
  apply List.filter_congr
  intro row _
  by_cases hrow : row.metricId = other
  · simp [hrow, h]
  · simp [hrow]

theorem Sound.addMetric (h : Sound s) (m : Metric) : Sound (s.addMetric m) where
  stored := h.stored
  ids _ := by
    apply sameIds_updateMetricCache
    · intro hne id
      rw [exists_id_put, h.ids hne]
    · exact ⟨m, List.mem_append_right _ (List.mem_singleton_self m), rfl⟩

/-- A metric that is added again loses its rows, but not its series. -/
theorem addMetric_keeps (s : Database) (m : Metric)
    (hnew : ∀ aggregation ∈ validAggregationTypes,
      ((s.addMetric m).caches.getSeries (.ofMetric m.id) aggregation).isSome →
        (s.metricData.filter fun row => row.metricId = m.id) = []) :
    s.Keeps (s.addMetric m) := by
  intro series aggregation hvalid entries hentries
  refine ⟨getSeries_updateMetricCache hentries, ?_⟩
  cases series with
  | ofInstance id => exact rfl
  | ofMetric id =>
    rw [Database.SameRows, Database.addMetric]
    by_cases hid : id = m.id
    · subst hid
      rw [hnew aggregation hvalid (by rw [hentries]; rfl)]
      apply List.filter_eq_nil_iff.mpr
      intro row hrow
      simpa using (List.mem_filter.mp hrow).2
    · exact filter_deleteData hid s.metricData

theorem Sound.updateMetric (h : Sound s) (m : Metric) : Sound (s.updateMetric m) := by
  rw [Database.updateMetric]
  split
  · rename_i hany
    obtain ⟨old, hold, hid⟩ := List.any_eq_true.mp hany
    have hsame : SameIds (s.metric.map fun other => if other.id = m.id then m else other)
        s.metric := by
      apply SameIds.map
      intro other _
      split
      · rename_i hother
        exact hother.symm
      · rfl
    have hm : ∃ other ∈ s.metric, other.id = m.id := ⟨old, hold, by simpa using hid⟩
    refine ⟨h.stored, fun _ => ?_⟩
    apply sameIds_updateMetricCache
    · intro hne id
      rw [hsame id, ← h.ids hne id]
      constructor
      · rintro (rfl | hid)
        · exact (h.ids hne _).mpr hm
        · exact hid
      · exact Or.inr
    · exact (hsame m.id).mpr hm
  · exact h

theorem updateMetric_keeps (s : Database) (m : Metric) : s.Keeps (s.updateMetric m) := by
  rw [Database.updateMetric]
  split
  · exact Database.Keeps.of_tables rfl rfl fun _ _ _ hentries => getSeries_updateMetricCache hentries
  · exact Database.Keeps.of_tables rfl rfl fun _ _ _ hentries => hentries

theorem getMetric_id {c : Caches} (h : c.getMetric id = some m) : m ∈ c.metricCache ∧ m.id = id :=
  ⟨List.mem_of_find?_eq_some h, by simpa using List.find?_some h⟩

theorem exists_getMetric {c : Caches} (h : ∃ m ∈ c.metricCache, m.id = id) :
    ∃ m, c.getMetric id = some m := by
  apply Option.isSome_iff_exists.mp
  rw [Caches.getMetric, List.find?_isSome]
  obtain ⟨m, hm, hid⟩ := h
  exact ⟨m, hm, by simpa using hid⟩

/-- What is left in the caches after a metric is removed. -/
theorem removeMetricFromCache_spec {metrics metrics' : List Metric} {c : Caches}
    (hids : c.metricCache ≠ [] → SameIds c.metricCache metrics)
    (hid : ∃ m ∈ metrics, m.id = id)
    (hmetrics' : metrics' = metrics.filter fun other => other.id ≠ id) :
    SameIds (c.removeMetricFromCache metrics' id).metricCache metrics' ∧
      ∀ series, ∀ aggregation ∈ validAggregationTypes, ∀ entries,
        (c.removeMetricFromCache metrics' id).getSeries series aggregation = some entries →
          c.getSeries series aggregation = some entries ∧ series ≠ .ofMetric id := by
  by_cases hempty : c.metricCache = []
  · -- the cache is loaded, and the metric is not there any more
    have hloaded : c.getMetricCache metrics' = ⟨metrics', [], []⟩ := if_pos hempty
    have hnone : (⟨metrics', [], []⟩ : Caches).getMetric id = none := by
      apply List.find?_eq_none.mpr
      intro other hother
      rw [hmetrics'] at hother
      simpa using (List.mem_filter.mp hother).2
    have hremoved : c.removeMetricFromCache metrics' id = ⟨metrics', [], []⟩ := by
      rw [Caches.removeMetricFromCache, hloaded]
      simp only [hnone]
    rw [hremoved]
    refine ⟨SameIds.refl _, fun series aggregation _ entries hentries => ?_⟩
    cases series <;> cases hentries
  · obtain ⟨m, hget⟩ := exists_getMetric ((hids hempty id).mpr hid)
    obtain ⟨_, hmid⟩ := getMetric_id hget
    subst hmid
    have hremoved : c.removeMetricFromCache metrics' m.id =
        (({ c with metricCache := c.metricCache.filter fun other => other.id ≠ m.id } :
          Caches).getMetricCache metrics').removeMetricDataCache m := by
      rw [Caches.removeMetricFromCache, Caches.getMetricCache_of_ne hempty]
      simp only [hget]
    rw [hremoved]
    constructor
    · apply sameIds_getMetricCache
      intro _ other
      rw [hmetrics', exists_id_remove, exists_id_remove, hids hempty other]
    · intro series aggregation hvalid entries hentries
      rw [Caches.getSeries_removeMetricDataCache hvalid] at hentries
      split at hentries
      · cases hentries
      · rename_i hother
        have hkept := (Caches.getSeries_getMetricCache hentries).2
        refine ⟨by cases series <;> exact hkept, fun hseries => hother (Or.inl hseries)⟩

theorem Sound.deleteMetric (h : Sound s) (id : String) : Sound (s.deleteMetric id) := by
  rw [Database.deleteMetric]
  split
  · rename_i hany
    obtain ⟨m, hm, hid⟩ := List.any_eq_true.mp hany
    refine ⟨h.stored, fun _ => ?_⟩
    exact (removeMetricFromCache_spec h.ids ⟨m, hm, by simpa using hid⟩ rfl).1
  · exact h

theorem deleteMetric_keeps (h : Sound s) (id : String) : s.Keeps (s.deleteMetric id) := by
  rw [Database.deleteMetric]
  split
  · rename_i hany
    obtain ⟨m, hm, hid⟩ := List.any_eq_true.mp hany
    intro series aggregation hvalid entries hentries
    obtain ⟨hentries', hother⟩ :=
      (removeMetricFromCache_spec h.ids ⟨m, hm, by simpa using hid⟩ rfl).2
        series aggregation hvalid entries hentries
    refine ⟨hentries', ?_⟩
    cases series with
    | ofInstance _ => exact rfl
    | ofMetric other =>
      exact filter_deleteData (fun heq => hother (by rw [heq])) s.metricData
  · exact Database.Keeps.of_tables rfl rfl fun _ _ _ hentries => hentries

end Metrics

/-! ## Instances -/

section Instances
variable {s : Database} {table : List InstanceData} {instanceId id : String}
  {aggregation : AggregationType}

/-- The rows of a series in the table of the instances. -/
def rowsOf (aggregation : AggregationType) (id : String) (table : List InstanceData) :
    List InstanceData :=
  table.filter fun row => row.aggregation = aggregation.minutes ∧ row.instanceId = id

theorem rowsOf_append (aggregation : AggregationType) (id : String)
    (table table' : List InstanceData) :
    rowsOf aggregation id (table ++ table') =
      rowsOf aggregation id table ++ rowsOf aggregation id table' := by
  rw [rowsOf, List.filter_append]
  rfl

theorem rowsOf_eq_nil (h : ∀ row ∈ table, row.instanceId ≠ id) :
    rowsOf aggregation id table = [] := by
  apply List.filter_eq_nil_iff.mpr
  intro row hrow
  simp [h row hrow]

theorem rowsOf_deleteInstanceData (h : id ≠ instanceId) :
    rowsOf aggregation id (Database.deleteInstanceData instanceId table) =
      rowsOf aggregation id table := by
  rw [rowsOf, Database.deleteInstanceData, List.filter_filter]
  apply List.filter_congr
  intro row _
  by_cases hrow : row.instanceId = id
  · simp [hrow, h]
  · simp [hrow]

theorem mem_refreshedInstanceData {row : InstanceData}
    (h : row ∈ s.refreshedInstanceData instanceId) :
    row.instanceId = instanceId ∧ ∃ aggregation ∈ validAggregationTypes,
      row.aggregation = aggregation.minutes ∧ aggregation.bucket row.timestamp = row.timestamp := by
  rw [Database.refreshedInstanceData, List.mem_flatMap] at h
  obtain ⟨aggregation, hvalid, hrow⟩ := h
  obtain ⟨entry, hentry, rfl⟩ := List.mem_map.mp hrow
  refine ⟨rfl, aggregation, hvalid, rfl, ?_⟩
  have hgroup := GroupedByKey.group_isGrouping
    (fun row : MetricData => aggregation.bucket row.timestamp)
    (joined s.metric s.metricData instanceId)
  obtain ⟨data, hdata⟩ := List.exists_mem_of_ne_nil _ (hgroup.nonempty entry hentry)
  rw [hgroup.values entry hentry] at hdata
  have hkey : aggregation.bucket data.timestamp = entry.1 := by
    simpa using (List.mem_filter.mp hdata).2
  change aggregation.bucket entry.1 = entry.1
  rw [← hkey, bucket_bucket]

theorem refreshedInstanceData_nodup (s : Database) (instanceId : String) :
    ((s.refreshedInstanceData instanceId).map InstanceData.key).Nodup := by
  rw [Database.refreshedInstanceData, List.map_flatMap, List.nodup_flatMap]
  constructor
  · intro aggregation _
    have hgroup := GroupedByKey.group_isGrouping
      (fun row : MetricData => aggregation.bucket row.timestamp)
      (joined s.metric s.metricData instanceId)
    have hkeys : (createInstanceData s.metric s.metricData instanceId aggregation).map
        InstanceData.key = ((GroupedByKey.group
          (fun row : MetricData => aggregation.bucket row.timestamp)
          (joined s.metric s.metricData instanceId)).map Prod.fst).map fun bucket =>
            (aggregation.minutes, instanceId, bucket) := by
      rw [createInstanceData, List.map_map, List.map_map]
      rfl
    rw [hkeys]
    apply hgroup.nodup.map
    intro bucket bucket' heq
    simpa using heq
  · have hdistinct : validAggregationTypes.Pairwise fun a b => a.minutes ≠ b.minutes := by decide
    apply hdistinct.imp
    intro a b hne key hkey hkey'
    obtain ⟨row, hrow, rfl⟩ := List.mem_map.mp hkey
    obtain ⟨row', hrow', hkeys⟩ := List.mem_map.mp hkey'
    obtain ⟨_, _, rfl⟩ := List.mem_map.mp hrow
    obtain ⟨_, _, rfl⟩ := List.mem_map.mp hrow'
    simp only [InstanceData.key, Prod.mk.injEq] at hkeys
    exact hne hkeys.1.symm

theorem Database.Stored.sublist {table' : List InstanceData} (h : Database.Stored table)
    (hsub : table'.Sublist table) : Database.Stored table' where
  nodup := h.nodup.sublist (hsub.map InstanceData.key)
  bucket row hrow := h.bucket row (hsub.subset hrow)

theorem Sound.refreshInstanceData (h : Sound s) (instanceId : String) :
    Sound (s.refreshInstanceData instanceId) := by
  have hdeleted : Database.Stored (Database.deleteInstanceData instanceId s.instanceData) :=
    h.stored.sublist List.filter_sublist
  refine ⟨⟨?_, ?_⟩, h.ids⟩
  · rw [Database.refreshInstanceData, List.map_append, List.nodup_append]
    refine ⟨hdeleted.nodup, refreshedInstanceData_nodup s instanceId, ?_⟩
    intro key hkey key' hkey' heq
    obtain ⟨row, hrow, rfl⟩ := List.mem_map.mp hkey
    obtain ⟨row', hrow', rfl⟩ := List.mem_map.mp hkey'
    have hinstance := (mem_refreshedInstanceData hrow').1
    have hother : row.instanceId ≠ instanceId := by simpa using (List.mem_filter.mp hrow).2
    simp only [InstanceData.key, Prod.mk.injEq] at heq
    exact hother (heq.2.1.trans hinstance)
  · intro row hrow
    rcases List.mem_append.mp hrow with hrow | hrow
    · exact hdeleted.bucket row hrow
    · exact (mem_refreshedInstanceData hrow).2

theorem refreshInstanceData_keeps (s : Database) (instanceId : String) :
    s.Keeps (s.refreshInstanceData instanceId) := by
  intro series aggregation hvalid entries hentries
  have hkept : series ≠ .ofInstance instanceId ∧
      s.caches.getSeries series aggregation = some entries := by
    have hremoved : (s.caches.removeInstanceDataCache instanceId).getSeries series aggregation =
        _ := Caches.getSeries_removeInstanceDataCache hvalid
    rw [show (s.refreshInstanceData instanceId).caches =
      s.caches.removeInstanceDataCache instanceId from rfl, hremoved] at hentries
    split at hentries
    · cases hentries
    · rename_i hne
      exact ⟨hne, hentries⟩
  refine ⟨hkept.2, ?_⟩
  cases series with
  | ofMetric id => exact rfl
  | ofInstance id =>
    have hid : id ≠ instanceId := fun heq => hkept.1 (by rw [heq])
    have hnew : rowsOf aggregation id (s.refreshedInstanceData instanceId) = [] := by
      apply rowsOf_eq_nil
      intro row hrow
      rw [(mem_refreshedInstanceData hrow).1]
      exact hid.symm
    change rowsOf aggregation id (_ ++ _) = rowsOf aggregation id s.instanceData
    rw [rowsOf_append, rowsOf_deleteInstanceData hid, hnew, List.append_nil]

/-- The window depends on the metrics only. -/
theorem window_congr {t : Database} (hmetric : t.metric = s.metric)
    (hcache : t.caches.metricCache = s.caches.metricCache) (aggregation : AggregationType) :
    t.window aggregation = s.window aggregation := by
  have hmetrics : (t.caches.getMetricCache t.metric).metricCache =
      (s.caches.getMetricCache s.metric).metricCache := by
    rw [Caches.getMetricCache, Caches.getMetricCache, hmetric, hcache]
    by_cases hempty : s.caches.metricCache = []
    · rw [if_pos hempty, if_pos hempty]
    · rw [if_neg hempty, if_neg hempty, hcache]
  have hlast : t.lastTimestamp = s.lastTimestamp := by
    rw [Database.lastTimestamp, Database.lastTimestamp, Caches.getLastTimestamp,
      Caches.getLastTimestamp, hmetrics]
  rw [Database.window, Database.window, hlast]

theorem foldl_deleteMetric (h : Sound s) (metrics : List Metric) :
    Sound (metrics.foldl (fun s m => s.deleteMetric m.id) s) ∧
      s.Keeps (metrics.foldl (fun s m => s.deleteMetric m.id) s) := by
  induction metrics generalizing s with
  | nil => exact ⟨h, Database.Keeps.of_tables rfl rfl fun _ _ _ hentries => hentries⟩
  | cons m metrics ih =>
    obtain ⟨hsound, hkeeps⟩ := ih (h.deleteMetric m.id)
    exact ⟨hsound, Database.Keeps.trans (deleteMetric_keeps h m.id) hkeeps⟩

/-- The database in which the metrics of the instance are deleted. -/
theorem Sound.deleteInstanceData (h : Sound s) (instanceId : String) :
    Sound { s with
      instanceData := Database.deleteInstanceData instanceId s.instanceData
      caches := s.caches.getMetricCache s.metric } where
  stored := h.stored.sublist List.filter_sublist
  ids _ := sameIds_getMetricCache h.ids

theorem Sound.deleteInstance (h : Sound s) (instanceId : String) :
    Sound (s.deleteInstance instanceId) :=
  (foldl_deleteMetric (h.deleteInstanceData instanceId) _).1

/-- An instance that is deleted without metrics loses its rows, but not its series. -/
theorem deleteInstance_keeps (h : Sound s) (instanceId : String)
    (hnone : ∀ aggregation ∈ validAggregationTypes,
      ((s.deleteInstance instanceId).caches.getSeries (.ofInstance instanceId) aggregation).isSome →
        rowsOf aggregation instanceId s.instanceData = []) :
    s.Keeps (s.deleteInstance instanceId) := by
  have hfold := (foldl_deleteMetric (h.deleteInstanceData instanceId)
    ((s.caches.getMetricCache s.metric).getMetricsByInstanceId instanceId)).2
  intro series aggregation hvalid entries hentries
  obtain ⟨hentries', hrows⟩ := hfold series aggregation hvalid entries hentries
  refine ⟨(Caches.getSeries_getMetricCache hentries').2, Database.SameRows.trans ?_ hrows⟩
  cases series with
  | ofMetric id => exact rfl
  | ofInstance id =>
    change rowsOf aggregation id (Database.deleteInstanceData instanceId s.instanceData) =
      rowsOf aggregation id s.instanceData
    by_cases hid : id = instanceId
    · subst hid
      rw [hnone aggregation hvalid (by rw [hentries]; rfl)]
      apply rowsOf_eq_nil
      intro row hrow
      simpa using (List.mem_filter.mp hrow).2
    · exact rowsOf_deleteInstanceData hid

theorem deleteOldRecords_metricCache (s : Database) (time : ℤ) (others : ℕ) :
    (s.deleteOldRecords time others).caches.metricCache = s.caches.metricCache := by
  simp only [Database.deleteOldRecords]
  split <;> rfl

theorem Sound.deleteOldRecords (h : Sound s) (time : ℤ) (others : ℕ) :
    Sound (s.deleteOldRecords time others) where
  stored := h.stored.sublist List.filter_sublist
  ids := by
    rw [deleteOldRecords_metricCache]
    exact h.ids

/-- If nothing is deleted, the tables are as they were. -/
theorem deleteOldRecords_keeps (s : Database) (time : ℤ) (others : ℕ) :
    s.Keeps (s.deleteOldRecords time others) := by
  rw [Database.deleteOldRecords]
  split
  · intro series aggregation _ entries hentries
    cases series <;> cases hentries
  · rename_i hnone
    have hfilter : ∀ {α : Type} (keep : α → Bool) (rows : List α),
        rows.length - (rows.filter keep).length = 0 → rows.filter keep = rows := by
      intro α keep rows hlength
      apply List.filter_sublist.eq_of_length
      have hle := List.length_filter_le keep rows
      omega
    refine Database.Keeps.of_tables ?_ ?_ fun _ _ _ hentries => hentries
    · exact hfilter _ s.metricData (by omega)
    · exact hfilter _ s.instanceData (by omega)

end Instances

/-! ## Batches -/

section Batches
variable {s t : Database} {table : List InstanceData} {instanceId id : String} {row : MetricData}
  {aggregation : AggregationType} {m : Metric} {c : Caches}

theorem updateInstanceDataRow_keys (probation : Prop) [Decidable probation] (new : InstanceData)
    (table : List InstanceData) :
    (updateInstanceDataRow probation new table).map InstanceData.key =
      table.map InstanceData.key := by
  rw [updateInstanceDataRow, List.map_map]
  apply List.map_congr_left
  intro row _
  simp only [Function.comp_apply]
  split <;> rfl

theorem folded_stored (h : Database.Stored table) (hvalid : aggregation ∈ validAggregationTypes)
    (row : MetricData) (instanceId : String) :
    Database.Stored (folded row aggregation instanceId table) := by
  obtain ⟨new, hnew⟩ : ∃ new : InstanceData, new = ⟨aggregation.minutes, instanceId,
    aggregation.bucket row.timestamp, probationScore row⟩ := ⟨_, rfl⟩
  have hinserted : Database.Stored (insertInstanceDataAnomalyScore new table) := by
    rw [insertInstanceDataAnomalyScore]
    split
    · exact h
    · rename_i hnone
      constructor
      · rw [List.map_append, List.nodup_append]
        refine ⟨h.nodup, List.nodup_singleton _, ?_⟩
        intro key hkey key' hkey' heq
        obtain ⟨other, hother, rfl⟩ := List.mem_map.mp hkey
        obtain rfl := List.mem_singleton.mp hkey'
        exact hnone (List.any_eq_true.mpr ⟨other, hother, decide_eq_true heq⟩)
      · intro other hother
        rcases List.mem_append.mp hother with hother | hother
        · exact h.bucket other hother
        · obtain rfl := List.mem_singleton.mp hother
          refine ⟨aggregation, hvalid, by rw [hnew], ?_⟩
          rw [hnew]
          exact bucket_bucket aggregation row.timestamp
  rw [folded, ← hnew]
  constructor
  · rw [updateInstanceDataRow_keys]
    exact hinserted.nodup
  · intro other hother
    obtain ⟨old, hold, rfl⟩ := List.mem_map.mp hother
    obtain ⟨aggregation', hvalid', hminutes, hbucket⟩ := hinserted.bucket old hold
    refine ⟨aggregation', hvalid', ?_, ?_⟩
    · split <;> exact hminutes
    · split <;> exact hbucket

theorem rowsOf_folded (h : id ≠ instanceId) (row : MetricData) (aggregation' : AggregationType)
    (table : List InstanceData) :
    rowsOf aggregation id (folded row aggregation' instanceId table) =
      rowsOf aggregation id table := by
  obtain ⟨new, hnew⟩ : ∃ new : InstanceData, new = ⟨aggregation'.minutes, instanceId,
    aggregation'.bucket row.timestamp, probationScore row⟩ := ⟨_, rfl⟩
  have hinstance : new.instanceId = instanceId := by rw [hnew]
  have hinserted : rowsOf aggregation id (insertInstanceDataAnomalyScore new table) =
      rowsOf aggregation id table := by
    rw [insertInstanceDataAnomalyScore]
    split
    · rfl
    · rw [rowsOf_append, @rowsOf_eq_nil [new], List.append_nil]
      intro other hother
      obtain rfl := List.mem_singleton.mp hother
      rw [hinstance]
      exact h.symm
  rw [folded, ← hnew, ← hinserted, updateInstanceDataRow, rowsOf, List.filter_map]
  have hpredicate : ∀ other : InstanceData, other.instanceId = id → other.key ≠ new.key := by
    intro other hother hkey
    simp only [InstanceData.key, Prod.mk.injEq] at hkey
    exact h (hother.symm.trans (hkey.2.1.trans hinstance))
  have hfilter : (insertInstanceDataAnomalyScore new table).filter
      ((fun other : InstanceData =>
        decide (other.aggregation = aggregation.minutes ∧ other.instanceId = id)) ∘
        fun other => if other.key = new.key then
          { other with
            anomalyScore :=
              if row.Learning then min other.anomalyScore new.anomalyScore
              else max other.anomalyScore new.anomalyScore }
          else other) =
      rowsOf aggregation id (insertInstanceDataAnomalyScore new table) := by
    apply List.filter_congr
    intro other _
    simp only [Function.comp_apply]
    split <;> rfl
  rw [hfilter]
  conv_rhs => rw [← List.map_id (rowsOf aggregation id (insertInstanceDataAnomalyScore new table))]
  apply List.map_congr_left
  intro other hother
  have hmem := (List.mem_filter.mp hother).2
  simp only [decide_eq_true_eq] at hmem
  exact if_neg (hpredicate other hmem.2)

theorem updateInstanceDataAnomalyScore_stored (h : Database.Stored table) (row : MetricData)
    (instanceId : String) :
    Database.Stored (updateInstanceDataAnomalyScore instanceId row table) :=
  List.foldlRecOn validAggregationTypes _ h
    fun _ htable _ hvalid => folded_stored htable hvalid row instanceId

theorem rowsOf_updateInstanceDataAnomalyScore (h : id ≠ instanceId) (row : MetricData)
    (table : List InstanceData) :
    rowsOf aggregation id (updateInstanceDataAnomalyScore instanceId row table) =
      rowsOf aggregation id table :=
  List.foldlRecOn (motive := fun table' => rowsOf aggregation id table' = rowsOf aggregation id table)
    validAggregationTypes _ rfl
    fun table' htable aggregation' _ => (rowsOf_folded h row aggregation' table').trans htable

/-- What the rows of a batch come to, when the rows are undone or not. -/
def Adds (s : Database) : Except Caches Database → Prop
  | .ok t => Sound t ∧ s.Keeps t ∧ SameIds t.metric s.metric
  | .error c => (c.metricCache ≠ [] → SameIds c.metricCache s.metric) ∧
      ∀ series, ∀ aggregation ∈ validAggregationTypes, ∀ entries,
        c.getSeries series aggregation = some entries →
          s.caches.getSeries series aggregation = some entries

theorem raiseTimestamp_sameIds (id : String) (timestamp : ℤ) (metrics : List Metric) :
    SameIds (raiseTimestamp id timestamp metrics) metrics := by
  apply SameIds.map
  intro m _
  split <;> rfl

theorem updateLastTimestamp_spec (h : Sound s) (hm : m ∈ s.caches.metricCache) (timestamp : ℤ) :
    Sound (s.updateLastTimestamp m timestamp) ∧ s.Keeps (s.updateLastTimestamp m timestamp) ∧
      SameIds (s.updateLastTimestamp m timestamp).metric s.metric := by
  have hrefl : Sound s ∧ s.Keeps s ∧ SameIds s.metric s.metric :=
    ⟨h, Database.Keeps.of_tables rfl rfl fun _ _ _ hentries => hentries, SameIds.refl _⟩
  rw [Database.updateLastTimestamp]
  split
  · split
    · have hsame := raiseTimestamp_sameIds m.id timestamp s.metric
      have hids := h.ids (List.ne_nil_of_mem hm)
      refine ⟨⟨h.stored, fun _ => ?_⟩, ?_, hsame⟩
      · apply sameIds_updateMetricCache
        · intro hne id
          rw [hsame id, ← hids id]
          constructor
          · rintro (rfl | hid)
            · exact ⟨m, hm, rfl⟩
            · exact hid
          · exact Or.inr
        · exact (hsame m.id).mpr ((hids m.id).mp ⟨m, hm, rfl⟩)
      · exact Database.Keeps.of_tables rfl rfl
          fun _ _ _ hentries => getSeries_updateMetricCache hentries
    · exact hrefl
  · exact hrefl

theorem addMetricData_adds (h : Sound s) (row : MetricData) : Adds s (s.addMetricData row) := by
  rw [Database.addMetricData]
  split
  · exact ⟨h.ids, fun _ _ _ _ hentries => hentries⟩
  split
  · exact ⟨h, Database.Keeps.of_tables rfl rfl fun _ _ _ hentries => hentries, SameIds.refl _⟩
  have hloaded := sameIds_getMetricCache h.ids
  dsimp only
  cases hget : (s.caches.getMetricCache s.metric).getMetric row.metricId with
  | none =>
    exact ⟨fun _ => hloaded, fun _ _ _ _ hentries =>
      (Caches.getSeries_getMetricCache hentries).2⟩
  | some m =>
    obtain ⟨hm, hid⟩ := getMetric_id hget
    obtain ⟨base, hbase⟩ : ∃ base : Database, base = { s with
        metricData := s.metricData ++ [row]
        caches := (s.caches.getMetricCache s.metric).removeMetricDataCache m } := ⟨_, rfl⟩
    have hsound : Sound base := by
      rw [hbase]
      exact ⟨h.stored, fun _ => hloaded⟩
    have hcached : m ∈ base.caches.metricCache := by
      rw [hbase]
      exact hm
    obtain ⟨hupdated, hkeeps, hsame⟩ := updateLastTimestamp_spec hsound hcached row.timestamp
    obtain ⟨hdata, htable⟩ := updateLastTimestamp_data m row.timestamp base
    have hmetric : base.metric = s.metric := by rw [hbase]
    have hstored : base.instanceData = s.instanceData := by rw [hbase]
    dsimp only
    rw [← hbase]
    refine ⟨⟨?_, hupdated.ids⟩, ?_, hmetric ▸ hsame⟩
    · exact updateInstanceDataAnomalyScore_stored hupdated.stored row m.instanceId
    · intro series aggregation hvalid entries hentries
      obtain ⟨hentries', _⟩ := hkeeps series aggregation hvalid entries hentries
      rw [hbase, Caches.getSeries_removeMetricDataCache hvalid] at hentries'
      split at hentries'
      · cases hentries'
      · rename_i hother
        refine ⟨(Caches.getSeries_getMetricCache hentries').2, ?_⟩
        cases series with
        | ofMetric id =>
          have hne : row.metricId ≠ id := fun heq => hother (Or.inl (by rw [hid, heq]))
          change ((base.updateLastTimestamp m row.timestamp).metricData.filter
            fun row => row.metricId = id) = _
          rw [hdata, hbase, List.filter_append, List.filter_singleton]
          simp [hne]
        | ofInstance id =>
          have hne : id ≠ m.instanceId := fun heq => hother (Or.inr (by rw [heq]))
          change rowsOf aggregation id (updateInstanceDataAnomalyScore m.instanceId row
            (base.updateLastTimestamp m row.timestamp).instanceData) = _
          rw [rowsOf_updateInstanceDataAnomalyScore hne, htable, hstored]
          rfl

theorem addMetricDataRows_adds (h : Sound s) (batch : List MetricData) :
    Adds s (s.addMetricDataRows batch) := by
  induction batch generalizing s with
  | nil => exact ⟨h, Database.Keeps.of_tables rfl rfl fun _ _ _ hentries => hentries, SameIds.refl _⟩
  | cons row batch ih =>
    have hrow := addMetricData_adds h row
    rw [Database.addMetricDataRows]
    cases hadd : s.addMetricData row with
    | error c =>
      rw [hadd] at hrow
      exact hrow
    | ok t =>
      rw [hadd] at hrow
      obtain ⟨ht, hkeeps, hsame⟩ := hrow
      have hrest := ih ht
      dsimp only
      cases hadds : t.addMetricDataRows batch with
      | error c =>
        rw [hadds] at hrest
        refine ⟨fun hne => (hrest.1 hne).trans hsame, ?_⟩
        intro series aggregation hvalid entries hentries
        exact (hkeeps series aggregation hvalid entries
          (hrest.2 series aggregation hvalid entries hentries)).1
      | ok u =>
        rw [hadds] at hrest
        exact ⟨hrest.1, Database.Keeps.trans hkeeps hrest.2.1, hrest.2.2.trans hsame⟩

theorem addMetricDataBatch_spec (h : Sound s) (batch : List MetricData) :
    Sound (s.addMetricDataBatch batch) ∧ s.Keeps (s.addMetricDataBatch batch) := by
  have hrows := addMetricDataRows_adds h batch
  rw [Database.addMetricDataBatch]
  cases hadds : s.addMetricDataRows batch with
  | error c =>
    rw [hadds] at hrows
    refine ⟨⟨h.stored, hrows.1⟩, ?_⟩
    intro series aggregation hvalid entries hentries
    refine ⟨hrows.2 series aggregation hvalid entries hentries, ?_⟩
    cases series <;> exact rfl
  | ok t =>
    rw [hadds] at hrows
    exact ⟨hrows.1, hrows.2.1⟩

end Batches

end NumentaApps.HTMITDatabase
