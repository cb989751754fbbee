import NumentaApps.SeriesOperations

/-!
# Queries for aggregated scores

A query answers with what the rows of its series come to in the current window as long as no
operation moves the window of a series that is cached, or takes the rows of one away, and its
rows are not at the end of the window, nor older than it where there are gaps.
-/
namespace NumentaApps.HTMITDatabase
open TransitionSystem
open MobileCore (AggregationType)

namespace Database

/-- The database without any series cached. -/
def uncached (s : Database) : Database :=
  { s with caches := s.caches.invalidateMetricDataCache }

/-- An answer is the one that is meant, and the one that is given if nothing is cached. -/
def IsAnswer (s : Database) (series : Series) (aggregation : AggregationType) (timestamp : ℤ)
    (limit : ℕ) (query : Database → Option (List Entry) × Database) : Prop :=
  (query s).1 = some (s.expectedScore series aggregation timestamp limit) ∧
    (query s).1 = (query s.uncached).1

/-- Every query that the rows of its series do not lead astray is answered as is meant. -/
def Answers (s : Database) : Prop :=
  ∀ (id : String), ∀ aggregation ∈ validAggregationTypes, ∀ (timestamp : ℤ) (limit : ℕ),
    (s.Placed (.ofMetric id) aggregation timestamp limit →
      s.IsAnswer (.ofMetric id) aggregation timestamp limit fun s =>
        s.getAggregatedScoreByMetricId id aggregation timestamp limit) ∧
    (s.Placed (.ofInstance id) aggregation timestamp limit →
      s.IsAnswer (.ofInstance id) aggregation timestamp limit fun s =>
        s.getAggregatedScoreByInstanceId id aggregation timestamp limit)

/-- The operation leaves the window of each aggregation of which a series stays cached; a metric
that is added again has no rows, or no series that stays cached, and so has an instance that is
deleted. -/
def Follows (s : Database) (a : Action) : Prop :=
  match a with
  | .addMetric m => s.KeepsWindows (s.act a) ∧ ∀ aggregation ∈ validAggregationTypes,
      ((s.act a).caches.getSeries (.ofMetric m.id) aggregation).isSome →
        (s.metricData.filter fun row => row.metricId = m.id) = []
  | .updateMetric _ => s.KeepsWindows (s.act a)
  | .deleteMetric _ => s.KeepsWindows (s.act a)
  | .addInstance _ => True
  | .deleteInstance instanceId => s.KeepsWindows (s.act a) ∧
      ∀ aggregation ∈ validAggregationTypes,
        ((s.act a).caches.getSeries (.ofInstance instanceId) aggregation).isSome →
          rowsOf aggregation instanceId s.instanceData = []
  | .addMetricDataBatch _ => s.KeepsWindows (s.act a)
  | .refreshInstanceData _ => True
  | .deleteOldRecords _ _ => True
  | .getAggregatedScoreByMetricId _ _ _ _ => True
  | .getAggregatedScoreByInstanceId _ _ _ _ => True

end Database

/-! ## A query -/

section Query
variable {s t : Database} {series : Series} {aggregation : AggregationType} {timestamp : ℤ}
  {limit : ℕ}

theorem getMetricCache_idem (metrics : List Metric) (c : Caches) :
    (c.getMetricCache metrics).getMetricCache metrics = c.getMetricCache metrics := by
  rw [Caches.getMetricCache]
  split
  · rename_i hempty
    rw [Caches.getMetricCache] at hempty ⊢
    split
    · rfl
    · rename_i hne
      rw [if_neg hne] at hempty
      exact absurd hempty hne
  · rfl

theorem putSeries_metricCache (series : Series) (aggregation : AggregationType)
    (entries : List Entry) (c : Caches) :
    (c.putSeries series aggregation entries).metricCache = c.metricCache := by
  cases series <;> rfl

/-- The cached series of a database that has the same tables and metrics. -/
theorem computed_eq (hmetric : t.metric = s.metric) (hdata : t.metricData = s.metricData)
    (htable : t.instanceData = s.instanceData)
    (hcache : t.caches.metricCache = s.caches.metricCache) (series : Series)
    (aggregation : AggregationType) :
    t.loaded.getAggregatedAnomalyScore series aggregation =
      s.loaded.getAggregatedAnomalyScore series aggregation := by
  apply getAggregatedAnomalyScore_congr
  · cases series with
    | ofMetric id => rw [Database.SameRows, hdata]
    | ofInstance id => rw [Database.SameRows, htable]
  · exact window_congr hmetric hcache aggregation

/-- Putting the computed series keeps all series current. -/
theorem Database.Current.putSeries (h : s.Current) (hvalid : aggregation ∈ validAggregationTypes)
    (hs : s.caches.getMetricCache s.metric = s.caches) :
    Database.Current { s with
      caches := s.caches.putSeries series aggregation
        (s.getAggregatedAnomalyScore series aggregation) } := by
  intro other aggregation' hvalid' entries hentries
  have hcomputed := computed_eq (s := s) (t := { s with
    caches := s.caches.putSeries series aggregation
      (s.getAggregatedAnomalyScore series aggregation) }) rfl rfl rfl
    (putSeries_metricCache _ _ _ _) other aggregation'
  rw [hcomputed]
  rcases Caches.getSeries_putSeries hvalid hvalid' hentries with ⟨rfl, rfl, rfl⟩ | hold
  · rw [Database.loaded, hs]
  · exact h other aggregation' hvalid' entries hold

theorem Database.Current.loaded (h : s.Current) : s.loaded.Current := by
  intro series aggregation hvalid entries hentries
  have hcomputed : s.loaded.loaded = s.loaded := by
    rw [Database.loaded, Database.loaded]
    simp only [getMetricCache_idem]
  rw [hcomputed]
  exact h series aggregation hvalid entries (Caches.getSeries_getMetricCache hentries).2

/-- Whether the series is cached or not, it is filtered as it would be computed. -/
theorem getAggregatedScore_spec (hsound : Sound s) (hcurrent : s.Current)
    (hvalid : aggregation ∈ validAggregationTypes) :
    (s.getAggregatedScore series aggregation timestamp limit).1 =
        some (Database.filterResults timestamp limit
          (s.loaded.getAggregatedAnomalyScore series aggregation) []) ∧
      Sound (s.getAggregatedScore series aggregation timestamp limit).2 ∧
      (s.getAggregatedScore series aggregation timestamp limit).2.Current := by
  rw [Database.getAggregatedScore, if_neg (not_not.mpr hvalid)]
  cases hcached : s.caches.getSeries series aggregation with
  | some cached =>
    have hcomputed := hcurrent series aggregation hvalid cached hcached
    refine ⟨by rw [← hcomputed], ⟨hsound.stored, ?_⟩, ?_⟩
    · dsimp only
      rw [putSeries_metricCache]
      exact hsound.ids
    · intro other aggregation' hvalid' entries hentries
      have hsame := computed_eq (s := s) (t := { s with
        caches := s.caches.putSeries series aggregation cached }) rfl rfl rfl
        (putSeries_metricCache _ _ _ _) other aggregation'
      rw [hsame]
      rcases Caches.getSeries_putSeries hvalid hvalid' hentries with ⟨rfl, rfl, rfl⟩ | hold
      · exact hcomputed
      · exact hcurrent other aggregation' hvalid' entries hold
  | none =>
    refine ⟨rfl, ⟨hsound.stored, ?_⟩, ?_⟩
    · dsimp only
      rw [putSeries_metricCache]
      exact fun _ => sameIds_getMetricCache hsound.ids
    · exact hcurrent.loaded.putSeries hvalid (getMetricCache_idem s.metric s.caches)

theorem isAnswer (hsound : Sound s) (hcurrent : s.Current)
    (hvalid : aggregation ∈ validAggregationTypes)
    (hplaced : s.Placed series aggregation timestamp limit) :
    s.IsAnswer series aggregation timestamp limit fun s =>
      s.getAggregatedScore series aggregation timestamp limit := by
  have hanswer :=
    (@getAggregatedScore_spec s series aggregation timestamp limit hsound hcurrent hvalid).1
  have hexpected := filterResults_expectedScore hsound.stored hplaced
  refine ⟨by rw [hanswer, hexpected], ?_⟩
  have huncached : s.uncached.Current := by
    intro series aggregation _ entries hentries
    cases series <;> cases hentries
  have hsound' : Sound s.uncached := ⟨hsound.stored, hsound.ids⟩
  rw [hanswer, (getAggregatedScore_spec hsound' huncached hvalid).1]
  rw [computed_eq (s := s) (t := s.uncached) rfl rfl rfl rfl]

end Query

/-! ## Runs -/

section Runs
variable {s : Database} {series : Series} {aggregation : AggregationType} {timestamp : ℤ}
  {limit : ℕ}

theorem getAggregatedScore_sound (hsound : Sound s) (hcurrent : s.Current) :
    Sound (s.getAggregatedScore series aggregation timestamp limit).2 ∧
      (s.getAggregatedScore series aggregation timestamp limit).2.Current := by
  by_cases hvalid : aggregation ∈ validAggregationTypes
  · exact (getAggregatedScore_spec hsound hcurrent hvalid).2
  · rw [Database.getAggregatedScore, if_pos hvalid]
    exact ⟨hsound, hcurrent⟩

/-- One operation. -/
theorem act_sound {a : Database.Action} (hsound : Sound s) (hcurrent : s.Current)
    (h : s.Follows a) : Sound (s.act a) ∧ (s.act a).Current := by
  cases a with
  | addMetric m =>
    exact ⟨hsound.addMetric m, hcurrent.of_keeps (addMetric_keeps s m h.2) h.1⟩
  | updateMetric m =>
    exact ⟨hsound.updateMetric m, hcurrent.of_keeps (updateMetric_keeps s m) h⟩
  | deleteMetric id =>
    exact ⟨hsound.deleteMetric id, hcurrent.of_keeps (deleteMetric_keeps hsound id) h⟩
  | addInstance instanceId =>
    refine ⟨hsound.refreshInstanceData instanceId, ?_⟩
    apply hcurrent.of_keeps (refreshInstanceData_keeps s instanceId)
    exact fun _ aggregation _ _ =>
      window_congr (s := s) (t := s.refreshInstanceData instanceId) rfl rfl aggregation
  | deleteInstance instanceId =>
    exact ⟨hsound.deleteInstance instanceId,
      hcurrent.of_keeps (deleteInstance_keeps hsound instanceId h.2) h.1⟩
  | addMetricDataBatch batch =>
    obtain ⟨hsound', hkeeps⟩ := addMetricDataBatch_spec hsound batch
    exact ⟨hsound', hcurrent.of_keeps hkeeps h⟩
  | refreshInstanceData instanceId =>
    refine ⟨hsound.refreshInstanceData instanceId, ?_⟩
    apply hcurrent.of_keeps (refreshInstanceData_keeps s instanceId)
    exact fun _ aggregation _ _ =>
      window_congr (s := s) (t := s.refreshInstanceData instanceId) rfl rfl aggregation
  | deleteOldRecords time others =>
    refine ⟨hsound.deleteOldRecords time others, ?_⟩
    apply hcurrent.of_keeps (deleteOldRecords_keeps s time others)
    exact fun _ aggregation _ _ =>
      window_congr (s := s) (t := s.deleteOldRecords time others) rfl
        (deleteOldRecords_metricCache s time others) aggregation
  | getAggregatedScoreByMetricId metricId aggregation timestamp limit =>
    exact getAggregatedScore_sound hsound hcurrent
  | getAggregatedScoreByInstanceId instanceId aggregation timestamp limit =>
    exact getAggregatedScore_sound hsound hcurrent

theorem answers (hsound : Sound s) (hcurrent : s.Current) : s.Answers := by
  intro id aggregation hvalid timestamp limit
  exact ⟨fun hplaced => isAnswer hsound hcurrent hvalid hplaced,
    fun hplaced => isAnswer hsound hcurrent hvalid hplaced⟩

end Runs

/-- In every state of a run whose operations meet the condition, queries are answered with the
current series, as if nothing were cached. -/
theorem queries_answered {tr : List (Database × Database.Action)} {s : Database}
    (h : Run Database.system tr s) (hfollows : ∀ p ∈ tr, p.1.Follows p.2) :
    ∀ t ∈ statesOf tr s, t.Answers := by
  refine h.forall_states (G := fun s a => s.Follows a) (I := fun s => Sound s ∧ s.Current)
    ?_ ?_ ?_ hfollows
  · intro s hinit
    obtain ⟨hstored, hcaches⟩ := hinit
    refine ⟨⟨hstored, fun hne => absurd (by rw [hcaches]) hne⟩, ?_⟩
    intro series aggregation _ entries hentries
    rw [hcaches] at hentries
    cases series <;> cases hentries
  · intro a s t hI hg hnext
    obtain rfl := Option.some.inj hnext
    exact act_sound hI.1 hI.2 hg
  · intro s hI
    exact answers hI.1 hI.2

/-! ## Examples -/

theorem keepsWindows_of_empty {s t : Database} (hmetric : t.caches.aggregateMetricCache = [])
    (hinstance : t.caches.aggregateInstanceCache = []) : s.KeepsWindows t := by
  intro series aggregation _ hsome
  cases series with
  | ofMetric id =>
    rw [Caches.getSeries, hmetric] at hsome
    cases hsome
  | ofInstance id =>
    rw [Caches.getSeries, hinstance] at hsome
    cases hsome

def emptyDatabase : Database := ⟨[], [], [], ⟨[], [], []⟩⟩

theorem emptyDatabase_init : Database.system.init emptyDatabase :=
  ⟨⟨List.nodup_nil, fun _ hrow => by cases hrow⟩, rfl⟩

def laterRow (metricId : String) (rowid timestamp : ℤ) : MetricData :=
  ⟨⟨metricId, rowid, timestamp⟩, 1 / 2, by decide +kernel⟩

/-- Rows of one metric in the same eight hours, and a query between them. -/
def followingOperations : List Database.Action :=
  [.addMetric ⟨"cpu", "server", 0⟩, .addMetricDataBatch [laterRow "cpu" 1000 28800000],
    .getAggregatedScoreByMetricId "cpu" .Week 0 2,
    .addMetricDataBatch [laterRow "cpu" 1001 28900000]]

def after (operations : List Database.Action) : Database :=
  operations.foldl (fun s a => s.act a) emptyDatabase

/-- The last of the eight hours has the score of both rows. -/
theorem queries_answered_following : (after followingOperations).Answers ∧
    ((after followingOperations).getAggregatedScoreByMetricId "cpu" .Week 0 2).1 =
      some [(0, none), (28800000, some (1 / 2))] := by
  have hexec : Database.system.exec followingOperations emptyDatabase =
    some (after followingOperations) := rfl
  refine ⟨?_, by decide +kernel⟩
  apply queries_answered ((Run.init emptyDatabase_init).exec_trace hexec) _ _
    (List.mem_append_right _ (List.mem_singleton_self _))
  intro p hp
  rcases List.mem_cons.mp hp with rfl | hp
  · exact ⟨keepsWindows_of_empty rfl rfl, fun _ _ _ => rfl⟩
  rcases List.mem_cons.mp hp with rfl | hp
  · exact keepsWindows_of_empty (by decide +kernel) (by decide +kernel)
  rcases List.mem_cons.mp hp with rfl | hp
  · exact trivial
  obtain rfl := List.mem_singleton.mp hp
  exact keepsWindows_of_empty (by decide +kernel) (by decide +kernel)

/-- Data of another metric moves the window, but the series that is cached stays. -/
def staleOperations : List Database.Action :=
  [.addMetric ⟨"cpu", "server", 0⟩, .addMetric ⟨"disk", "other", 0⟩,
    .addMetricDataBatch [laterRow "cpu" 1000 28800000],
    .getAggregatedScoreByMetricId "cpu" .Week 0 1,
    .addMetricDataBatch [laterRow "disk" 1000 57600000]]

theorem stale_series_answered : ∃ tr, Run Database.system tr (after staleOperations) ∧
    ((after staleOperations).getAggregatedScoreByMetricId "cpu" .Week 0 1).1 ≠
      some ((after staleOperations).expectedScore (.ofMetric "cpu") .Week 0 1) := by
  have hexec : Database.system.exec staleOperations emptyDatabase =
    some (after staleOperations) := rfl
  exact ⟨_, (Run.init emptyDatabase_init).exec_trace hexec, by decide +kernel⟩

end NumentaApps.HTMITDatabase
