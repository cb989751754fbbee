import Mathlib.Data.List.Nodup
import NumentaApps.MobileDataSync

/-!
# Gaps in the metric data of the mobile application

The rows that a task still has to save are in the order of their timestamps, and what comes
before one of them is saved or is among them; so a row that is saved leaves none behind. The
downloads keep this when nothing that goes wrong in one is passed over by the next.
-/
namespace NumentaApps.HTMITMobile
open MobileCore (MetricData raiseTimestamp)
open TransitionSystem

/-! ## What is local -/

/-- A row is not older than the oldest timestamps allowed so far. -/
def Allowed (allowed : List ℤ) (row : MetricData) : Prop :=
  ∀ lowest ∈ allowed, lowest ≤ row.timestamp

/-- The rows of a metric up to a timestamp are local. -/
def CoveredTo (server : Server) (allowed : List ℤ) (db : Database) (id : String)
    (timestamp : ℤ) : Prop :=
  ∀ row ∈ server.rows, row.metricId = id → Allowed allowed row → row.timestamp ≤ timestamp →
    row ∈ db.metricData

/-- The local database between two statements. -/
structure Consistent (server : Server) (allowed : List ℤ) (db : Database) : Prop where
  cached : db.metric = db.metricCache
  ids_nodup : (db.metricCache.map Metric.id).Nodup
  onServer : ∀ metric ∈ db.metricCache, metric.id ∈ server.metrics.map Prod.fst
  scored : ∀ row ∈ db.metricData, row ∈ server.rows
  lastTimestamp : ∀ metric ∈ db.metricCache, metric.lastTimestamp = 0 ∨
    ∃ row ∈ server.rows, row.metricId = metric.id ∧ row.timestamp = metric.lastTimestamp
  covered : ∀ metric ∈ db.metricCache,
    CoveredTo server allowed db metric.id metric.lastTimestamp

/-- The rows that a task still has to save. -/
structure Feeds (server : Server) (allowed : List ℤ) (db : Database)
    (queue : List MetricData) : Prop where
  sorted : queue.Pairwise fun row later => row.timestamp ≤ later.timestamp
  scored : ∀ row ∈ queue, row ∈ server.rows
  known : ∀ row ∈ queue, row.metricId ∈ db.metricCache.map Metric.id
  covers : ∀ next ∈ queue, ∀ row ∈ server.rows, row.metricId = next.metricId →
    Allowed allowed row → row.timestamp < next.timestamp → row ∈ db.metricData ∨ row ∈ queue

section Server

variable {server : Server} {allowed : List ℤ} {db : Database}

/-- Rows of a metric differ in their timestamps and in their row IDs. -/
theorem Server.eq_of_mem {row row' : MetricData} (h : row ∈ server.rows)
    (h' : row' ∈ server.rows) (hid : row.metricId = row'.metricId)
    (heq : row.timestamp = row'.timestamp ∨ row.rowid = row'.rowid) : row = row' := by
  have hall := List.Pairwise.forall_of_forall_of_flip
    (R := fun row row' : MetricData => row.metricId = row'.metricId →
      row.timestamp = row'.timestamp ∨ row.rowid = row'.rowid → row = row') (l := server.rows)
    (fun _ _ _ _ => rfl) ?_ ?_
  · exact hall h h' hid heq
  · apply server.ordered.imp
    intro row later hlt hid heq
    have hordered := hlt hid
    omega
  · apply server.ordered.imp
    intro row later hlt hid heq
    have hordered := hlt hid.symm
    omega

theorem Database.getMetric_eq_some (h : (db.metricCache.map Metric.id).Nodup) {metric : Metric} :
    db.getMetric metric.id = some metric ↔ metric ∈ db.metricCache := by
  constructor
  · intro hget
    exact List.mem_of_find?_eq_some hget
  · intro hmem
    cases hfind : db.getMetric metric.id with
    | none =>
      have hnone := List.find?_eq_none.mp hfind metric hmem
      simp at hnone
    | some other =>
      have hid : other.id = metric.id := by simpa using List.find?_some hfind
      rw [List.inj_on_of_nodup_map h (List.mem_of_find?_eq_some hfind) hmem hid]

theorem Database.getMetric_isSome {id : String} :
    (db.getMetric id).isSome ↔ id ∈ db.metricCache.map Metric.id := by
  simp [getMetric, List.find?_isSome]

theorem getMetricLastTimestamp_eq (h : (db.metricCache.map Metric.id).Nodup) {metric : Metric}
    (hmem : metric ∈ db.metricCache) :
    db.getMetricLastTimestamp metric.id = metric.lastTimestamp := by
  rw [Database.getMetricLastTimestamp, (Database.getMetric_eq_some h).mpr hmem]
  rfl

end Server

/-! ## Saving rows -/

/-- What saving keeps: the metrics with their last row IDs, and the data. -/
structure Grows (db db' : Database) : Prop where
  metrics : db'.metricCache.map (fun metric => (metric.id, metric.lastRowId)) =
    db.metricCache.map fun metric => (metric.id, metric.lastRowId)
  metricData : ∀ row ∈ db.metricData, row ∈ db'.metricData

namespace Grows

variable {db db' db'' : Database}

theorem refl (db : Database) : Grows db db := ⟨rfl, fun _ h => h⟩

theorem trans (h : Grows db db') (h' : Grows db' db'') : Grows db db'' :=
  ⟨h'.metrics.trans h.metrics, fun row hrow => h'.metricData row (h.metricData row hrow)⟩

theorem ids (h : Grows db db') :
    db'.metricCache.map Metric.id = db.metricCache.map Metric.id := by
  have hfst := congrArg (List.map Prod.fst) h.metrics
  simpa [List.map_map, Function.comp_def] using hfst

theorem exists_metric (h : Grows db db') {metric : Metric} (hmem : metric ∈ db'.metricCache) :
    ∃ old ∈ db.metricCache, old.id = metric.id ∧ old.lastRowId = metric.lastRowId := by
  have hpair : (metric.id, metric.lastRowId) ∈
      db'.metricCache.map fun metric => (metric.id, metric.lastRowId) :=
    List.mem_map_of_mem (f := fun metric : Metric => (metric.id, metric.lastRowId)) hmem
  rw [h.metrics] at hpair
  obtain ⟨old, hold, heq⟩ := List.mem_map.mp hpair
  obtain ⟨hid, hrowId⟩ := Prod.mk.inj heq
  exact ⟨old, hold, hid, hrowId⟩

end Grows

section Saving

variable {server : Server} {allowed : List ℤ} {db : Database}

theorem mem_raiseTimestamp {id : String} {timestamp : ℤ} {metrics : List Metric} {metric : Metric}
    (h : metric ∈ raiseTimestamp id timestamp metrics) :
    ∃ old ∈ metrics, old.id = metric.id ∧ (metric.lastTimestamp = old.lastTimestamp ∨
      old.id = id ∧ metric.lastTimestamp = timestamp) := by
  obtain ⟨old, hold, rfl⟩ := List.mem_map.mp h
  refine ⟨old, hold, ?_⟩
  split
  · rename_i hraise
    exact ⟨rfl, .inr ⟨hraise.1, rfl⟩⟩
  · exact ⟨rfl, .inl rfl⟩

theorem map_raiseTimestamp (id : String) (timestamp : ℤ) (metrics : List Metric) :
    (raiseTimestamp id timestamp metrics).map (fun m => (m.id, m.lastRowId)) =
      metrics.map fun m => (m.id, m.lastRowId) := by
  rw [raiseTimestamp, List.map_map]
  refine List.map_congr_left fun m _ => ?_
  simp only [Function.comp]
  split
  · rfl
  · rfl

theorem raiseTimestamp_of_le {id : String} {timestamp : ℤ} {metrics : List Metric}
    (h : ∀ metric ∈ metrics, metric.id = id → timestamp ≤ metric.lastTimestamp) :
    raiseTimestamp id timestamp metrics = metrics := by
  rw [raiseTimestamp]
  refine (List.map_congr_left fun m hm => ?_).trans (List.map_id _)
  rw [if_neg]
  · rfl
  · rintro ⟨hid, hlt⟩
    exact absurd (h m hm hid) (Int.not_le.mpr hlt)

/-- The row is there already; or it is inserted, and the last timestamp of its metric follows. -/
theorem insertRow_cases (h : Consistent server allowed db) {row : MetricData}
    (hrow : row ∈ server.rows) (hknown : row.metricId ∈ db.metricCache.map Metric.id) :
    (row ∈ db.metricData ∧ db.insertRow row = some db) ∨
      db.insertRow row = some
        { metric := raiseTimestamp row.metricId row.timestamp db.metric
          metricCache := raiseTimestamp row.metricId row.timestamp db.metricCache
          metricData := db.metricData ++ [row] } := by
  obtain ⟨metric, hmem, hid⟩ := List.mem_map.mp hknown
  have hany : (db.metric.any fun metric => metric.id = row.metricId) = true := by
    rw [h.cached, List.any_eq_true]
    exact ⟨metric, hmem, by simp [hid]⟩
  have hget : db.getMetric row.metricId = some metric :=
    hid ▸ (Database.getMetric_eq_some h.ids_nodup).mpr hmem
  unfold Database.insertRow
  simp only [hany, Bool.not_true, Bool.false_eq_true, if_false]
  split
  · rename_i hkey
    obtain ⟨old, hold, heq⟩ := List.any_eq_true.mp hkey
    have heq := of_decide_eq_true heq
    have hsame : old = row := server.eq_of_mem (h.scored old hold) hrow
      (congrArg Prod.fst heq) (.inr (congrArg Prod.snd heq))
    exact .inl ⟨hsame ▸ hold, rfl⟩
  · right
    simp only [hget]
    split
    · rfl
    · rename_i hnot
      have hle : ∀ other ∈ db.metricCache, other.id = row.metricId →
          row.timestamp ≤ other.lastTimestamp := by
        intro other hother hother'
        obtain rfl : other = metric :=
          List.inj_on_of_nodup_map h.ids_nodup hother hmem (hother'.trans hid.symm)
        by_contra hlt
        refine hnot ⟨by omega, ?_⟩
        rw [h.cached, List.any_eq_true]
        exact ⟨other, hother, by simpa [hother'] using hlt⟩
      rw [h.cached, raiseTimestamp_of_le hle]

/-- Saving the first row of what a task has to save leaves no row behind. -/
theorem insertRow_spec (h : Consistent server allowed db) {row : MetricData}
    {queue : List MetricData} (hfeeds : Feeds server allowed db (row :: queue)) :
    ∃ db', db.insertRow row = some db' ∧ Consistent server allowed db' ∧ Grows db db' ∧
      row ∈ db'.metricData := by
  have hrow : row ∈ server.rows := hfeeds.scored row List.mem_cons_self
  have hknown := hfeeds.known row List.mem_cons_self
  rcases insertRow_cases h hrow hknown with ⟨hdata, heq⟩ | heq
  · exact ⟨db, heq, h, .refl db, hdata⟩
  -- rows before this one are local: those in the queue come later
  have hbefore : ∀ r ∈ server.rows, r.metricId = row.metricId → Allowed allowed r →
      r.timestamp ≤ row.timestamp → r ∈ db.metricData ++ [row] := by
    intro r hr hid hallowed hle
    rcases Int.lt_or_eq_of_le hle with hlt | heq
    · rcases hfeeds.covers row List.mem_cons_self r hr hid hallowed hlt with hdata | hqueue
      · exact List.mem_append_left _ hdata
      · rcases List.mem_cons.mp hqueue with rfl | hqueue
        · exact absurd hlt (Int.lt_irrefl _)
        · have hsorted := (List.pairwise_cons.mp hfeeds.sorted).1 r hqueue
          omega
    · exact List.mem_append_right _ (List.mem_singleton.mpr (server.eq_of_mem hr hrow hid (.inl heq)))
  have hgrows : Grows db
      { metric := raiseTimestamp row.metricId row.timestamp db.metric
        metricCache := raiseTimestamp row.metricId row.timestamp db.metricCache
        metricData := db.metricData ++ [row] } :=
    ⟨map_raiseTimestamp _ _ _, fun _ hr => List.mem_append_left _ hr⟩
  refine ⟨_, heq, ⟨?_, ?_, ?_, ?_, ?_, ?_⟩, hgrows, List.mem_append_right _ List.mem_cons_self⟩
  · simp only [h.cached]
  · rw [hgrows.ids]
    exact h.ids_nodup
  · intro metric hmetric
    obtain ⟨old, hold, hid, -⟩ := hgrows.exists_metric hmetric
    exact hid ▸ h.onServer old hold
  · intro r hr
    rcases List.mem_append.mp hr with hr | hr
    · exact h.scored r hr
    · exact List.mem_singleton.mp hr ▸ hrow
  · intro metric hmetric
    obtain ⟨old, hold, hid, hsame | ⟨hid', hraised⟩⟩ := mem_raiseTimestamp hmetric
    · rw [hsame, ← hid]
      exact h.lastTimestamp old hold
    · exact .inr ⟨row, hrow, hid'.symm.trans hid, hraised.symm⟩
  · intro metric hmetric r hr hid' hallowed hle
    obtain ⟨old, hold, hid, hsame | ⟨hraise, hraised⟩⟩ := mem_raiseTimestamp hmetric
    · exact List.mem_append_left _
        (h.covered old hold r hr (hid'.trans hid.symm) hallowed (hsame ▸ hle))
    · exact hbefore r hr (hid'.trans (hid.symm.trans hraise)) hallowed (hraised ▸ hle)

theorem Feeds.grows {queue : List MetricData} {db' : Database} (h : Feeds server allowed db queue)
    (hgrows : Grows db db') : Feeds server allowed db' queue where
  sorted := h.sorted
  scored := h.scored
  known := fun row hrow => hgrows.ids ▸ h.known row hrow
  covers := by
    intro next hnext row hrow hid hallowed hlt
    rcases h.covers next hnext row hrow hid hallowed hlt with hdata | hqueue
    · exact .inl (hgrows.metricData row hdata)
    · exact .inr hqueue

/-- The first rows of a queue are saved. -/
theorem Feeds.of_append (saved : List MetricData) {queue : List MetricData}
    (h : Feeds server allowed db (saved ++ queue)) (hsaved : ∀ row ∈ saved, row ∈ db.metricData) :
    Feeds server allowed db queue where
  sorted := (List.pairwise_append.mp h.sorted).2.1
  scored := fun row hrow => h.scored row (List.mem_append_right _ hrow)
  known := fun row hrow => h.known row (List.mem_append_right _ hrow)
  covers := by
    intro next hnext row hrow hid hallowed hlt
    rcases h.covers next (List.mem_append_right _ hnext) row hrow hid hallowed hlt with
      hdata | hmem
    · exact .inl hdata
    · rcases List.mem_append.mp hmem with hmem | hmem
      · exact .inl (hsaved row hmem)
      · exact .inr hmem

/-- The last rows of a queue do not arrive. -/
theorem Feeds.prefix_append {queue lost : List MetricData}
    (h : Feeds server allowed db (queue ++ lost)) : Feeds server allowed db queue where
  sorted := (List.pairwise_append.mp h.sorted).1
  scored := fun row hrow => h.scored row (List.mem_append_left _ hrow)
  known := fun row hrow => h.known row (List.mem_append_left _ hrow)
  covers := by
    intro next hnext row hrow hid hallowed hlt
    rcases h.covers next (List.mem_append_left _ hnext) row hrow hid hallowed hlt with
      hdata | hmem
    · exact .inl hdata
    · rcases List.mem_append.mp hmem with hmem | hmem
      · exact .inr hmem
      · have hle := (List.pairwise_append.mp h.sorted).2.2 next hnext row hmem
        omega

theorem insertRows_spec {batch queue : List MetricData} (h : Consistent server allowed db)
    (hfeeds : Feeds server allowed db (batch ++ queue)) :
    ∃ db', db.insertRows none batch = (db', true) ∧ Consistent server allowed db' ∧ Grows db db' ∧
      ∀ row ∈ batch, row ∈ db'.metricData := by
  induction batch generalizing db with
  | nil => exact ⟨db, rfl, h, .refl db, by simp⟩
  | cons row batch ih =>
    obtain ⟨db₁, hinsert, hconsistent, hgrows, hsaved⟩ := insertRow_spec h hfeeds
    have hrest : Feeds server allowed db₁ (batch ++ queue) :=
      Feeds.of_append [row] (hfeeds.grows hgrows) (by simpa using hsaved)
    obtain ⟨db', hrows, hconsistent', hgrows', hsaved'⟩ := ih hconsistent hrest
    refine ⟨db', ?_, hconsistent', hgrows.trans hgrows', ?_⟩
    · rw [Database.insertRows, hinsert]
      · exact hrows
      · simp
    · intro r hr
      rcases List.mem_cons.mp hr with rfl | hr
      · exact hgrows'.metricData r hsaved
      · exact hsaved' r hr

/-- A batch that is saved: the database stays consistent and the rest of the queue is as before. -/
theorem addMetricDataBatch_spec {batch queue : List MetricData} (h : Consistent server allowed db)
    (hfeeds : Feeds server allowed db (batch ++ queue)) :
    Consistent server allowed (db.addMetricDataBatch batch none) ∧
      Grows db (db.addMetricDataBatch batch none) ∧
      (∀ row ∈ batch, row ∈ (db.addMetricDataBatch batch none).metricData) ∧
      Feeds server allowed (db.addMetricDataBatch batch none) queue := by
  obtain ⟨db', hrows, hconsistent, hgrows, hsaved⟩ := insertRows_spec h hfeeds
  have heq : db.addMetricDataBatch batch none = db' := by
    unfold Database.addMetricDataBatch
    split
    · rename_i hnil
      subst hnil
      exact congrArg Prod.fst hrows
    · rw [hrows]
  rw [heq]
  exact ⟨hconsistent, hgrows, hsaved, (hfeeds.grows hgrows).of_append _ hsaved⟩

end Saving

/-! ## What the server and the loading of the metrics keep -/

section Loading

variable {server : Server} {allowed : List ℤ} {db : Database}

theorem Allowed.of_cons {lowest : ℤ} {row : MetricData} (h : Allowed (lowest :: allowed) row) :
    Allowed allowed row :=
  fun other hother => h other (List.mem_cons_of_mem _ hother)

theorem Consistent.allow (lowest : ℤ) (h : Consistent server allowed db) :
    Consistent server (lowest :: allowed) db :=
  { h with covered := fun metric hmetric row hrow hid hallowed =>
      h.covered metric hmetric row hrow hid hallowed.of_cons }

theorem Feeds.allow {queue : List MetricData} (lowest : ℤ) (h : Feeds server allowed db queue) :
    Feeds server (lowest :: allowed) db queue :=
  { h with covers := fun next hnext row hrow hid hallowed =>
      h.covers next hnext row hrow hid hallowed.of_cons }

/-- A server that has other metrics besides has the same rows. -/
theorem Consistent.of_server {server' : Server} (h : Consistent server allowed db)
    (hrows : server'.rows = server.rows)
    (hmetrics : ∀ id ∈ server.metrics.map Prod.fst, id ∈ server'.metrics.map Prod.fst) :
    Consistent server' allowed db where
  cached := h.cached
  ids_nodup := h.ids_nodup
  onServer := fun metric hmetric => hmetrics _ (h.onServer metric hmetric)
  scored := hrows ▸ h.scored
  lastTimestamp := hrows ▸ h.lastTimestamp
  covered := fun metric hmetric row hrow => h.covered metric hmetric row (hrows ▸ hrow)

theorem Feeds.of_server {server' : Server} {queue : List MetricData}
    (h : Feeds server allowed db queue) (hrows : server'.rows = server.rows) :
    Feeds server' allowed db queue where
  sorted := h.sorted
  scored := hrows ▸ h.scored
  known := h.known
  covers := fun next hnext row hrow => h.covers next hnext row (hrows ▸ hrow)

/-- A row is scored after those of its metric that are local. -/
theorem Consistent.score {row : MetricData} (h : Consistent server allowed db)
    (hrow : server.CanScore row) : Consistent (server.score row hrow) allowed db where
  cached := h.cached
  ids_nodup := h.ids_nodup
  onServer := h.onServer
  scored := fun r hr => List.mem_append_left _ (h.scored r hr)
  lastTimestamp := by
    intro metric hmetric
    rcases h.lastTimestamp metric hmetric with hzero | ⟨r, hr, hid, hlast⟩
    · exact .inl hzero
    · exact .inr ⟨r, List.mem_append_left _ hr, hid, hlast⟩
  covered := by
    intro metric hmetric r hr hid hallowed hle
    rcases List.mem_append.mp hr with hr | hr
    · exact h.covered metric hmetric r hr hid hallowed hle
    · obtain rfl := List.mem_singleton.mp hr
      rcases h.lastTimestamp metric hmetric with hzero | ⟨last, hlast, hid', heq⟩
      · have hpos := hrow.2.1
        omega
      · have hlater := hrow.2.2.2 last hlast (hid'.trans hid.symm)
        omega

theorem Feeds.score {row : MetricData} {queue : List MetricData}
    (h : Feeds server allowed db queue) (hrow : server.CanScore row) :
    Feeds (server.score row hrow) allowed db queue where
  sorted := h.sorted
  scored := fun r hr => List.mem_append_left _ (h.scored r hr)
  known := h.known
  covers := by
    intro next hnext r hr hid hallowed hlt
    rcases List.mem_append.mp hr with hr | hr
    · exact h.covers next hnext r hr hid hallowed hlt
    · obtain rfl := List.mem_singleton.mp hr
      have hlater := hrow.2.2.2 next (h.scored next hnext) hid.symm
      omega

/-- What loading the metrics keeps: the metrics, and the data of the known ones. -/
structure Loads (db db' : Database) : Prop where
  ids : ∀ id ∈ db.metricCache.map Metric.id, id ∈ db'.metricCache.map Metric.id
  metricData : ∀ row ∈ db.metricData, row.metricId ∈ db.metricCache.map Metric.id →
    row ∈ db'.metricData

theorem Loads.trans {db' db'' : Database} (h : Loads db db') (h' : Loads db' db'') :
    Loads db db'' where
  ids := fun id hid => h'.ids id (h.ids id hid)
  metricData := fun row hrow hid => h'.metricData row (h.metricData row hrow hid) (h.ids _ hid)

theorem Feeds.loads {queue : List MetricData} {db' : Database}
    (h : Feeds server allowed db queue) (hloads : Loads db db') :
    Feeds server allowed db' queue where
  sorted := h.sorted
  scored := h.scored
  known := fun row hrow => hloads.ids _ (h.known row hrow)
  covers := by
    intro next hnext row hrow hid hallowed hlt
    rcases h.covers next hnext row hrow hid hallowed hlt with hdata | hqueue
    · exact .inl (hloads.metricData row hdata (hid ▸ h.known next hnext))
    · exact .inr hqueue

/-- A new metric has no rows before its last timestamp, which is zero. -/
theorem Consistent.addMetric {remote : String × ℕ} (h : Consistent server allowed db)
    (hnew : remote.1 ∉ db.metricCache.map Metric.id)
    (hremote : remote.1 ∈ server.metrics.map Prod.fst) :
    Consistent server allowed (db.addMetric ⟨remote.1, remote.2, 0⟩) ∧
      Loads db (db.addMetric ⟨remote.1, remote.2, 0⟩) := by
  have hcache : (db.addMetric ⟨remote.1, remote.2, 0⟩).metricCache =
      db.metricCache ++ [⟨remote.1, remote.2, 0⟩] := by
    refine congrArg (· ++ _) (List.filter_eq_self.mpr fun metric hmetric => ?_)
    have hne : metric.id ≠ remote.1 := fun heq => hnew (List.mem_map.mpr ⟨metric, hmetric, heq⟩)
    simpa using hne
  have hdata : ∀ row ∈ db.metricData, row.metricId ∈ db.metricCache.map Metric.id →
      row ∈ (db.addMetric ⟨remote.1, remote.2, 0⟩).metricData := by
    intro row hrow hid
    have hne : row.metricId ≠ remote.1 := fun heq => hnew (heq ▸ hid)
    exact List.mem_filter.mpr ⟨hrow, by simpa using hne⟩
  refine ⟨⟨?_, ?_, ?_, ?_, ?_, ?_⟩, ⟨?_, hdata⟩⟩
  · simp only [Database.addMetric, h.cached]
  · rw [hcache, List.map_append, List.nodup_append]
    refine ⟨h.ids_nodup, List.nodup_singleton _, ?_⟩
    rintro id hid id' hid' rfl
    exact hnew ((List.mem_singleton.mp hid' : id = remote.1) ▸ hid)
  · intro metric hmetric
    rw [hcache] at hmetric
    rcases List.mem_append.mp hmetric with hmetric | hmetric
    · exact h.onServer metric hmetric
    · obtain rfl := List.mem_singleton.mp hmetric
      exact hremote
  · intro row hrow
    exact h.scored row (List.mem_of_mem_filter hrow)
  · intro metric hmetric
    rw [hcache] at hmetric
    rcases List.mem_append.mp hmetric with hmetric | hmetric
    · exact h.lastTimestamp metric hmetric
    · obtain rfl := List.mem_singleton.mp hmetric
      exact .inl rfl
  · intro metric hmetric row hrow hid hallowed hle
    rw [hcache] at hmetric
    rcases List.mem_append.mp hmetric with hmetric | hmetric
    · exact hdata row (h.covered metric hmetric row hrow hid hallowed hle)
        (List.mem_map.mpr ⟨metric, hmetric, hid.symm⟩)
    · obtain rfl := List.mem_singleton.mp hmetric
      have hpos := (server.valid row hrow).1
      exact absurd hle (by simpa using hpos)
  · intro id hid
    rw [hcache, List.map_append]
    exact List.mem_append_left _ hid

/-- The metric that is updated keeps its last timestamp. -/
theorem Consistent.updateMetric {metric : Metric} (h : Consistent server allowed db)
    (hmem : metric ∈ db.metricCache) (lastRowId : ℕ) :
    Consistent server allowed (db.updateMetric ⟨metric.id, lastRowId, metric.lastTimestamp⟩) ∧
      Loads db (db.updateMetric ⟨metric.id, lastRowId, metric.lastTimestamp⟩) := by
  have hids : (db.updateMetric ⟨metric.id, lastRowId, metric.lastTimestamp⟩).metricCache.map
      Metric.id = db.metricCache.map Metric.id := by
    simp only [Database.updateMetric, List.map_map]
    refine List.map_congr_left fun other _ => ?_
    simp only [Function.comp]
    split
    · rename_i heq
      exact heq.symm
    · rfl
  have hold : ∀ other ∈ (db.updateMetric
      ⟨metric.id, lastRowId, metric.lastTimestamp⟩).metricCache,
      ∃ old ∈ db.metricCache, old.id = other.id ∧ old.lastTimestamp = other.lastTimestamp := by
    intro other hother
    obtain ⟨old, hold, rfl⟩ := List.mem_map.mp hother
    split
    · exact ⟨metric, hmem, rfl, rfl⟩
    · exact ⟨old, hold, rfl, rfl⟩
  refine ⟨⟨?_, ?_, ?_, h.scored, ?_, ?_⟩, ⟨?_, fun row hrow _ => hrow⟩⟩
  · simp only [Database.updateMetric, h.cached]
  · rw [hids]
    exact h.ids_nodup
  · intro other hother
    obtain ⟨old, hmem', hid, -⟩ := hold other hother
    exact hid ▸ h.onServer old hmem'
  · intro other hother
    obtain ⟨old, hmem', hid, hlast⟩ := hold other hother
    rw [← hid, ← hlast]
    exact h.lastTimestamp old hmem'
  · intro other hother
    obtain ⟨old, hmem', hid, hlast⟩ := hold other hother
    rw [← hid, ← hlast]
    exact h.covered old hmem'
  · intro id hid
    rw [hids]
    exact hid

theorem Consistent.loadMetric {remote : String × ℕ} (h : Consistent server allowed db)
    (hremote : remote.1 ∈ server.metrics.map Prod.fst) :
    Consistent server allowed (db.loadMetric remote) ∧ Loads db (db.loadMetric remote) := by
  unfold Database.loadMetric
  cases hget : db.getMetric remote.1 with
  | none =>
    refine h.addMetric (fun hid => ?_) hremote
    have hsome := Database.getMetric_isSome.mpr hid
    simp [hget] at hsome
  | some metric =>
    have hmem : metric ∈ db.metricCache := List.mem_of_find?_eq_some hget
    have hid : metric.id = remote.1 := by simpa using List.find?_some hget
    dsimp only
    split
    · exact hid ▸ h.updateMetric hmem remote.2
    · exact ⟨h, fun _ hid => hid, fun _ hrow _ => hrow⟩

/-- No metric is removed, since all are on the server. -/
theorem Consistent.loadAllMetrics (h : Consistent server allowed db) :
    Consistent server allowed (db.loadAllMetrics server.metrics) ∧
      Loads db (db.loadAllMetrics server.metrics) := by
  have hfold : ∀ remoteMetrics : List (String × ℕ),
      (∀ remote ∈ remoteMetrics, remote.1 ∈ server.metrics.map Prod.fst) →
      ∀ db, Consistent server allowed db →
        Consistent server allowed (remoteMetrics.foldl Database.loadMetric db) ∧
          Loads db (remoteMetrics.foldl Database.loadMetric db) := by
    intro remoteMetrics
    induction remoteMetrics with
    | nil => exact fun _ db h => ⟨h, fun _ hid => hid, fun _ hrow _ => hrow⟩
    | cons remote remoteMetrics ih =>
      intro hmem db h
      obtain ⟨hconsistent, hloads⟩ := h.loadMetric (hmem remote List.mem_cons_self)
      obtain ⟨hconsistent', hloads'⟩ := ih
        (fun r hr => hmem r (List.mem_cons_of_mem _ hr)) _ hconsistent
      exact ⟨hconsistent', hloads.trans hloads'⟩
  obtain ⟨hconsistent, hloads⟩ := hfold server.metrics
    (fun remote hremote => List.mem_map_of_mem (f := Prod.fst) hremote) db h
  have hnone : (server.metrics.foldl Database.loadMetric db).metricCache.filter
      (fun metric => metric.id ∉ server.metrics.map Prod.fst) = [] := by
    refine List.filter_eq_nil_iff.mpr fun metric hmetric => ?_
    simpa using hconsistent.onServer metric hmetric
  rw [Database.loadAllMetrics, hnone]
  exact ⟨hconsistent, hloads⟩

end Loading

/-! ## The loop of `loadAllData` -/

/-- The rows up to the last timestamp of the metrics that the loop has looked at, or does not
look at for want of a row ID, are local or still have to be saved by the task that the thread
waits for. -/
structure Scanned (server : Server) (allowed : List ℤ) (db : Database) (scan : Scan)
    (awaited : List MetricData) : Prop where
  lowest_mem : scan.lowestTimestampAllowed ∈ allowed
  seconds_lowest : (1000 : ℤ) ∣ scan.lowestTimestampAllowed
  seconds : (1000 : ℤ) ∣ scan.lastTimestamp
  lastRowId : ∀ metric ∈ scan.rest, ∀ cached ∈ db.metricCache, cached.id = metric.id →
    cached.lastRowId = metric.lastRowId
  covered : ∀ metric ∈ db.metricCache,
    metric.id ∉ scan.rest.map Metric.id ∨ metric.lastRowId = 0 →
    ∀ row ∈ server.rows, row.metricId = metric.id → Allowed allowed row →
      row.timestamp ≤ scan.lastTimestamp → row.timestamp ≤ scan.now →
      row ∈ db.metricData ∨ row ∈ awaited

section Scanning

variable {server : Server} {allowed : List ℤ} {db : Database} {scan : Scan}
  {awaited : List MetricData}

theorem Consistent.seconds (h : Consistent server allowed db) (id : String) :
    (1000 : ℤ) ∣ db.getMetricLastTimestamp id := by
  rw [Database.getMetricLastTimestamp]
  cases hget : db.getMetric id with
  | none => simp
  | some metric =>
    rcases h.lastTimestamp metric (List.mem_of_find?_eq_some hget) with hzero | ⟨row, hrow, -, hlast⟩
    · simp [hzero]
    · simpa [hlast] using (server.valid row hrow).2

/-- The rows of a metric up to its last timestamp are local. -/
theorem Consistent.covered_id (h : Consistent server allowed db) {row : MetricData}
    (hrow : row ∈ server.rows) (hknown : row.metricId ∈ db.metricCache.map Metric.id)
    (hallowed : Allowed allowed row)
    (hle : row.timestamp ≤ db.getMetricLastTimestamp row.metricId) : row ∈ db.metricData := by
  obtain ⟨metric, hmetric, hid⟩ := List.mem_map.mp hknown
  rw [← hid, getMetricLastTimestamp_eq h.ids_nodup hmetric] at hle
  exact h.covered metric hmetric row hrow hid.symm hallowed hle

/-- The rows of a metric from before the timestamp from which it is downloaded are local. -/
theorem Consistent.covered_of_lt_next (h : Consistent server allowed db)
    (hlowest : scan.lowestTimestampAllowed ∈ allowed) {metric : Metric} {row : MetricData}
    (hrow : row ∈ server.rows) (hknown : row.metricId ∈ db.metricCache.map Metric.id)
    (hid : row.metricId = metric.id) (hallowed : Allowed allowed row)
    (hlt : row.timestamp < scan.nextTimestamp db metric) : row ∈ db.metricData := by
  have hge := hallowed _ hlowest
  unfold Scan.nextTimestamp at hlt
  split at hlt
  · omega
  · exact h.covered_id hrow hknown hallowed (by rw [hid]; omega)

/-- No metric is joined to the others with a row at the lowest timestamp that is not local. -/
def Scan.JoinsAbove (server : Server) (db : Database) (scan : Scan) : Prop :=
  ∀ metric ∈ scan.rest.head?, scan.Stale db metric →
    db.getMetricLastTimestamp metric.id < scan.lowestTimestampAllowed →
    ∀ row ∈ server.rows, row.metricId = metric.id →
      row.timestamp ≠ scan.lowestTimestampAllowed

theorem Scanned.visit {scan' : Scan} (h : Consistent server allowed db)
    (hs : Scanned server allowed db scan []) (hjoins : scan.JoinsAbove server db)
    (hnext : scan.next db = .inl scan') : Scanned server allowed db scan' [] := by
  unfold Scan.next at hnext
  split at hnext
  · cases hnext
  rename_i metric rest hrest
  -- the metric at the head is the only one that the loop has not looked at before
  have hcases : ∀ cached ∈ db.metricCache,
      (cached.id ∉ rest.map Metric.id ∨ cached.lastRowId = 0) →
        cached.id = metric.id ∨
          (cached.id ∉ scan.rest.map Metric.id ∨ cached.lastRowId = 0) := by
    rintro cached - (hid | hzero)
    · by_cases heq : cached.id = metric.id
      · exact .inl heq
      · refine .inr (.inl ?_)
        rw [hrest, List.map_cons, List.mem_cons, not_or]
        exact ⟨heq, hid⟩
    · exact .inr (.inr hzero)
  have hrowId : ∀ m ∈ rest, ∀ cached ∈ db.metricCache, cached.id = m.id →
      cached.lastRowId = m.lastRowId :=
    fun m hm => hs.lastRowId m (hrest ▸ List.mem_cons_of_mem _ hm)
  split at hnext
  · rename_i hstale
    split at hnext
    · cases hnext
      refine ⟨hs.lowest_mem, hs.seconds_lowest, ?_, hrowId, ?_⟩
      · have hnextSeconds : (1000 : ℤ) ∣ scan.nextTimestamp db metric := by
          unfold Scan.nextTimestamp
          split
          · exact hs.seconds_lowest
          · exact h.seconds metric.id
        have hlastSeconds := hs.seconds
        dsimp only
        omega
      · intro cached hcached hlooked row hrow hid hallowed hle hnow
        have hge := hallowed _ hs.lowest_mem
        dsimp only at hle
        rcases hcases cached hcached hlooked with heq | hbefore
        · have hknown : row.metricId ∈ db.metricCache.map Metric.id :=
            List.mem_map.mpr ⟨cached, hcached, hid.symm⟩
          have hrowId : row.metricId = metric.id := hid.trans heq
          by_cases hlowest : db.getMetricLastTimestamp metric.id < scan.lowestTimestampAllowed
          · have hnextEq : scan.nextTimestamp db metric = scan.lowestTimestampAllowed := by
              rw [Scan.nextTimestamp, if_pos hlowest]
            have hne := hjoins metric (by rw [hrest]; rfl) hstale hlowest row hrow hrowId
            omega
          · have hnextEq : scan.nextTimestamp db metric = db.getMetricLastTimestamp metric.id := by
              rw [Scan.nextTimestamp, if_neg hlowest]
            exact .inl (h.covered_id hrow hknown hallowed (by rw [hrowId]; omega))
        · exact hs.covered cached hcached hbefore row hrow hid hallowed (by omega) hnow
    · cases hnext
  · rename_i hfresh
    cases hnext
    refine ⟨hs.lowest_mem, hs.seconds_lowest, hs.seconds, hrowId, ?_⟩
    intro cached hcached hlooked row hrow hid hallowed hle hnow
    dsimp only at hle
    rcases hcases cached hcached hlooked with heq | hbefore
    · have hsame := hs.lastRowId metric (hrest ▸ List.mem_cons_self) cached hcached heq
      by_cases hzero : metric.lastRowId = 0
      · exact hs.covered cached hcached (.inr (hsame.trans hzero)) row hrow hid hallowed hle hnow
      · have hlast : scan.lastTimestamp ≤ db.getMetricLastTimestamp metric.id := by
          by_contra hlt
          exact hfresh ⟨Nat.pos_of_ne_zero hzero, by omega⟩
        have hrowId : row.metricId = metric.id := hid.trans heq
        refine .inl (h.covered_id hrow (List.mem_map.mpr ⟨cached, hcached, hid.symm⟩) hallowed ?_)
        rw [hrowId]
        omega
    · exact hs.covered cached hcached hbefore row hrow hid hallowed hle hnow

/-- The rows of an answer whose metrics are known. -/
def arrivals (db : Database) (answer : List MetricData) : List MetricData :=
  answer.filter fun row => (db.getMetric row.metricId).isSome

theorem mem_arrivals {answer : List MetricData} {row : MetricData} :
    row ∈ arrivals db answer ↔ row ∈ answer ∧ row.metricId ∈ db.metricCache.map Metric.id := by
  rw [arrivals, List.mem_filter, Database.getMetric_isSome]

theorem Server.mem_range {metricId : Option String} {fromDate toDate : ℤ} {row : MetricData} :
    row ∈ server.range metricId fromDate toDate ↔ row ∈ server.rows ∧
      (metricId = none ∨ metricId = some row.metricId) ∧ fromDate ≤ row.timestamp ∧
        row.timestamp ≤ toDate := by
  simp [range]

/-- A request whose range starts before all that is missing leaves no row behind. -/
theorem Feeds.of_answer {metricId : Option String} {fromDate toDate : ℤ}
    {answer : List MetricData} (hanswer : server.Answers metricId fromDate toDate answer)
    (hbefore : ∀ row ∈ server.rows, row.metricId ∈ db.metricCache.map Metric.id →
      (metricId = none ∨ metricId = some row.metricId) → Allowed allowed row →
      row.timestamp < fromDate → row.timestamp ≤ toDate → row ∈ db.metricData) :
    Feeds server allowed db (arrivals db answer) where
  sorted := hanswer.2.filter _
  scored := by
    intro row hrow
    have hrange := hanswer.1.mem_iff.mp (mem_arrivals.mp hrow).1
    exact (Server.mem_range.mp hrange).1
  known := fun row hrow => (mem_arrivals.mp hrow).2
  covers := by
    intro next hnext row hrow hid hallowed hlt
    obtain ⟨hnext, hknown⟩ := mem_arrivals.mp hnext
    obtain ⟨-, hmetric, hfrom, hto⟩ := Server.mem_range.mp (hanswer.1.mem_iff.mp hnext)
    rw [← hid] at hmetric hknown
    by_cases hge : fromDate ≤ row.timestamp
    · right
      refine mem_arrivals.mpr ⟨hanswer.1.mem_iff.mpr ?_, hknown⟩
      exact Server.mem_range.mpr ⟨hrow, hmetric, hge, by omega⟩
    · exact .inl (hbefore row hrow hknown hmetric hallowed (by omega) (by omega))

/-- The request for one metric, or the one for all metrics at the end of the loop. -/
theorem Scanned.request {req : Request} {answer : List MetricData}
    (h : Consistent server allowed db) (hs : Scanned server allowed db scan [])
    (hnext : scan.next db = .inr req)
    (hanswer : server.Answers req.metricId req.fromDate req.toDate answer) :
    Feeds server allowed db (arrivals db answer) ∧
      ∀ scan', req.resume = some scan' →
        Scanned server allowed db scan' (arrivals db answer) := by
  unfold Scan.next at hnext
  split at hnext
  · rename_i hrest
    cases hnext
    refine ⟨Feeds.of_answer hanswer fun row hrow hknown _ hallowed hlt hto => ?_,
      fun scan' hscan => by cases hscan⟩
    have hge := hallowed _ hs.lowest_mem
    have hseconds := (server.valid row hrow).2
    have hlastSeconds := hs.seconds
    dsimp only at hlt
    obtain ⟨metric, hmetric, hid⟩ := List.mem_map.mp hknown
    have hle : row.timestamp ≤ scan.lastTimestamp := by omega
    have hcovered := hs.covered metric hmetric (.inl (by simp [hrest])) row hrow hid.symm hallowed
      hle hto
    simpa using hcovered
  rename_i metric rest hrest
  split at hnext
  · rename_i hstale
    split at hnext
    · cases hnext
    cases hnext
    have hbefore : ∀ row ∈ server.rows, row.metricId ∈ db.metricCache.map Metric.id →
        row.metricId = metric.id → Allowed allowed row →
        row.timestamp < scan.nextTimestamp db metric → row ∈ db.metricData :=
      fun row hrow hknown hid hallowed hlt =>
        h.covered_of_lt_next hs.lowest_mem hrow hknown hid hallowed hlt
    refine ⟨Feeds.of_answer hanswer fun row hrow hknown hid hallowed hlt _ => ?_, ?_⟩
    · have hid' : row.metricId = metric.id := by simpa [eq_comm] using hid
      exact hbefore row hrow hknown hid' hallowed hlt
    · intro scan' hscan
      cases hscan
      refine ⟨hs.lowest_mem, hs.seconds_lowest, hs.seconds,
        fun m hm => hs.lastRowId m (hrest ▸ List.mem_cons_of_mem _ hm), ?_⟩
      intro cached hcached hlooked row hrow hid hallowed hle hnow
      have hknown : row.metricId ∈ db.metricCache.map Metric.id :=
        List.mem_map.mpr ⟨cached, hcached, hid.symm⟩
      by_cases heq : cached.id = metric.id
      · by_cases hlt : row.timestamp < scan.nextTimestamp db metric
        · exact .inl (hbefore row hrow hknown (hid.trans heq) hallowed hlt)
        · right
          refine mem_arrivals.mpr ⟨hanswer.1.mem_iff.mpr ?_, hknown⟩
          refine Server.mem_range.mpr ⟨hrow, .inr ?_, by simpa using hlt, hnow⟩
          rw [hid.trans heq]
      · have hlooked' : cached.id ∉ scan.rest.map Metric.id ∨ cached.lastRowId = 0 := by
          rcases hlooked with hnot | hzero
          · left
            rw [hrest, List.map_cons, List.mem_cons, not_or]
            exact ⟨heq, hnot⟩
          · exact .inr hzero
        rcases hs.covered cached hcached hlooked' row hrow hid hallowed hle hnow with hdata | hnone
        · exact .inl hdata
        · cases hnone
  · cases hnext

theorem Scanned.grows {db' : Database} {awaited' : List MetricData}
    (h : Scanned server allowed db scan awaited)
    (hgrows : Grows db db')
    (hawaited : ∀ row ∈ awaited, row ∈ db'.metricData ∨ row ∈ awaited') :
    Scanned server allowed db' scan awaited' where
  lowest_mem := h.lowest_mem
  seconds_lowest := h.seconds_lowest
  seconds := h.seconds
  lastRowId := by
    intro metric hmetric cached hcached hid
    obtain ⟨old, hold, hid', hrowId⟩ := hgrows.exists_metric hcached
    exact hrowId ▸ h.lastRowId metric hmetric old hold (hid'.trans hid)
  covered := by
    intro metric hmetric hlooked row hrow hid hallowed hle hnow
    obtain ⟨old, hold, hid', hrowId⟩ := hgrows.exists_metric hmetric
    rw [← hid', ← hrowId] at hlooked
    rcases h.covered old hold hlooked row hrow (hid.trans hid'.symm) hallowed hle hnow with
      hdata | hqueue
    · exact .inl (hgrows.metricData row hdata)
    · exact hawaited row hqueue

theorem arrivals_grows {db' : Database} (h : Grows db db') (answer : List MetricData) :
    arrivals db' answer = arrivals db answer := by
  refine List.filter_congr fun row _ => ?_
  rw [Bool.eq_iff_iff, Database.getMetric_isSome, Database.getMetric_isSome, h.ids]

theorem seconds_floorTo5minutes (time : ℤ) : (1000 : ℤ) ∣ floorTo5minutes time := by
  unfold floorTo5minutes
  omega

theorem seconds_getLastTimestamp (h : Consistent server allowed db) : (1000 : ℤ) ∣ db.getLastTimestamp := by
  have hmetrics : ∀ metric ∈ db.metricCache, (1000 : ℤ) ∣ metric.lastTimestamp := by
    intro metric hmetric
    rw [← getMetricLastTimestamp_eq h.ids_nodup hmetric]
    exact h.seconds metric.id
  have hfold : ∀ (metrics : List Metric) (timestamp : ℤ), (1000 : ℤ) ∣ timestamp →
      (∀ metric ∈ metrics, (1000 : ℤ) ∣ metric.lastTimestamp) →
      (1000 : ℤ) ∣ metrics.foldl (fun timestamp metric => max timestamp metric.lastTimestamp)
        timestamp := by
    intro metrics
    induction metrics with
    | nil => exact fun timestamp htimestamp _ => htimestamp
    | cons metric metrics ih =>
      intro timestamp htimestamp hmem
      have hhead := hmem metric List.mem_cons_self
      apply ih
      · dsimp only
        omega
      · exact fun m hm => hmem m (List.mem_cons_of_mem _ hm)
  exact hfold _ 0 (Int.dvd_zero _) hmetrics

end Scanning

/-! ## The invariant of a run -/

/-- The loop that is under way, or goes on after a download of one metric. -/
def Phase.scan? : Phase → Option Scan
  | .scanning scan => some scan
  | .downloading _ _ resume | .waiting _ resume => resume
  | _ => none

namespace State

/-- The rows that will still be put into the queue of a task. -/
def arriving (s : State) (i : ℕ) : List MetricData :=
  match s.phase with
  | .downloading j answer _ => if i = j then arrivals s.db answer else []
  | _ => []

/-- What a task still has to save. -/
def queue (s : State) (i : ℕ) (t : Task) : List MetricData :=
  (t.batch ++ t.pending) ++ s.arriving i

/-- The thread downloads a single metric with the task. -/
def AwaitsOne (s : State) (i : ℕ) : Prop :=
  match s.phase with
  | .downloading j _ (some _) | .waiting j (some _) => i = j
  | _ => False

/-- What the task of a download of a single metric still has to save. -/
def awaited (s : State) : List MetricData :=
  match s.phase with
  | .downloading j _ (some _) | .waiting j (some _) => (s.tasks[j]?.map (s.queue j)).getD []
  | _ => []

/-- The steps after which nothing is passed over: the branches are left out in which a
download that has lost rows is followed by more rows. -/
def Regular (syncDays : ℤ) (s : State) : Action → Prop
  | .score row => ∀ scan, s.phase.scan? = some scan → ∀ metric ∈ s.db.metricCache,
      metric.id = row.metricId → metric.id ∉ scan.rest.map Metric.id ∨ metric.lastRowId = 0 →
      row.timestamp ≤ scan.now → Allowed s.allowed row → scan.lastTimestamp < row.timestamp
  | .loadAllData now lowestNow _ => ∀ metric ∈ s.db.metricCache,
      s.db.getLastTimestamp ≤ floorTo5minutes (lowestNow - syncDays * millisPerDay) ∨
        metric.lastRowId = 0 →
      ∀ row ∈ s.server.rows, row.metricId = metric.id →
        Allowed (floorTo5minutes (lowestNow - syncDays * millisPerDay) :: s.allowed) row →
        row.timestamp ≤ s.db.getLastTimestamp → row.timestamp ≤ now →
        row.timestamp ≤ metric.lastTimestamp
  | .visit => ∀ scan, s.phase = .scanning scan → scan.JoinsAbove s.server s.db
  | .interruptPut => False
  | .interruptWait => s.phase.scan? = none
  | .take _ failsAt => failsAt = none
  | .finish i failsAt => failsAt = none ∧ (s.AwaitsOne i → ∀ t ∈ s.tasks[i]?, t.eof)
  | .interruptTask i => ¬ s.AwaitsOne i
  | _ => True

/-- What holds between any two steps. -/
structure Sound (s : State) : Prop where
  consistent : Consistent s.server s.allowed s.db
  begun : ∀ row ∈ s.begunRows, row ∈ s.server.rows
  feeds : ∀ i t, s.tasks[i]? = some t → t.running →
    Feeds s.server s.allowed s.db (s.queue i t)
  scanned : ∀ scan, s.phase.scan? = some scan →
    Scanned s.server s.allowed s.db scan s.awaited
  downloading : ∀ i answer scan, s.phase = .downloading i answer (some scan) →
    ∃ t, s.tasks[i]? = some t ∧ t.running ∧ t.eof = false
  waiting : ∀ i scan, s.phase = .waiting i (some scan) →
    ∃ t, s.tasks[i]? = some t ∧ (t.running ∨ s.queue i t = [])

variable {s t : State} {syncDays : ℤ}

theorem Sound.pending (h : Sound s) {i : ℕ} {task : Task} (hi : s.tasks[i]? = some task)
    (hrun : task.running) : Feeds s.server s.allowed s.db (task.batch ++ task.pending) :=
  (h.feeds i task hi hrun).prefix_append

/-- The thread goes on to a phase without a download. -/
theorem Sound.set_phase (h : Sound s) (phase : Phase)
    (hnone : (∀ i answer resume, phase ≠ .downloading i answer resume) ∧
      ∀ i resume, phase ≠ .waiting i resume)
    (hscan : ∀ scan, phase = .scanning scan → Scanned s.server s.allowed s.db scan []) :
    Sound { s with phase := phase } where
  consistent := h.consistent
  begun := h.begun
  feeds := by
    intro i task hi hrun
    have hempty : arriving { s with phase := phase } i = [] := by
      unfold arriving
      split
      · rename_i hphase
        exact absurd hphase (hnone.1 _ _ _)
      · rfl
    rw [queue, hempty, List.append_nil]
    exact h.pending hi hrun
  scanned := by
    intro scan hphase
    cases phase with
    | scanning scan' =>
      cases hphase
      exact hscan scan rfl
    | downloading i answer resume => exact absurd rfl (hnone.1 i answer resume)
    | waiting i resume => exact absurd rfl (hnone.2 i resume)
    | idle | begun | metricsLoaded => cases hphase
  downloading := fun i answer scan hphase => absurd hphase (hnone.1 _ _ _)
  waiting := fun i scan hphase => absurd hphase (hnone.2 _ _)

theorem Sound.begin (h : Sound s) (hact : s.act syncDays .begin = some t) : Sound t := by
  simp only [act] at hact
  split at hact
  · cases hact
    have hbegun := h.set_phase .begun (by simp) (by simp)
    exact { hbegun with begun := fun row hrow => hrow }
  · cases hact

theorem Sound.abort (h : Sound s) (hact : s.act syncDays .abort = some t) : Sound t := by
  cases hact
  exact h.set_phase _ (by simp) (by simp)

/-- The loop goes on when the task has saved all rows of the metric. -/
theorem Sound.resume (h : Sound s) (hact : s.act syncDays .resume = some t) : Sound t := by
  simp only [act] at hact
  split at hact
  · rename_i i resume hphase
    split at hact
    · cases hact
    rename_i hrunning
    cases hact
    cases resume with
    | none => exact h.set_phase _ (by simp [Phase.ofResume]) (by simp [Phase.ofResume])
    | some scan =>
      refine h.set_phase _ (by simp [Phase.ofResume]) fun scan' hscan => ?_
      cases hscan
      have hscanned := h.scanned scan (by rw [hphase]; rfl)
      obtain ⟨task, htask, hrun | hqueue⟩ := h.waiting i scan hphase
      · simp [htask, hrun] at hrunning
      · have hawaited : s.awaited = [] := by simp [awaited, hphase, htask, hqueue]
        exact hawaited ▸ hscanned
  · cases hact

theorem Sound.interruptWait (h : Sound s) (hregular : s.Regular syncDays .interruptWait)
    (hact : s.act syncDays .interruptWait = some t) : Sound t := by
  simp only [act] at hact
  split at hact
  · rename_i i resume hphase
    cases hact
    have hnone : resume = none := by
      simpa [Regular, hphase, Phase.scan?] using hregular
    subst hnone
    exact h.set_phase _ (by simp [Phase.ofResume]) (by simp [Phase.ofResume])
  · cases hact

/-! ### Steps of the server -/

/-- A step of the server keeps what the thread and the tasks rely on. -/
theorem Sound.set_server (h : Sound s) {server : Server}
    (hconsistent : Consistent server s.allowed s.db)
    (hrows : ∀ row ∈ s.server.rows, row ∈ server.rows)
    (hfeeds : ∀ queue, Feeds s.server s.allowed s.db queue → Feeds server s.allowed s.db queue)
    (hscanned : ∀ scan, s.phase.scan? = some scan → Scanned server s.allowed s.db scan s.awaited) :
    Sound { s with server := server } where
  consistent := hconsistent
  begun := fun row hrow => hrows row (h.begun row hrow)
  feeds := fun i task hi hrun => hfeeds _ (h.feeds i task hi hrun)
  scanned := hscanned
  downloading := h.downloading
  waiting := h.waiting

theorem Sound.set_metrics (h : Sound s) {server : Server} (hrows : server.rows = s.server.rows)
    (hmetrics : ∀ id ∈ s.server.metrics.map Prod.fst, id ∈ server.metrics.map Prod.fst) :
    Sound { s with server := server } := by
  refine h.set_server (h.consistent.of_server hrows hmetrics) (fun row hrow => hrows ▸ hrow)
    (fun queue hqueue => hqueue.of_server hrows) fun scan hphase => ?_
  have hscanned := h.scanned scan hphase
  exact { hscanned with covered := hrows ▸ hscanned.covered }

theorem Sound.createMetric (h : Sound s) {id : String}
    (hact : s.act syncDays (.createMetric id) = some t) : Sound t := by
  simp only [act] at hact
  split at hact
  · cases hact
  · cases hact
    refine h.set_metrics rfl fun id' hid => ?_
    simp only [Server.createMetric, List.map_append]
    exact List.mem_append_left _ hid

theorem Sound.ingest (h : Sound s) {id : String} {count : ℕ}
    (hact : s.act syncDays (.ingest id count) = some t) : Sound t := by
  cases hact
  refine h.set_metrics rfl fun id' hid => ?_
  obtain ⟨metric, hmetric, rfl⟩ := List.mem_map.mp hid
  refine List.mem_map.mpr ⟨_, List.mem_map_of_mem (f := fun metric : String × ℕ =>
    if metric.1 = id then (id, metric.2 + count) else metric) hmetric, ?_⟩
  split
  · rename_i heq
    exact heq.symm
  · rfl

theorem Sound.score (h : Sound s) {row : MetricData} (hregular : s.Regular syncDays (.score row))
    (hact : s.act syncDays (.score row) = some t) : Sound t := by
  simp only [act] at hact
  split at hact
  · rename_i hrow
    cases hact
    refine h.set_server (h.consistent.score hrow) (fun r hr => List.mem_append_left _ hr)
      (fun queue hqueue => hqueue.score hrow) fun scan hphase => ?_
    have hscanned := h.scanned scan hphase
    refine { hscanned with covered := ?_ }
    intro metric hmetric hlooked r hr hid hallowed hle hnow
    rcases List.mem_append.mp hr with hr | hr
    · exact hscanned.covered metric hmetric hlooked r hr hid hallowed hle hnow
    · obtain rfl := List.mem_singleton.mp hr
      have hlater := hregular scan hphase metric hmetric hid.symm hlooked hnow hallowed
      omega
  · cases hact

/-! ### Steps of the service thread -/

theorem Sound.loadAllMetrics (h : Sound s) {answered : Bool}
    (hact : s.act syncDays (.loadAllMetrics answered) = some t) : Sound t := by
  simp only [act] at hact
  split at hact
  · rename_i hphase
    cases hact
    have hquiet : ∀ i, s.arriving i = [] := fun i => by simp [arriving, hphase]
    have hloads : Consistent s.server s.allowed
        (if answered then s.db.loadAllMetrics s.server.metrics else s.db) ∧
        Loads s.db (if answered then s.db.loadAllMetrics s.server.metrics else s.db) := by
      split
      · exact h.consistent.loadAllMetrics
      · exact ⟨h.consistent, fun _ hid => hid, fun _ hrow _ => hrow⟩
    refine ⟨hloads.1, h.begun, ?_, ?_, ?_, ?_⟩
    · intro i task hi hrun
      have hfeeds := (h.pending hi hrun).loads hloads.2
      simpa [queue, arriving] using hfeeds
    · intro scan hscan
      cases hscan
    · intro i answer scan hdownloading
      cases hdownloading
    · intro i scan hwaiting
      cases hwaiting
  · cases hact

/-- At the start of the loop, nothing is missing of the metrics that it does not look at. -/
theorem Sound.loadAllData (h : Sound s) {now lowestNow : ℤ} {order : List Metric}
    (hregular : s.Regular syncDays (.loadAllData now lowestNow order))
    (hact : s.act syncDays (.loadAllData now lowestNow order) = some t) : Sound t := by
  simp only [act] at hact
  split at hact
  · rename_i hphase
    split at hact
    · rename_i hperm
      cases hact
      refine ⟨h.consistent.allow _, h.begun, ?_, ?_, ?_, ?_⟩
      · intro i task hi hrun
        have hfeeds := (h.pending hi hrun).allow
          (floorTo5minutes (lowestNow - syncDays * millisPerDay))
        simpa [queue, arriving] using hfeeds
      · intro scan hscan
        cases hscan
        refine ⟨List.mem_cons_self, seconds_floorTo5minutes _,
          seconds_getLastTimestamp h.consistent, ?_, ?_⟩
        · intro metric hmetric cached hcached hid
          dsimp only at hmetric
          split at hmetric
          · have hmem : metric ∈ s.db.metricCache := hperm.mem_iff.mp hmetric
            rw [List.inj_on_of_nodup_map h.consistent.ids_nodup hcached hmem hid]
          · cases hmetric
        · intro metric hmetric hlooked row hrow hid hallowed hle hnow
          left
          apply h.consistent.covered metric hmetric row hrow hid hallowed.of_cons
          refine hregular metric hmetric ?_ row hrow hid hallowed hle hnow
          rcases hlooked with hnot | hzero
          · left
            by_contra hlt
            have hmem : metric.id ∈ order.map Metric.id :=
              List.mem_map_of_mem (hperm.mem_iff.mpr hmetric)
            dsimp only at hnot
            rw [if_pos (by omega)] at hnot
            exact hnot hmem
          · exact .inr hzero
      · intro i answer scan hdownloading
        cases hdownloading
      · intro i scan hwaiting
        cases hwaiting
    · cases hact
  · cases hact

theorem Sound.visit (h : Sound s) (hregular : s.Regular syncDays .visit)
    (hact : s.act syncDays .visit = some t) : Sound t := by
  simp only [act] at hact
  split at hact
  · rename_i scan hphase
    split at hact
    · rename_i scan' hnext
      cases hact
      refine h.set_phase _ (by simp) fun scan'' hscan => ?_
      cases hscan
      have hawaited : s.awaited = [] := by simp [awaited, hphase]
      have hscanned := h.scanned scan (by rw [hphase]; rfl)
      exact (hawaited ▸ hscanned).visit h.consistent (hregular scan hphase) hnext
    · cases hact
  · cases hact

theorem getElem?_append_start {tasks : List Task} {metricId : Option String} {i : ℕ} {task : Task}
    (h : (tasks ++ [Task.start metricId])[i]? = some task) :
    tasks[i]? = some task ∨ i = tasks.length ∧ task = Task.start metricId := by
  rcases Nat.lt_or_ge i tasks.length with hlt | hge
  · rw [List.getElem?_append_left hlt] at h
    exact .inl h
  · rw [List.getElem?_append_right hge] at h
    have hzero : i - tasks.length = 0 := by
      by_contra hne
      obtain ⟨k, hk⟩ := Nat.exists_eq_succ_of_ne_zero hne
      simp [hk] at h
    rw [hzero] at h
    exact .inr ⟨by omega, (by simpa using h.symm)⟩

theorem Sound.request (h : Sound s) {answer : List MetricData}
    (hact : s.act syncDays (.request answer) = some t) : Sound t := by
  simp only [act] at hact
  split at hact
  · rename_i scan hphase
    split at hact
    · cases hact
    rename_i req hnext
    split at hact
    · rename_i hanswer
      cases hact
      have hawaited : s.awaited = [] := by simp [awaited, hphase]
      have hscanned := h.scanned scan (by rw [hphase]; rfl)
      obtain ⟨hfeeds, hresume⟩ := Scanned.request h.consistent (hawaited ▸ hscanned) hnext hanswer
      refine ⟨h.consistent, h.begun, ?_, ?_, ?_, ?_⟩
      · intro i task hi hrun
        rcases getElem?_append_start hi with hold | ⟨rfl, rfl⟩
        · have hne : i ≠ s.tasks.length := fun heq => by simp [heq] at hold
          have hpending := h.pending hold hrun
          simpa [queue, arriving, hne] using hpending
        · simpa [queue, arriving, Task.start] using hfeeds
      · intro scan' hscan
        have hsome : req.resume = some scan' := hscan
        have hrows := hresume scan' hsome
        simpa [awaited, hsome, queue, arriving, Task.start] using hrows
      · intro i answer' scan' hdownloading
        obtain ⟨rfl, -, -⟩ := Phase.downloading.inj hdownloading
        exact ⟨Task.start req.metricId, by simp, rfl, rfl⟩
      · intro i scan' hwaiting
        cases hwaiting
    · cases hact
  · cases hact

/-- The tasks have what they had to save, and the thread goes on with the same download. -/
theorem Sound.requeue (h : Sound s) {i : ℕ} {answer : List MetricData} {resume : Option Scan}
    {phase : Phase} {tasks : List Task} (hold : s.phase = .downloading i answer resume)
    (hnew : (∃ rest, phase = .downloading i rest resume ∧
        ∀ task ∈ tasks[i]?, ∀ old ∈ s.tasks[i]?, task.eof = old.eof) ∨
      phase = .waiting i resume)
    (htasks : ∀ j, tasks[j]?.map (fun task =>
        (task.running, queue { s with phase := phase, tasks := tasks } j task)) =
      s.tasks[j]?.map fun old => (old.running, s.queue j old)) :
    Sound { s with phase := phase, tasks := tasks } := by
  have hfrom : ∀ (j : ℕ) (task : Task), tasks[j]? = some task → ∃ old, s.tasks[j]? = some old ∧
      old.running = task.running ∧
      s.queue j old = queue { s with phase := phase, tasks := tasks } j task := by
    intro j task hj
    have hpair := htasks j
    rw [hj, Option.map_some] at hpair
    obtain ⟨old, hget, heq⟩ := Option.map_eq_some_iff.mp hpair.symm
    exact ⟨old, hget, congrArg Prod.fst heq, congrArg Prod.snd heq⟩
  have hto : ∀ (j : ℕ) (old : Task), s.tasks[j]? = some old → ∃ task, tasks[j]? = some task ∧
      task.running = old.running := by
    intro j old hj
    have hpair := htasks j
    rw [hj, Option.map_some] at hpair
    obtain ⟨task, hget, heq⟩ := Option.map_eq_some_iff.mp hpair
    exact ⟨task, hget, congrArg Prod.fst heq⟩
  have hqueue : ∀ j, (tasks[j]?.map (queue { s with phase := phase, tasks := tasks } j)) =
      s.tasks[j]?.map (s.queue j) := by
    intro j
    have hsnd := congrArg (Option.map Prod.snd) (htasks j)
    simpa [Option.map_map, Function.comp_def] using hsnd
  refine ⟨h.consistent, h.begun, ?_, ?_, ?_, ?_⟩
  · intro j task hj hrun
    obtain ⟨old, hget, hrunning, heq⟩ := hfrom j task hj
    exact heq ▸ h.feeds j old hget (hrunning ▸ hrun)
  · intro scan hscan
    have hresume : resume = some scan := by
      rcases hnew with ⟨rest, rfl, -⟩ | rfl
      · exact hscan
      · exact hscan
    have hscanned := h.scanned scan (by rw [hold]; exact hresume)
    subst hresume
    have hawaited : awaited { s with phase := phase, tasks := tasks } = s.awaited := by
      rcases hnew with ⟨rest, rfl, -⟩ | rfl
      · simp only [awaited, hold]
        rw [hqueue]
      · simp only [awaited, hold]
        rw [hqueue]
    rw [hawaited]
    exact hscanned
  · intro j rest scan hphase
    rcases hnew with ⟨rest', rfl, heof⟩ | rfl
    · obtain ⟨rfl, rfl, rfl⟩ := Phase.downloading.inj hphase
      obtain ⟨old, hget, hrun, heof'⟩ := h.downloading i answer scan hold
      obtain ⟨task, htask, hrunning⟩ := hto i old hget
      exact ⟨task, htask, hrunning ▸ hrun, (heof task htask old hget).trans heof'⟩
    · cases hphase
  · intro j scan hphase
    rcases hnew with ⟨rest, rfl, -⟩ | rfl
    · cases hphase
    · obtain ⟨rfl, rfl⟩ := Phase.waiting.inj hphase
      obtain ⟨old, hget, hrun, -⟩ := h.downloading i answer scan hold
      obtain ⟨task, htask, hrunning⟩ := hto i old hget
      exact ⟨task, htask, .inl (hrunning ▸ hrun)⟩

theorem Sound.deliver (h : Sound s) (hact : s.act syncDays .deliver = some t) : Sound t := by
  simp only [act] at hact
  split at hact
  · rename_i i row answer resume hphase
    cases hact
    by_cases hknown : s.known row.metricId = true
    · have hsome : (s.db.getMetric row.metricId).isSome := hknown
      simp only [if_pos hknown]
      refine h.requeue hphase (.inl ⟨answer, rfl, ?_⟩) fun j => ?_
      · intro task htask old hget
        rw [List.getElem?_modify] at htask
        simp only [if_true] at htask
        obtain ⟨old', hget', rfl⟩ := Option.map_eq_some_iff.mp htask
        cases hget.symm.trans hget'
        rfl
      · rw [List.getElem?_modify]
        by_cases hij : i = j
        · subst hij
          simp [Function.comp_def, queue, arriving, hphase, arrivals, hsome]
        · simp [hij, Ne.symm hij, queue, arriving, hphase]
    · have hnone : (s.db.getMetric row.metricId).isSome = false := by simpa [known] using hknown
      simp only [if_neg hknown]
      refine h.requeue hphase (.inl ⟨answer, rfl, ?_⟩) fun j => ?_
      · intro task htask old hget
        cases hget.symm.trans htask
        rfl
      · simp [queue, arriving, hphase, arrivals, hnone]
  · cases hact

theorem Sound.endOfData (h : Sound s) (hact : s.act syncDays .endOfData = some t) : Sound t := by
  simp only [act] at hact
  split at hact
  · rename_i i resume hphase
    cases hact
    refine h.requeue hphase (.inr rfl) fun j => ?_
    rw [List.getElem?_modify]
    by_cases hij : i = j
    · simp [Function.comp_def, hij, queue, arriving, hphase, arrivals]
    · simp [hij, queue, arriving, hphase, arrivals]
  · cases hact

/-! ### Steps of the tasks -/

theorem arriving_grows {db' : Database} (h : Grows s.db db') (tasks : List Task) (i : ℕ) :
    arriving { s with db := db', tasks := tasks } i = s.arriving i := by
  simp only [arriving, arrivals_grows h]

/-- A task saves the first of the rows that it has to save. -/
theorem Sound.save (h : Sound s) {i : ℕ} {task task' : Task} {db' : Database}
    (saved : List MetricData) (hi : s.tasks[i]? = some task)
    (hconsistent : Consistent s.server s.allowed db') (hgrows : Grows s.db db')
    (hsaved : ∀ row ∈ saved, row ∈ db'.metricData)
    (hqueue : task.batch ++ task.pending = saved ++ (task'.batch ++ task'.pending))
    (hrunning : task'.running → task.running ∧
      Feeds s.server s.allowed db' (task'.batch ++ task'.pending ++ s.arriving i))
    (heof : task'.eof = task.eof)
    (hawaits : s.AwaitsOne i → task'.running = task.running ∨
      ∃ scan, s.phase = .waiting i (some scan) ∧ task'.batch ++ task'.pending = []) :
    Sound { s with tasks := s.tasks.set i task', db := db' } := by
  have hlen : i < s.tasks.length := (List.getElem?_eq_some_iff.mp hi).1
  have hself : (s.tasks.set i task')[i]? = some task' := List.getElem?_set_self hlen
  have hother : ∀ j, j ≠ i → (s.tasks.set i task')[j]? = s.tasks[j]? := fun j hj =>
    List.getElem?_set_ne (Ne.symm hj)
  have hqueue' : ∀ j t, queue { s with tasks := s.tasks.set i task', db := db' } j t =
      s.queue j t := by
    intro j t
    rw [queue, arriving_grows hgrows, queue]
  refine ⟨hconsistent, h.begun, ?_, ?_, ?_, ?_⟩
  · intro j t hj hrun
    rw [hqueue']
    by_cases hji : j = i
    · subst hji
      cases hself.symm.trans hj
      exact (hrunning hrun).2
    · rw [hother j hji] at hj
      exact (h.feeds j t hj hrun).grows hgrows
  · intro scan hphase
    refine (h.scanned scan hphase).grows hgrows fun row hrow => ?_
    have hqueue : ∀ j scan', (s.phase = .waiting j (some scan') ∨
        ∃ answer, s.phase = .downloading j answer (some scan')) →
        row ∈ db'.metricData ∨ row ∈ ((s.tasks.set i task')[j]?.map
          (queue { s with tasks := s.tasks.set i task', db := db' } j)).getD [] := by
      intro j scan' hp
      have hmem : row ∈ (s.tasks[j]?.map (s.queue j)).getD [] := by
        rcases hp with hp | ⟨answer, hp⟩
        · simpa [awaited, hp] using hrow
        · simpa [awaited, hp] using hrow
      by_cases hji : j = i
      · subst hji
        rw [hi, Option.map_some, Option.getD_some, queue, hqueue, List.append_assoc] at hmem
        rw [hself, Option.map_some, Option.getD_some, hqueue', queue]
        rcases List.mem_append.mp hmem with hmem | hmem
        · exact .inl (hsaved row hmem)
        · exact .inr hmem
      · right
        rw [hother j hji]
        simpa only [funext (hqueue' j)] using hmem
    cases hp : s.phase with
    | downloading j answer resume =>
      cases resume with
      | none => simp [awaited, hp] at hrow
      | some scan' => simpa [awaited, hp] using hqueue j scan' (.inr ⟨answer, hp⟩)
    | waiting j resume =>
      cases resume with
      | none => simp [awaited, hp] at hrow
      | some scan' => simpa [awaited, hp] using hqueue j scan' (.inl hp)
    | idle | begun | metricsLoaded | scanning => simp [awaited, hp] at hrow
  · intro j answer scan hphase
    by_cases hji : j = i
    · subst hji
      obtain ⟨t, ht, hrun, heof'⟩ := h.downloading j answer scan hphase
      cases hi.symm.trans ht
      refine ⟨task', hself, ?_, heof.trans heof'⟩
      have hawait : s.AwaitsOne j := by
        have hp : s.phase = .downloading j answer (some scan) := hphase
        simp [AwaitsOne, hp]
      rcases hawaits hawait with heq | ⟨scan', hwaiting, -⟩
      · exact heq ▸ hrun
      · have hp : s.phase = .downloading j answer (some scan) := hphase
        rw [hp] at hwaiting
        cases hwaiting
    · obtain ⟨t, ht, hrun⟩ := h.downloading j answer scan hphase
      exact ⟨t, (hother j hji).trans ht, hrun⟩
  · intro j scan hphase
    have hp : s.phase = .waiting j (some scan) := hphase
    obtain ⟨t, ht, hwaiting⟩ := h.waiting j scan hphase
    by_cases hji : j = i
    · subst hji
      cases hi.symm.trans ht
      refine ⟨task', hself, ?_⟩
      have hawait : s.AwaitsOne j := by simp [AwaitsOne, hp]
      have hquiet : s.arriving j = [] := by simp [arriving, hp]
      rw [hqueue', queue, hquiet, List.append_nil]
      rcases hawaits hawait with heq | ⟨-, -, hnil⟩
      · rcases hwaiting with hrun | hnil
        · exact .inl (heq ▸ hrun)
        · right
          rw [queue, hquiet, List.append_nil, hqueue] at hnil
          exact (List.append_eq_nil_iff.mp hnil).2
      · exact .inr hnil
    · refine ⟨t, (hother j hji).trans ht, ?_⟩
      rw [hqueue']
      exact hwaiting

theorem Task.take_cases {failsAt : Option ℕ} {db db' : Database} {task task' : Task}
    (h : task.take failsAt db = some (task', db')) :
    ∃ row pending, task.running = true ∧ task.pending = row :: pending ∧
      ((task' = { task with
            pending := pending, batch := [],
            batchTimestamp := row.timestamp + task.batchSize } ∧
          db' = db.addMetricDataBatch (task.batch ++ [row]) failsAt) ∨
        (task' = { task with pending := pending, batch := task.batch ++ [row] } ∧ db' = db)) := by
  unfold Task.take at h
  split at h
  · rename_i row pending hrun hpending
    split at h
    · obtain ⟨rfl, rfl⟩ := Prod.mk.inj (Option.some.inj h)
      exact ⟨row, pending, hrun, hpending, .inl ⟨rfl, rfl⟩⟩
    · obtain ⟨rfl, rfl⟩ := Prod.mk.inj (Option.some.inj h)
      exact ⟨row, pending, hrun, hpending, .inr ⟨rfl, rfl⟩⟩
  · cases h

theorem Sound.take (h : Sound s) {i : ℕ} {failsAt : Option ℕ}
    (hregular : s.Regular syncDays (.take i failsAt))
    (hact : s.act syncDays (.take i failsAt) = some t) : Sound t := by
  obtain rfl : failsAt = none := hregular
  simp only [act] at hact
  obtain ⟨⟨task', db'⟩, hbind, rfl⟩ := Option.map_eq_some_iff.mp hact
  obtain ⟨task, hi, htake⟩ := Option.bind_eq_some_iff.mp hbind
  obtain ⟨row, pending, hrun, hpending, ⟨rfl, rfl⟩ | ⟨rfl, rfl⟩⟩ := Task.take_cases htake
  · have hfeeds : Feeds s.server s.allowed s.db
        ((task.batch ++ [row]) ++ (pending ++ s.arriving i)) := by
      have hqueue := h.feeds i task hi hrun
      rw [queue, hpending] at hqueue
      simpa using hqueue
    obtain ⟨hconsistent, hgrows, hsaved, hrest⟩ := addMetricDataBatch_spec h.consistent hfeeds
    refine h.save _ hi hconsistent hgrows hsaved ?_ ?_ rfl ?_
    · simp [hpending]
    · exact fun _ => ⟨hrun, by simpa using hrest⟩
    · exact fun _ => .inl rfl
  · refine h.save [] hi h.consistent (.refl _) (by simp) ?_ ?_ rfl ?_
    · simp [hpending]
    · have hqueue := h.feeds i task hi hrun
      rw [queue, hpending] at hqueue
      exact fun _ => ⟨hrun, by simpa using hqueue⟩
    · exact fun _ => .inl rfl

/-- The last batch of a download of a single metric is saved when all its rows have arrived. -/
theorem Sound.finish (h : Sound s) {i : ℕ} {failsAt : Option ℕ}
    (hregular : s.Regular syncDays (.finish i failsAt))
    (hact : s.act syncDays (.finish i failsAt) = some t) : Sound t := by
  obtain ⟨rfl, heof⟩ := hregular
  simp only [act] at hact
  obtain ⟨⟨task', db'⟩, hbind, rfl⟩ := Option.map_eq_some_iff.mp hact
  obtain ⟨task, hi, hfinish⟩ := Option.bind_eq_some_iff.mp hbind
  unfold Task.finish at hfinish
  split at hfinish
  · rename_i hrun hpending
    obtain ⟨rfl, rfl⟩ := Prod.mk.inj (Option.some.inj hfinish)
    have hfeeds : Feeds s.server s.allowed s.db (task.batch ++ []) := by
      have hqueue := h.pending hi hrun
      rwa [hpending] at hqueue
    obtain ⟨hconsistent, hgrows, hsaved, -⟩ := addMetricDataBatch_spec h.consistent hfeeds
    refine h.save _ hi hconsistent hgrows hsaved ?_ ?_ rfl ?_
    · simp [hpending]
    · exact fun hfalse => by cases hfalse
    · intro hawait
      have heof' : task.eof = true := heof hawait task hi
      unfold AwaitsOne at hawait
      split at hawait
      · rename_i j answer scan hphase
        subst hawait
        obtain ⟨old, hold, -, hnot⟩ := h.downloading i answer scan hphase
        cases hi.symm.trans hold
        exact absurd (heof'.symm.trans hnot) (by simp)
      · rename_i j scan hphase
        subst hawait
        exact .inr ⟨scan, hphase, by simp [hpending]⟩
      · exact absurd hawait id
  · cases hfinish

/-- A task that ends early is not waited for by the loop. -/
theorem Sound.interruptTask (h : Sound s) {i : ℕ}
    (hregular : s.Regular syncDays (.interruptTask i))
    (hact : s.act syncDays (.interruptTask i) = some t) : Sound t := by
  cases hact
  have hother : ∀ j, j ≠ i → (s.tasks.modify i fun t =>
      { t with pending := [], batch := [], running := false })[j]? = s.tasks[j]? := by
    intro j hj
    rw [List.getElem?_modify]
    simp [Ne.symm hj]
  have hawaits : ∀ j, s.AwaitsOne j → j ≠ i := by
    rintro j hj rfl
    exact hregular hj
  refine ⟨h.consistent, h.begun, ?_, ?_, ?_, ?_⟩
  · intro j task hj hrun
    by_cases hji : j = i
    · subst hji
      dsimp only at hj
      rw [List.getElem?_modify] at hj
      simp only [if_true] at hj
      obtain ⟨old, -, rfl⟩ := Option.map_eq_some_iff.mp hj
      cases hrun
    · exact h.feeds j task ((hother j hji).symm.trans hj) hrun
  · intro scan hphase
    have hscanned := h.scanned scan hphase
    have hawaited : awaited { s with tasks := s.tasks.modify i fun t =>
        { t with pending := [], batch := [], running := false } } = s.awaited := by
      cases hp : s.phase with
      | downloading j answer resume =>
        cases resume with
        | none => simp [awaited, hp]
        | some scan' =>
          simp only [awaited, hp]
          rw [hother j (hawaits j (by simp [AwaitsOne, hp]))]
          refine congrArg (fun f => (s.tasks[j]?.map f).getD []) ?_
          funext task
          simp [queue, arriving, hp]
      | waiting j resume =>
        cases resume with
        | none => simp [awaited, hp]
        | some scan' =>
          simp only [awaited, hp]
          rw [hother j (hawaits j (by simp [AwaitsOne, hp]))]
          refine congrArg (fun f => (s.tasks[j]?.map f).getD []) ?_
          funext task
          simp [queue, arriving, hp]
      | idle | begun | metricsLoaded | scanning => simp [awaited, hp]
    rw [hawaited]
    exact hscanned
  · intro j answer scan hphase
    have hp : s.phase = .downloading j answer (some scan) := hphase
    obtain ⟨task, htask, hrest⟩ := h.downloading j answer scan hp
    exact ⟨task, (hother j (hawaits j (by simp [AwaitsOne, hp]))).trans htask, hrest⟩
  · intro j scan hphase
    have hp : s.phase = .waiting j (some scan) := hphase
    obtain ⟨task, htask, hrest⟩ := h.waiting j scan hp
    exact ⟨task, (hother j (hawaits j (by simp [AwaitsOne, hp]))).trans htask, hrest⟩

theorem Sound.act {a : Action} (h : Sound s) (hregular : s.Regular syncDays a)
    (hact : s.act syncDays a = some t) : Sound t := by
  cases a with
  | createMetric id => exact h.createMetric hact
  | ingest id count => exact h.ingest hact
  | score row => exact h.score hregular hact
  | begin => exact h.begin hact
  | loadAllMetrics answered => exact h.loadAllMetrics hact
  | loadAllData now lowestNow order => exact h.loadAllData hregular hact
  | visit => exact h.visit hregular hact
  | request answer => exact h.request hact
  | deliver => exact h.deliver hact
  | interruptPut => exact absurd hregular id
  | endOfData => exact h.endOfData hact
  | resume => exact h.resume hact
  | interruptWait => exact h.interruptWait hregular hact
  | abort => exact h.abort hact
  | take i failsAt => exact h.take hregular hact
  | finish i failsAt => exact h.finish hregular hact
  | interruptTask i => exact h.interruptTask hregular hact

theorem sound_initial (h : (syncSystem syncDays).init s) : Sound s := by
  obtain ⟨server, db, phase, tasks, begunRows, allowed⟩ := s
  obtain ⟨rfl, rfl, rfl, rfl, rfl⟩ := h
  refine ⟨⟨rfl, List.nodup_nil, ?_, ?_, ?_, ?_⟩, ?_, ?_, ?_, ?_, ?_⟩
  · simp
  · simp
  · simp
  · simp
  · simp
  · simp
  · intro scan hscan
    cases hscan
  · intro i answer scan hphase
    cases hphase
  · intro i scan hphase
    cases hphase

/-! ## No gap -/

/-- The local data have the rows of each local metric, up to its last timestamp, that were on
the server when the last synchronisation began and are not older than the oldest timestamps
allowed. -/
def NoGap (s : State) : Prop :=
  ∀ metric ∈ s.db.metricCache, ∀ row ∈ s.begunRows, row.metricId = metric.id →
    row.timestamp ≤ s.db.getMetricLastTimestamp metric.id → Allowed s.allowed row →
    row ∈ s.db.metricData

theorem Sound.noGap (h : Sound s) : NoGap s := by
  intro metric hmetric row hrow hid hle hallowed
  rw [getMetricLastTimestamp_eq h.consistent.ids_nodup hmetric] at hle
  exact h.consistent.covered metric hmetric row (h.begun row hrow) hid hallowed hle

end State

/-- A run whose steps are all regular leaves no gap in any of its states. -/
theorem no_gap_of_regular {syncDays : ℤ} {tr : List (State × Action)} {s : State}
    (h : Run (syncSystem syncDays) tr s) (hregular : ∀ p ∈ tr, p.1.Regular syncDays p.2) :
    ∀ t ∈ statesOf tr s, t.NoGap :=
  h.forall_states (G := fun s a => s.Regular syncDays a) (I := State.Sound)
    (fun _ hinit => State.sound_initial hinit)
    (fun _ _ _ hsound hgood hact => hsound.act hgood hact) (fun _ hsound => hsound.noGap) hregular

/-- A server with two rows of a metric that do not fit in one batch. -/
def twoRows : State where
  server :=
    { metrics := [("m", 2)]
      rows := [⟨"m", 1, 600000⟩, ⟨"m", 2, 4500000⟩]
      ordered := by decide
      valid := by decide }
  db := ⟨[], [], []⟩
  phase := .idle
  tasks := []
  begunRows := []
  allowed := []

/-- A synchronisation that downloads the two rows; the first batch fails as given. -/
def downloadRows (failsAt : Option ℕ) : List Action :=
  [.begin, .loadAllMetrics true, .loadAllData 9000000 (14 * millisPerDay + 300000) [⟨"m", 2, 0⟩],
    .request [⟨"m", 1, 600000⟩, ⟨"m", 2, 4500000⟩], .deliver, .deliver, .endOfData,
    .take 0 failsAt, .take 0 none, .finish 0 none, .resume]

theorem no_gap_of_regular_download :
    ∃ s, (syncSystem 14).exec (downloadRows none) twoRows = some s ∧ s.NoGap := by
  obtain ⟨s, hs⟩ : ∃ s, (syncSystem 14).exec (downloadRows none) twoRows = some s := ⟨_, rfl⟩
  have hinit : (syncSystem 14).init twoRows := ⟨rfl, rfl, rfl, rfl, rfl⟩
  have hrun : Run (syncSystem 14) ((syncSystem 14).trace (downloadRows none) twoRows) s :=
    (Run.init hinit).exec_trace hs
  have hregular : ∀ p ∈ (syncSystem 14).trace (downloadRows none) twoRows,
      p.1.Regular 14 p.2 := by
    refine List.forall_mem_cons.mpr ⟨trivial, List.forall_mem_cons.mpr ⟨trivial,
      List.forall_mem_cons.mpr ⟨?_, List.forall_mem_cons.mpr ⟨trivial,
      List.forall_mem_cons.mpr ⟨trivial, List.forall_mem_cons.mpr ⟨trivial,
      List.forall_mem_cons.mpr ⟨trivial, List.forall_mem_cons.mpr ⟨rfl,
      List.forall_mem_cons.mpr ⟨rfl, List.forall_mem_cons.mpr ⟨⟨rfl, fun h => absurd h id⟩,
      List.forall_mem_cons.mpr ⟨trivial, List.forall_mem_nil _⟩⟩⟩⟩⟩⟩⟩⟩⟩⟩⟩
    intro metric _ _ row hrow _ _ hle
    have hpos := (twoRows.server.valid row hrow).1
    have hzero : row.timestamp ≤ 0 := hle
    omega
  exact ⟨s, hs, no_gap_of_regular hrun hregular s (by simp [statesOf])⟩

/-- The first of the rows is lost with its batch, and the second is saved. -/
theorem failed_batch_leaves_gap :
    ∃ s, (syncSystem 14).exec (downloadRows (some 0)) twoRows = some s ∧ s.phase = .idle ∧
      ¬ s.NoGap := by
  refine ⟨_, rfl, rfl, fun h => ?_⟩
  have hlost := h ⟨"m", 2, 4500000⟩ (by decide) ⟨"m", 1, 600000⟩ (by decide) rfl (by decide)
    (by unfold Allowed; decide)
  revert hlost
  decide

end NumentaApps.HTMITMobile
