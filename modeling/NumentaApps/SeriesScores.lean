import NumentaApps.InstanceScores
import Mathlib.Order.ConditionallyCompleteLattice.Basic
import Mathlib.Data.Int.ConditionallyCompleteOrder

/-!
# The series of aggregated scores

A series has one entry for each bucket of its window, which ends with that of the last timestamp
of the database. What is read from the cursor has these entries, and older ones after them.
-/
namespace NumentaApps.HTMITDatabase
open MobileCore (AggregationType)

/-! ## What a series is meant to be -/

/-- The score of a group of rows of one metric, negative if all are of the learning period. -/
def metricScore (rows : List MetricData) : ℚ :=
  if maxRowid rows < learningThreshold then
    -maxScore (rows.map fun row => if row.Learning then row.anomalyScore else 0)
  else maxScore (rows.map fun row => if row.Learning then 0 else row.anomalyScore)

namespace Database

/-- What the statements aggregate from the rows of a bucket; none if it has no row. -/
def aggregate (series : Series) (aggregation : AggregationType) (s : Database) (bucket : ℤ) :
    Option ℚ :=
  match series with
  | .ofMetric id =>
    let rows := s.metricData.filter fun row =>
      row.metricId = id ∧ aggregation.bucket row.timestamp = bucket
    if rows = [] then none else some (metricScore rows)
  | .ofInstance id =>
    (s.instanceData.find? fun row => row.key = (aggregation.minutes, id, bucket)).map
      InstanceData.anomalyScore

/-- The last timestamp known to the database; 0 if there is none. -/
def lastTimestamp (s : Database) : ℤ := (s.caches.getMetricCache s.metric).getLastTimestamp

/-- The buckets of a series, in descending order. -/
def window (aggregation : AggregationType) (s : Database) : List ℤ :=
  if s.lastTimestamp = 0 then []
  else (List.range aggregation.size).map
    (expectedTimestamp aggregation (aggregation.bucket s.lastTimestamp))

/-- The buckets of the window that are not after a timestamp, if it is not 0. -/
def windowUpTo (aggregation : AggregationType) (timestamp : ℤ) (s : Database) : List ℤ :=
  (s.window aggregation).filter fun bucket => timestamp = 0 ∨ bucket ≤ timestamp

/-- The newest of them in ascending order, each with what is aggregated from its rows. -/
def expectedScore (series : Series) (aggregation : AggregationType) (timestamp : ℤ) (limit : ℕ)
    (s : Database) : List Entry :=
  ((s.windowUpTo aggregation timestamp).take limit).reverse.map fun bucket =>
    (bucket, s.aggregate series aggregation bucket)

/-- The timestamps of the rows of a series. -/
def timestamps (series : Series) (aggregation : AggregationType) (s : Database) : List ℤ :=
  match series with
  | .ofMetric id => (s.metricData.filter fun row => row.metricId = id).map fun row => row.timestamp
  | .ofInstance id => (s.instanceData.filter fun row =>
      row.aggregation = aggregation.minutes ∧ row.instanceId = id).map InstanceData.timestamp

/-- The rowids of a metric can be read as ints. -/
def RowidsFit (series : Series) (s : Database) : Prop :=
  ∀ row ∈ s.metricData, series = .ofMetric row.metricId → getInt row.rowid = row.rowid

/-- No row is at the end of the last bucket, where the statements still select it. -/
def EndFree (series : Series) (aggregation : AggregationType) (s : Database) : Prop :=
  aggregation.bucket s.lastTimestamp + aggregation.milliseconds ∉ s.timestamps series aggregation

/-- No row is older than the window. -/
def WithinWindow (series : Series) (aggregation : AggregationType) (s : Database) : Prop :=
  ∀ timestamp ∈ s.timestamps series aggregation, ∃ bucket ∈ s.window aggregation,
    bucket ≤ aggregation.bucket timestamp

/-- Every bucket of the window has a row. -/
def FillsWindow (series : Series) (aggregation : AggregationType) (s : Database) : Prop :=
  ∀ bucket ∈ s.window aggregation, ∃ timestamp ∈ s.timestamps series aggregation,
    aggregation.bucket timestamp = bucket

end Database

/-! ## Buckets -/

section Buckets
variable {aggregation : AggregationType} {last timestamp : ℤ}

theorem milliseconds_pos (aggregation : AggregationType) : 0 < aggregation.milliseconds := by
  cases aggregation <;> decide

theorem bucket_bucket (aggregation : AggregationType) (timestamp : ℤ) :
    aggregation.bucket (aggregation.bucket timestamp) = aggregation.bucket timestamp := by
  rw [AggregationType.bucket, AggregationType.bucket,
    Int.mul_tdiv_cancel _ (milliseconds_pos aggregation).ne']

/-- A timestamp is less than an interval after its bucket. -/
theorem lt_bucket_add (aggregation : AggregationType) (timestamp : ℤ) :
    timestamp < aggregation.bucket timestamp + aggregation.milliseconds := by
  have hpos := milliseconds_pos aggregation
  rw [AggregationType.bucket]
  by_cases hsign : 0 ≤ timestamp
  · rw [Int.tdiv_eq_ediv_of_nonneg hsign]
    have hdiv := Int.lt_ediv_add_one_mul_self timestamp hpos
    rw [Int.add_mul, Int.one_mul] at hdiv
    exact hdiv
  · have hneg : -timestamp = (-timestamp).tdiv aggregation.milliseconds * aggregation.milliseconds +
        (-timestamp).tmod aggregation.milliseconds := by
      rw [Int.mul_comm, Int.mul_tdiv_add_tmod]
    have hmod : 0 ≤ (-timestamp).tmod aggregation.milliseconds :=
      Int.tmod_nonneg _ (by omega)
    rw [Int.neg_tdiv, Int.neg_mul] at hneg
    omega

/-- No later bucket has a timestamp before the end of one. -/
theorem bucket_le (hlast : 0 ≤ last)
    (h : timestamp < aggregation.bucket last + aggregation.milliseconds) :
    aggregation.bucket timestamp ≤ aggregation.bucket last := by
  have hpos := milliseconds_pos aggregation
  rw [AggregationType.bucket] at h ⊢
  rw [AggregationType.bucket]
  apply Int.mul_le_mul_of_nonneg_right _ hpos.le
  have hq : 0 ≤ last.tdiv aggregation.milliseconds := Int.tdiv_nonneg hlast hpos.le
  by_cases hsign : 0 ≤ timestamp
  · rw [Int.tdiv_eq_ediv_of_nonneg hsign]
    apply Int.lt_add_one_iff.mp
    apply Int.ediv_lt_of_lt_mul hpos
    rw [Int.add_mul, Int.one_mul]
    exact h
  · have hle : timestamp.tdiv aggregation.milliseconds ≤ 0 := by
      rw [show timestamp = -(-timestamp) by omega, Int.neg_tdiv]
      have hnonneg := Int.tdiv_nonneg (show 0 ≤ -timestamp by omega) hpos.le
      omega
    exact hle.trans hq

theorem exists_expectedTimestamp
    (h : aggregation.bucket timestamp ≤ aggregation.bucket last) :
    ∃ k : ℕ, aggregation.bucket timestamp =
      Database.expectedTimestamp aggregation (aggregation.bucket last) k := by
  have hpos := milliseconds_pos aggregation
  have hle : timestamp.tdiv aggregation.milliseconds ≤ last.tdiv aggregation.milliseconds := by
    rw [AggregationType.bucket, AggregationType.bucket] at h
    exact Int.le_of_mul_le_mul_right h hpos
  obtain ⟨k, hk⟩ := Int.eq_ofNat_of_zero_le (Int.sub_nonneg.mpr hle)
  refine ⟨k, ?_⟩
  rw [Database.expectedTimestamp, AggregationType.bucket, AggregationType.bucket, ← hk,
    Int.mul_comm aggregation.milliseconds, Int.sub_mul]
  omega

theorem expectedTimestamp_strictAnti (aggregation : AggregationType) (last : ℤ) :
    StrictAnti (Database.expectedTimestamp aggregation last) := by
  intro i j hij
  have hmul : aggregation.milliseconds * i < aggregation.milliseconds * j :=
    Int.mul_lt_mul_of_pos_left (by omega) (milliseconds_pos aggregation)
  rw [Database.expectedTimestamp, Database.expectedTimestamp]
  omega

theorem turns_enough (aggregation : AggregationType) (last : ℤ) {i k : ℕ} (h : i ≤ k) :
    k - i ≤ Database.turns aggregation last (Database.expectedTimestamp aggregation last k) i := by
  have hpos := milliseconds_pos aggregation
  rw [Database.turns, Database.expectedTimestamp, Database.expectedTimestamp]
  have hdiff : last - aggregation.milliseconds * i - (last - aggregation.milliseconds * k) =
      ((k : ℤ) - i) * aggregation.milliseconds := by
    rw [Int.sub_mul, Int.mul_comm (k : ℤ), Int.mul_comm (i : ℤ)]
    omega
  rw [hdiff, Int.mul_ediv_cancel _ hpos.ne']
  omega

end Buckets

/-! ## What is read from a cursor -/

section Cursor
variable {aggregation : AggregationType} {last : ℤ} {entries : List CursorRow}

/-- The number of a bucket, counted from the last. -/
def place (aggregation : AggregationType) (last timestamp : ℤ) : ℕ :=
  ((last - timestamp) / aggregation.milliseconds).toNat

theorem place_expectedTimestamp (aggregation : AggregationType) (last : ℤ) (k : ℕ) :
    place aggregation last (Database.expectedTimestamp aggregation last k) = k := by
  have hpos := milliseconds_pos aggregation
  rw [place, Database.expectedTimestamp, Int.sub_sub_self, Int.mul_ediv_cancel_left _ hpos.ne']
  omega

/-- The selected rows, with the numbers of their buckets, in the order of the cursor. -/
def placedRows (aggregation : AggregationType) (last : ℤ) (entries : List CursorRow) :
    List (ℕ × ℚ) :=
  (entries.insertionSort fun a b => b.timestamp ≤ a.timestamp).map fun row =>
    (place aggregation last row.timestamp, row.score)

theorem placedRows_sorted (hnodup : (entries.map CursorRow.timestamp).Nodup)
    (hplaced : ∀ row ∈ entries, ∃ k : ℕ,
      row.timestamp = Database.expectedTimestamp aggregation last k) :
    (placedRows aggregation last entries).Pairwise fun row other => row.1 < other.1 := by
  have hperm := List.perm_insertionSort (fun a b : CursorRow => b.timestamp ≤ a.timestamp) entries
  have hdescending : (entries.insertionSort fun a b => b.timestamp ≤ a.timestamp).Pairwise
      fun a b => b.timestamp ≤ a.timestamp := by
    have : Std.Total fun a b : CursorRow => b.timestamp ≤ a.timestamp :=
      ⟨fun a b => (le_total a.timestamp b.timestamp).symm⟩
    have : IsTrans CursorRow fun a b => b.timestamp ≤ a.timestamp :=
      ⟨fun a b c hab hbc => hbc.trans hab⟩
    exact List.pairwise_insertionSort _ entries
  have hdistinct : (entries.insertionSort fun a b => b.timestamp ≤ a.timestamp).Pairwise
      fun a b => a.timestamp ≠ b.timestamp := by
    have hmap := (hperm.map CursorRow.timestamp).nodup_iff.mpr hnodup
    exact List.pairwise_map.mp hmap
  rw [placedRows, List.pairwise_map]
  apply (hdescending.and hdistinct).imp_of_mem
  intro a b ha hb hab
  obtain ⟨k, hk⟩ := hplaced a (hperm.mem_iff.mp ha)
  obtain ⟨j, hj⟩ := hplaced b (hperm.mem_iff.mp hb)
  rw [hk, hj, place_expectedTimestamp, place_expectedTimestamp]
  apply (expectedTimestamp_strictAnti aggregation last).lt_iff_gt.mp
  rw [← hk, ← hj]
  exact lt_of_le_of_ne hab.1 (Ne.symm hab.2)

/-- Rows of distinct buckets up to the last are merged into the window. -/
theorem merge_entries (hnodup : (entries.map CursorRow.timestamp).Nodup)
    (hplaced : ∀ row ∈ entries, ∃ k : ℕ,
      row.timestamp = Database.expectedTimestamp aggregation last k)
    {score : ℤ → Option ℚ} (hscore : ∀ (k : ℕ) (x : ℚ),
      score (Database.expectedTimestamp aggregation last k) = some x ↔
        ∃ row ∈ entries, row.timestamp = Database.expectedTimestamp aggregation last k ∧
          row.score = x) (size : ℕ) :
    ∃ extra, GapFilling.merge (Database.expectedTimestamp aggregation last)
        (Database.turns aggregation last) size
        ((newest size entries).map fun row => (row.timestamp, row.score)) 0 =
      (((List.range size).map (Database.expectedTimestamp aggregation last)).map fun bucket =>
        (bucket, score bucket)) ++ extra ∧
      ((∀ row ∈ entries, ∃ k < size,
          row.timestamp = Database.expectedTimestamp aggregation last k) ∨
        (∀ k < size, ∃ row ∈ entries,
          row.timestamp = Database.expectedTimestamp aggregation last k) → extra = []) := by
  have hsorted := placedRows_sorted hnodup hplaced
  have hmem : ∀ k x, (k, x) ∈ placedRows aggregation last entries ↔
      ∃ row ∈ entries, row.timestamp = Database.expectedTimestamp aggregation last k ∧
        row.score = x := by
    intro k x
    simp only [placedRows, List.mem_map, List.mem_insertionSort, Prod.mk.injEq]
    constructor
    · rintro ⟨row, hrow, hk, hx⟩
      obtain ⟨j, hj⟩ := hplaced row hrow
      rw [hj, place_expectedTimestamp] at hk
      exact ⟨row, hrow, hk ▸ hj, hx⟩
    · rintro ⟨row, hrow, hk, hx⟩
      exact ⟨row, hrow, by rw [hk, place_expectedTimestamp], hx⟩
  obtain ⟨extra, hmerge, hextra⟩ := GapFilling.merge_take
    (expectedTimestamp_strictAnti aggregation last) (fun i k h => turns_enough aggregation last h)
    hsorted size
  refine ⟨extra, ?_, fun h => hextra ?_⟩
  · have hrows : ((placedRows aggregation last entries).take size).map (fun row =>
        (Database.expectedTimestamp aggregation last row.1, row.2)) =
        (newest size entries).map fun row => (row.timestamp, row.score) := by
      rw [placedRows, ← List.map_take, List.map_map, newest]
      apply List.map_congr_left
      intro row hrow
      obtain ⟨k, hk⟩ := hplaced row ((List.mem_insertionSort _).mp (List.mem_of_mem_take hrow))
      simp only [Function.comp_apply, hk, place_expectedTimestamp]
    rw [← hrows, hmerge, List.map_map]
    congr 1
    apply List.map_congr_left
    intro k _
    simp only [Function.comp_apply, Prod.mk.injEq, true_and]
    apply Option.ext
    intro x
    rw [GapFilling.rowAt_eq_some hsorted, hmem, hscore]
  · rcases h with hwithin | hfull
    · refine Or.inl fun row hrow => ?_
      obtain ⟨entry, hentry, hk, _⟩ := (hmem row.1 row.2).mp hrow
      obtain ⟨k, hlt, hk'⟩ := hwithin entry hentry
      rw [hk'] at hk
      rwa [← (expectedTimestamp_strictAnti aggregation last).injective hk]
    · refine Or.inr fun k hk => ?_
      obtain ⟨entry, hentry, hk'⟩ := hfull k hk
      exact ⟨(k, entry.score), (hmem k entry.score).mpr ⟨entry, hentry, hk', rfl⟩, rfl⟩

end Cursor

/-! ## What is selected for a series -/

namespace Database

/-- The database with the metric cache that a query finds. -/
def loaded (s : Database) : Database := { s with caches := s.caches.getMetricCache s.metric }

/-- The rows of the cursor of a series before they are ordered and limited. -/
def selected (series : Series) (aggregation : AggregationType) (lastTimestamp : ℤ)
    (s : Database) : List CursorRow :=
  match series with
  | .ofMetric id =>
    (GroupedByKey.group (fun row : MetricData => aggregation.bucket row.timestamp)
      (s.metricData.filter fun row =>
        row.metricId = id ∧ row.timestamp ≤ lastTimestamp)).map metricRow
  | .ofInstance id =>
    (s.instanceData.filter fun row => row.aggregation = aggregation.minutes ∧
      row.instanceId = id ∧ row.timestamp ≤ lastTimestamp).map fun row =>
        ⟨row.timestamp, row.anomalyScore, none⟩

/-- The selected rows are those of the buckets that have rows, with their scores. -/
structure Selects (series : Series) (aggregation : AggregationType) (last : ℤ) (s : Database) :
    Prop where
  nodup : ((s.selected series aggregation (last + aggregation.milliseconds)).map
    CursorRow.timestamp).Nodup
  timestamp : ∀ row ∈ s.selected series aggregation (last + aggregation.milliseconds),
    ∃ timestamp ∈ s.timestamps series aggregation,
      timestamp ≤ last + aggregation.milliseconds ∧
        row.timestamp = aggregation.bucket timestamp
  score : ∀ bucket ≤ last, ∀ x, s.aggregate series aggregation bucket = some x ↔
    ∃ row ∈ s.selected series aggregation (last + aggregation.milliseconds),
      row.timestamp = bucket ∧ row.score = x
  covers : ∀ bucket, (∃ timestamp ∈ s.timestamps series aggregation,
    aggregation.bucket timestamp = bucket) → (s.aggregate series aggregation bucket).isSome

end Database

section Selected
variable {s : Database} {id : String} {aggregation : AggregationType} {last : ℤ}

theorem metricRow_score {entry : ℤ × List MetricData} (hne : entry.2 ≠ [])
    (hfit : ∀ row ∈ entry.2, getInt row.rowid = row.rowid) :
    (metricRow entry).score = metricScore entry.2 := by
  have hids : entry.2.map (fun row => row.rowid) ≠ [] := by simpa using hne
  obtain ⟨greatest, hgreatest⟩ := Option.ne_none_iff_exists'.mp (mt List.max?_eq_none_iff.mp hids)
  have hmax : getInt (maxRowid entry.2) = maxRowid entry.2 := by
    obtain ⟨row, hrow, hrowid⟩ := List.mem_map.mp (List.max?_eq_some_iff.mp hgreatest).1
    rw [maxRowid, hgreatest, Option.getD_some, ← hrowid]
    exact hfit row hrow
  rw [CursorRow.score, metricScore]
  simp only [metricRow, hmax]

theorem metric_selects (hfit : s.RowidsFit (.ofMetric id)) :
    s.Selects (.ofMetric id) aggregation last := by
  have hgroup := GroupedByKey.group_isGrouping
    (fun row : MetricData => aggregation.bucket row.timestamp)
    (s.metricData.filter fun row =>
      row.metricId = id ∧ row.timestamp ≤ last + aggregation.milliseconds)
  have hvalues : ∀ bucket ≤ last, (s.metricData.filter fun row =>
      row.metricId = id ∧ row.timestamp ≤ last + aggregation.milliseconds).filter
        (fun row => aggregation.bucket row.timestamp = bucket) =
      s.metricData.filter fun row =>
        row.metricId = id ∧ aggregation.bucket row.timestamp = bucket := by
    intro bucket hbucket
    rw [List.filter_filter]
    apply List.filter_congr
    intro row _
    have hlt := lt_bucket_add aggregation row.timestamp
    by_cases hrow : aggregation.bucket row.timestamp = bucket
    · have hle : row.timestamp ≤ last + aggregation.milliseconds := by omega
      simp [hrow, hle]
    · simp [hrow]
  constructor
  · rw [Database.selected, List.map_map]
    exact hgroup.nodup
  · intro row hrow
    obtain ⟨entry, hentry, rfl⟩ := List.mem_map.mp hrow
    obtain ⟨data, hdata⟩ := List.exists_mem_of_ne_nil _ (hgroup.nonempty entry hentry)
    rw [hgroup.values entry hentry, List.mem_filter, List.mem_filter] at hdata
    simp only [decide_eq_true_eq] at hdata
    obtain ⟨⟨hmem, hid, hle⟩, hkey⟩ := hdata
    refine ⟨data.timestamp, ?_, hle, hkey.symm⟩
    exact List.mem_map.mpr ⟨data, List.mem_filter.mpr ⟨hmem, by simpa using hid⟩, rfl⟩
  · intro bucket hbucket x
    have hscore : ∀ entry ∈ GroupedByKey.group
        (fun row : MetricData => aggregation.bucket row.timestamp)
        (s.metricData.filter fun row =>
          row.metricId = id ∧ row.timestamp ≤ last + aggregation.milliseconds),
        (metricRow entry).score = metricScore entry.2 := by
      intro entry hentry
      apply metricRow_score (hgroup.nonempty entry hentry)
      intro row hrow
      rw [hgroup.values entry hentry, List.mem_filter, List.mem_filter] at hrow
      simp only [decide_eq_true_eq] at hrow
      exact hfit row hrow.1.1 (by rw [hrow.1.2.1])
    rw [Database.aggregate]
    constructor
    · intro h
      by_cases hne : (s.metricData.filter fun row =>
          row.metricId = id ∧ aggregation.bucket row.timestamp = bucket) = []
      · simp only [hne, if_true, reduceCtorEq] at h
      · simp only [hne, if_false, Option.some_inj] at h
        obtain ⟨row, hrow⟩ := List.exists_mem_of_ne_nil _ hne
        rw [← hvalues bucket hbucket] at hrow
        obtain ⟨hdata, hkey⟩ := List.mem_filter.mp hrow
        obtain ⟨entry, hentry, hentryKey⟩ := hgroup.covers row hdata
        have htimestamp : entry.1 = bucket := by
          rw [hentryKey]
          simpa using hkey
        refine ⟨metricRow entry, List.mem_map_of_mem hentry, htimestamp, ?_⟩
        rw [hscore entry hentry, hgroup.values entry hentry, htimestamp, hvalues bucket hbucket, h]
    · rintro ⟨row, hrow, htimestamp, rfl⟩
      obtain ⟨entry, hentry, rfl⟩ := List.mem_map.mp hrow
      have hrows : entry.2 = s.metricData.filter fun row =>
          row.metricId = id ∧ aggregation.bucket row.timestamp = bucket := by
        rw [← hvalues bucket hbucket, hgroup.values entry hentry,
          show entry.1 = bucket from htimestamp]
      have hne := hgroup.nonempty entry hentry
      rw [hscore entry hentry]
      rw [hrows] at hne ⊢
      simp only [hne, if_false]
  · rintro bucket ⟨timestamp, htimestamp, hbucket⟩
    obtain ⟨row, hrow, rfl⟩ := List.mem_map.mp htimestamp
    obtain ⟨hmem, hid⟩ := List.mem_filter.mp hrow
    have hne : (s.metricData.filter fun row =>
        row.metricId = id ∧ aggregation.bucket row.timestamp = bucket) ≠ [] := by
      apply List.ne_nil_of_mem (a := row)
      exact List.mem_filter.mpr ⟨hmem, by simpa [hbucket] using hid⟩
    rw [Database.aggregate]
    simp only [hne, if_false, Option.isSome_some]

theorem instance_selects (hstored : Database.Stored s.instanceData) :
    s.Selects (.ofInstance id) aggregation last := by
  have hkeys : ∀ row ∈ s.instanceData, ∀ other ∈ s.instanceData, row.key = other.key →
      row = other := fun row hrow other hother hkey =>
    List.inj_on_of_nodup_map hstored.nodup hrow hother hkey
  have hfind : ∀ bucket x, s.aggregate (.ofInstance id) aggregation bucket = some x ↔
      ∃ row ∈ s.instanceData, row.key = (aggregation.minutes, id, bucket) ∧
        row.anomalyScore = x := by
    intro bucket x
    rw [Database.aggregate, Option.map_eq_some_iff]
    constructor
    · rintro ⟨row, hfind, hscore⟩
      exact ⟨row, List.mem_of_find?_eq_some hfind, by simpa using List.find?_some hfind, hscore⟩
    · rintro ⟨row, hrow, hkey, hscore⟩
      obtain ⟨found, hfound⟩ : ∃ found, s.instanceData.find? (fun row =>
          row.key = (aggregation.minutes, id, bucket)) = some found := by
        apply Option.isSome_iff_exists.mp
        rw [List.find?_isSome]
        exact ⟨row, hrow, by simpa using hkey⟩
      have hsame : found = row := by
        apply hkeys found (List.mem_of_find?_eq_some hfound) row hrow
        rw [hkey]
        simpa using List.find?_some hfound
      exact ⟨found, hfound, by rw [hsame, hscore]⟩
  constructor
  · rw [Database.selected, List.map_map]
    apply List.Nodup.map_on _ ((List.Nodup.of_map _ hstored.nodup).filter _)
    intro row hrow other hother htimestamp
    obtain ⟨hrow, hkey⟩ := List.mem_filter.mp hrow
    obtain ⟨hother, hkey'⟩ := List.mem_filter.mp hother
    simp only [decide_eq_true_eq] at hkey hkey'
    apply hkeys row hrow other hother
    have htimestamp' : row.timestamp = other.timestamp := htimestamp
    rw [InstanceData.key, InstanceData.key, hkey.1, hkey'.1, hkey.2.1, hkey'.2.1, htimestamp']
  · intro row hrow
    obtain ⟨data, hdata, rfl⟩ := List.mem_map.mp hrow
    obtain ⟨hmem, hkey⟩ := List.mem_filter.mp hdata
    simp only [decide_eq_true_eq] at hkey
    obtain ⟨hminutes, hid, hle⟩ := hkey
    obtain ⟨aggregation', _, hminutes', hbucket⟩ := hstored.bucket data hmem
    obtain rfl : aggregation' = aggregation := minutes_injective (hminutes'.symm.trans hminutes)
    refine ⟨data.timestamp, ?_, hle, hbucket.symm⟩
    exact List.mem_map.mpr ⟨data, List.mem_filter.mpr ⟨hmem, by simp [hminutes, hid]⟩, rfl⟩
  · intro bucket hbucket x
    have hpos := milliseconds_pos aggregation
    rw [hfind]
    constructor
    · rintro ⟨row, hrow, hkey, rfl⟩
      simp only [InstanceData.key, Prod.mk.injEq] at hkey
      obtain ⟨hminutes, hid, rfl⟩ := hkey
      refine ⟨⟨row.timestamp, row.anomalyScore, none⟩, ?_, rfl, rfl⟩
      apply List.mem_map.mpr
      refine ⟨row, List.mem_filter.mpr ⟨hrow, ?_⟩, rfl⟩
      simp only [hminutes, hid, decide_eq_true_eq, true_and]
      omega
    · rintro ⟨row, hrow, htimestamp, rfl⟩
      obtain ⟨data, hdata, rfl⟩ := List.mem_map.mp hrow
      obtain ⟨hmem, hkey⟩ := List.mem_filter.mp hdata
      simp only [decide_eq_true_eq] at hkey
      refine ⟨data, hmem, ?_, rfl⟩
      rw [InstanceData.key, hkey.1, hkey.2.1, show data.timestamp = bucket from htimestamp]
  · rintro bucket ⟨timestamp, htimestamp, hbucket⟩
    obtain ⟨row, hrow, rfl⟩ := List.mem_map.mp htimestamp
    obtain ⟨hmem, hkey⟩ := List.mem_filter.mp hrow
    simp only [decide_eq_true_eq] at hkey
    obtain ⟨aggregation', _, hminutes', hsame⟩ := hstored.bucket row hmem
    obtain rfl : aggregation' = aggregation := minutes_injective (hminutes'.symm.trans hkey.1)
    apply Option.isSome_iff_exists.mpr
    refine ⟨row.anomalyScore, (hfind _ _).mpr ⟨row, hmem, ?_, rfl⟩⟩
    rw [InstanceData.key, hkey.1, hkey.2, ← hbucket, hsame]

end Selected

/-! ## The answer to a query -/

section Answer
variable {s : Database} {series : Series} {aggregation : AggregationType}

theorem foldl_lastTimestamp_le (metrics : List Metric) (start : ℤ) :
    start ≤ metrics.foldl (fun timestamp m =>
      if timestamp < m.lastTimestamp then m.lastTimestamp else timestamp) start := by
  induction metrics generalizing start with
  | nil => exact le_rfl
  | cons m metrics ih =>
    rw [List.foldl_cons]
    apply le_trans _ (ih _)
    split
    · rename_i h
      exact h.le
    · exact le_rfl

theorem lastTimestamp_nonneg (s : Database) : 0 ≤ s.lastTimestamp := foldl_lastTimestamp_le _ 0

theorem selects (hstored : Database.Stored s.instanceData) (hfit : s.RowidsFit series) (last : ℤ) :
    s.Selects series aggregation last := by
  cases series with
  | ofMetric id => exact metric_selects hfit
  | ofInstance id => exact instance_selects hstored

theorem cursor_eq (series : Series) (aggregation : AggregationType) (lastTimestamp : ℤ)
    (s : Database) : s.loaded.cursor series aggregation lastTimestamp =
      newest aggregation.size (s.selected series aggregation lastTimestamp) := by
  cases series <;> rfl

/-- The entries of the window come first. -/
theorem getAggregatedAnomalyScore_eq (hstored : Database.Stored s.instanceData)
    (hfit : s.RowidsFit series) (hend : s.lastTimestamp ≠ 0 → s.EndFree series aggregation) :
    ∃ extra, s.loaded.getAggregatedAnomalyScore series aggregation =
        ((s.window aggregation).map fun bucket =>
          (bucket, s.aggregate series aggregation bucket)) ++ extra ∧
      ((s.lastTimestamp ≠ 0 → s.WithinWindow series aggregation ∨ s.FillsWindow series aggregation) →
        extra = []) := by
  have hlast : s.loaded.caches.getLastTimestamp = s.lastTimestamp := rfl
  rw [Database.getAggregatedAnomalyScore, hlast, Database.window]
  by_cases hzero : s.lastTimestamp = 0
  · rw [if_pos hzero, if_pos hzero]
    exact ⟨[], rfl, fun _ => rfl⟩
  rw [if_neg hzero, if_neg hzero]
  have hselects : s.Selects series aggregation (aggregation.bucket s.lastTimestamp) :=
    selects hstored hfit _
  have hplaced : ∀ row ∈ s.selected series aggregation
      (aggregation.bucket s.lastTimestamp + aggregation.milliseconds), ∃ k : ℕ,
        row.timestamp = Database.expectedTimestamp aggregation
          (aggregation.bucket s.lastTimestamp) k := by
    intro row hrow
    obtain ⟨timestamp, hmem, hle, hbucket⟩ := hselects.timestamp row hrow
    have hne : timestamp ≠ aggregation.bucket s.lastTimestamp + aggregation.milliseconds :=
      fun heq => hend hzero (heq ▸ hmem)
    rw [hbucket]
    exact exists_expectedTimestamp
      (bucket_le (lastTimestamp_nonneg s) (lt_of_le_of_ne hle hne))
  have hbefore : ∀ k : ℕ, Database.expectedTimestamp aggregation
      (aggregation.bucket s.lastTimestamp) k ≤ aggregation.bucket s.lastTimestamp := by
    intro k
    rw [Database.expectedTimestamp]
    have hnonneg := Int.mul_nonneg (milliseconds_pos aggregation).le (Int.natCast_nonneg k)
    omega
  obtain ⟨extra, hmerge, hextra⟩ := merge_entries hselects.nodup hplaced
    (fun k x => hselects.score _ (hbefore k) x) aggregation.size
  refine ⟨extra, ?_, fun h => hextra ?_⟩
  · rw [← hmerge, ← cursor_eq]
  · have hwindow : ∀ bucket, bucket ∈ s.window aggregation ↔ ∃ k < aggregation.size,
        Database.expectedTimestamp aggregation (aggregation.bucket s.lastTimestamp) k = bucket := by
      intro bucket
      rw [Database.window, if_neg hzero]
      simp only [List.mem_map, List.mem_range]
    rcases h hzero with hwithin | hfull
    · refine Or.inl fun row hrow => ?_
      obtain ⟨timestamp, hmem, _, hbucket⟩ := hselects.timestamp row hrow
      obtain ⟨k, hk⟩ := hplaced row hrow
      obtain ⟨bucket, hin, hle⟩ := hwithin timestamp hmem
      obtain ⟨j, hj, rfl⟩ := (hwindow bucket).mp hin
      rw [← hbucket, hk] at hle
      have hkj : k ≤ j := (expectedTimestamp_strictAnti _ _).le_iff_ge.mp hle
      exact ⟨k, by omega, hk⟩
    · refine Or.inr fun k hk => ?_
      obtain ⟨timestamp, hmem, hbucket⟩ := hfull _ ((hwindow _).mpr ⟨k, hk, rfl⟩)
      obtain ⟨x, hx⟩ := Option.isSome_iff_exists.mp
        (hselects.covers _ ⟨timestamp, hmem, hbucket⟩)
      obtain ⟨row, hrow, htimestamp, _⟩ := (hselects.score _ (hbefore k) x).mp hx
      exact ⟨row, hrow, htimestamp⟩

theorem filterResults_eq (timestamp : ℤ) (len : ℕ) (rows results : List Entry) :
    Database.filterResults timestamp len rows results =
      ((rows.filter fun row => ¬ (0 < timestamp ∧ timestamp < row.1)).take len).reverse ++
        results := by
  induction rows generalizing len results with
  | nil => simp [Database.filterResults]
  | cons row rows ih =>
    rw [Database.filterResults]
    by_cases hlen : len = 0
    · simp [hlen]
    rw [if_neg hlen]
    rw [List.filter_cons]
    by_cases hafter : 0 < timestamp ∧ timestamp < row.1
    · rw [if_pos hafter, ih, if_neg (by simp [hafter])]
    · rw [if_neg hafter, ih, if_pos (decide_eq_true hafter)]
      obtain ⟨n, rfl⟩ := Nat.exists_eq_succ_of_ne_zero hlen
      simp

/-- A query that the rows of its series do not lead astray. -/
structure Database.Placed (series : Series) (aggregation : AggregationType) (timestamp : ℤ)
    (limit : ℕ) (s : Database) : Prop where
  nonneg : 0 ≤ timestamp
  fit : s.RowidsFit series
  ends : s.lastTimestamp ≠ 0 → s.EndFree series aggregation
  within : s.lastTimestamp ≠ 0 → s.WithinWindow series aggregation ∨
    s.FillsWindow series aggregation ∨ limit ≤ (s.windowUpTo aggregation timestamp).length

/-- The answer computed afresh. -/
theorem filterResults_expectedScore {timestamp : ℤ} {limit : ℕ}
    (hstored : Database.Stored s.instanceData)
    (h : s.Placed series aggregation timestamp limit) :
    Database.filterResults timestamp limit
        (s.loaded.getAggregatedAnomalyScore series aggregation) [] =
      s.expectedScore series aggregation timestamp limit := by
  obtain ⟨extra, hentries, hextra⟩ := getAggregatedAnomalyScore_eq hstored h.fit h.ends
  have hfilter : ((s.window aggregation).map fun bucket =>
      (bucket, s.aggregate series aggregation bucket)).filter
        (fun row => ¬ (0 < timestamp ∧ timestamp < row.1)) =
      (s.windowUpTo aggregation timestamp).map fun bucket =>
        (bucket, s.aggregate series aggregation bucket) := by
    rw [List.filter_map, Database.windowUpTo]
    congr 1
    apply List.filter_congr
    intro bucket _
    have hnonneg := h.nonneg
    simp only [Function.comp_apply, decide_eq_decide]
    omega
  rw [filterResults_eq, hentries, List.append_nil, List.filter_append, hfilter,
    Database.expectedScore, List.map_reverse]
  congr 1
  by_cases hlimit : limit ≤ (s.windowUpTo aggregation timestamp).length
  · rw [List.take_append_of_le_length (by simpa using hlimit), List.map_take]
  · have hnone : extra = [] := by
      apply hextra
      intro hzero
      rcases h.within hzero with hwithin | hfull | hle
      · exact Or.inl hwithin
      · exact Or.inr hfull
      · exact absurd hle hlimit
    rw [hnone, List.filter_nil, List.append_nil, List.map_take]

end Answer

end NumentaApps.HTMITDatabase
