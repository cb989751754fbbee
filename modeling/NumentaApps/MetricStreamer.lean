import NumentaApps.MetricRepository
import Mathlib.Data.Int.Notation

/-!
# Storing samples with the metric streamer

A streamer filters a batch of samples against the timestamp of the last sample
it knows of, which it caches for each metric, and inserts what passes. The store
runs in a transaction that may abort; the cache is not part of it.
-/
namespace NumentaApps.Runtime
open Repository

structure MetricStreamer (Uid T : Type) where
  tailInputMetricDataTimestamps : Uid → Option T
  lastTailInputMetricDataTimestampsGCTime : ℤ

/-- `_TAIL_INPUT_TIMESTAMP_GC_INTERVAL_SEC`; clock readings are in microseconds. -/
def tailInputTimestampGCInterval : ℤ := 7 * 24 * 60 * 60 * 1000000

/-- Where an attempt of the store transaction is aborted: at the lock of the metric
row, while the tail row is read, while the samples are inserted, or at commit. -/
inductive AbortPoint where
  | atLock | atTailRead | atInsert | atCommit
  deriving DecidableEq, Repr

structure StoreResult (Uid T C V : Type) where
  streamer : MetricStreamer Uid T
  metric : Metric C V
  modelInputRows : Option (List (MetricDataRow T V))
  status : MetricStatus

namespace MetricStreamer

variable {Uid T C V : Type}

def initial (Uid T : Type) : MetricStreamer Uid T := ⟨fun _ => none, 0⟩

def gcDue (now : ℤ) (st : MetricStreamer Uid T) : Prop :=
  now - st.lastTailInputMetricDataTimestampsGCTime > tailInputTimestampGCInterval

instance (now : ℤ) (st : MetricStreamer Uid T) : Decidable (st.gcDue now) :=
  inferInstanceAs (Decidable (_ > _))

def collectGarbage (now : ℤ) (st : MetricStreamer Uid T) : MetricStreamer Uid T :=
  if st.gcDue now then ⟨fun _ => none, now⟩ else st

theorem collectGarbage_of_due {now : ℤ} {st : MetricStreamer Uid T} (h : st.gcDue now) (uid : Uid) :
    (st.collectGarbage now).tailInputMetricDataTimestamps uid = none := by
  simp [collectGarbage, h]

theorem collectGarbage_of_not_due {now : ℤ} {st : MetricStreamer Uid T} (h : ¬ st.gcDue now) :
    st.collectGarbage now = st := by
  simp [collectGarbage, h]

theorem collectGarbage_cases (now : ℤ) (st : MetricStreamer Uid T) (uid : Uid) :
    (st.collectGarbage now).tailInputMetricDataTimestamps uid = none ∨
      (st.collectGarbage now).tailInputMetricDataTimestamps uid =
        st.tailInputMetricDataTimestamps uid := by
  by_cases h : st.gcDue now
  · exact .inl (collectGarbage_of_due h uid)
  · exact .inr (by rw [collectGarbage_of_not_due h])

variable [LinearOrder T] [LinearOrder C]

/-- The samples that are newer than the one before them that passed. -/
def scrubDataSamples : Option T → List (T × V) → List (T × V)
  | _, [] => []
  | none, sample :: data => sample :: scrubDataSamples (some sample.1) data
  | some prev, sample :: data =>
    if sample.1 < prev then scrubDataSamples (some prev) data
    else if sample.1 = prev then scrubDataSamples (some prev) data
    else sample :: scrubDataSamples (some sample.1) data

variable [DecidableEq Uid]

def cacheTail (uid : Uid) (t : T) (st : MetricStreamer Uid T) : MetricStreamer Uid T :=
  { st with
    tailInputMetricDataTimestamps := Function.update st.tailInputMetricDataTimestamps uid (some t) }

def getTailMetricRowTimestamp (col : DatetimeColumn T C) (now : ℤ) (uid : Uid) (m : Metric C V)
    (st : MetricStreamer Uid T) : Option T × MetricStreamer Uid T :=
  let st := st.collectGarbage now
  match st.tailInputMetricDataTimestamps uid with
  | some t => (some t, st)
  | none =>
    match m.rowAt m.lastRowid with
    | some row => (some (col.read row.timestamp), st.cacheTail uid (col.read row.timestamp))
    | none => (none, st)

def storeDataSamples (col : DatetimeColumn T C) (uid : Uid) (data : List (T × V))
    (st : MetricStreamer Uid T) (m : Metric C V) :
    MetricStreamer Uid T × Metric C V × List (MetricDataRow T V) :=
  let (rows, m) := addMetricData col (data.map Prod.swap) m
  match rows.getLast? with
  | some row => (st.cacheTail uid row.timestamp, m, rows)
  | none => (st, m, rows)

/-- One attempt of `storeDataWithRetries` that commits, on the locked metric. -/
def storeData (col : DatetimeColumn T C) (now : ℤ) (uid : Uid) (data : List (T × V))
    (st : MetricStreamer Uid T) (m : Metric C V) : StoreResult Uid T C V :=
  if m.status = .error then ⟨st, m, none, m.status⟩
  else
    let (tail, st) := st.getTailMetricRowTimestamp col now uid m
    let passingSamples := scrubDataSamples tail data
    if passingSamples = [] then ⟨st, m, some [], m.status⟩
    else
      let (st, m', rows) := st.storeDataSamples col uid passingSamples m
      ⟨st, m', some rows, m.status⟩

/-- What an aborted attempt leaves of the streamer; the metric row is rolled back. -/
def abortedAttempt (col : DatetimeColumn T C) (now : ℤ) (uid : Uid) (data : List (T × V))
    (st : MetricStreamer Uid T) (m : Metric C V) : AbortPoint → MetricStreamer Uid T
  | .atLock => st
  | .atTailRead => if m.status = .error then st else st.collectGarbage now
  | .atInsert => if m.status = .error then st else (st.getTailMetricRowTimestamp col now uid m).2
  | .atCommit => (st.storeData col now uid data m).streamer

/-- `storeDataWithRetries`: the attempts that abort, each with its time, and then
the one that commits. -/
def storeDataWithRetries (col : DatetimeColumn T C) (uid : Uid) (data : List (T × V))
    (m : Metric C V) : List (ℤ × AbortPoint) → ℤ → MetricStreamer Uid T → StoreResult Uid T C V
  | [], now, st => st.storeData col now uid data m
  | (t, point) :: aborted, now, st =>
    storeDataWithRetries col uid data m aborted now (st.abortedAttempt col t uid data m point)

/-! ## The scrub -/

theorem scrub_spec (prev : Option T) (data : List (T × V)) :
    ((scrubDataSamples prev data).map Prod.fst).Pairwise (· < ·) ∧
      ∀ x ∈ scrubDataSamples prev data, x ∈ data ∧ ∀ t ∈ prev, t < x.1 := by
  induction data generalizing prev with
  | nil => cases prev <;> simp [scrubDataSamples]
  | cons sample data ih =>
    have hpass : ((sample :: scrubDataSamples (some sample.1) data).map Prod.fst).Pairwise (· < ·) ∧
        ∀ x ∈ sample :: scrubDataSamples (some sample.1) data,
          x ∈ sample :: data ∧ sample.1 ≤ x.1 := by
      obtain ⟨hsorted, hmem⟩ := ih (some sample.1)
      constructor
      · rw [List.map_cons, List.pairwise_cons]
        refine ⟨fun t ht => ?_, hsorted⟩
        obtain ⟨x, hx, rfl⟩ := List.mem_map.mp ht
        exact (hmem x hx).2 _ rfl
      · intro x hx
        rcases List.mem_cons.mp hx with rfl | hx
        · exact ⟨List.mem_cons_self, le_refl _⟩
        · exact ⟨List.mem_cons_of_mem _ (hmem x hx).1, ((hmem x hx).2 _ rfl).le⟩
    cases prev with
    | none => exact ⟨hpass.1, fun x hx => ⟨(hpass.2 x hx).1, by simp⟩⟩
    | some prev =>
      have hreject : ((scrubDataSamples (some prev) data).map Prod.fst).Pairwise (· < ·) ∧
          ∀ x ∈ scrubDataSamples (some prev) data,
            x ∈ sample :: data ∧ ∀ t ∈ some prev, t < x.1 :=
        ⟨(ih (some prev)).1, fun x hx =>
          ⟨List.mem_cons_of_mem _ ((ih (some prev)).2 x hx).1, ((ih (some prev)).2 x hx).2⟩⟩
      unfold scrubDataSamples
      split
      · exact hreject
      split
      · exact hreject
      · rename_i hlt heq
        have hnew : prev < sample.1 := lt_of_le_of_ne (not_lt.mp hlt) (Ne.symm heq)
        refine ⟨hpass.1, fun x hx => ⟨(hpass.2 x hx).1, ?_⟩⟩
        intro t ht
        obtain rfl := Option.mem_some_iff.mp ht
        exact hnew.trans_le (hpass.2 x hx).2

theorem storeDataSamples_eq (col : DatetimeColumn T C) (uid : Uid) (data : List (T × V))
    (x : T × V) (st : MetricStreamer Uid T) (m : Metric C V) :
    st.storeDataSamples col uid (data ++ [x]) m =
      (st.cacheTail uid x.1, (addMetricData col ((data ++ [x]).map Prod.swap) m).2,
        (addMetricData col ((data ++ [x]).map Prod.swap) m).1) := by
  unfold storeDataSamples
  rw [addMetricData_eq]
  simp only [List.map_append, List.map_cons, List.map_nil, rowsAfter_getLast?, Prod.fst_swap,
    Prod.snd_swap]

/-- What a store that commits makes of the metric. -/
theorem storeData_metric (col : DatetimeColumn T C) (now : ℤ) (uid : Uid) (data : List (T × V))
    (st : MetricStreamer Uid T) (m : Metric C V) :
    (st.storeData col now uid data m).metric =
      if m.status = .error then m
      else (addMetricData col ((scrubDataSamples (st.getTailMetricRowTimestamp col now uid m).1
        data).map Prod.swap) m).2 := by
  unfold storeData
  split
  · rfl
  · dsimp only
    split
    · rename_i h
      simp [h, addMetricData_eq]
    · rename_i h
      obtain ⟨rest, x, hx⟩ := (List.eq_nil_or_concat' _).resolve_left h
      rw [hx, storeDataSamples_eq]

theorem storeData_contiguous {col : DatetimeColumn T C} {st : MetricStreamer Uid T} {now : ℤ}
    {uid : Uid} {data : List (T × V)} {m : Metric C V} (h : m.Contiguous) :
    (st.storeData col now uid data m).metric.Contiguous := by
  rw [storeData_metric]
  split
  · exact h
  · exact addMetricData_contiguous h col _

/-- The rows returned for the model are the rows appended, in the status read under
the lock. -/
theorem storeData_spec (col : DatetimeColumn T C) (now : ℤ) (uid : Uid) (data : List (T × V))
    (st : MetricStreamer Uid T) (m : Metric C V) :
    (st.storeData col now uid data m).status = m.status ∧
      (st.storeData col now uid data m).metric.status = m.status ∧
      (st.storeData col now uid data m).metric.rows = m.rows ++
        ((st.storeData col now uid data m).modelInputRows.getD []).map col.keepRow := by
  unfold storeData
  split
  · simp
  · dsimp only
    split
    · simp
    · rename_i h
      obtain ⟨rest, x, hx⟩ := (List.eq_nil_or_concat' _).resolve_left h
      rw [hx, storeDataSamples_eq, addMetricData_eq]
      simp

end MetricStreamer

end NumentaApps.Runtime
