import Mathlib.Algebra.BigOperators.Group.List.Basic
import Mathlib.Algebra.GroupWithZero.Nat
import NumentaApps.AnomalyLikelihood

/-!
# The loop of the anomaly scores

The `while` loop of `updateModelAnomalyScores` iteration by iteration, against whatever the
database returns: the count of the scored rows, the tail that the initialisation reads and
the tail that an iteration reads are of states of the metric that have nothing to do with
each other. The loop ends, raises nothing, and at most one iteration consumes no row.
-/
namespace NumentaApps.AnomalyLikelihood
namespace AnomalyLikelihoodHelper

variable {τ V P : Type} [LinearOrder τ]
variable (helper : AnomalyLikelihoodHelper) (algorithms : LikelihoodAlgorithms τ V P)

/-- `initAnomalyLikelihoodModel` when the metric has changed between its two queries. -/
def initAnomalyLikelihoodModelFrom (m counted tailed : AnomalyMetric τ V P)
    (metricDataRows : List (AnomalyDataRow τ V)) : Except LikelihoodError (Scoring τ V P) :=
  if m.status ≠ .active then .error .metricNotActive
  else if m.anomalyLikelihoodParams.isSome then .error .assertionError
  else
    let numProcessedRows := counted.getProcessedMetricDataCount
    if helper.statisticsMinSampleSize ≤ numProcessedRows + metricDataRows.length then do
      let numToConsume := helper.statisticsMinSampleSize - numProcessedRows
      let consumedSamples := metricDataRows.take numToConsume
      let (anomalyParams, statsSampleCache) ←
        helper.refreshAnomalyParams algorithms tailed none consumedSamples none
      if anomalyParams.isNone then .error .assertionError
      else .ok ⟨anomalyParams, some statsSampleCache, numToConsume, metricDataRows⟩
    else .ok ⟨none, none, metricDataRows.length, metricDataRows⟩

def startScoringFrom (m counted tailed : AnomalyMetric τ V P)
    (metricDataRows : List (AnomalyDataRow τ V)) : Except LikelihoodError (Scoring τ V P) :=
  match m.anomalyLikelihoodParams with
  | none => helper.initAnomalyLikelihoodModelFrom algorithms m counted tailed metricDataRows
  | some anomalyParams => .ok ⟨some anomalyParams, none, 0, metricDataRows⟩

/-- The iterations of the loop with the numbers of rows they consume; the metric is in the
state `database k` when the iteration `k` reads its tail. -/
inductive Iterations (database : ℕ → AnomalyMetric τ V P) (statisticsRefreshInterval : ℕ) :
    ℕ → Scoring τ V P → List ℕ → Scoring τ V P → Prop
  | done {k s} (h : ¬ s.startRowIndex < s.metricDataRows.length) :
      Iterations database statisticsRefreshInterval k s [] s
  | next {k s s₁ s' consumed} (h : s.startRowIndex < s.metricDataRows.length)
      (hchunk : helper.scoreChunk algorithms (database k) statisticsRefreshInterval s = .ok s₁)
      (hrest : Iterations database statisticsRefreshInterval (k + 1) s₁ consumed s') :
      Iterations database statisticsRefreshInterval k s
        ((s₁.startRowIndex - s.startRowIndex) :: consumed) s'

/-- The loop is its iterations. -/
theorem Iterations.scoreChunks_eq {m : AnomalyMetric τ V P} {interval k : ℕ}
    {s s' : Scoring τ V P} {consumed : List ℕ}
    (h : Iterations helper algorithms (fun _ => m) interval k s consumed s') {fuel : ℕ}
    (hfuel : consumed.length ≤ fuel) :
    helper.scoreChunks algorithms m interval fuel s = .ok s' := by
  induction h generalizing fuel with
  | done h => exact helper.scoreChunks_of_le algorithms m interval fuel (Nat.not_lt.mp h)
  | next h hchunk hrest ih =>
    cases fuel with
    | zero => exact absurd hfuel (Nat.not_succ_le_zero _)
    | succ fuel =>
      rw [helper.scoreChunks_of_lt algorithms m interval fuel h, hchunk]
      exact ih (Nat.le_of_succ_le_succ hfuel)

variable {helper}

/-- A scoring that starts has its rows to come, and params if there are any. -/
theorem startScoringFrom_spec {m counted tailed : AnomalyMetric τ V P}
    {rows : List (AnomalyDataRow τ V)} {s : Scoring τ V P}
    (h : helper.startScoringFrom algorithms m counted tailed rows = .ok s) :
    s.metricDataRows = rows ∧ s.startRowIndex ≤ rows.length ∧
      (s.startRowIndex < rows.length → s.anomalyParams.isSome) := by
  rw [startScoringFrom] at h
  split at h
  · rw [initAnomalyLikelihoodModelFrom] at h
    split at h
    · cases h
    split at h
    · cases h
    simp only at h
    split at h
    · rename_i henough
      cases hnew : helper.refreshAnomalyParams algorithms tailed none
        (rows.take (helper.statisticsMinSampleSize - counted.getProcessedMetricDataCount)) none with
      | error e =>
        rw [hnew] at h
        cases h
      | ok r =>
        obtain ⟨q, samples⟩ := r
        rw [hnew] at h
        cases q with
        | none => cases h
        | some q =>
          cases h
          refine ⟨rfl, ?_, fun _ => rfl⟩
          show _ - _ ≤ _
          omega
    · cases h
      exact ⟨rfl, Nat.le_refl _, fun hlt => absurd hlt (Nat.lt_irrefl _)⟩
  · cases h
    exact ⟨rfl, Nat.zero_le _, fun _ => rfl⟩

/-- The iterations from a state with params go through all its rows; one of them is idle
only if the samples cache is not there yet. -/
theorem exists_iterations (hs : helper.Sized) (database : ℕ → AnomalyMetric τ V P) (interval : ℕ)
    {n : ℕ} (k : ℕ) {s : Scoring τ V P} (hn : s.remaining ≤ n)
    (hle : s.startRowIndex ≤ s.metricDataRows.length)
    (hp : s.startRowIndex < s.metricDataRows.length → s.anomalyParams.isSome) :
    ∃ consumed s', Iterations helper algorithms database interval k s consumed s' ∧
      consumed.count 0 ≤ (if s.statsSampleCache.isNone then 1 else 0) ∧
      s.startRowIndex + consumed.sum = s.metricDataRows.length ∧
      s'.startRowIndex = s.metricDataRows.length := by
  induction n generalizing k s with
  | zero =>
    have hend : s.startRowIndex = s.metricDataRows.length := by
      unfold Scoring.remaining at hn
      omega
    exact ⟨[], s, .done (by omega), Nat.zero_le _, hend, hend⟩
  | succ n ih =>
    by_cases hlt : s.startRowIndex < s.metricDataRows.length
    · obtain ⟨p, hsome⟩ := Option.isSome_iff_exists.mp (hp hlt)
      have hrow : s.metricDataRows[s.startRowIndex]? = some s.metricDataRows[s.startRowIndex] :=
        List.getElem?_eq_getElem hlt
      obtain ⟨s₁, hok, hsome₁, hun₁, hless⟩ :=
        helper.scoreChunk_progress algorithms hs (database k) interval hsome hrow
      obtain ⟨s₁', hok', hstart₁, -, hcase⟩ :=
        helper.scoreChunk_spec algorithms hs (database k) interval hsome hrow
      cases hok.symm.trans hok'
      have hlen : s₁.metricDataRows.length = s.metricDataRows.length := by
        simpa using congrArg List.length hun₁
      have hle₁ : s₁.startRowIndex ≤ s₁.metricDataRows.length := by
        rw [hlen, hstart₁]
        exact helper.scoreRun_nextRun_length_le algorithms hlt _ p _
      obtain ⟨consumed, s', hiter, hcount, hsum, hend⟩ :=
        ih (k + 1) (by omega) hle₁ fun _ => hsome₁
      refine ⟨_, s', .next hlt hok hiter, ?_, ?_, hend.trans hlen⟩
      · rw [List.count_cons]
        by_cases hidle : s₁.startRowIndex = s.startRowIndex
        · obtain ⟨hcache, hcache₁⟩ :=
            helper.scoreChunk_idle algorithms hs (database k) interval hsome hrow hok hidle
          obtain ⟨samples, hsamples⟩ := Option.isSome_iff_exists.mp hcache₁
          rw [hsamples] at hcount
          rw [hcache, hidle]
          simpa using hcount
        · have hbusy : s₁.startRowIndex - s.startRowIndex ≠ 0 := by omega
          rw [beq_false_of_ne hbusy]
          refine hcount.trans ?_
          -- The cache that an iteration finds is there after it.
          cases hcache : s.statsSampleCache with
          | none => split <;> simp
          | some samples =>
            rcases hcase with ⟨-, hkept, -⟩ | ⟨hnew, -⟩
            · rw [hkept, hcache]
            · rw [hnew]
              simp
      · rw [List.sum_cons]
        omega
    · have hend : s.startRowIndex = s.metricDataRows.length := by omega
      exact ⟨[], s, .done hlt, Nat.zero_le _, hend, hend⟩

/-- Once the initialisation has returned, the loop raises nothing and ends with all rows
consumed; at most one of its iterations consumes no row. -/
theorem loop_ends (hs : helper.Sized) {m counted tailed : AnomalyMetric τ V P}
    {rows : List (AnomalyDataRow τ V)} {s : Scoring τ V P}
    (hstart : helper.startScoringFrom algorithms m counted tailed rows = .ok s)
    (database : ℕ → AnomalyMetric τ V P) :
    ∃ consumed s', Iterations helper algorithms database
        (helper.getStatisticsRefreshInterval rows.length) 0 s consumed s' ∧
      consumed.count 0 ≤ 1 ∧ s.startRowIndex + consumed.sum = rows.length ∧
      s'.startRowIndex = rows.length := by
  obtain ⟨rfl, hle, hp⟩ := startScoringFrom_spec algorithms hstart
  obtain ⟨consumed, s', hiter, hcount, hsum, hend⟩ := exists_iterations algorithms hs database
    (helper.getStatisticsRefreshInterval s.metricDataRows.length) 0 (Nat.le_refl _) hle hp
  refine ⟨consumed, s', hiter, hcount.trans ?_, hsum, hend⟩
  split <;> omega

/-- A metric whose stored params are far behind the rows of the batch. -/
def staleParamsMetric : AnomalyMetric ℕ ℕ ℕ where
  status := .active
  anomalyLikelihoodParams := some ⟨5, 0⟩
  rows := []
  rowids_nodup := List.nodup_nil

theorem loop_ends_stale_params :
    ∃ consumed s', Iterations ⟨24, 100, 8640⟩ ⟨fun _ _ => 0, fun _ params => (1 / 2, params + 1)⟩
        (fun _ => staleParamsMetric) (getStatisticsRefreshInterval ⟨24, 100, 8640⟩ 1) 0
        ⟨some ⟨5, 0⟩, none, 0, [⟨⟨100, 300, 17⟩, some (1 / 4), some 0, some 0⟩]⟩ consumed s' ∧
      consumed.count 0 ≤ 1 ∧ 0 + consumed.sum = 1 ∧ s'.startRowIndex = 1 := by
  have hs : Sized ⟨24, 100, 8640⟩ := ⟨by decide, by decide⟩
  have hstart : startScoringFrom ⟨24, 100, 8640⟩
      ⟨fun _ _ => 0, fun _ params => (1 / 2, params + 1)⟩ staleParamsMetric staleParamsMetric
      staleParamsMetric [⟨⟨100, 300, 17⟩, some (1 / 4), some 0, some 0⟩] =
      .ok ⟨some ⟨5, 0⟩, none, 0, [⟨⟨100, 300, 17⟩, some (1 / 4), some 0, some 0⟩]⟩ := rfl
  exact loop_ends _ hs hstart _

end AnomalyLikelihoodHelper
end NumentaApps.AnomalyLikelihood
