import Mathlib.Algebra.Order.Ring.Rat
import NumentaApps.MetricRepository

/-!
# The anomaly likelihood helper

`AnomalyLikelihoodHelper`, which scores the rows of an inference result batch with
the metric's anomaly likelihood params and refreshes the params as it goes. The two
functions of the likelihood algorithms are parameters, and the calls that are made of them
are logged. Scores are rationals in place of floats: nothing is done with one but to
subtract it from one and to compare it.
-/
namespace NumentaApps.AnomalyLikelihood
open Repository

structure AnomalyDataRow (τ V : Type) extends MetricDataRow τ V where
  rawAnomalyScore : Option ℚ
  anomalyScore : Option ℚ
  displayValue : Option ℤ
  deriving DecidableEq, Repr

/-- The anomalyLikelihoodParams of a metric's model params. -/
structure AnomalyParams (P : Type) where
  lastRowidForStats : ℕ
  params : P
  deriving DecidableEq, Repr

/-- A metric with the columns that anomaly processing reads and writes; rowid is a key
of its data rows. -/
@[ext] structure AnomalyMetric (τ V P : Type) where
  status : MetricStatus
  anomalyLikelihoodParams : Option (AnomalyParams P)
  rows : List (AnomalyDataRow τ V)
  rowids_nodup : (rows.map (·.rowid)).Nodup
  deriving DecidableEq, Repr

abbrev Sample (τ V : Type) := τ × V × Option ℚ

structure LikelihoodAlgorithms (τ V P : Type) where
  estimateAnomalyLikelihoods : (anomalyScores : List (Sample τ V)) → (skipRecords : ℕ) → P
  updateAnomalyLikelihoods : (anomalyScore : Sample τ V) → (params : P) → ℚ × P

/-- Params that count the updates since the last estimate. -/
def countingAlgorithms : LikelihoodAlgorithms ℕ ℕ ℕ where
  estimateAnomalyLikelihoods _ _ := 0
  updateAnomalyLikelihoods _ params := (1 / 2, params + 1)

/-- The exceptions of the helper; `outOfFuel` stands for a loop that does not end. -/
inductive LikelihoodError where
  | metricNotActive | assertionError | indexError | typeError | outOfFuel
  deriving DecidableEq, Repr

/-- The configuration of the helper. -/
structure AnomalyLikelihoodHelper where
  minStatisticsRefreshInterval : ℕ
  statisticsMinSampleSize : ℕ
  statisticsSampleSize : ℕ
  deriving DecidableEq, Repr

/-- A call of `estimateAnomalyLikelihoods` with the params made of its result, or a call of
`updateAnomalyLikelihoods` with the params that the row is scored with and what it returns. -/
inductive LikelihoodCall (τ V P : Type) where
  | estimate (anomalyScores : List (Sample τ V)) (anomalyParams : AnomalyParams P)
  | update (md : AnomalyDataRow τ V) (anomalyParams : AnomalyParams P) (likelihood : ℚ)
      (params : P)
  deriving DecidableEq, Repr

def numSkipRecords : ℕ := 288

variable {τ V P : Type}

def AnomalyDataRow.sample (row : AnomalyDataRow τ V) : Sample τ V :=
  (row.timestamp, row.metricValue, row.rawAnomalyScore)

def AnomalyDataRow.unscored (row : AnomalyDataRow τ V) : AnomalyDataRow τ V :=
  { row with anomalyScore := none }

namespace AnomalyMetric

/-- The rows with a raw anomaly score. -/
def processedRows (m : AnomalyMetric τ V P) : List (AnomalyDataRow τ V) :=
  m.rows.filter fun r => r.rawAnomalyScore.isSome

def getProcessedMetricDataCount (m : AnomalyMetric τ V P) : ℕ := m.processedRows.length

variable [LinearOrder τ]

def getMetricDataWithRawAnomalyScoresTail (limit : ℕ) (m : AnomalyMetric τ V P) :
    List (AnomalyDataRow τ V) :=
  (m.processedRows.insertionSort fun a b => b.timestamp ≤ a.timestamp).take limit

def tailMetricDataWithRawAnomalyScores (limit : ℕ) (m : AnomalyMetric τ V P) :
    List (AnomalyDataRow τ V) :=
  if limit = 0 then [] else (m.getMetricDataWithRawAnomalyScoresTail limit).reverse

theorem tailMetricDataWithRawAnomalyScores_length (limit : ℕ) (m : AnomalyMetric τ V P) :
    (m.tailMetricDataWithRawAnomalyScores limit).length =
      min limit m.getProcessedMetricDataCount := by
  unfold tailMetricDataWithRawAnomalyScores
  split
  · rename_i h
    simp [h]
  · simp [getMetricDataWithRawAnomalyScoresTail, getProcessedMetricDataCount]

end AnomalyMetric

namespace AnomalyLikelihoodHelper

/-- Sample sizes with which new params can be generated at all. -/
structure Sized (helper : AnomalyLikelihoodHelper) : Prop where
  min_pos : 1 ≤ helper.statisticsMinSampleSize
  min_le : helper.statisticsMinSampleSize ≤ helper.statisticsSampleSize

variable (helper : AnomalyLikelihoodHelper) (algorithms : LikelihoodAlgorithms τ V P)

/-- The tenth of the batch is the truncated product with 0.1. -/
def getStatisticsRefreshInterval (batchSize : ℕ) : ℕ :=
  max helper.minStatisticsRefreshInterval (batchSize / 10)

variable [LinearOrder τ]

/-- The samples cache with the consumed samples at its end; an absent cache is the tail
of the table. -/
def extendCache (m : AnomalyMetric τ V P) (consumedSamples : List (AnomalyDataRow τ V)) :
    Option (List (AnomalyDataRow τ V)) → List (AnomalyDataRow τ V)
  | none => m.tailMetricDataWithRawAnomalyScores
      (helper.statisticsSampleSize - consumedSamples.length) ++ consumedSamples
  | some statsSampleCache => statsSampleCache ++ consumedSamples

/-- The working variables of `updateModelAnomalyScores`. -/
structure Scoring (τ V P : Type) where
  anomalyParams : Option (AnomalyParams P)
  statsSampleCache : Option (List (AnomalyDataRow τ V))
  startRowIndex : ℕ
  metricDataRows : List (AnomalyDataRow τ V)
  deriving DecidableEq, Repr

/-- Where to stop processing rows prior to the next statistics refresh. -/
def endRowID (statisticsRefreshInterval : ℕ) (anomalyParams : AnomalyParams P)
    (statsSampleCache : Option (List (AnomalyDataRow τ V))) (row : AnomalyDataRow τ V) : ℕ :=
  match statsSampleCache with
  | none => anomalyParams.lastRowidForStats + statisticsRefreshInterval
  | some statsSampleCache =>
    if helper.statisticsMinSampleSize ≤ statsSampleCache.length then
      if anomalyParams.lastRowidForStats + statisticsRefreshInterval < row.rowid then row.rowid
      else anomalyParams.lastRowidForStats + statisticsRefreshInterval
    else row.rowid + (helper.statisticsMinSampleSize - statsSampleCache.length - 1)

/-- The last row ID of a run as an index into the rows; a cutoff that precedes them
makes a run of no rows. -/
def limitIndex (endRowID startRowIndex numRows : ℕ) (row : AnomalyDataRow τ V) : ℕ :=
  if endRowID < row.rowid then startRowIndex
  else startRowIndex + min (numRows - startRowIndex) (endRowID + 1 - row.rowid)

/-- The rows to score prior to the next statistics refresh. -/
def nextRun (endRowID : ℕ) (row : AnomalyDataRow τ V) (s : Scoring τ V P) :
    List (AnomalyDataRow τ V) :=
  (s.metricDataRows.drop s.startRowIndex).take
    (limitIndex endRowID s.startRowIndex s.metricDataRows.length row - s.startRowIndex)

/-- The rows of the batch with the consumed samples in their place. -/
def Scoring.rowsWith (consumedSamples : List (AnomalyDataRow τ V)) (s : Scoring τ V P) :
    List (AnomalyDataRow τ V) :=
  s.metricDataRows.take s.startRowIndex ++ consumedSamples ++
    s.metricDataRows.drop (s.startRowIndex + consumedSamples.length)

/-- Whether to refresh the params after a run: it stopped before the end of the rows,
or it reached the cutoff. -/
def refreshesAfter (endRowID startRowIndex numRows : ℕ)
    (consumedSamples : List (AnomalyDataRow τ V)) : Except LikelihoodError Bool :=
  if startRowIndex + consumedSamples.length < numRows then .ok true
  else
    match consumedSamples.getLast? with
    | none => .error .indexError
    | some lastRow => .ok (decide (endRowID ≤ lastRow.rowid))

namespace Logged

def generateAnomalyParams (statsSampleCache : List (AnomalyDataRow τ V))
    (defaultAnomalyParams : Option (AnomalyParams P)) :
    Except LikelihoodError (Option (AnomalyParams P) × List (LikelihoodCall τ V P)) :=
  if statsSampleCache.length < helper.statisticsMinSampleSize then .ok (defaultAnomalyParams, [])
  else
    match statsSampleCache.getLast? with
    | none => .error .indexError
    | some lastRow =>
      let numSamples := min statsSampleCache.length helper.statisticsSampleSize
      let scores := (statsSampleCache.drop (statsSampleCache.length - numSamples)).map (·.sample)
      if scores.length < helper.statisticsMinSampleSize then .error .assertionError
      else if helper.statisticsSampleSize < scores.length then .error .assertionError
      else
        let params := algorithms.estimateAnomalyLikelihoods scores numSkipRecords
        .ok (some ⟨lastRow.rowid, params⟩, [.estimate scores ⟨lastRow.rowid, params⟩])

/-- Score the rows of a run, down to a score that forces a refresh of the params. -/
def scoreRun (statsSampleCache : Option (List (AnomalyDataRow τ V))) (numConsumed : ℕ) :
    AnomalyParams P → List (AnomalyDataRow τ V) →
      AnomalyParams P × List (AnomalyDataRow τ V) × List (LikelihoodCall τ V P)
  | anomalyParams, [] => (anomalyParams, [], [])
  | anomalyParams, md :: rows =>
    let (likelihood, params) := algorithms.updateAnomalyLikelihoods md.sample anomalyParams.params
    let call := LikelihoodCall.update md anomalyParams likelihood params
    let anomalyScore := 1.0 - likelihood
    let anomalyParams := { anomalyParams with params := params }
    let md := { md with anomalyScore := some anomalyScore }
    if anomalyScore > 0.99 ∧ anomalyParams.lastRowidForStats + 3 < md.rowid ∧
        ∀ samples ∈ statsSampleCache,
          helper.statisticsMinSampleSize ≤ samples.length + (numConsumed + 1) then
      (anomalyParams, [md], [call])
    else
      let (anomalyParams, consumedSamples, calls) :=
        scoreRun statsSampleCache (numConsumed + 1) anomalyParams rows
      (anomalyParams, md :: consumedSamples, call :: calls)

def refreshAnomalyParams (m : AnomalyMetric τ V P)
    (statsSampleCache : Option (List (AnomalyDataRow τ V)))
    (consumedSamples : List (AnomalyDataRow τ V))
    (defaultAnomalyParams : Option (AnomalyParams P)) :
    Except LikelihoodError
      (Option (AnomalyParams P) × List (AnomalyDataRow τ V) × List (LikelihoodCall τ V P)) := do
  let statsSampleCache := helper.extendCache m consumedSamples statsSampleCache
  let (anomalyParams, calls) ←
    generateAnomalyParams helper algorithms statsSampleCache defaultAnomalyParams
  pure (anomalyParams, statsSampleCache, calls)

def initAnomalyLikelihoodModel (m : AnomalyMetric τ V P)
    (metricDataRows : List (AnomalyDataRow τ V)) :
    Except LikelihoodError (Scoring τ V P × List (LikelihoodCall τ V P)) :=
  if m.status ≠ .active then .error .metricNotActive
  else if m.anomalyLikelihoodParams.isSome then .error .assertionError
  else
    let numProcessedRows := m.getProcessedMetricDataCount
    if helper.statisticsMinSampleSize ≤ numProcessedRows + metricDataRows.length then do
      let numToConsume := helper.statisticsMinSampleSize - numProcessedRows
      let consumedSamples := metricDataRows.take numToConsume
      let (anomalyParams, statsSampleCache, calls) ←
        refreshAnomalyParams helper algorithms m none consumedSamples none
      if anomalyParams.isNone then .error .assertionError
      else .ok (⟨anomalyParams, some statsSampleCache, numToConsume, metricDataRows⟩, calls)
    else .ok (⟨none, none, metricDataRows.length, metricDataRows⟩, [])

/-- The body of the while loop. -/
def scoreChunk (m : AnomalyMetric τ V P) (statisticsRefreshInterval : ℕ) (s : Scoring τ V P) :
    Except LikelihoodError (Scoring τ V P × List (LikelihoodCall τ V P)) :=
  match s.anomalyParams, s.metricDataRows[s.startRowIndex]? with
  | none, _ => .error .typeError
  | some _, none => .error .indexError
  | some anomalyParams, some row => do
    let endRowID :=
      helper.endRowID statisticsRefreshInterval anomalyParams s.statsSampleCache row
    let (anomalyParams, consumedSamples, calls) :=
      scoreRun helper algorithms s.statsSampleCache 0 anomalyParams (nextRun endRowID row s)
    let startRowIndex := s.startRowIndex + consumedSamples.length
    let metricDataRows := s.rowsWith consumedSamples
    let refreshes ←
      refreshesAfter endRowID s.startRowIndex s.metricDataRows.length consumedSamples
    if refreshes then
      let (anomalyParams, statsSampleCache, refreshCalls) ←
        refreshAnomalyParams helper algorithms m s.statsSampleCache consumedSamples anomalyParams
      pure (⟨anomalyParams, some statsSampleCache, startRowIndex, metricDataRows⟩,
        calls ++ refreshCalls)
    else pure (⟨anomalyParams, s.statsSampleCache, startRowIndex, metricDataRows⟩, calls)

/-- The while loop. -/
def scoreChunks (m : AnomalyMetric τ V P) (statisticsRefreshInterval : ℕ) :
    ℕ → Scoring τ V P → Except LikelihoodError (Scoring τ V P × List (LikelihoodCall τ V P))
  | fuel, s =>
    if s.startRowIndex < s.metricDataRows.length then
      match fuel with
      | 0 => .error .outOfFuel
      | fuel + 1 => do
        let (s, calls) ← scoreChunk helper algorithms m statisticsRefreshInterval s
        let (s, laterCalls) ← scoreChunks m statisticsRefreshInterval fuel s
        pure (s, calls ++ laterCalls)
    else .ok (s, [])

def startScoring (m : AnomalyMetric τ V P) (metricDataRows : List (AnomalyDataRow τ V)) :
    Except LikelihoodError (Scoring τ V P × List (LikelihoodCall τ V P)) :=
  match m.anomalyLikelihoodParams with
  | none => initAnomalyLikelihoodModel helper algorithms m metricDataRows
  | some anomalyParams => .ok (⟨some anomalyParams, none, 0, metricDataRows⟩, [])

/-- The new params of the metric, the given rows with their anomaly scores, and the calls
in the order they are made in. -/
def updateModelAnomalyScores (m : AnomalyMetric τ V P)
    (metricDataRows : List (AnomalyDataRow τ V)) :
    Except LikelihoodError ((Option (AnomalyParams P) × List (AnomalyDataRow τ V)) ×
      List (LikelihoodCall τ V P)) :=
  if m.status ≠ .active then .error .metricNotActive
  else do
    let (s, calls) ← startScoring helper algorithms m metricDataRows
    let (s, laterCalls) ← scoreChunks helper algorithms m
      (helper.getStatisticsRefreshInterval metricDataRows.length) (2 * metricDataRows.length + 1) s
    pure ((s.anomalyParams, s.metricDataRows), calls ++ laterCalls)

end Logged

/-! ## Without the log -/

def generateAnomalyParams (statsSampleCache : List (AnomalyDataRow τ V))
    (defaultAnomalyParams : Option (AnomalyParams P)) :
    Except LikelihoodError (Option (AnomalyParams P)) :=
  (Logged.generateAnomalyParams helper algorithms statsSampleCache defaultAnomalyParams).map Prod.fst

def refreshAnomalyParams (m : AnomalyMetric τ V P)
    (statsSampleCache : Option (List (AnomalyDataRow τ V)))
    (consumedSamples : List (AnomalyDataRow τ V))
    (defaultAnomalyParams : Option (AnomalyParams P)) :
    Except LikelihoodError (Option (AnomalyParams P) × List (AnomalyDataRow τ V)) :=
  (Logged.refreshAnomalyParams helper algorithms m statsSampleCache consumedSamples
    defaultAnomalyParams).map fun r => (r.1, r.2.1)

def scoreRun (statsSampleCache : Option (List (AnomalyDataRow τ V))) (numConsumed : ℕ)
    (anomalyParams : AnomalyParams P) (rows : List (AnomalyDataRow τ V)) :
    AnomalyParams P × List (AnomalyDataRow τ V) :=
  let r := Logged.scoreRun helper algorithms statsSampleCache numConsumed anomalyParams rows
  (r.1, r.2.1)

def scoreChunk (m : AnomalyMetric τ V P) (statisticsRefreshInterval : ℕ) (s : Scoring τ V P) :
    Except LikelihoodError (Scoring τ V P) :=
  (Logged.scoreChunk helper algorithms m statisticsRefreshInterval s).map Prod.fst

def scoreChunks (m : AnomalyMetric τ V P) (statisticsRefreshInterval fuel : ℕ) (s : Scoring τ V P) :
    Except LikelihoodError (Scoring τ V P) :=
  (Logged.scoreChunks helper algorithms m statisticsRefreshInterval fuel s).map Prod.fst

def startScoring (m : AnomalyMetric τ V P) (metricDataRows : List (AnomalyDataRow τ V)) :
    Except LikelihoodError (Scoring τ V P) :=
  (Logged.startScoring helper algorithms m metricDataRows).map Prod.fst

def updateModelAnomalyScores (m : AnomalyMetric τ V P)
    (metricDataRows : List (AnomalyDataRow τ V)) :
    Except LikelihoodError (Option (AnomalyParams P) × List (AnomalyDataRow τ V)) :=
  (Logged.updateModelAnomalyScores helper algorithms m metricDataRows).map Prod.fst

/-! ## Refreshing the params -/

section

variable {helper}

omit [LinearOrder τ] in
theorem generateAnomalyParams_of_lt {samples : List (AnomalyDataRow τ V)}
    (h : samples.length < helper.statisticsMinSampleSize)
    (defaultAnomalyParams : Option (AnomalyParams P)) :
    helper.generateAnomalyParams algorithms samples defaultAnomalyParams =
      .ok defaultAnomalyParams := by
  rw [generateAnomalyParams, Logged.generateAnomalyParams, if_pos h]
  rfl

omit [LinearOrder τ] in
/-- With enough samples no assertion fails: the params are made of the last ones. -/
theorem generateAnomalyParams_of_le (hs : helper.Sized) {samples : List (AnomalyDataRow τ V)}
    {lastRow : AnomalyDataRow τ V} (h : helper.statisticsMinSampleSize ≤ samples.length)
    (hl : samples.getLast? = some lastRow) (defaultAnomalyParams : Option (AnomalyParams P)) :
    helper.generateAnomalyParams algorithms samples defaultAnomalyParams =
      .ok (some ⟨lastRow.rowid, algorithms.estimateAnomalyLikelihoods
        ((samples.drop (samples.length - min samples.length helper.statisticsSampleSize)).map
          (·.sample)) numSkipRecords⟩) := by
  have hmin := hs.min_le
  have hlen : ((samples.drop (samples.length -
      min samples.length helper.statisticsSampleSize)).map (·.sample)).length =
      min samples.length helper.statisticsSampleSize := by
    rw [List.length_map, List.length_drop]
    omega
  rw [generateAnomalyParams, Logged.generateAnomalyParams, if_neg (by omega), hl]
  simp only [hlen]
  rw [if_neg (by omega), if_neg (by omega)]
  rfl

omit [LinearOrder τ] in
theorem generateAnomalyParams_cases (hs : helper.Sized) (samples : List (AnomalyDataRow τ V))
    (defaultAnomalyParams : Option (AnomalyParams P)) :
    (samples.length < helper.statisticsMinSampleSize ∧
      helper.generateAnomalyParams algorithms samples defaultAnomalyParams =
        .ok defaultAnomalyParams) ∨
    (helper.statisticsMinSampleSize ≤ samples.length ∧ ∃ lastRow scores,
      samples.getLast? = some lastRow ∧
      helper.generateAnomalyParams algorithms samples defaultAnomalyParams =
        .ok (some ⟨lastRow.rowid,
          algorithms.estimateAnomalyLikelihoods scores numSkipRecords⟩)) := by
  by_cases h : samples.length < helper.statisticsMinSampleSize
  · exact .inl ⟨h, generateAnomalyParams_of_lt algorithms h _⟩
  · have hpos := hs.min_pos
    cases hl : samples.getLast? with
    | none =>
      rw [List.getLast?_eq_none_iff.mp hl] at h
      simp at h
      omega
    | some lastRow =>
      exact .inr ⟨by omega, lastRow, _, rfl,
        generateAnomalyParams_of_le algorithms hs (by omega) hl _⟩

theorem refreshAnomalyParams_eq (m : AnomalyMetric τ V P)
    (cache : Option (List (AnomalyDataRow τ V))) (consumed : List (AnomalyDataRow τ V))
    (defaultAnomalyParams : Option (AnomalyParams P)) :
    helper.refreshAnomalyParams algorithms m cache consumed defaultAnomalyParams =
      (helper.generateAnomalyParams algorithms (helper.extendCache m consumed cache)
        defaultAnomalyParams).map fun p => (p, helper.extendCache m consumed cache) := by
  simp only [refreshAnomalyParams, Logged.refreshAnomalyParams, generateAnomalyParams]
  cases Logged.generateAnomalyParams helper algorithms (helper.extendCache m consumed cache)
    defaultAnomalyParams with
  | error e => rfl
  | ok r => rfl

/-- A refresh extends the cache and, with enough samples in it, replaces the params. -/
theorem refreshAnomalyParams_cases (hs : helper.Sized) (m : AnomalyMetric τ V P)
    (cache : Option (List (AnomalyDataRow τ V))) (consumed : List (AnomalyDataRow τ V))
    (defaultAnomalyParams : Option (AnomalyParams P)) :
    let samples := helper.extendCache m consumed cache
    (samples.length < helper.statisticsMinSampleSize ∧
      helper.refreshAnomalyParams algorithms m cache consumed defaultAnomalyParams =
        .ok (defaultAnomalyParams, samples)) ∨
    (helper.statisticsMinSampleSize ≤ samples.length ∧ ∃ lastRow scores,
      samples.getLast? = some lastRow ∧
      helper.refreshAnomalyParams algorithms m cache consumed defaultAnomalyParams =
        .ok (some ⟨lastRow.rowid,
          algorithms.estimateAnomalyLikelihoods scores numSkipRecords⟩, samples)) := by
  intro samples
  rcases generateAnomalyParams_cases algorithms hs samples defaultAnomalyParams with
    ⟨hlt, hgen⟩ | ⟨hle, lastRow, scores, hlast, hgen⟩
  · refine .inl ⟨hlt, ?_⟩
    rw [refreshAnomalyParams_eq, hgen]
    rfl
  · refine .inr ⟨hle, lastRow, scores, hlast, ?_⟩
    rw [refreshAnomalyParams_eq, hgen]
    rfl

theorem extendCache_length_none (m : AnomalyMetric τ V P)
    (consumed : List (AnomalyDataRow τ V)) :
    (helper.extendCache m consumed none).length =
      min (helper.statisticsSampleSize - consumed.length) m.getProcessedMetricDataCount +
        consumed.length := by
  rw [extendCache, List.length_append, AnomalyMetric.tailMetricDataWithRawAnomalyScores_length]

theorem extendCache_length_some (m : AnomalyMetric τ V P)
    (samples consumed : List (AnomalyDataRow τ V)) :
    (helper.extendCache m consumed (some samples)).length =
      samples.length + consumed.length := by
  rw [extendCache, List.length_append]

/-- The consumed samples are the last ones of the cache. -/
theorem extendCache_getLast? (m : AnomalyMetric τ V P) {consumed : List (AnomalyDataRow τ V)}
    {lastRow : AnomalyDataRow τ V} (h : consumed.getLast? = some lastRow)
    (cache : Option (List (AnomalyDataRow τ V))) :
    (helper.extendCache m consumed cache).getLast? = some lastRow := by
  cases cache with
  | none => rw [extendCache, List.getLast?_append, h, Option.some_or]
  | some samples => rw [extendCache, List.getLast?_append, h, Option.some_or]

end

/-! ## Scoring a run -/

section

omit [LinearOrder τ] in
@[simp] theorem scoreRun_nil (cache : Option (List (AnomalyDataRow τ V))) (k : ℕ)
    (p : AnomalyParams P) : helper.scoreRun algorithms cache k p [] = (p, []) := rfl

omit [LinearOrder τ] in
/-- The first row of a run is scored with the params that the run starts from. -/
theorem scoreRun_cons (cache : Option (List (AnomalyDataRow τ V))) (k : ℕ)
    (p : AnomalyParams P) (md : AnomalyDataRow τ V) (rows : List (AnomalyDataRow τ V)) :
    let u := algorithms.updateAnomalyLikelihoods md.sample p.params
    let md' := { md with anomalyScore := some (1.0 - u.1) }
    let p' := { p with params := u.2 }
    (helper.scoreRun algorithms cache k p (md :: rows) = (p', [md']) ∧
      0.99 < 1.0 - u.1 ∧ p.lastRowidForStats + 3 < md.rowid ∧
      ∀ samples ∈ cache, helper.statisticsMinSampleSize ≤ samples.length + (k + 1)) ∨
    helper.scoreRun algorithms cache k p (md :: rows) =
      ((helper.scoreRun algorithms cache (k + 1) p' rows).1,
        md' :: (helper.scoreRun algorithms cache (k + 1) p' rows).2) := by
  intro u md' p'
  simp only [scoreRun, Logged.scoreRun]
  split
  · rename_i h
    exact .inl ⟨rfl, h⟩
  · exact .inr rfl

omit [LinearOrder τ] in
theorem scoreRun_lastRowidForStats (cache : Option (List (AnomalyDataRow τ V))) (k : ℕ)
    (p : AnomalyParams P) (rows : List (AnomalyDataRow τ V)) :
    (helper.scoreRun algorithms cache k p rows).1.lastRowidForStats = p.lastRowidForStats := by
  induction rows generalizing k p with
  | nil => rfl
  | cons md rows ih =>
    rcases helper.scoreRun_cons algorithms cache k p md rows with ⟨h, -⟩ | h
    · rw [h]
    · rw [h, ih]

omit [LinearOrder τ] in
/-- The consumed rows are the first ones of the run, with an anomaly score. -/
theorem scoreRun_unscored (cache : Option (List (AnomalyDataRow τ V))) (k : ℕ)
    (p : AnomalyParams P) (rows : List (AnomalyDataRow τ V)) :
    ∃ rest, rows.map (·.unscored) =
      (helper.scoreRun algorithms cache k p rows).2.map (·.unscored) ++ rest := by
  induction rows generalizing k p with
  | nil => exact ⟨[], rfl⟩
  | cons md rows ih =>
    rcases helper.scoreRun_cons algorithms cache k p md rows with ⟨h, -⟩ | h
    · rw [h]
      exact ⟨rows.map (·.unscored), rfl⟩
    · rw [h]
      obtain ⟨rest, hrest⟩ := ih (k + 1)
        { p with params := (algorithms.updateAnomalyLikelihoods md.sample p.params).2 }
      refine ⟨rest, ?_⟩
      rw [List.map_cons, hrest]
      rfl

omit [LinearOrder τ] in
theorem scoreRun_length_le (cache : Option (List (AnomalyDataRow τ V))) (k : ℕ)
    (p : AnomalyParams P) (rows : List (AnomalyDataRow τ V)) :
    (helper.scoreRun algorithms cache k p rows).2.length ≤ rows.length := by
  obtain ⟨rest, hrest⟩ := helper.scoreRun_unscored algorithms cache k p rows
  have hlen := congrArg List.length hrest
  simp only [List.length_map, List.length_append] at hlen
  omega

omit [LinearOrder τ] in
theorem scoreRun_ne_nil (cache : Option (List (AnomalyDataRow τ V))) (k : ℕ)
    (p : AnomalyParams P) {rows : List (AnomalyDataRow τ V)} (h : rows ≠ []) :
    (helper.scoreRun algorithms cache k p rows).2 ≠ [] := by
  cases rows with
  | nil => exact absurd rfl h
  | cons md rows =>
    rcases helper.scoreRun_cons algorithms cache k p md rows with ⟨h, -⟩ | h
    · simp [h]
    · simp [h]

omit [LinearOrder τ] in
/-- A run that stops before its end has found enough samples for a refresh. -/
theorem scoreRun_stop (cache : Option (List (AnomalyDataRow τ V))) (k : ℕ)
    (p : AnomalyParams P) (rows : List (AnomalyDataRow τ V)) :
    (helper.scoreRun algorithms cache k p rows).2.length = rows.length ∨
    ∀ samples ∈ cache, helper.statisticsMinSampleSize ≤
      samples.length + (k + (helper.scoreRun algorithms cache k p rows).2.length) := by
  induction rows generalizing k p with
  | nil => exact .inl rfl
  | cons md rows ih =>
    rcases helper.scoreRun_cons algorithms cache k p md rows with ⟨h, -, -, hmin⟩ | h
    · rw [h]
      exact .inr hmin
    · rw [h]
      rcases ih (k + 1) { p with
        params := (algorithms.updateAnomalyLikelihoods md.sample p.params).2 } with hl | hmin
      · exact .inl (by simp [hl])
      · right
        intro samples hs
        have hle := hmin samples hs
        simp only [List.length_cons]
        omega

end

/-! ## The body of the loop -/

section

omit [LinearOrder τ] in
theorem nextRun_length (e : ℕ) (row : AnomalyDataRow τ V) (s : Scoring τ V P) :
    (nextRun e row s).length = if e < row.rowid then 0 else
      min (s.metricDataRows.length - s.startRowIndex) (e + 1 - row.rowid) := by
  unfold nextRun limitIndex
  rw [List.length_take, List.length_drop]
  split <;> omega

omit [LinearOrder τ] in
theorem nextRun_of_lt {e : ℕ} {row : AnomalyDataRow τ V} (h : e < row.rowid)
    (s : Scoring τ V P) : nextRun e row s = [] := by
  apply List.length_eq_zero_iff.mp
  rw [nextRun_length, if_pos h]

omit [LinearOrder τ] in
/-- Up to a cutoff that does not precede it, a run starts with the next row. -/
theorem nextRun_of_le {e : ℕ} {row : AnomalyDataRow τ V} (h : row.rowid ≤ e)
    {s : Scoring τ V P} (hrow : s.metricDataRows[s.startRowIndex]? = some row) :
    ∃ rows, nextRun e row s = row :: rows := by
  obtain ⟨hlt, hget⟩ := List.getElem?_eq_some_iff.mp hrow
  have hdrop : s.metricDataRows.drop s.startRowIndex =
      row :: s.metricDataRows.drop (s.startRowIndex + 1) := by
    rw [List.drop_eq_getElem_cons hlt, hget]
  have hlen := nextRun_length e row s
  rw [if_neg (by omega)] at hlen
  unfold nextRun at hlen ⊢
  rw [hdrop] at hlen ⊢
  cases hk : limitIndex e s.startRowIndex s.metricDataRows.length row - s.startRowIndex with
  | zero =>
    rw [hk, List.take_zero, List.length_nil] at hlen
    omega
  | succ k => exact ⟨_, rfl⟩

omit [LinearOrder τ] in
/-- With a samples cache the cutoff never precedes the next row. -/
theorem le_endRowID_some (interval : ℕ) (p : AnomalyParams P)
    (samples : List (AnomalyDataRow τ V)) (row : AnomalyDataRow τ V) :
    row.rowid ≤ helper.endRowID interval p (some samples) row := by
  simp only [endRowID]
  split
  · split <;> omega
  · omega

omit [LinearOrder τ] in
theorem refreshesAfter_cases {e start n : ℕ} {consumed : List (AnomalyDataRow τ V)}
    (hn : start + consumed.length ≤ n) (hlt : start < n) :
    (refreshesAfter e start n consumed = .ok true ∧ (start + consumed.length < n ∨
      ∃ lastRow, consumed.getLast? = some lastRow ∧ e ≤ lastRow.rowid)) ∨
    (refreshesAfter e start n consumed = .ok false ∧ start + consumed.length = n ∧
      ∃ lastRow, consumed.getLast? = some lastRow ∧ lastRow.rowid < e) := by
  unfold refreshesAfter
  split
  · rename_i h
    exact .inl ⟨rfl, .inl h⟩
  · rename_i h
    cases hl : consumed.getLast? with
    | none =>
      rw [List.getLast?_eq_none_iff.mp hl] at h
      exact absurd hlt h
    | some lastRow =>
      by_cases he : e ≤ lastRow.rowid
      · exact .inl ⟨by simp [he], .inr ⟨lastRow, rfl, he⟩⟩
      · exact .inr ⟨by simp [he], by omega, lastRow, rfl, by omega⟩

omit [LinearOrder τ] in
theorem scoreRun_nextRun_length_le {s : Scoring τ V P}
    (hlt : s.startRowIndex < s.metricDataRows.length)
    (e : ℕ) (p : AnomalyParams P) (row : AnomalyDataRow τ V) :
    s.startRowIndex +
      (helper.scoreRun algorithms s.statsSampleCache 0 p (nextRun e row s)).2.length ≤
        s.metricDataRows.length := by
  have hr := helper.scoreRun_length_le algorithms s.statsSampleCache 0 p (nextRun e row s)
  rw [nextRun_length] at hr
  split at hr
  · omega
  · omega

/-- What the loop body does: it scores the next run and either ends the batch short of
the cutoff, or refreshes the params as far as there are samples for it. -/
theorem scoreChunk_spec (hs : helper.Sized) (m : AnomalyMetric τ V P) (interval : ℕ)
    {s : Scoring τ V P} {p : AnomalyParams P} {row : AnomalyDataRow τ V}
    (hp : s.anomalyParams = some p) (hrow : s.metricDataRows[s.startRowIndex]? = some row) :
    let e := helper.endRowID interval p s.statsSampleCache row
    let r := helper.scoreRun algorithms s.statsSampleCache 0 p (nextRun e row s)
    let samples := helper.extendCache m r.2 s.statsSampleCache
    ∃ s', helper.scoreChunk algorithms m interval s = .ok s' ∧
      s'.startRowIndex = s.startRowIndex + r.2.length ∧
      s'.metricDataRows = s.rowsWith r.2 ∧
      ((s'.anomalyParams = some r.1 ∧ s'.statsSampleCache = s.statsSampleCache ∧
          s.startRowIndex + r.2.length = s.metricDataRows.length ∧
          ∃ lastRow, r.2.getLast? = some lastRow ∧ lastRow.rowid < e) ∨
        (s'.statsSampleCache = some samples ∧
          (s.startRowIndex + r.2.length < s.metricDataRows.length ∨
            ∃ lastRow, r.2.getLast? = some lastRow ∧ e ≤ lastRow.rowid) ∧
          ((samples.length < helper.statisticsMinSampleSize ∧ s'.anomalyParams = some r.1) ∨
            (helper.statisticsMinSampleSize ≤ samples.length ∧ ∃ lastRow scores,
              samples.getLast? = some lastRow ∧ s'.anomalyParams = some ⟨lastRow.rowid,
                algorithms.estimateAnomalyLikelihoods scores numSkipRecords⟩)))) := by
  intro e r samples
  have hlt := (List.getElem?_eq_some_iff.mp hrow).1
  have hle : s.startRowIndex + r.2.length ≤ s.metricDataRows.length :=
    helper.scoreRun_nextRun_length_le algorithms hlt e p row
  have hchunk : helper.scoreChunk algorithms m interval s =
      (refreshesAfter e s.startRowIndex s.metricDataRows.length r.2).bind fun refreshes =>
        if refreshes then
          (helper.refreshAnomalyParams algorithms m s.statsSampleCache r.2 (some r.1)).bind
            fun q => .ok ⟨q.1, some q.2, s.startRowIndex + r.2.length, s.rowsWith r.2⟩
        else .ok ⟨some r.1, s.statsSampleCache, s.startRowIndex + r.2.length,
          s.rowsWith r.2⟩ := by
    rw [scoreChunk, Logged.scoreChunk, hp, hrow]
    simp only [refreshAnomalyParams]
    change Except.map Prod.fst (Except.bind (refreshesAfter e _ _ r.2) _) = _
    cases refreshesAfter e s.startRowIndex s.metricDataRows.length r.2 with
    | error e => rfl
    | ok refreshes =>
      cases refreshes with
      | false => rfl
      | true =>
        change Except.map Prod.fst (Except.bind (Logged.refreshAnomalyParams helper algorithms m
          s.statsSampleCache r.2 (some r.1)) _) = _
        cases Logged.refreshAnomalyParams helper algorithms m s.statsSampleCache r.2
          (some r.1) with
        | error e => rfl
        | ok q => rfl
  rw [hchunk]
  rcases refreshesAfter_cases (e := e) hle hlt with ⟨hrefr, hwhy⟩ | ⟨hrefr, hend, hlast⟩
  · rcases helper.refreshAnomalyParams_cases algorithms hs m s.statsSampleCache r.2 (some r.1) with
      ⟨hfew, hnew⟩ | ⟨hmany, lastRow, scores, hlast, hnew⟩
    · rw [hrefr, hnew]
      exact ⟨_, rfl, rfl, rfl, .inr ⟨rfl, hwhy, .inl ⟨hfew, rfl⟩⟩⟩
    · rw [hrefr, hnew]
      exact ⟨_, rfl, rfl, rfl, .inr ⟨rfl, hwhy, .inr ⟨hmany, lastRow, scores, hlast, rfl⟩⟩⟩
  · rw [hrefr]
    exact ⟨_, rfl, rfl, rfl, .inl ⟨rfl, rfl, hend, hlast⟩⟩

omit [LinearOrder τ] in
/-- The loop changes nothing of a row but its anomaly score. -/
theorem rowsWith_unscored (s : Scoring τ V P) (e : ℕ) (p : AnomalyParams P)
    (row : AnomalyDataRow τ V) :
    (s.rowsWith (helper.scoreRun algorithms s.statsSampleCache 0 p (nextRun e row s)).2).map
      (·.unscored) = s.metricDataRows.map (·.unscored) := by
  obtain ⟨rest, hrest⟩ :=
    helper.scoreRun_unscored algorithms s.statsSampleCache 0 p (nextRun e row s)
  generalize (helper.scoreRun algorithms s.statsSampleCache 0 p (nextRun e row s)).2 = consumed
    at hrest ⊢
  have hdrop : (s.metricDataRows.drop s.startRowIndex).map (·.unscored) =
      consumed.map (·.unscored) ++ (rest ++ ((s.metricDataRows.drop s.startRowIndex).drop
        (limitIndex e s.startRowIndex s.metricDataRows.length row - s.startRowIndex)).map
          (·.unscored)) := by
    rw [← List.append_assoc, ← hrest, nextRun, ← List.map_append, List.take_append_drop]
  have hlater : (s.metricDataRows.drop (s.startRowIndex + consumed.length)).map (·.unscored) =
      ((s.metricDataRows.drop s.startRowIndex).map (·.unscored)).drop consumed.length := by
    rw [← List.map_drop, List.drop_drop]
  rw [Scoring.rowsWith, List.map_append, List.map_append, hlater, hdrop, List.drop_left'
    (List.length_map ..), List.append_assoc, ← hdrop, ← List.map_append, List.take_append_drop]

/-- What is left to do: rows to consume, and once the loading of the samples cache. -/
def Scoring.remaining (s : Scoring τ V P) : ℕ :=
  2 * (s.metricDataRows.length - s.startRowIndex) + if s.statsSampleCache.isNone then 1 else 0

/-- An iteration that consumes no row comes before the samples cache is there, and loads it. -/
theorem scoreChunk_idle (hs : helper.Sized) (m : AnomalyMetric τ V P) (interval : ℕ)
    {s s' : Scoring τ V P} {p : AnomalyParams P} {row : AnomalyDataRow τ V}
    (hp : s.anomalyParams = some p) (hrow : s.metricDataRows[s.startRowIndex]? = some row)
    (h : helper.scoreChunk algorithms m interval s = .ok s')
    (hidle : s'.startRowIndex = s.startRowIndex) :
    s.statsSampleCache = none ∧ s'.statsSampleCache.isSome := by
  obtain ⟨s₁, hok, hstart, -, hcase⟩ := helper.scoreChunk_spec algorithms hs m interval hp hrow
  cases h.symm.trans hok
  have hnil : nextRun (helper.endRowID interval p s.statsSampleCache row) row s = [] := by
    by_contra hne
    have hpos := List.length_pos_iff.mpr
      (helper.scoreRun_ne_nil algorithms s.statsSampleCache 0 p hne)
    omega
  have hcache : s.statsSampleCache = none := by
    cases hc : s.statsSampleCache with
    | none => rfl
    | some samples =>
      rw [hc] at hnil
      obtain ⟨rows, hcons⟩ := nextRun_of_le (helper.le_endRowID_some interval p samples row) hrow
      rw [hcons] at hnil
      exact absurd hnil (List.cons_ne_nil _ _)
  refine ⟨hcache, ?_⟩
  rcases hcase with ⟨-, -, -, lastRow, hlast, -⟩ | ⟨h, -⟩
  · rw [hnil, scoreRun_nil] at hlast
    cases hlast
  · rw [h]
    rfl

theorem scoreChunk_progress (hs : helper.Sized) (m : AnomalyMetric τ V P) (interval : ℕ)
    {s : Scoring τ V P} {p : AnomalyParams P} {row : AnomalyDataRow τ V}
    (hp : s.anomalyParams = some p) (hrow : s.metricDataRows[s.startRowIndex]? = some row) :
    ∃ s', helper.scoreChunk algorithms m interval s = .ok s' ∧ s'.anomalyParams.isSome ∧
      s'.metricDataRows.map (·.unscored) = s.metricDataRows.map (·.unscored) ∧
      s'.remaining < s.remaining := by
  obtain ⟨s', hok, hstart, hrows, hcase⟩ :=
    helper.scoreChunk_spec algorithms hs m interval hp hrow
  have hun : s'.metricDataRows.map (·.unscored) = s.metricDataRows.map (·.unscored) :=
    hrows ▸ helper.rowsWith_unscored algorithms s _ p row
  have hlen : s'.metricDataRows.length = s.metricDataRows.length := by
    simpa using congrArg List.length hun
  have hlt := (List.getElem?_eq_some_iff.mp hrow).1
  have hsome : s'.anomalyParams.isSome := by
    rcases hcase with ⟨h, -⟩ | ⟨-, -, ⟨-, h⟩ | ⟨-, _, _, -, h⟩⟩ <;> rw [h] <;> rfl
  refine ⟨s', hok, hsome, hun, ?_⟩
  unfold Scoring.remaining
  rw [hlen]
  by_cases hidle : s'.startRowIndex = s.startRowIndex
  · obtain ⟨hcache, hsamples⟩ := helper.scoreChunk_idle algorithms hs m interval hp hrow hok hidle
    obtain ⟨samples, hsamples⟩ := Option.isSome_iff_exists.mp hsamples
    rw [hidle, hcache, hsamples]
    simp
  · have hbit : (if s'.statsSampleCache.isNone then 1 else 0) ≤ 1 := by split <;> omega
    omega

theorem scoreChunks_of_le (m : AnomalyMetric τ V P) (interval fuel : ℕ) {s : Scoring τ V P}
    (h : s.metricDataRows.length ≤ s.startRowIndex) :
    helper.scoreChunks algorithms m interval fuel s = .ok s := by
  have hlogged : Logged.scoreChunks helper algorithms m interval fuel s = .ok (s, []) := by
    rw [Logged.scoreChunks.eq_def]
    exact if_neg (Nat.not_lt.mpr h)
  rw [scoreChunks, hlogged]
  rfl

theorem scoreChunks_of_lt (m : AnomalyMetric τ V P) (interval fuel : ℕ) {s : Scoring τ V P}
    (h : s.startRowIndex < s.metricDataRows.length) :
    helper.scoreChunks algorithms m interval (fuel + 1) s =
      (helper.scoreChunk algorithms m interval s).bind
        (helper.scoreChunks algorithms m interval fuel) := by
  rw [scoreChunks, scoreChunk, Logged.scoreChunks, if_pos h]
  cases Logged.scoreChunk helper algorithms m interval s with
  | error e => rfl
  | ok r =>
    simp only [bind, Except.bind, Except.map]
    rw [scoreChunks]
    cases Logged.scoreChunks helper algorithms m interval fuel r.1 with
    | error e => rfl
    | ok r' => rfl

/-- The loop ends, without an exception, in a state with every row consumed, and what
each chunk preserves holds there. -/
theorem scoreChunks_spec (hs : helper.Sized) (m : AnomalyMetric τ V P) (interval : ℕ)
    (Inv : Scoring τ V P → Prop)
    (hinv : ∀ s s' p row, s.anomalyParams = some p →
      s.metricDataRows[s.startRowIndex]? = some row →
      helper.scoreChunk algorithms m interval s = .ok s' → Inv s → Inv s')
    {fuel : ℕ} {s : Scoring τ V P} (hfuel : s.remaining ≤ fuel)
    (hp : s.startRowIndex < s.metricDataRows.length → s.anomalyParams.isSome) (h : Inv s) :
    ∃ s', helper.scoreChunks algorithms m interval fuel s = .ok s' ∧ Inv s' ∧
      s'.metricDataRows.length ≤ s'.startRowIndex ∧
      s'.metricDataRows.map (·.unscored) = s.metricDataRows.map (·.unscored) := by
  induction fuel generalizing s with
  | zero =>
    have hend : ¬ s.startRowIndex < s.metricDataRows.length := by
      unfold Scoring.remaining at hfuel
      omega
    exact ⟨s, helper.scoreChunks_of_le algorithms m interval 0 (by omega), h, by omega, rfl⟩
  | succ fuel ih =>
    by_cases hlt : s.startRowIndex < s.metricDataRows.length
    · obtain ⟨p, hsome⟩ := Option.isSome_iff_exists.mp (hp hlt)
      have hrow : s.metricDataRows[s.startRowIndex]? = some s.metricDataRows[s.startRowIndex] :=
        List.getElem?_eq_getElem hlt
      obtain ⟨s₁, hok, hsome₁, hun₁, hless⟩ :=
        helper.scoreChunk_progress algorithms hs m interval hsome hrow
      obtain ⟨s₂, hok₂, hinv₂, hend, hun₂⟩ :=
        ih (by omega) (fun _ => hsome₁) (hinv s s₁ p _ hsome hrow hok h)
      refine ⟨s₂, ?_, hinv₂, hend, hun₂.trans hun₁⟩
      rw [helper.scoreChunks_of_lt algorithms m interval fuel hlt, hok]
      exact hok₂
    · exact ⟨s, helper.scoreChunks_of_le algorithms m interval _ (by omega), h, by omega, rfl⟩

end

/-! ## A whole batch -/

section

theorem startScoring_of_params {m : AnomalyMetric τ V P} {p : AnomalyParams P}
    (hp : m.anomalyLikelihoodParams = some p) (rows : List (AnomalyDataRow τ V)) :
    helper.startScoring algorithms m rows = .ok ⟨some p, none, 0, rows⟩ := by
  rw [startScoring, Logged.startScoring, hp]
  rfl

theorem startScoring_of_few {m : AnomalyMetric τ V P} (hactive : m.status = .active)
    (hp : m.anomalyLikelihoodParams = none) {rows : List (AnomalyDataRow τ V)}
    (h : m.getProcessedMetricDataCount + rows.length < helper.statisticsMinSampleSize) :
    helper.startScoring algorithms m rows = .ok ⟨none, none, rows.length, rows⟩ := by
  rw [startScoring, Logged.startScoring, hp]
  simp only [Logged.initAnomalyLikelihoodModel]
  rw [if_neg (by simp [hactive]), if_neg (by simp [hp]), if_neg (by omega)]
  rfl

/-- With enough samples in the table and the batch together the initial params are
generated from the tail of the table and the first rows of the batch. -/
theorem startScoring_of_enough (hs : helper.Sized) {m : AnomalyMetric τ V P}
    (hactive : m.status = .active) (hp : m.anomalyLikelihoodParams = none)
    (rows : List (AnomalyDataRow τ V))
    (h : helper.statisticsMinSampleSize ≤ m.getProcessedMetricDataCount + rows.length) :
    let numToConsume := helper.statisticsMinSampleSize - m.getProcessedMetricDataCount
    let samples := helper.extendCache m (rows.take numToConsume) none
    helper.statisticsMinSampleSize ≤ samples.length ∧
    ∃ lastRow scores, samples.getLast? = some lastRow ∧
      helper.startScoring algorithms m rows = .ok ⟨some ⟨lastRow.rowid,
        algorithms.estimateAnomalyLikelihoods scores numSkipRecords⟩, some samples,
        numToConsume, rows⟩ := by
  intro numToConsume samples
  have hmin := hs.min_le
  have hlen : samples.length = min (helper.statisticsSampleSize - min numToConsume rows.length)
      m.getProcessedMetricDataCount + min numToConsume rows.length := by
    rw [extendCache_length_none, List.length_take]
  have hmany : helper.statisticsMinSampleSize ≤ samples.length := by omega
  rcases helper.refreshAnomalyParams_cases algorithms hs m none (rows.take numToConsume) none with
    ⟨hfew, -⟩ | ⟨-, lastRow, scores, hlast, hnew⟩
  · exact absurd hfew (Nat.not_lt.mpr hmany)
  · refine ⟨hmany, lastRow, scores, hlast, ?_⟩
    rw [refreshAnomalyParams] at hnew
    rw [startScoring, Logged.startScoring, hp]
    simp only [Logged.initAnomalyLikelihoodModel]
    rw [if_neg (by simp [hactive]), if_neg (by simp [hp]), if_pos h]
    cases hlogged : Logged.refreshAnomalyParams helper algorithms m none
      (rows.take numToConsume) none with
    | error e =>
      rw [hlogged] at hnew
      cases hnew
    | ok r =>
      obtain ⟨p, cache, calls⟩ := r
      rw [hlogged] at hnew
      cases hnew
      rfl

/-- Scoring starts from the rows of the batch, and with params if there is a row to score. -/
theorem startScoring_total (hs : helper.Sized) {m : AnomalyMetric τ V P}
    (hactive : m.status = .active) (rows : List (AnomalyDataRow τ V)) :
    ∃ s, helper.startScoring algorithms m rows = .ok s ∧ s.metricDataRows = rows ∧
      (s.startRowIndex < rows.length → s.anomalyParams.isSome) := by
  cases hp : m.anomalyLikelihoodParams with
  | some p => exact ⟨_, helper.startScoring_of_params algorithms hp rows, rfl, fun _ => rfl⟩
  | none =>
    by_cases h : m.getProcessedMetricDataCount + rows.length < helper.statisticsMinSampleSize
    · refine ⟨_, helper.startScoring_of_few algorithms hactive hp h, rfl, fun hlt => ?_⟩
      exact absurd hlt (Nat.lt_irrefl _)
    · obtain ⟨-, lastRow, scores, -, hok⟩ :=
        helper.startScoring_of_enough algorithms hs hactive hp rows (by omega)
      exact ⟨_, hok, rfl, fun _ => rfl⟩

theorem updateModelAnomalyScores_eq {m : AnomalyMetric τ V P} (hactive : m.status = .active)
    (rows : List (AnomalyDataRow τ V)) :
    helper.updateModelAnomalyScores algorithms m rows =
      (helper.startScoring algorithms m rows).bind fun s =>
        (helper.scoreChunks algorithms m (helper.getStatisticsRefreshInterval rows.length)
          (2 * rows.length + 1) s).map fun s => (s.anomalyParams, s.metricDataRows) := by
  rw [updateModelAnomalyScores, Logged.updateModelAnomalyScores, if_neg (not_not.mpr hactive),
    startScoring]
  cases Logged.startScoring helper algorithms m rows with
  | error e => rfl
  | ok r =>
    simp only [bind, Except.bind, Except.map, scoreChunks]
    cases Logged.scoreChunks helper algorithms m
      (helper.getStatisticsRefreshInterval rows.length) (2 * rows.length + 1) r.1 with
    | error e => rfl
    | ok r' => rfl

/-- The scoring of an active metric's batch raises nothing, and what every chunk
preserves holds when the last row of it is consumed. -/
theorem updateModelAnomalyScores_spec (hs : helper.Sized) {m : AnomalyMetric τ V P}
    (hactive : m.status = .active) {rows : List (AnomalyDataRow τ V)} {s : Scoring τ V P}
    (hstart : helper.startScoring algorithms m rows = .ok s) (Inv : Scoring τ V P → Prop)
    (hinv : ∀ s s' p row, s.anomalyParams = some p →
      s.metricDataRows[s.startRowIndex]? = some row →
      helper.scoreChunk algorithms m (helper.getStatisticsRefreshInterval rows.length) s = .ok s' →
      Inv s → Inv s')
    (h : Inv s) :
    ∃ s', helper.updateModelAnomalyScores algorithms m rows =
        .ok (s'.anomalyParams, s'.metricDataRows) ∧
      Inv s' ∧ rows.length ≤ s'.startRowIndex ∧
      s'.metricDataRows.map (·.unscored) = rows.map (·.unscored) := by
  obtain ⟨s₀, hok, rfl, hp⟩ := helper.startScoring_total algorithms hs hactive rows
  cases hok.symm.trans hstart
  have hfuel : s.remaining ≤ 2 * s.metricDataRows.length + 1 := by
    have hbit : (if s.statsSampleCache.isNone then 1 else 0) ≤ 1 := by split <;> omega
    unfold Scoring.remaining
    omega
  obtain ⟨s', hloop, hinv', hend, hun⟩ :=
    helper.scoreChunks_spec algorithms hs m _ Inv hinv hfuel hp h
  have hlen : s'.metricDataRows.length = s.metricDataRows.length := by
    simpa using congrArg List.length hun
  refine ⟨s', ?_, hinv', by omega, hun⟩
  rw [helper.updateModelAnomalyScores_eq algorithms hactive, hstart]
  simp only [Except.bind, hloop]
  rfl

theorem updateModelAnomalyScores_unscored (hs : helper.Sized) {m : AnomalyMetric τ V P}
    (hactive : m.status = .active) {rows rows' : List (AnomalyDataRow τ V)}
    {q : Option (AnomalyParams P)}
    (h : helper.updateModelAnomalyScores algorithms m rows = .ok (q, rows')) :
    rows'.map (·.unscored) = rows.map (·.unscored) := by
  obtain ⟨s, hstart, -⟩ := helper.startScoring_total algorithms hs hactive rows
  obtain ⟨s', hupdate, -, -, hun⟩ := helper.updateModelAnomalyScores_spec algorithms hs hactive
    hstart (fun _ => True) (fun _ _ _ _ _ _ _ _ => trivial) trivial
  cases h.symm.trans hupdate
  exact hun

/-- Without the samples for initial params nothing is scored. -/
theorem updateModelAnomalyScores_of_few {m : AnomalyMetric τ V P} (hactive : m.status = .active)
    (hp : m.anomalyLikelihoodParams = none) (rows : List (AnomalyDataRow τ V))
    (h : m.getProcessedMetricDataCount + rows.length < helper.statisticsMinSampleSize) :
    helper.updateModelAnomalyScores algorithms m rows = .ok (none, rows) := by
  rw [helper.updateModelAnomalyScores_eq algorithms hactive,
    helper.startScoring_of_few algorithms hactive hp h]
  simp only [Except.bind]
  rw [helper.scoreChunks_of_le algorithms m _ _ (Nat.le_refl _)]
  rfl

end

end AnomalyLikelihoodHelper
end NumentaApps.AnomalyLikelihood
