import Mathlib.Data.List.DropRight
import NumentaApps.AnomalyLikelihood

/-!
# The calls of the likelihood functions

What the log of the anomaly likelihood helper tells of its calls of the two functions of the
likelihood algorithms: which rows were scored, with which params, and which samples the
params were made of.
-/
namespace NumentaApps.AnomalyLikelihood
open Repository

variable {τ V P : Type}

namespace LikelihoodCall

def updatedRow : LikelihoodCall τ V P → Option (AnomalyDataRow τ V)
  | .estimate _ _ => none
  | .update md _ _ _ => some md

/-- The row of an update with the anomaly score it is given. -/
def scoredRow : LikelihoodCall τ V P → Option (AnomalyDataRow τ V)
  | .estimate _ _ => none
  | .update md _ likelihood _ => some { md with anomalyScore := some (1.0 - likelihood) }

/-- The params after a call. -/
def newParams : LikelihoodCall τ V P → AnomalyParams P
  | .estimate _ anomalyParams => anomalyParams
  | .update _ anomalyParams _ params => { anomalyParams with params := params }

end LikelihoodCall

def updatedRows (calls : List (LikelihoodCall τ V P)) : List (AnomalyDataRow τ V) :=
  calls.filterMap (·.updatedRow)

def scoredRows (calls : List (LikelihoodCall τ V P)) : List (AnomalyDataRow τ V) :=
  calls.filterMap (·.scoredRow)

/-- The params after some calls: those of the last one. -/
def paramsAfter (anomalyParams : Option (AnomalyParams P)) (calls : List (LikelihoodCall τ V P)) :
    Option (AnomalyParams P) :=
  calls.foldl (fun _ call => some call.newParams) anomalyParams

/-- Every update is given the params that the call before it has left. -/
def Threaded : Option (AnomalyParams P) → List (LikelihoodCall τ V P) → Prop
  | _, [] => True
  | _, .estimate _ q :: calls => Threaded (some q) calls
  | p, .update md q likelihood params :: calls =>
    p = some q ∧ Threaded (some (LikelihoodCall.update md q likelihood params).newParams) calls

/-! ## Logs -/

section

variable {calls laterCalls : List (LikelihoodCall τ V P)} {p : Option (AnomalyParams P)}

@[simp] theorem updatedRows_append :
    updatedRows (calls ++ laterCalls) = updatedRows calls ++ updatedRows laterCalls :=
  List.filterMap_append

@[simp] theorem scoredRows_append :
    scoredRows (calls ++ laterCalls) = scoredRows calls ++ scoredRows laterCalls :=
  List.filterMap_append

@[simp] theorem paramsAfter_append :
    paramsAfter p (calls ++ laterCalls) = paramsAfter (paramsAfter p calls) laterCalls :=
  List.foldl_append

theorem threaded_append :
    Threaded p (calls ++ laterCalls) ↔ Threaded p calls ∧ Threaded (paramsAfter p calls) laterCalls := by
  induction calls generalizing p with
  | nil => simp [Threaded, paramsAfter]
  | cons call calls ih =>
    cases call with
    | estimate scores q => exact ih
    | update md q likelihood params =>
      simp only [List.cons_append, Threaded, and_assoc]
      exact and_congr_right fun _ => ih

theorem scoredRows_sample (calls : List (LikelihoodCall τ V P)) :
    (scoredRows calls).map (·.sample) = (updatedRows calls).map (·.sample) := by
  induction calls with
  | nil => rfl
  | cons call calls ih =>
    cases call with
    | estimate scores q => exact ih
    | update md q likelihood params => exact congrArg (md.sample :: ·) ih

theorem scoredRows_length (calls : List (LikelihoodCall τ V P)) :
    (scoredRows calls).length = (updatedRows calls).length := by
  have h := congrArg List.length (scoredRows_sample calls)
  rwa [List.length_map, List.length_map] at h

end

namespace AnomalyLikelihoodHelper
namespace Logged

variable (helper : AnomalyLikelihoodHelper) (algorithms : LikelihoodAlgorithms τ V P)

/-! ## What a run logs -/

section

variable (cache : Option (List (AnomalyDataRow τ V)))

theorem scoreRun_length_le (k : ℕ) (p : AnomalyParams P) (rows : List (AnomalyDataRow τ V)) :
    (scoreRun helper algorithms cache k p rows).2.1.length ≤ rows.length :=
  helper.scoreRun_length_le algorithms cache k p rows

theorem scoreRun_lastRowidForStats (k : ℕ) (p : AnomalyParams P)
    (rows : List (AnomalyDataRow τ V)) :
    (scoreRun helper algorithms cache k p rows).1.lastRowidForStats = p.lastRowidForStats :=
  helper.scoreRun_lastRowidForStats algorithms cache k p rows

/-- The calls of a run are one update for each row it consumes, in their order. -/
theorem updatedRows_scoreRun (k : ℕ) (p : AnomalyParams P) (rows : List (AnomalyDataRow τ V)) :
    updatedRows (scoreRun helper algorithms cache k p rows).2.2 =
      rows.take (scoreRun helper algorithms cache k p rows).2.1.length := by
  induction rows generalizing k p with
  | nil => rfl
  | cons md rows ih =>
    simp only [scoreRun]
    split
    · rfl
    · simp only [List.length_cons, List.take_succ_cons]
      rw [← ih]
      rfl

/-- The rows of a run are the next ones of the batch. -/
theorem updatedRows_nextRun (p : AnomalyParams P) (e : ℕ) (row : AnomalyDataRow τ V)
    (s : Scoring τ V P) :
    updatedRows (scoreRun helper algorithms cache 0 p (nextRun e row s)).2.2 =
      (s.metricDataRows.drop s.startRowIndex).take
        (scoreRun helper algorithms cache 0 p (nextRun e row s)).2.1.length := by
  have hle := scoreRun_length_le helper algorithms cache 0 p (nextRun e row s)
  rw [updatedRows_scoreRun]
  generalize (scoreRun helper algorithms cache 0 p (nextRun e row s)).2.1.length = n at hle ⊢
  rw [nextRun, List.length_take] at hle
  rw [nextRun, List.take_take, Nat.min_eq_left (by omega)]

theorem scoredRows_scoreRun (k : ℕ) (p : AnomalyParams P) (rows : List (AnomalyDataRow τ V)) :
    scoredRows (scoreRun helper algorithms cache k p rows).2.2 =
      (scoreRun helper algorithms cache k p rows).2.1 := by
  induction rows generalizing k p with
  | nil => rfl
  | cons md rows ih =>
    simp only [scoreRun]
    split
    · rfl
    · rw [← ih]
      rfl

theorem threaded_scoreRun (k : ℕ) (p : AnomalyParams P) (rows : List (AnomalyDataRow τ V)) :
    Threaded (some p) (scoreRun helper algorithms cache k p rows).2.2 := by
  induction rows generalizing k p with
  | nil => trivial
  | cons md rows ih =>
    simp only [scoreRun]
    split
    · exact ⟨rfl, trivial⟩
    · exact ⟨rfl, ih _ _⟩

theorem paramsAfter_scoreRun (k : ℕ) (p : AnomalyParams P) (rows : List (AnomalyDataRow τ V)) :
    paramsAfter (some p) (scoreRun helper algorithms cache k p rows).2.2 =
      some (scoreRun helper algorithms cache k p rows).1 := by
  induction rows generalizing k p with
  | nil => rfl
  | cons md rows ih =>
    simp only [scoreRun]
    split
    · rfl
    · rw [← ih]
      rfl

theorem not_estimate_mem_scoreRun (k : ℕ) (p : AnomalyParams P)
    (rows : List (AnomalyDataRow τ V)) (scores : List (Sample τ V)) (q : AnomalyParams P) :
    .estimate scores q ∉ (scoreRun helper algorithms cache k p rows).2.2 := by
  induction rows generalizing k p with
  | nil => exact List.not_mem_nil
  | cons md rows ih =>
    simp only [scoreRun]
    split
    · simp
    · simpa using ih _ _

end

/-! ## What the loop logs -/

section

/-- The samples that params are made of: the last ones of the cache. -/
def window (samples : List (AnomalyDataRow τ V)) : List (Sample τ V) :=
  (samples.rtake helper.statisticsSampleSize).map (·.sample)

variable {helper}

/-- New params are logged with the samples they are made of. -/
theorem generateAnomalyParams_cases (hs : helper.Sized) (samples : List (AnomalyDataRow τ V))
    (defaultAnomalyParams : Option (AnomalyParams P)) :
    (samples.length < helper.statisticsMinSampleSize ∧
      generateAnomalyParams helper algorithms samples defaultAnomalyParams =
        .ok (defaultAnomalyParams, [])) ∨
    (helper.statisticsMinSampleSize ≤ samples.length ∧ ∃ lastRow q,
      samples.getLast? = some lastRow ∧ q.lastRowidForStats = lastRow.rowid ∧
      generateAnomalyParams helper algorithms samples defaultAnomalyParams =
        .ok (some q, [.estimate (window helper samples) q])) := by
  by_cases h : samples.length < helper.statisticsMinSampleSize
  · exact .inl ⟨h, by rw [generateAnomalyParams, if_pos h]⟩
  · have hpos := hs.min_pos
    have hmin := hs.min_le
    have hwindow : (samples.drop (samples.length -
        min samples.length helper.statisticsSampleSize)).map (·.sample) = window helper samples := by
      have hdrop : samples.length - min samples.length helper.statisticsSampleSize =
          samples.length - helper.statisticsSampleSize := by omega
      rw [window, List.rtake, hdrop]
    have hlen : (window helper samples).length =
        min samples.length helper.statisticsSampleSize := by
      rw [← hwindow, List.length_map, List.length_drop]
      omega
    cases hl : samples.getLast? with
    | none =>
      rw [List.getLast?_eq_none_iff.mp hl] at h
      simp at h
      omega
    | some lastRow =>
      refine .inr ⟨by omega, lastRow, ⟨lastRow.rowid,
        algorithms.estimateAnomalyLikelihoods (window helper samples) numSkipRecords⟩, rfl, rfl, ?_⟩
      rw [generateAnomalyParams, if_neg h, hl]
      simp only [hwindow, hlen]
      rw [if_neg (by omega), if_neg (by omega)]

variable [LinearOrder τ]

theorem refreshAnomalyParams_cases (hs : helper.Sized) (m : AnomalyMetric τ V P)
    (cache : Option (List (AnomalyDataRow τ V))) (consumed : List (AnomalyDataRow τ V))
    (defaultAnomalyParams : Option (AnomalyParams P)) :
    let samples := helper.extendCache m consumed cache
    (samples.length < helper.statisticsMinSampleSize ∧
      refreshAnomalyParams helper algorithms m cache consumed defaultAnomalyParams =
        .ok (defaultAnomalyParams, samples, [])) ∨
    (helper.statisticsMinSampleSize ≤ samples.length ∧ ∃ lastRow q,
      samples.getLast? = some lastRow ∧ q.lastRowidForStats = lastRow.rowid ∧
      refreshAnomalyParams helper algorithms m cache consumed defaultAnomalyParams =
        .ok (some q, samples, [.estimate (window helper samples) q])) := by
  intro samples
  rcases generateAnomalyParams_cases algorithms hs samples defaultAnomalyParams with
    ⟨hlt, hgen⟩ | ⟨hle, lastRow, q, hlast, hq, hgen⟩
  · refine .inl ⟨hlt, ?_⟩
    simp only [refreshAnomalyParams, samples, hgen]
    rfl
  · refine .inr ⟨hle, lastRow, q, hlast, hq, ?_⟩
    simp only [refreshAnomalyParams, samples, hgen]
    rfl

/-- What the loop body does: it logs the updates of the next run, and then the estimate of
a refresh if there is one and there are samples for it. -/
theorem scoreChunk_spec (hs : helper.Sized) {m : AnomalyMetric τ V P} {interval : ℕ}
    {s s' : Scoring τ V P} {calls : List (LikelihoodCall τ V P)}
    (h : scoreChunk helper algorithms m interval s = .ok (s', calls)) :
    ∃ p row, s.anomalyParams = some p ∧ s.metricDataRows[s.startRowIndex]? = some row ∧
      let e := helper.endRowID interval p s.statsSampleCache row
      let run := scoreRun helper algorithms s.statsSampleCache 0 p (nextRun e row s)
      let samples := helper.extendCache m run.2.1 s.statsSampleCache
      s'.startRowIndex = s.startRowIndex + run.2.1.length ∧
      s'.metricDataRows = s.rowsWith run.2.1 ∧
      ((calls = run.2.2 ∧ s'.anomalyParams = some run.1 ∧
          s'.statsSampleCache = s.statsSampleCache ∧
          s.startRowIndex + run.2.1.length = s.metricDataRows.length ∧
          ∃ lastRow, run.2.1.getLast? = some lastRow ∧ lastRow.rowid < e) ∨
        (s'.statsSampleCache = some samples ∧
          (s.startRowIndex + run.2.1.length < s.metricDataRows.length ∨
            ∃ lastRow, run.2.1.getLast? = some lastRow ∧ e ≤ lastRow.rowid) ∧
          ((samples.length < helper.statisticsMinSampleSize ∧ calls = run.2.2 ∧
              s'.anomalyParams = some run.1) ∨
            (helper.statisticsMinSampleSize ≤ samples.length ∧ ∃ lastRow q,
              samples.getLast? = some lastRow ∧ q.lastRowidForStats = lastRow.rowid ∧
              calls = run.2.2 ++ [.estimate (window helper samples) q] ∧
              s'.anomalyParams = some q)))) := by
  cases hp : s.anomalyParams with
  | none =>
    rw [scoreChunk, hp] at h
    cases h
  | some p =>
    cases hrow : s.metricDataRows[s.startRowIndex]? with
    | none =>
      rw [scoreChunk, hp, hrow] at h
      cases h
    | some row =>
      refine ⟨p, row, rfl, rfl, ?_⟩
      intro e run samples
      have hlt := (List.getElem?_eq_some_iff.mp hrow).1
      have hle : s.startRowIndex + run.2.1.length ≤ s.metricDataRows.length :=
        helper.scoreRun_nextRun_length_le algorithms hlt e p row
      have hchunk : scoreChunk helper algorithms m interval s =
          (refreshesAfter e s.startRowIndex s.metricDataRows.length run.2.1).bind fun refreshes =>
            if refreshes then
              (refreshAnomalyParams helper algorithms m s.statsSampleCache run.2.1
                (some run.1)).bind fun r => .ok (⟨r.1, some r.2.1,
                  s.startRowIndex + run.2.1.length, s.rowsWith run.2.1⟩, run.2.2 ++ r.2.2)
            else .ok (⟨some run.1, s.statsSampleCache, s.startRowIndex + run.2.1.length,
              s.rowsWith run.2.1⟩, run.2.2) := by
        rw [scoreChunk, hp, hrow]
        rfl
      rw [hchunk] at h
      rcases refreshesAfter_cases (e := e) hle hlt with ⟨hrefr, hwhy⟩ | ⟨hrefr, hend, hlast⟩
      · rcases refreshAnomalyParams_cases algorithms hs m s.statsSampleCache run.2.1
          (some run.1) with ⟨hfew, hnew⟩ | ⟨hmany, lastRow, q, hlast, hq, hnew⟩
        · rw [hrefr, hnew] at h
          cases h
          exact ⟨rfl, rfl, .inr ⟨rfl, hwhy, .inl ⟨hfew, List.append_nil _, rfl⟩⟩⟩
        · rw [hrefr, hnew] at h
          cases h
          exact ⟨rfl, rfl, .inr ⟨rfl, hwhy, .inr ⟨hmany, lastRow, q, hlast, hq, rfl, rfl⟩⟩⟩
      · rw [hrefr] at h
        cases h
        exact ⟨rfl, rfl, .inl ⟨rfl, rfl, rfl, hend, hlast⟩⟩

/-- What each chunk preserves of the state and the log holds when the loop is left. -/
theorem scoreChunks_invariant {m : AnomalyMetric τ V P} {interval : ℕ}
    {Inv : Scoring τ V P → List (LikelihoodCall τ V P) → Prop}
    (hinv : ∀ s s' calls chunkCalls, s.startRowIndex < s.metricDataRows.length →
      scoreChunk helper algorithms m interval s = .ok (s', chunkCalls) → Inv s calls →
      Inv s' (calls ++ chunkCalls))
    {fuel : ℕ} {s s' : Scoring τ V P} {calls loopCalls : List (LikelihoodCall τ V P)}
    (h : scoreChunks helper algorithms m interval fuel s = .ok (s', loopCalls))
    (hs : Inv s calls) :
    Inv s' (calls ++ loopCalls) ∧ s'.metricDataRows.length ≤ s'.startRowIndex := by
  induction fuel generalizing s calls loopCalls with
  | zero =>
    rw [scoreChunks] at h
    split at h
    · cases h
    · cases h
      exact ⟨(List.append_nil calls).symm ▸ hs, by omega⟩
  | succ fuel ih =>
    rw [scoreChunks] at h
    split at h
    · rename_i hlt
      cases hchunk : scoreChunk helper algorithms m interval s with
      | error e =>
        rw [hchunk] at h
        cases h
      | ok r =>
        obtain ⟨s₁, chunkCalls⟩ := r
        rw [hchunk] at h
        simp only [bind, Except.bind] at h
        cases hloop : scoreChunks helper algorithms m interval fuel s₁ with
        | error e =>
          rw [hloop] at h
          cases h
        | ok r =>
          obtain ⟨s₂, laterCalls⟩ := r
          rw [hloop] at h
          cases h
          rw [← List.append_assoc]
          exact ih hloop (hinv s s₁ calls chunkCalls hlt hchunk hs)
    · cases h
      exact ⟨(List.append_nil calls).symm ▸ hs, by omega⟩

end

end Logged

/-! ## The rows that are consumed -/

/-- Between two chunks the updates so far are of the rows between the start index of the
scoring and the current one, and these rows have their anomaly scores. -/
structure Consumed (rows : List (AnomalyDataRow τ V)) (start : ℕ) (s : Scoring τ V P)
    (calls : List (LikelihoodCall τ V P)) : Prop where
  index : s.startRowIndex = start + (updatedRows calls).length
  index_le : s.startRowIndex ≤ rows.length
  updated : updatedRows calls = (rows.drop start).take (updatedRows calls).length
  rows_eq : s.metricDataRows = rows.take start ++ scoredRows calls ++ rows.drop s.startRowIndex

section

variable {helper : AnomalyLikelihoodHelper} (algorithms : LikelihoodAlgorithms τ V P)
  {rows : List (AnomalyDataRow τ V)} {start : ℕ}
  {s s' : Scoring τ V P} {calls chunkCalls : List (LikelihoodCall τ V P)}

theorem Consumed.length_eq (h : Consumed rows start s calls) :
    s.metricDataRows.length = rows.length := by
  have hindex := h.index
  have hle := h.index_le
  rw [h.rows_eq, List.length_append, List.length_append, List.length_take, List.length_drop,
    scoredRows_length]
  omega

theorem Consumed.drop_eq (h : Consumed rows start s calls) :
    s.metricDataRows.drop s.startRowIndex = rows.drop s.startRowIndex := by
  have hindex := h.index
  have hle := h.index_le
  rw [h.rows_eq]
  apply List.drop_left'
  rw [List.length_append, List.length_take, scoredRows_length]
  omega

/-- The rows to come are those of the batch. -/
theorem Consumed.getElem?_eq (h : Consumed rows start s calls) :
    s.metricDataRows[s.startRowIndex]? = rows[s.startRowIndex]? := by
  have hdrop := congrArg (·[0]?) h.drop_eq
  simpa only [List.getElem?_drop, Nat.add_zero] using hdrop

theorem Consumed.take_eq (h : Consumed rows start s calls) :
    s.metricDataRows.take s.startRowIndex = rows.take start ++ scoredRows calls := by
  have hindex := h.index
  have hle := h.index_le
  rw [h.rows_eq]
  apply List.take_left'
  rw [List.length_append, List.length_take, scoredRows_length]
  omega

/-- Calls that score no row consume none. -/
theorem Consumed.of_init {n : ℕ} (hn : n ≤ rows.length) {p : Option (AnomalyParams P)}
    {cache : Option (List (AnomalyDataRow τ V))} (hupdated : updatedRows calls = []) :
    Consumed rows n ⟨p, cache, n, rows⟩ calls where
  index := by rw [hupdated]; rfl
  index_le := hn
  updated := by rw [hupdated]; rfl
  rows_eq := by
    have hscored : scoredRows calls = [] := by
      apply List.length_eq_zero_iff.mp
      rw [scoredRows_length, hupdated]
      rfl
    rw [hscored, List.append_nil, List.take_append_drop]

variable [LinearOrder τ]

/-- A chunk consumes the rows of its run. -/
theorem Consumed.scoreChunk (hs : helper.Sized) {m : AnomalyMetric τ V P} {interval : ℕ}
    (h : Consumed rows start s calls)
    (hchunk : Logged.scoreChunk helper algorithms m interval s = .ok (s', chunkCalls)) :
    Consumed rows start s' (calls ++ chunkCalls) := by
  obtain ⟨p, row, hp, hrow, hstart, hbatch, hcase⟩ := Logged.scoreChunk_spec algorithms hs hchunk
  have hupdated := Logged.updatedRows_nextRun helper algorithms s.statsSampleCache p
    (helper.endRowID interval p s.statsSampleCache row) row s
  have hscored := Logged.scoredRows_scoreRun helper algorithms s.statsSampleCache 0 p
    (nextRun (helper.endRowID interval p s.statsSampleCache row) row s)
  generalize helper.endRowID interval p s.statsSampleCache row = e at *
  generalize Logged.scoreRun helper algorithms s.statsSampleCache 0 p (nextRun e row s) = run at *
  obtain ⟨p', consumed, runCalls⟩ := run
  simp only at hupdated hscored hstart hbatch hcase
  rw [h.drop_eq] at hupdated
  have hlength : (updatedRows runCalls).length = consumed.length := by
    rw [← scoredRows_length, hscored]
  have hle : s.startRowIndex + consumed.length ≤ rows.length := by
    have hlt := h.length_eq ▸ (List.getElem?_eq_some_iff.mp hrow).1
    rw [hupdated, List.length_take, List.length_drop] at hlength
    omega
  have hcalls : updatedRows chunkCalls = updatedRows runCalls ∧
      scoredRows chunkCalls = scoredRows runCalls := by
    rcases hcase with ⟨rfl, -⟩ | ⟨-, -, ⟨-, rfl, -⟩ | ⟨-, lastRow, q, -, -, rfl, -⟩⟩
    · exact ⟨rfl, rfl⟩
    · exact ⟨rfl, rfl⟩
    · rw [updatedRows_append, scoredRows_append]
      exact ⟨List.append_nil _, List.append_nil _⟩
  have hindex := h.index
  constructor
  · rw [updatedRows_append, hcalls.1, List.length_append, hstart, hindex, hlength, Nat.add_assoc]
  · rw [hstart]
    exact hle
  · have hdrop : (rows.drop start).drop (updatedRows calls).length =
        rows.drop s.startRowIndex := by
      rw [List.drop_drop, ← hindex]
    rw [updatedRows_append, hcalls.1, List.length_append, List.take_add, ← h.updated, hdrop,
      hlength, ← hupdated]
  · rw [hbatch, Scoring.rowsWith, h.take_eq, ← List.drop_drop, h.drop_eq, List.drop_drop, hstart,
      scoredRows_append, hcalls.2, hscored]
    simp only [List.append_assoc]

end

end AnomalyLikelihoodHelper
end NumentaApps.AnomalyLikelihood
