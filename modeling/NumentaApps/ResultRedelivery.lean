import Mathlib.Tactic.NormNum
import NumentaApps.AnomalyService

/-!
# Redelivered inference results

What a second delivery of an accepted batch of inference results changes. The batch is
processed as if it were new: with params that the first delivery has already advanced,
and with its own rows in the tail of the table.
-/
namespace NumentaApps.AnomalyService
open Repository AnomalyLikelihood AnomalyLikelihoodHelper

variable {τ V P : Type} {helper : AnomalyLikelihoodHelper}
  {algorithms : LikelihoodAlgorithms τ V P}

/-! ## Rows of a chunk -/

/-- Row IDs that ascend strictly ascend at least as fast as their indices. -/
theorem rowids_add_le {ids : List ℕ} (h : ids.Pairwise (· < ·)) {i d x y : ℕ}
    (hi : ids[i]? = some x) (hj : ids[i + d]? = some y) : x + d ≤ y := by
  induction d generalizing y with
  | zero =>
    have heq : some x = some y := hi.symm.trans hj
    cases heq
    omega
  | succ d ih =>
    obtain ⟨hlt, hy⟩ := List.getElem?_eq_some_iff.mp hj
    have hz : ids[i + d]? = some ids[i + d] := List.getElem?_eq_getElem (by omega)
    have hle := ih hz
    have hasc := List.pairwise_iff_getElem.mp h (i + d) (i + (d + 1)) (by omega) hlt (by omega)
    omega

theorem rowids_sub_le {ids : List ℕ} (h : ids.Pairwise (· < ·)) {i j x y : ℕ} (hij : i ≤ j)
    (hi : ids[i]? = some x) (hj : ids[j]? = some y) : x + (j - i) ≤ y := by
  apply rowids_add_le h hi
  rwa [Nat.add_sub_cancel' hij]

theorem unscored_rowids {rows rows' : List (AnomalyDataRow τ V)}
    (h : rows'.map (·.unscored) = rows.map (·.unscored)) :
    rows'.map (·.rowid) = rows.map (·.rowid) := by
  have hids := congrArg (List.map (·.rowid)) h
  rw [List.map_map, List.map_map] at hids
  exact hids

section

variable {s : Scoring τ V P} {p : AnomalyParams P} {row : AnomalyDataRow τ V} {e : ℕ}

/-- The last consumed sample of a chunk is the row before the next one to consume. -/
theorem consumed_getLast?_rowid (hlt : s.startRowIndex < s.metricDataRows.length)
    {lastRow : AnomalyDataRow τ V}
    (h : (helper.scoreRun algorithms s.statsSampleCache 0 p (nextRun e row s)).2.getLast? =
      some lastRow) :
    (s.metricDataRows.map (·.rowid))[s.startRowIndex + ((helper.scoreRun algorithms
      s.statsSampleCache 0 p (nextRun e row s)).2.length - 1)]? = some lastRow.rowid := by
  rw [← unscored_rowids (helper.rowsWith_unscored algorithms s e p row)]
  generalize (helper.scoreRun algorithms s.statsSampleCache 0 p (nextRun e row s)).2 = consumed
    at h ⊢
  have hpos : 0 < consumed.length := by
    rw [List.length_pos_iff]
    rintro rfl
    cases h
  have htake : (s.metricDataRows.take s.startRowIndex).length = s.startRowIndex := by
    rw [List.length_take]
    omega
  rw [List.getElem?_map, Scoring.rowsWith, List.append_assoc,
    List.getElem?_append_right (by omega), htake, Nat.add_sub_cancel_left,
    List.getElem?_append_left (by omega), ← List.getLast?_eq_getElem?, h]
  rfl

/-- Once its first row is consumed, a batch keeps the score of it. -/
theorem rowsWith_head?_of_pos (hpos : 0 < s.startRowIndex)
    (hlt : s.startRowIndex < s.metricDataRows.length) (consumed : List (AnomalyDataRow τ V)) :
    (s.rowsWith consumed).head? = s.metricDataRows.head? := by
  obtain ⟨k, hk⟩ := Nat.exists_eq_succ_of_ne_zero (Nat.ne_of_gt hpos)
  cases hrows : s.metricDataRows with
  | nil =>
    rw [hrows] at hlt
    cases hlt
  | cons row rows =>
    rw [Scoring.rowsWith, hrows, hk]
    rfl

theorem rowsWith_head?_of_zero (hzero : s.startRowIndex = 0)
    {consumed : List (AnomalyDataRow τ V)} (hne : consumed ≠ []) :
    (s.rowsWith consumed).head? = consumed.head? := by
  cases consumed with
  | nil => exact absurd rfl hne
  | cons row consumed =>
    rw [Scoring.rowsWith, hzero]
    rfl

end

/-! ## Chunks with and without rows -/

section

variable [LinearOrder τ] {m : AnomalyMetric τ V P} {interval : ℕ} {s s' : Scoring τ V P}
  {p : AnomalyParams P} {row : AnomalyDataRow τ V}

/-- A cutoff before the first row makes a chunk of no rows, which loads the cache. -/
theorem scoreChunk_bypass (hs : helper.Sized) (hp : s.anomalyParams = some p)
    (hrow : s.metricDataRows[s.startRowIndex]? = some row) (hcache : s.statsSampleCache = none)
    (hcut : p.lastRowidForStats + interval < row.rowid)
    (hok : helper.scoreChunk algorithms m interval s = .ok s') :
    s'.startRowIndex = s.startRowIndex ∧ ∃ samples, s'.statsSampleCache = some samples ∧
      samples.length = min helper.statisticsSampleSize m.getProcessedMetricDataCount ∧
      ((samples.length < helper.statisticsMinSampleSize ∧ s'.anomalyParams = some p) ∨
        (helper.statisticsMinSampleSize ≤ samples.length ∧ ∃ rowid scores,
          s'.anomalyParams = some ⟨rowid,
            algorithms.estimateAnomalyLikelihoods scores numSkipRecords⟩)) := by
  have hrun : nextRun (helper.endRowID interval p s.statsSampleCache row) row s = [] := by
    rw [hcache]
    exact nextRun_of_lt hcut s
  obtain ⟨s₁, hok₁, hstart, -, hcase⟩ := helper.scoreChunk_spec algorithms hs m interval hp hrow
  cases hok.symm.trans hok₁
  rw [hrun, scoreRun_nil] at hstart hcase
  rw [hcache] at hcase
  refine ⟨hstart, ?_⟩
  rcases hcase with ⟨-, -, -, lastRow, hlast, -⟩ | ⟨hsamples, -, hnew⟩
  · cases hlast
  refine ⟨_, hsamples, ?_, ?_⟩
  · rw [helper.extendCache_length_none m []]
    simp
  · rcases hnew with ⟨hfew, hold⟩ | ⟨hmany, lastRow, scores, -, hnew⟩
    · exact .inl ⟨hfew, hold⟩
    · exact .inr ⟨hmany, lastRow.rowid, scores, hnew⟩

theorem scoreChunk_rowids (hs : helper.Sized) (hp : s.anomalyParams = some p)
    (hrow : s.metricDataRows[s.startRowIndex]? = some row)
    (hok : helper.scoreChunk algorithms m interval s = .ok s') :
    s'.metricDataRows.map (·.rowid) = s.metricDataRows.map (·.rowid) := by
  obtain ⟨s₁, hok₁, -, hun, -⟩ := helper.scoreChunk_progress algorithms hs m interval hp hrow
  cases hok.symm.trans hok₁
  exact unscored_rowids hun

omit [LinearOrder τ] in
/-- The cutoff of a chunk with rows in it: the next row is not beyond it. -/
theorem le_endRowID (h : s.statsSampleCache.isSome ∨ row.rowid ≤ p.lastRowidForStats + interval) :
    row.rowid ≤ helper.endRowID interval p s.statsSampleCache row := by
  cases hcache : s.statsSampleCache with
  | none =>
    rcases h with h | h
    · rw [hcache] at h
      cases h
    · exact h
  | some samples => exact helper.le_endRowID_some interval p samples row

/-- What a chunk with rows in it does, in terms of the row IDs of the batch. -/
theorem scoreChunk_consumed (hs : helper.Sized) (hp : s.anomalyParams = some p)
    (hrow : s.metricDataRows[s.startRowIndex]? = some row)
    (hcut : s.statsSampleCache.isSome ∨ row.rowid ≤ p.lastRowidForStats + interval)
    (hok : helper.scoreChunk algorithms m interval s = .ok s') :
    let e := helper.endRowID interval p s.statsSampleCache row
    let r := helper.scoreRun algorithms s.statsSampleCache 0 p (nextRun e row s)
    let samples := helper.extendCache m r.2 s.statsSampleCache
    r.2 ≠ [] ∧ s'.startRowIndex = s.startRowIndex + r.2.length ∧
      s'.metricDataRows = s.rowsWith r.2 ∧ ∃ lastRowid,
      (s.metricDataRows.map (·.rowid))[s.startRowIndex + (r.2.length - 1)]? = some lastRowid ∧
      ((s'.anomalyParams = some r.1 ∧ s'.statsSampleCache = s.statsSampleCache ∧
          s.startRowIndex + r.2.length = s.metricDataRows.length ∧ lastRowid < e) ∨
        (s'.anomalyParams = some r.1 ∧ s'.statsSampleCache = some samples ∧
          samples.length < helper.statisticsMinSampleSize ∧
          (s.startRowIndex + r.2.length < s.metricDataRows.length ∨ e ≤ lastRowid)) ∨
        (helper.statisticsMinSampleSize ≤ samples.length ∧ s'.statsSampleCache = some samples ∧
          (s.startRowIndex + r.2.length < s.metricDataRows.length ∨ e ≤ lastRowid) ∧
          ∃ scores, s'.anomalyParams = some ⟨lastRowid,
            algorithms.estimateAnomalyLikelihoods scores numSkipRecords⟩)) := by
  intro e r samples
  have hlt := (List.getElem?_eq_some_iff.mp hrow).1
  have hne : r.2 ≠ [] := by
    obtain ⟨rows, hcons⟩ := nextRun_of_le (le_endRowID hcut) hrow
    apply helper.scoreRun_ne_nil
    rw [hcons]
    exact List.cons_ne_nil _ _
  obtain ⟨s₁, hok₁, hstart, hrows, hcase⟩ :=
    helper.scoreChunk_spec algorithms hs m interval hp hrow
  cases hok.symm.trans hok₁
  obtain ⟨lastRow, hlast⟩ : ∃ lastRow, r.2.getLast? = some lastRow :=
    ⟨_, List.getLast?_eq_some_getLast hne⟩
  refine ⟨hne, hstart, hrows, lastRow.rowid, consumed_getLast?_rowid hlt hlast, ?_⟩
  have hsame : ∀ {lastRow'}, r.2.getLast? = some lastRow' → lastRow' = lastRow := by
    intro lastRow' h
    exact Option.some.inj (h.symm.trans hlast)
  rcases hcase with ⟨hp', hcache, hend, lastRow', hlast', hlate⟩ | ⟨hcache, hwhy, hnew⟩
  · obtain rfl := hsame hlast'
    exact .inl ⟨hp', hcache, hend, hlate⟩
  · have hwhy' : s.startRowIndex + r.2.length < s.metricDataRows.length ∨ e ≤ lastRow.rowid := by
      apply hwhy.imp_right
      rintro ⟨lastRow', hlast', hle⟩
      obtain rfl := hsame hlast'
      exact hle
    rcases hnew with ⟨hfew, hp'⟩ | ⟨hmany, lastRow', scores, hlast', hp'⟩
    · exact .inr (.inl ⟨hp', hcache, hfew, hwhy'⟩)
    · have hsamples := helper.extendCache_getLast? m hlast s.statsSampleCache
      obtain rfl := Option.some.inj (hlast'.symm.trans hsamples)
      exact .inr (.inr ⟨hmany, hcache, hwhy', scores, hp'⟩)

end

/-! ## Where the next refresh falls -/

section

variable [LinearOrder τ]

/-- How far the refreshes of a batch have come, seen from its first row: their cutoff
reaches it, or the samples cache was not loaded yet, was just loaded, or is too short for
a refresh. -/
inductive CutoffStage (helper : AnomalyLikelihoodHelper) (m : AnomalyMetric τ V P)
    (interval firstRowid numRows : ℕ) (s : Scoring τ V P) : Prop
  | reached {p : AnomalyParams P} (hp : s.anomalyParams = some p)
      (hle : firstRowid ≤ p.lastRowidForStats + interval)
      (hcache : s.statsSampleCache.isSome ∨ s.startRowIndex = 0 ∨ numRows ≤ s.startRowIndex)
  | unloaded (hstart : s.startRowIndex = 0) (hcache : s.statsSampleCache = none)
  | loaded {samples : List (AnomalyDataRow τ V)} (hstart : s.startRowIndex = 0)
      (hcache : s.statsSampleCache = some samples)
      (hmin : helper.statisticsMinSampleSize ≤ samples.length)
  | short {samples : List (AnomalyDataRow τ V)} (hcache : s.statsSampleCache = some samples)
      (hlen : samples.length = m.getProcessedMetricDataCount + s.startRowIndex)
      (hmin : samples.length < helper.statisticsMinSampleSize)
  | over (hend : numRows ≤ s.startRowIndex)
      (hmin : m.getProcessedMetricDataCount + numRows < helper.statisticsMinSampleSize)

variable {m : AnomalyMetric τ V P} {interval firstRowid : ℕ} {ids : List ℕ}
  {s s' : Scoring τ V P} {p : AnomalyParams P} {row : AnomalyDataRow τ V}

/-- A chunk that starts with a cutoff beyond the first row ends with one. -/
theorem CutoffStage.of_reached (hs : helper.Sized)
    (hids : s.metricDataRows.map (·.rowid) = ids) (hasc : ids.Pairwise (· < ·))
    (hfirst : ids[0]? = some firstRowid) (hp : s.anomalyParams = some p)
    (hrow : s.metricDataRows[s.startRowIndex]? = some row)
    (hcut : s.statsSampleCache.isSome ∨ row.rowid ≤ p.lastRowidForStats + interval)
    (hreach : firstRowid ≤ p.lastRowidForStats + interval)
    (hok : helper.scoreChunk algorithms m interval s = .ok s') :
    CutoffStage helper m interval firstRowid ids.length s' := by
  obtain ⟨-, hstart, -, lastRowid, hlast, hcase⟩ := scoreChunk_consumed hs hp hrow hcut hok
  have hrun := helper.scoreRun_lastRowidForStats algorithms s.statsSampleCache 0 p
    (nextRun (helper.endRowID interval p s.statsSampleCache row) row s)
  have hn : ids.length = s.metricDataRows.length := by rw [← hids, List.length_map]
  rcases hcase with ⟨hp', -, hend, -⟩ | ⟨hp', hcache, -, -⟩ | ⟨-, hcache, -, scores, hp'⟩
  · exact .reached hp' (hrun ▸ hreach) (.inr (.inr (by omega)))
  · exact .reached hp' (hrun ▸ hreach) (.inl (by rw [hcache]; rfl))
  · rw [hids] at hlast
    have hle := rowids_sub_le hasc (Nat.zero_le _) hfirst hlast
    exact .reached hp' (by simp only; omega) (.inl (by rw [hcache]; rfl))

/-- A chunk that starts with a short cache goes on to fill it: it takes as many rows as
are missing, or the rest of the batch. -/
theorem CutoffStage.of_short (hs : helper.Sized)
    (hids : s.metricDataRows.map (·.rowid) = ids) (hasc : ids.Pairwise (· < ·))
    (hfirst : ids[0]? = some firstRowid) (hp : s.anomalyParams = some p)
    (hrow : s.metricDataRows[s.startRowIndex]? = some row)
    {samples : List (AnomalyDataRow τ V)} (hcache : s.statsSampleCache = some samples)
    (hlen : samples.length = m.getProcessedMetricDataCount + s.startRowIndex)
    (hmin : samples.length < helper.statisticsMinSampleSize)
    (hok : helper.scoreChunk algorithms m interval s = .ok s') :
    CutoffStage helper m interval firstRowid ids.length s' := by
  have hsome : s.statsSampleCache.isSome := by rw [hcache]; rfl
  obtain ⟨hne, hstart, -, lastRowid, hlast, hcase⟩ :=
    scoreChunk_consumed hs hp hrow (.inl hsome) hok
  have hstop := helper.scoreRun_stop algorithms s.statsSampleCache 0 p
    (nextRun (helper.endRowID interval p s.statsSampleCache row) row s)
  have hpos := List.length_pos_iff.mpr hne
  have hn : ids.length = s.metricDataRows.length := by rw [← hids, List.length_map]
  have hrowid : ids[s.startRowIndex]? = some row.rowid := by
    rw [← hids, List.getElem?_map, hrow]
    rfl
  rw [hids] at hlast
  have hend : helper.endRowID interval p s.statsSampleCache row =
      row.rowid + (helper.statisticsMinSampleSize - samples.length - 1) := by
    rw [hcache]
    simp only [endRowID]
    rw [if_neg (by omega)]
  have hext : ∀ consumed, (helper.extendCache m consumed s.statsSampleCache).length =
      samples.length + consumed.length := by
    intro consumed
    rw [hcache]
    exact helper.extendCache_length_some m samples consumed
  rcases hcase with ⟨-, -, hall, hlate⟩ | ⟨-, hcache', hfew, -⟩ | ⟨-, hcache', -, scores, hp'⟩
  · -- the batch ended short of the cutoff, so short of the missing samples
    have hle := rowids_sub_le hasc (Nat.le_add_right _ _) hrowid hlast
    exact .over (by omega) (by omega)
  · refine .short hcache' ?_ hfew
    rw [hext, hstart]
    omega
  · have hle := rowids_sub_le hasc (Nat.zero_le _) hfirst hlast
    exact .reached hp' (by simp only; omega) (.inl (by rw [hcache']; rfl))

/-- The one row of a chunk whose cutoff had to be advanced to it is followed by a refresh. -/
theorem CutoffStage.of_loaded (hs : helper.Sized)
    (hids : s.metricDataRows.map (·.rowid) = ids) (hasc : ids.Pairwise (· < ·))
    (hfirst : ids[0]? = some firstRowid) (hp : s.anomalyParams = some p)
    (hrow : s.metricDataRows[s.startRowIndex]? = some row)
    {samples : List (AnomalyDataRow τ V)} (hcache : s.statsSampleCache = some samples)
    (hzero : s.startRowIndex = 0) (hmin : helper.statisticsMinSampleSize ≤ samples.length)
    (hok : helper.scoreChunk algorithms m interval s = .ok s') :
    CutoffStage helper m interval firstRowid ids.length s' := by
  have hsome : s.statsSampleCache.isSome := by rw [hcache]; rfl
  by_cases hreach : firstRowid ≤ p.lastRowidForStats + interval
  · exact .of_reached hs hids hasc hfirst hp hrow (.inl hsome) hreach hok
  obtain ⟨hne, hstart, -, lastRowid, hlast, hcase⟩ :=
    scoreChunk_consumed hs hp hrow (.inl hsome) hok
  have hrowid : ids[s.startRowIndex]? = some row.rowid := by
    rw [← hids, List.getElem?_map, hrow]
    rfl
  rw [hids] at hlast
  have hle := rowids_sub_le hasc (Nat.zero_le _) hfirst hlast
  have hfirstRow : firstRowid = row.rowid := by
    rw [hzero] at hrowid
    exact Option.some.inj (hfirst.symm.trans hrowid)
  have hend : helper.endRowID interval p s.statsSampleCache row = row.rowid := by
    rw [hcache]
    simp only [endRowID]
    rw [if_pos hmin, if_pos (by omega)]
  rcases hcase with ⟨-, -, -, hlate⟩ | ⟨-, -, hfew, -⟩ | ⟨-, hcache', -, scores, hp'⟩
  · omega
  · rw [hcache, helper.extendCache_length_some] at hfew
    omega
  · exact .reached hp' (by simp only; omega) (.inl (by rw [hcache']; rfl))

/-- Every chunk moves on from one stage to another. -/
theorem CutoffStage.step (hs : helper.Sized)
    (hids : s.metricDataRows.map (·.rowid) = ids) (hasc : ids.Pairwise (· < ·))
    (hfirst : ids[0]? = some firstRowid) (hp : s.anomalyParams = some p)
    (hrow : s.metricDataRows[s.startRowIndex]? = some row)
    (hok : helper.scoreChunk algorithms m interval s = .ok s')
    (h : CutoffStage helper m interval firstRowid ids.length s) :
    CutoffStage helper m interval firstRowid ids.length s' := by
  have hlt := (List.getElem?_eq_some_iff.mp hrow).1
  have hn : ids.length = s.metricDataRows.length := by rw [← hids, List.length_map]
  have hrowid : ids[s.startRowIndex]? = some row.rowid := by
    rw [← hids, List.getElem?_map, hrow]
    rfl
  cases h with
  | reached hp₀ hle hcache =>
    obtain rfl := Option.some.inj (hp₀.symm.trans hp)
    refine .of_reached hs hids hasc hfirst hp hrow ?_ hle hok
    rcases hcache with hsome | hzero | hend
    · exact .inl hsome
    · rw [hzero] at hrowid
      obtain rfl := Option.some.inj (hfirst.symm.trans hrowid)
      exact .inr hle
    · omega
  | unloaded hzero hcache =>
    rw [hzero] at hrowid
    obtain rfl := Option.some.inj (hfirst.symm.trans hrowid)
    by_cases hreach : row.rowid ≤ p.lastRowidForStats + interval
    · exact .of_reached hs hids hasc hfirst hp hrow (.inr hreach) hreach hok
    · have hmin := hs.min_le
      obtain ⟨hstart, samples, hcache', hlen, ⟨hfew, -⟩ | ⟨hmany, -⟩⟩ :=
        scoreChunk_bypass hs hp hrow hcache (by omega) hok
      · exact .short hcache' (by omega) hfew
      · exact .loaded (hstart.trans hzero) hcache' hmany
  | loaded hzero hcache hmin => exact .of_loaded hs hids hasc hfirst hp hrow hcache hzero hmin hok
  | short hcache hlen hmin => exact .of_short hs hids hasc hfirst hp hrow hcache hlen hmin hok
  | «over» hend hmin => omega

end

/-! ## The first row of a batch -/

section

variable [LinearOrder τ] {m : AnomalyMetric τ V P} {interval firstRowid : ℕ} {ids : List ℕ}
  {s s' : Scoring τ V P} {p : AnomalyParams P} {row : AnomalyDataRow τ V}

def firstScore (rows : List (AnomalyDataRow τ V)) : Option ℚ := rows.head?.bind (·.anomalyScore)

/-- The first row is yet to be scored with params that meet `Q`, or was scored with such. -/
inductive FirstScored (algorithms : LikelihoodAlgorithms τ V P) (Q : AnomalyParams P → Prop)
    (s : Scoring τ V P) : Prop
  | pending (hzero : s.startRowIndex = 0) {p : AnomalyParams P} (hp : s.anomalyParams = some p)
      (hQ : Q p)
  | scored (hpos : 0 < s.startRowIndex) {p : AnomalyParams P} (hQ : Q p) (sample : Sample τ V)
      (hscore : firstScore s.metricDataRows =
        some (1.0 - (algorithms.updateAnomalyLikelihoods sample p.params).1))

omit [LinearOrder τ] in
theorem firstScore_scoreRun {e : ℕ} (hle : row.rowid ≤ e)
    (hrow : s.metricDataRows[s.startRowIndex]? = some row) (cache : Option (List _)) :
    firstScore (helper.scoreRun algorithms cache 0 p (nextRun e row s)).2 =
      some (1.0 - (algorithms.updateAnomalyLikelihoods row.sample p.params).1) := by
  obtain ⟨rows, hcons⟩ := nextRun_of_le hle hrow
  rw [hcons]
  rcases helper.scoreRun_cons algorithms cache 0 p row rows with ⟨h, -⟩ | h
  · rw [h]
    rfl
  · rw [h]
    rfl

/-- Only a refresh before the first chunk with rows in it comes between the params that
the loop starts from and the first row. -/
theorem FirstScored.step (hs : helper.Sized) {Q : AnomalyParams P → Prop}
    (hQ : ∀ p, Q p → p.lastRowidForStats + interval < firstRowid →
      helper.statisticsMinSampleSize ≤ m.getProcessedMetricDataCount → ∀ rowid scores,
        Q ⟨rowid, algorithms.estimateAnomalyLikelihoods scores numSkipRecords⟩)
    (hids : s.metricDataRows.map (·.rowid) = ids) (hfirst : ids[0]? = some firstRowid)
    (hp : s.anomalyParams = some p) (hrow : s.metricDataRows[s.startRowIndex]? = some row)
    (hok : helper.scoreChunk algorithms m interval s = .ok s') (h : FirstScored algorithms Q s) :
    FirstScored algorithms Q s' := by
  have hlt := (List.getElem?_eq_some_iff.mp hrow).1
  cases h with
  | scored hpos hQp sample hscore =>
    obtain ⟨s₁, hok₁, hstart, hrows, -⟩ := helper.scoreChunk_spec algorithms hs m interval hp hrow
    cases hok.symm.trans hok₁
    refine .scored (by omega) hQp sample ?_
    rw [firstScore, hrows, rowsWith_head?_of_pos hpos hlt]
    exact hscore
  | @pending hzero p₀ hp₀ hQp =>
    obtain rfl : p = p₀ := Option.some.inj (hp.symm.trans hp₀)
    have hrowid : firstRowid = row.rowid := by
      rw [← hids, List.getElem?_map, ← hzero, hrow] at hfirst
      exact (Option.some.inj hfirst).symm
    by_cases hcut : s.statsSampleCache.isSome ∨ row.rowid ≤ p.lastRowidForStats + interval
    · obtain ⟨hne, hstart, hrows, -⟩ := scoreChunk_consumed hs hp hrow hcut hok
      have hpos := List.length_pos_iff.mpr hne
      refine .scored (by omega) hQp row.sample ?_
      rw [firstScore, hrows, rowsWith_head?_of_zero hzero hne]
      exact firstScore_scoreRun (le_endRowID hcut) hrow _
    · rw [not_or] at hcut
      have hcache : s.statsSampleCache = none := by simpa using hcut.1
      obtain ⟨hstart, samples, -, hlen, hnew⟩ :=
        scoreChunk_bypass hs hp hrow hcache (by omega) hok
      rcases hnew with ⟨-, hp'⟩ | ⟨hmany, rowid, scores, hp'⟩
      · exact .pending (hstart.trans hzero) hp' hQp
      · exact .pending (hstart.trans hzero) hp' (hQ p hQp (by omega) (by omega) rowid scores)

end

/-! ## Params that show where they come from -/

section

variable [DecidableEq P]

/-- Estimated params are `fresh` and updated ones `used`; a row that is scored with
`fresh` params gets one low score and any other row another. -/
def marking (fresh used : P) : LikelihoodAlgorithms τ V P where
  estimateAnomalyLikelihoods _ _ := fresh
  updateAnomalyLikelihoods _ params := (if params = fresh then 1 / 2 else 3 / 4, used)

variable {fresh used : P} {s s' : Scoring τ V P} {p : AnomalyParams P}
  {row : AnomalyDataRow τ V}

theorem marking_score_low (sample : Sample τ V) (params : P) :
    ¬ (0.99 : ℚ) < 1.0 - ((marking fresh used).updateAnomalyLikelihoods sample params).1 := by
  simp only [marking]
  split <;> norm_num

/-- No score forces a refresh, so a run is scored to its end. -/
theorem marking_scoreRun (cache : Option (List (AnomalyDataRow τ V))) (k : ℕ)
    (p : AnomalyParams P) (rows : List (AnomalyDataRow τ V)) :
    (helper.scoreRun (marking fresh used) cache k p rows).2.length = rows.length ∧
      (rows ≠ [] → (helper.scoreRun (marking fresh used) cache k p rows).1.params = used) := by
  induction rows generalizing k p with
  | nil => exact ⟨rfl, fun h => absurd rfl h⟩
  | cons md rows ih =>
    rcases helper.scoreRun_cons (marking fresh used) cache k p md rows with ⟨-, hhigh, -⟩ | h
    · exact absurd hhigh (marking_score_low md.sample p.params)
    · rw [h]
      obtain ⟨hlen, hused⟩ := ih (k + 1) { p with params := used }
      refine ⟨congrArg (· + 1) hlen, fun _ => ?_⟩
      cases rows with
      | nil => rfl
      | cons md' rows => exact hused (List.cons_ne_nil _ _)

theorem marking_of_consumed {interval : ℕ}
    (hrow : s.metricDataRows[s.startRowIndex]? = some row)
    (hcut : s.statsSampleCache.isSome ∨ row.rowid ≤ p.lastRowidForStats + interval) :
    (helper.scoreRun (marking fresh used) s.statsSampleCache 0 p
      (nextRun (helper.endRowID interval p s.statsSampleCache row) row s)).1.params = used := by
  obtain ⟨rows, hcons⟩ := nextRun_of_le (le_endRowID hcut : _ ≤ helper.endRowID _ _ _ _) hrow
  apply (marking_scoreRun _ _ _ _).2
  rw [hcons]
  exact List.cons_ne_nil _ _

/-- At the end of a batch the params come of its last row or of a refresh at it. -/
def MarkedEnd (fresh used : P) (lastRowid numRows : ℕ) (s : Scoring τ V P) : Prop :=
  numRows ≤ s.startRowIndex → ∃ p, s.anomalyParams = some p ∧
    (p.params = used ∨ (p.params = fresh ∧ p.lastRowidForStats = lastRowid))

variable [LinearOrder τ] {m : AnomalyMetric τ V P} {interval firstRowid lastRowid : ℕ}
  {ids : List ℕ}

theorem MarkedEnd.step (hs : helper.Sized) (hids : s.metricDataRows.map (·.rowid) = ids)
    (hlast : ids[ids.length - 1]? = some lastRowid) (hp : s.anomalyParams = some p)
    (hrow : s.metricDataRows[s.startRowIndex]? = some row)
    (hok : helper.scoreChunk (marking fresh used) m interval s = .ok s') :
    MarkedEnd fresh used lastRowid ids.length s' := by
  intro hend
  have hlt := (List.getElem?_eq_some_iff.mp hrow).1
  have hn : ids.length = s.metricDataRows.length := by rw [← hids, List.length_map]
  by_cases hcut : s.statsSampleCache.isSome ∨ row.rowid ≤ p.lastRowidForStats + interval
  · obtain ⟨hne, hstart, -, z, hz, hcase⟩ := scoreChunk_consumed hs hp hrow hcut hok
    have hused : (helper.scoreRun (marking fresh used) s.statsSampleCache 0 p (nextRun
        (helper.endRowID interval p s.statsSampleCache row) row s)).1.params = used :=
      marking_of_consumed hrow hcut
    have hle := helper.scoreRun_nextRun_length_le (marking fresh used) hlt
      (helper.endRowID interval p s.statsSampleCache row) p row
    have hpos := List.length_pos_iff.mpr hne
    rcases hcase with ⟨hp', -⟩ | ⟨hp', -⟩ | ⟨-, -, -, scores, hp'⟩
    · exact ⟨_, hp', .inl hused⟩
    · exact ⟨_, hp', .inl hused⟩
    · have hindex : s.startRowIndex + ((helper.scoreRun (marking fresh used) s.statsSampleCache 0 p
          (nextRun (helper.endRowID interval p s.statsSampleCache row) row s)).2.length - 1) =
          ids.length - 1 := by omega
      rw [hids, hindex] at hz
      exact ⟨_, hp', .inr ⟨rfl, Option.some.inj (hz.symm.trans hlast)⟩⟩
  · rw [not_or] at hcut
    obtain ⟨hstart, -⟩ := scoreChunk_bypass hs hp hrow (by simpa using hcut.1) (by omega) hok
    omega

/-! ## The two deliveries -/

/-- The rows of a batch by their row IDs, of which there is a first and a last one. -/
structure BatchRowids (rows : List (AnomalyDataRow τ V)) (firstRowid lastRowid : ℕ) : Prop where
  ascending : (rows.map (·.rowid)).Pairwise (· < ·)
  first : (rows.map (·.rowid))[0]? = some firstRowid
  last : (rows.map (·.rowid))[(rows.map (·.rowid)).length - 1]? = some lastRowid

omit [DecidableEq P] [LinearOrder τ] in
theorem BatchRowids.congr {rows rows' : List (AnomalyDataRow τ V)}
    (h : BatchRowids rows firstRowid lastRowid)
    (hids : rows'.map (·.rowid) = rows.map (·.rowid)) : BatchRowids rows' firstRowid lastRowid :=
  ⟨hids ▸ h.ascending, hids ▸ h.first, hids ▸ h.last⟩

variable {rows : List (AnomalyDataRow τ V)} {s₀ : Scoring τ V P}

/-- A batch that is scored from its first row on, with `fresh` params. -/
theorem marked_batch (hs : helper.Sized) (hactive : m.status = .active)
    (hb : BatchRowids rows firstRowid lastRowid)
    (hstart : helper.startScoring (marking fresh used) m rows = .ok s₀)
    (hzero : s₀.startRowIndex = 0) {p₀ : AnomalyParams P} (hp₀ : s₀.anomalyParams = some p₀)
    (hfresh : p₀.params = fresh)
    (hstage : CutoffStage helper m (helper.getStatisticsRefreshInterval rows.length) firstRowid
      rows.length s₀) :
    ∃ p rows', helper.updateModelAnomalyScores (marking fresh used) m rows = .ok (some p, rows') ∧
      rows'.map (·.unscored) = rows.map (·.unscored) ∧ firstScore rows' = some (1 / 2) ∧
      (p.params = used ∨ (p.params = fresh ∧ p.lastRowidForStats = lastRowid)) ∧
      (firstRowid ≤ p.lastRowidForStats + helper.getStatisticsRefreshInterval rows.length ∨
        m.getProcessedMetricDataCount + rows.length < helper.statisticsMinSampleSize) := by
  have hn : (rows.map (·.rowid)).length = rows.length := List.length_map ..
  have hpos : 0 < rows.length := by
    rw [← hn]
    exact (List.getElem?_eq_some_iff.mp hb.first).1
  obtain ⟨s₁, hok₁, hrows, -⟩ := helper.startScoring_total (marking fresh used) hs hactive rows
  cases hok₁.symm.trans hstart
  obtain ⟨s', hupdate, ⟨-, hstage', hfirst', hend'⟩, hend, hun⟩ :=
    helper.updateModelAnomalyScores_spec (marking fresh used) hs hactive hstart
      (fun s => s.metricDataRows.map (·.rowid) = rows.map (·.rowid) ∧
        CutoffStage helper m (helper.getStatisticsRefreshInterval rows.length) firstRowid
          (rows.map (·.rowid)).length s ∧
        FirstScored (marking fresh used) (fun p => p.params = fresh) s ∧
        MarkedEnd fresh used lastRowid (rows.map (·.rowid)).length s)
      (by
        rintro s s' p row hp hrow hok ⟨hids, hstage, hfirst, -⟩
        refine ⟨(scoreChunk_rowids hs hp hrow hok).trans hids, ?_, ?_, ?_⟩
        · exact hstage.step hs hids hb.ascending hb.first hp hrow hok
        · exact hfirst.step hs (fun _ _ _ _ _ _ => rfl) hids hb.first hp hrow hok
        · exact .step hs hids hb.last hp hrow hok)
      ⟨by rw [hrows], hn.symm ▸ hstage, .pending hzero hp₀ hfresh, by intro h; omega⟩
  obtain ⟨p, hp, hmarked⟩ := hend' (by omega)
  refine ⟨p, s'.metricDataRows, by rw [hupdate, hp], hun, ?_, hmarked, ?_⟩
  · cases hfirst' with
    | pending hzero => omega
    | scored _ hQ sample hscore =>
      rw [hscore]
      simp only [marking, if_pos hQ]
      norm_num
  · cases hstage' with
    | reached hp₁ hle _ =>
      cases hp.symm.trans hp₁
      exact .inl hle
    | unloaded hzero => omega
    | loaded hzero => omega
    | short _ hlen hmin => exact .inr (by omega)
    | «over» _ hmin => exact .inr (hn ▸ hmin)

omit [DecidableEq P] in
/-- Enough samples give a batch params, and a first row that was consumed for the initial
ones keeps its zeroed score. -/
theorem params_of_enough (algorithms : LikelihoodAlgorithms τ V P) (hs : helper.Sized)
    (hactive : m.status = .active) (hp₀ : m.anomalyLikelihoodParams = none)
    (rows : List (AnomalyDataRow τ V))
    (h : helper.statisticsMinSampleSize ≤ m.getProcessedMetricDataCount + rows.length) :
    ∃ p rows', helper.updateModelAnomalyScores algorithms m rows = .ok (some p, rows') ∧
      rows'.map (·.unscored) = rows.map (·.unscored) ∧
      (m.getProcessedMetricDataCount < helper.statisticsMinSampleSize →
        firstScore rows' = firstScore rows) := by
  obtain ⟨-, lastRow, scores, -, hstart⟩ :=
    helper.startScoring_of_enough algorithms hs hactive hp₀ rows h
  obtain ⟨s', hupdate, ⟨hsome, hfirst⟩, hend, hun⟩ :=
    helper.updateModelAnomalyScores_spec algorithms hs hactive hstart
      (fun s => s.anomalyParams.isSome ∧
        (m.getProcessedMetricDataCount < helper.statisticsMinSampleSize →
          0 < s.startRowIndex ∧ firstScore s.metricDataRows = firstScore rows))
      (by
        rintro s s' p row hp hrow hok ⟨-, hfirst⟩
        obtain ⟨s₂, hok₂, hsome, -⟩ := helper.scoreChunk_progress algorithms hs m _ hp hrow
        obtain ⟨s₃, hok₃, hstart, hrows, -⟩ := helper.scoreChunk_spec algorithms hs m _ hp hrow
        cases hok.symm.trans hok₂
        cases hok.symm.trans hok₃
        refine ⟨hsome, fun hfew => ?_⟩
        obtain ⟨hpos, hfirst⟩ := hfirst hfew
        refine ⟨by omega, ?_⟩
        rw [firstScore, hrows, rowsWith_head?_of_pos hpos (List.getElem?_eq_some_iff.mp hrow).1]
        exact hfirst)
      ⟨rfl, fun hfew => ⟨Nat.sub_pos_of_lt hfew, rfl⟩⟩
  obtain ⟨p, hp⟩ := Option.isSome_iff_exists.mp hsome
  exact ⟨p, s'.metricDataRows, by rw [hupdate, hp], hun, fun hfew => (hfirst hfew).2⟩

omit [DecidableEq P] in
/-- The first row of a batch is scored with the stored params, or with refreshed ones where
the cutoff precedes it and there are samples for a refresh. -/
theorem firstScore_of_params (algorithms : LikelihoodAlgorithms τ V P) (hs : helper.Sized)
    (hactive : m.status = .active)
    (hb : BatchRowids rows firstRowid lastRowid) {p₀ : AnomalyParams P}
    (hp₀ : m.anomalyLikelihoodParams = some p₀) (Q : AnomalyParams P → Prop) (hQ₀ : Q p₀)
    (hQ : ∀ p, Q p → p.lastRowidForStats + helper.getStatisticsRefreshInterval rows.length <
        firstRowid → helper.statisticsMinSampleSize ≤ m.getProcessedMetricDataCount →
        ∀ rowid scores,
          Q ⟨rowid, algorithms.estimateAnomalyLikelihoods scores numSkipRecords⟩) :
    ∃ q rows', helper.updateModelAnomalyScores algorithms m rows = .ok (q, rows') ∧
      rows'.map (·.unscored) = rows.map (·.unscored) ∧ ∃ p sample, Q p ∧
        firstScore rows' =
          some (1.0 - (algorithms.updateAnomalyLikelihoods sample p.params).1) := by
  have hpos : 0 < rows.length := by
    rw [← List.length_map (·.rowid)]
    exact (List.getElem?_eq_some_iff.mp hb.first).1
  have hstart := helper.startScoring_of_params algorithms hp₀ rows
  obtain ⟨s', hupdate, ⟨-, hfirst'⟩, hend, hun⟩ :=
    helper.updateModelAnomalyScores_spec algorithms hs hactive hstart
      (fun s => s.metricDataRows.map (·.rowid) = rows.map (·.rowid) ∧ FirstScored algorithms Q s)
      (by
        rintro s s' p row hp hrow hok ⟨hids, hfirst⟩
        refine ⟨(scoreChunk_rowids hs hp hrow hok).trans hids, ?_⟩
        exact hfirst.step hs hQ hids hb.first hp hrow hok)
      ⟨rfl, .pending rfl rfl hQ₀⟩
  refine ⟨s'.anomalyParams, s'.metricDataRows, hupdate, hun, ?_⟩
  cases hfirst' with
  | pending hzero => omega
  | scored _ hQp sample hscore => exact ⟨_, sample, hQp, hscore⟩

/-- From params refreshed at its last row a batch is one run that ends short of the cutoff. -/
theorem fresh_chunk (hs : helper.Sized) (hinterval : 0 < interval)
    (hb : BatchRowids rows firstRowid lastRowid)
    (hrow : rows[0]? = some row)
    (hok : helper.scoreChunk (marking fresh used) m interval
      ⟨some ⟨lastRowid, fresh⟩, none, 0, rows⟩ = .ok s') :
    rows.length ≤ s'.startRowIndex ∧ ∃ p, s'.anomalyParams = some p ∧ p.params = used := by
  have hn : (rows.map (·.rowid)).length = rows.length := List.length_map ..
  have hrowid : row.rowid = firstRowid := by
    have hfirst := hb.first
    rw [List.getElem?_map, hrow] at hfirst
    exact Option.some.inj hfirst
  have hle := rowids_sub_le hb.ascending (Nat.zero_le _) hb.first hb.last
  have hcut : row.rowid ≤ lastRowid + interval := by omega
  have hrun := nextRun_length (lastRowid + interval) row
    (⟨some ⟨lastRowid, fresh⟩, none, 0, rows⟩ : Scoring τ V P)
  rw [if_neg (by omega)] at hrun
  have hlen : (helper.scoreRun (marking fresh used) none 0 ⟨lastRowid, fresh⟩
      (nextRun (lastRowid + interval) row
        (⟨some ⟨lastRowid, fresh⟩, none, 0, rows⟩ : Scoring τ V P))).2.length = _ :=
    (marking_scoreRun none 0 _ _).1
  have hall : (nextRun (lastRowid + interval) row
      (⟨some ⟨lastRowid, fresh⟩, none, 0, rows⟩ : Scoring τ V P)).length = rows.length := by
    rw [hrun]
    simp only
    omega
  obtain ⟨-, hstart, -, z, hz, hcase⟩ := scoreChunk_consumed hs rfl hrow (.inr hcut) hok
  have hused : (helper.scoreRun (marking fresh used) none 0 ⟨lastRowid, fresh⟩
      (nextRun (lastRowid + interval) row
        (⟨some ⟨lastRowid, fresh⟩, none, 0, rows⟩ : Scoring τ V P))).1.params = used := by
    apply (marking_scoreRun none 0 _ _).2
    apply List.ne_nil_of_length_pos
    rw [hall, ← hn]
    exact (List.getElem?_eq_some_iff.mp hb.first).1
  simp only [endRowID, hlen, hall, Nat.zero_add] at hstart hz hcase
  rw [← hn, hb.last] at hz
  have hzlast : lastRowid = z := Option.some.inj hz
  refine ⟨by omega, ?_⟩
  rcases hcase with ⟨hp', -⟩ | ⟨-, -, -, hwhy⟩ | ⟨-, -, hwhy, -⟩
  · exact ⟨_, hp', hused⟩
  · omega
  · omega

/-- From such params the params after the batch are updated ones. -/
theorem used_of_fresh (used : P) (hs : helper.Sized) (hactive : m.status = .active)
    (hinterval : 0 < helper.getStatisticsRefreshInterval rows.length)
    (hb : BatchRowids rows firstRowid lastRowid)
    (hp₀ : m.anomalyLikelihoodParams = some ⟨lastRowid, fresh⟩) :
    ∃ p rows', helper.updateModelAnomalyScores (marking fresh used) m rows = .ok (some p, rows') ∧
      rows'.map (·.unscored) = rows.map (·.unscored) ∧ p.params = used := by
  have hn : (rows.map (·.rowid)).length = rows.length := List.length_map ..
  have hpos : 0 < rows.length := by
    rw [← hn]
    exact (List.getElem?_eq_some_iff.mp hb.first).1
  have hstart := helper.startScoring_of_params (marking fresh used) hp₀ rows
  obtain ⟨s', hupdate, ⟨-, hcase⟩, hend, hun⟩ :=
    helper.updateModelAnomalyScores_spec (marking fresh used) hs hactive hstart
      (fun s => s.metricDataRows.map (·.rowid) = rows.map (·.rowid) ∧
        (s = ⟨some ⟨lastRowid, fresh⟩, none, 0, rows⟩ ∨
          (rows.length ≤ s.startRowIndex ∧ ∃ p, s.anomalyParams = some p ∧ p.params = used)))
      (by
        rintro s s' p row hp hrow hok ⟨hids, hcase⟩
        refine ⟨(scoreChunk_rowids hs hp hrow hok).trans hids, .inr ?_⟩
        rcases hcase with rfl | ⟨hend, -⟩
        · exact fresh_chunk hs hinterval hb hrow hok
        · have hlt := (List.getElem?_eq_some_iff.mp hrow).1
          have hlen := congrArg List.length hids
          rw [List.length_map, List.length_map] at hlen
          omega)
      ⟨rfl, .inl rfl⟩
  rcases hcase with rfl | ⟨-, p, hp, hused⟩
  · exact absurd hend (Nat.not_le.mpr hpos)
  · exact ⟨p, s'.metricDataRows, by rw [hupdate, hp], hun, hused⟩

end

/-! ## Idempotence -/

section

variable [LinearOrder τ] {display : DisplayScale} {m m₁ : AnomalyMetric τ V P}
  {results : List ModelInferenceResult} {scrubbed : List (AnomalyDataRow τ V)}

omit [LinearOrder τ] in
theorem Accepted.batchRowids (h : Accepted m results scrubbed) :
    ∃ firstRowid lastRowid, BatchRowids scrubbed firstRowid lastRowid := by
  have hpos : 0 < (scrubbed.map (·.rowid)).length := by
    rw [List.length_map]
    exact List.length_pos_iff.mpr h.ne_nil
  exact ⟨_, _, h.pairwise, List.getElem?_eq_getElem hpos,
    List.getElem?_eq_getElem (by omega)⟩

omit [LinearOrder τ] in
theorem Accepted.firstScore_eq (h : Accepted m results scrubbed) :
    firstScore scrubbed = some 0 := by
  cases hrows : scrubbed with
  | nil => exact absurd hrows h.ne_nil
  | cons row rows =>
    have hrow : row ∈ scrubbed := hrows ▸ List.mem_cons_self
    exact (h.initialized row hrow).2

/-- The rows that a delivery stores. -/
structure Delivered (display : DisplayScale) (m m' : AnomalyMetric τ V P)
    (results : List ModelInferenceResult) (q : Option (AnomalyParams P))
    (rows : List (AnomalyDataRow τ V)) : Prop where
  rowIDs : rows.map (·.rowid) = results.map (·.rowID)
  nodup : (rows.map (·.rowid)).Nodup
  processed : ∀ r ∈ rows, r.rawAnomalyScore.isSome
  active : m'.status = .active
  params : m'.anomalyLikelihoodParams = q
  stored : m'.rows = m.rows.map (storedRow (rows.map (withDisplayValue display true)))

omit [LinearOrder τ] in
theorem Accepted.delivered (h : Accepted m results scrubbed)
    {rows : List (AnomalyDataRow τ V)} {q : Option (AnomalyParams P)}
    (hun : rows.map (·.unscored) = scrubbed.map (·.unscored)) (display : DisplayScale) :
    ∃ m', updateResults (rows.map (withDisplayValue display true)) q m = some m' ∧
      Delivered display m m' results q rows := by
  obtain ⟨m', hm, hactive, hq, hrows⟩ :=
    updateResults_of_active h.active (rows.map (withDisplayValue display true)) q
  have hids := unscored_rowids hun
  refine ⟨m', hm, hids.trans h.rowIDs.symm, ?_, ?_, hactive, hq, hrows⟩
  · rw [hids]
    exact h.pairwise.imp Nat.ne_of_lt
  · intro r hr
    have hmem : r.unscored ∈ scrubbed.map (·.unscored) := hun ▸ List.mem_map_of_mem hr
    obtain ⟨r', hr', heq⟩ := List.mem_map.mp hmem
    have hraw : r'.rawAnomalyScore = r.rawAnomalyScore := congrArg (·.rawAnomalyScore) heq
    exact hraw ▸ (h.initialized r' hr').1

omit [LinearOrder τ] in
theorem withDisplayValue_rowids (display : DisplayScale) (active : Bool)
    (rows : List (AnomalyDataRow τ V)) :
    (rows.map (withDisplayValue display active)).map (·.rowid) = rows.map (·.rowid) := by
  rw [List.map_map]
  rfl

omit [LinearOrder τ] in
theorem Delivered.count_eq {q : Option (AnomalyParams P)} {rows : List (AnomalyDataRow τ V)}
    (h : Delivered display m m₁ results q rows) :
    m₁.getProcessedMetricDataCount = processedAfter results m := by
  refine getProcessedMetricDataCount_stored ?_ ?_ ?_ h.stored
  · rw [withDisplayValue_rowids, h.rowIDs]
  · rw [withDisplayValue_rowids]
    exact h.nodup
  · intro r hr
    obtain ⟨r', hr', rfl⟩ := List.mem_map.mp hr
    exact h.processed r' hr'

omit [LinearOrder τ] in
theorem Delivered.rows_congr {q : Option (AnomalyParams P)} {rows : List (AnomalyDataRow τ V)}
    (h : Delivered display m m₁ results q rows) :
    m₁.rows.map (·.toMetricDataRow) = m.rows.map (·.toMetricDataRow) := by
  rw [h.stored, List.map_map]
  apply List.map_congr_left
  intro r _
  exact storedRow_toMetricDataRow _ r

omit [LinearOrder τ] in
/-- The row of the table that the first row of a batch is stored in. -/
theorem Delivered.first_stored {q : Option (AnomalyParams P)} {row : AnomalyDataRow τ V}
    {rows : List (AnomalyDataRow τ V)} (h : Delivered display m m₁ results q (row :: rows))
    {r : AnomalyDataRow τ V} (hid : r.rowid = row.rowid) :
    (storedRow ((row :: rows).map (withDisplayValue display true)) r).anomalyScore =
      row.anomalyScore := by
  have hnodup : (((row :: rows).map (withDisplayValue display true)).map (·.rowid)).Nodup := by
    rw [withDisplayValue_rowids]
    exact h.nodup
  have hmem : withDisplayValue display true row ∈
      (row :: rows).map (withDisplayValue display true) := List.mem_map_of_mem List.mem_cons_self
  rw [storedRow_of_mem hnodup hmem hid]
  rfl

omit [LinearOrder τ] in
/-- Two deliveries that leave the same table have scored the first row alike. -/
theorem Delivered.same (h : Accepted m results scrubbed) {q₁ q₂ : Option (AnomalyParams P)}
    {rows₁ rows₂ : List (AnomalyDataRow τ V)} (h₁ : Delivered display m m₁ results q₁ rows₁)
    (h₂ : Delivered display m₁ m₁ results q₂ rows₂) :
    q₁ = q₂ ∧ firstScore rows₁ = firstScore rows₂ := by
  refine ⟨h₁.params.symm.trans h₂.params, ?_⟩
  have hids : rows₁.map (·.rowid) = rows₂.map (·.rowid) := h₁.rowIDs.trans h₂.rowIDs.symm
  cases rows₁ with
  | nil =>
    obtain rfl : rows₂ = [] := by simpa using hids.symm
    rfl
  | cons row₁ rows₁ =>
    cases rows₂ with
    | nil => cases hids
    | cons row₂ rows₂ =>
      rw [List.map_cons, List.map_cons, List.cons.injEq] at hids
      obtain ⟨row, hrow, hid⟩ : ∃ row ∈ scrubbed, row.rowid = row₁.rowid := by
        have hmem : row₁.rowid ∈ results.map (·.rowID) := h₁.rowIDs ▸ List.mem_cons_self
        rw [h.rowIDs] at hmem
        exact List.mem_map.mp hmem
      obtain ⟨r, hr, hrid⟩ := h.mem_rows hrow
      have hr₁ : storedRow ((row₁ :: rows₁).map (withDisplayValue display true)) r ∈ m₁.rows :=
        h₁.stored ▸ List.mem_map_of_mem hr
      have hfix : ∀ r ∈ m₁.rows,
          storedRow ((row₂ :: rows₂).map (withDisplayValue display true)) r = r := by
        have hmap := h₂.stored
        intro r hr
        exact List.map_inj_left.mp (hmap.symm.trans (List.map_id _).symm) r hr
      have hrid₁ := congrArg (·.rowid) (storedRow_toMetricDataRow
        ((row₁ :: rows₁).map (withDisplayValue display true)) r)
      have hscore := congrArg (·.anomalyScore) (hfix _ hr₁)
      rw [h₂.first_stored (hrid₁.trans (hrid.trans (hid.trans hids.1))),
        h₁.first_stored (hrid.trans hid)] at hscore
      exact hscore.symm

/-- The batch that was just stored is accepted once more and leaves the metric as it is. -/
def Idempotent (helper : AnomalyLikelihoodHelper) (display : DisplayScale)
    (algorithms : LikelihoodAlgorithms τ V P) (results : List ModelInferenceResult)
    (m : AnomalyMetric τ V P) : Prop :=
  ∀ m₁ rows, processModelInferenceResults helper display algorithms results (some m) =
      .ok (some m₁, some rows) →
    ∃ rows', processModelInferenceResults helper display algorithms results (some m₁) =
      .ok (some m₁, some rows')

/-- Two deliveries of a batch whose processing is idempotent. -/
theorem Idempotent.deliveries (hs : helper.Sized)
    (hidem : Idempotent helper display algorithms results m) (h : Accepted m results scrubbed)
    {q : Option (AnomalyParams P)} {rows : List (AnomalyDataRow τ V)}
    (hupdate : helper.updateModelAnomalyScores algorithms m scrubbed = .ok (q, rows)) :
    ∃ m₁ scrubbed₁ rows₁, Delivered display m m₁ results q rows ∧
      Accepted m₁ results scrubbed₁ ∧
      helper.updateModelAnomalyScores algorithms m₁ scrubbed₁ = .ok (q, rows₁) ∧
      firstScore rows = firstScore rows₁ := by
  have hun := helper.updateModelAnomalyScores_unscored algorithms hs h.active hupdate
  obtain ⟨m₁, hm₁, hdel⟩ := h.delivered (q := q) hun display
  obtain ⟨rows', hsecond⟩ := hidem m₁ _ (process_of_accepted h hupdate hm₁)
  obtain ⟨scrubbed₁, q₁, rows₁, hacc₁, hupdate₁, rfl, hm₂⟩ := process_stored hsecond
  have hun₁ := helper.updateModelAnomalyScores_unscored algorithms hs hacc₁.active hupdate₁
  obtain ⟨m₂, hm₂', hdel₁⟩ := hacc₁.delivered (q := q₁) hun₁ display
  obtain rfl := Option.some.inj (hm₂.symm.trans hm₂')
  obtain ⟨rfl, hfirst⟩ := hdel.same h hdel₁
  exact ⟨m₁, scrubbed₁, rows₁, hdel, hacc₁, hupdate₁, hfirst⟩

/-- Without params and with too few samples even after the batch, its rows only get their
raw scores. -/
theorem idempotent_of_few (hparams : m.anomalyLikelihoodParams = none)
    (hfew : processedAfter results m + results.length < helper.statisticsMinSampleSize) :
    Idempotent helper display algorithms results m := by
  intro m₁ rows h
  obtain ⟨scrubbed, q, rows₀, hacc, hupdate, rfl, hm₁⟩ := process_stored h
  have hcount := getProcessedMetricDataCount_le results m
  have hlen := hacc.length_eq
  have hnone := helper.updateModelAnomalyScores_of_few algorithms hacc.active hparams
    scrubbed (by omega)
  cases hupdate.symm.trans hnone
  obtain ⟨m₁', hm₁', hdel⟩ := hacc.delivered (q := none) rfl display
  obtain rfl := Option.some.inj (hm₁.symm.trans hm₁')
  obtain ⟨scrubbed₁, hacc₁, hdisplayed⟩ := hacc.congr hdel.active hdel.rows_congr
  have hlen₁ := hacc₁.length_eq
  have hnone₁ := helper.updateModelAnomalyScores_of_few algorithms hacc₁.active hdel.params
    scrubbed₁ (by rw [hdel.count_eq]; omega)
  obtain ⟨m₂, hm₂, hdel₁⟩ := hacc₁.delivered (q := none) rfl display
  have hrows : scrubbed₁.map (withDisplayValue display true) =
      scrubbed.map (withDisplayValue display true) := by
    have hmap := congrArg (List.map (withDisplayValue display true)) hdisplayed
    rw [List.map_map, List.map_map] at hmap
    exact hmap
  have hsame : m₂ = m₁ := by
    apply AnomalyMetric.ext
    · rw [hdel₁.active, hdel.active]
    · rw [hdel₁.params, hdel.params]
    · rw [hdel₁.stored, hrows, hdel.stored, List.map_map]
      apply List.map_congr_left
      intro r _
      refine storedRow_storedRow ?_ r
      rw [withDisplayValue_rowids]
      exact hdel.nodup
  exact ⟨_, hsame ▸ process_of_accepted hacc₁ hnone₁ hm₂⟩

/-- A batch that is scored from its first row on is not processed idempotently: either its
params or the score of its first row change. -/
theorem not_idempotent_of_scored [DecidableEq P] (hs : helper.Sized)
    (hinterval : 0 < helper.getStatisticsRefreshInterval scrubbed.length) {fresh used : P}
    (hne : used ≠ fresh)
    (h : Accepted m results scrubbed) {s₀ : Scoring τ V P}
    (hstart : helper.startScoring (marking fresh used) m scrubbed = .ok s₀)
    (hzero : s₀.startRowIndex = 0) {p₀ : AnomalyParams P} (hp₀ : s₀.anomalyParams = some p₀)
    (hfresh : p₀.params = fresh)
    (hstage : ∀ firstRowid, CutoffStage helper m
      (helper.getStatisticsRefreshInterval scrubbed.length) firstRowid scrubbed.length s₀) :
    ¬ Idempotent helper display (marking fresh used) results m := by
  intro hidem
  obtain ⟨firstRowid, lastRowid, hb⟩ := h.batchRowids
  obtain ⟨p, rows, hupdate, -, hfirst, hmarked, hcut⟩ :=
    marked_batch hs h.active hb hstart hzero hp₀ hfresh (hstage firstRowid)
  obtain ⟨m₁, scrubbed₁, rows₁, hdel, hacc₁, hupdate₁, hsame⟩ := hidem.deliveries hs h hupdate
  have hb₁ : BatchRowids scrubbed₁ firstRowid lastRowid :=
    hb.congr (hacc₁.rowIDs.symm.trans h.rowIDs)
  have hlen : scrubbed₁.length = scrubbed.length := hacc₁.length_eq.trans h.length_eq.symm
  rcases hmarked with hused | ⟨hpfresh, hplast⟩
  · -- the second delivery scores the first row with params that the first one has updated
    have hcount := processedAfter_le results m
    rw [← hdel.count_eq, ← h.length_eq] at hcount
    obtain ⟨q, rows₂, hupdate₂, -, p', sample, rfl, hscore⟩ :=
      firstScore_of_params (marking fresh used) hs hacc₁.active hb₁ hdel.params
        (· = p) rfl (by
          rintro p' rfl hbefore henough
          rw [hlen] at hbefore
          omega)
    cases hupdate₁.symm.trans hupdate₂
    rw [hfirst, hscore] at hsame
    simp only [marking, hused, if_neg hne] at hsame
    norm_num at hsame
  · have hp₁ : m₁.anomalyLikelihoodParams = some ⟨lastRowid, fresh⟩ := by
      rw [hdel.params, ← hpfresh, ← hplast]
    obtain ⟨p', rows₂, hupdate₂, -, hused⟩ :=
      used_of_fresh used hs hacc₁.active (hlen ▸ hinterval) hb₁ hp₁
    cases hupdate₁.symm.trans hupdate₂
    exact hne (hused.symm.trans hpfresh)

/-- Initial params within the first delivery: the rows before them have a zero score, which
the second delivery replaces. -/
theorem not_idempotent_of_init [DecidableEq P] (hs : helper.Sized) {fresh used : P}
    (h : Accepted m results scrubbed) (hparams : m.anomalyLikelihoodParams = none)
    (hfew : m.getProcessedMetricDataCount < helper.statisticsMinSampleSize)
    (henough : helper.statisticsMinSampleSize ≤
      m.getProcessedMetricDataCount + scrubbed.length) :
    ¬ Idempotent helper display (marking fresh used) results m := by
  intro hidem
  obtain ⟨p, rows, hupdate, -, hfirst⟩ :=
    params_of_enough (marking fresh used) hs h.active hparams scrubbed henough
  obtain ⟨m₁, scrubbed₁, rows₁, hdel, hacc₁, hupdate₁, hsame⟩ := hidem.deliveries hs h hupdate
  obtain ⟨firstRowid, lastRowid, hb₁⟩ := hacc₁.batchRowids
  obtain ⟨q, rows₂, hupdate₂, -, p', sample, -, hscore⟩ :=
    firstScore_of_params (marking fresh used) hs hacc₁.active hb₁ hdel.params
      (fun _ => True) trivial (fun _ _ _ _ _ _ => trivial)
  cases hupdate₁.symm.trans hupdate₂
  rw [hfirst hfew, h.firstScore_eq, hscore] at hsame
  simp only [marking] at hsame
  split at hsame <;> norm_num at hsame

/-- Too few samples for initial params before the batch and enough of them after it: the
second delivery generates what the first one did not. -/
theorem not_idempotent_of_count (hs : helper.Sized) (h : Accepted m results scrubbed)
    (hparams : m.anomalyLikelihoodParams = none)
    (hfew : m.getProcessedMetricDataCount + scrubbed.length < helper.statisticsMinSampleSize)
    (henough : helper.statisticsMinSampleSize ≤ processedAfter results m + results.length) :
    ¬ Idempotent helper display algorithms results m := by
  intro hidem
  have hnone := helper.updateModelAnomalyScores_of_few algorithms h.active hparams scrubbed hfew
  obtain ⟨m₁, scrubbed₁, rows₁, hdel, hacc₁, hupdate₁, -⟩ := hidem.deliveries hs h hnone
  obtain ⟨p, rows₂, hupdate₂, -⟩ := params_of_enough algorithms hs hacc₁.active
    hdel.params scrubbed₁ (by rw [hdel.count_eq, hacc₁.length_eq]; exact henough)
  cases hupdate₁.symm.trans hupdate₂

/-- The processing of an accepted batch is idempotent, whatever the likelihood algorithms,
exactly if the metric has no params and its processed rows, those of the batch included,
are too few for initial ones even when the batch is counted once more. -/
theorem results_idempotent_iff [Nontrivial P] (hs : helper.Sized)
    (hinterval : 0 < helper.getStatisticsRefreshInterval results.length)
    (haccepted : ∃ (algorithms : LikelihoodAlgorithms τ V P) (m₁ : AnomalyMetric τ V P)
      (rows : List (AnomalyDataRow τ V)),
      processModelInferenceResults helper display algorithms results (some m) =
        .ok (some m₁, some rows)) :
    (∀ (algorithms : LikelihoodAlgorithms τ V P) (m₁ : AnomalyMetric τ V P)
      (rows : List (AnomalyDataRow τ V)),
      processModelInferenceResults helper display algorithms results (some m) =
        .ok (some m₁, some rows) →
      ∃ rows', processModelInferenceResults helper display algorithms results (some m₁) =
        .ok (some m₁, some rows')) ↔
    m.anomalyLikelihoodParams = none ∧
      processedAfter results m + results.length < helper.statisticsMinSampleSize := by
  classical
  constructor
  · intro hidem
    obtain ⟨algorithms, m₁, rows, haccepted⟩ := haccepted
    obtain ⟨scrubbed, -, -, h, -⟩ := process_stored haccepted
    rw [← h.length_eq] at hinterval
    cases hparams : m.anomalyLikelihoodParams with
    | some p =>
      obtain ⟨used, hne⟩ := exists_ne p.params
      exact absurd (hidem (marking p.params used)) (not_idempotent_of_scored hs hinterval hne h
        (helper.startScoring_of_params _ hparams scrubbed) rfl rfl rfl
        (fun _ => .unloaded rfl rfl))
    | none =>
      refine ⟨rfl, Nat.lt_of_not_le fun henough => ?_⟩
      obtain ⟨fresh, used, hne⟩ := exists_pair_ne P
      by_cases hfew : m.getProcessedMetricDataCount + scrubbed.length <
        helper.statisticsMinSampleSize
      · exact not_idempotent_of_count hs h hparams hfew henough (hidem algorithms)
      · by_cases hcount : m.getProcessedMetricDataCount < helper.statisticsMinSampleSize
        · exact not_idempotent_of_init hs h hparams hcount (Nat.le_of_not_lt hfew)
            (hidem (marking fresh used))
        · obtain ⟨hmany, lastRow, scores, -, hstart⟩ := helper.startScoring_of_enough
            (marking fresh used) hs h.active hparams scrubbed (Nat.le_of_not_lt hfew)
          exact not_idempotent_of_scored hs hinterval hne.symm h hstart
            (Nat.sub_eq_zero_of_le (Nat.le_of_not_lt hcount)) rfl rfl
            (fun _ => .loaded (Nat.sub_eq_zero_of_le (Nat.le_of_not_lt hcount)) rfl hmany)
            (hidem (marking fresh used))
  · rintro ⟨hparams, hfew⟩ algorithms
    exact idempotent_of_few hparams hfew

end

/-! ## A batch of one row -/

/-- The configuration of the applications. -/
def applicationHelper : AnomalyLikelihoodHelper := ⟨24, 100, 8640⟩

def flatDisplay : DisplayScale := ⟨id, fun _ => 0⟩

/-- An active metric with one row, and params or none. -/
def oneRowMetric (q : Option (AnomalyParams ℕ)) (rawAnomalyScore anomalyScore : Option ℚ)
    (displayValue : Option ℤ) : AnomalyMetric ℕ ℕ ℕ where
  status := .active
  anomalyLikelihoodParams := q
  rows := [⟨⟨6, 300, 17⟩, rawAnomalyScore, anomalyScore, displayValue⟩]
  rowids_nodup := List.nodup_singleton _

/-- The first row of a metric. -/
theorem results_idempotent_first_row :
    (∃ (algorithms : LikelihoodAlgorithms ℕ ℕ ℕ) (m₁ : AnomalyMetric ℕ ℕ ℕ)
      (rows : List (AnomalyDataRow ℕ ℕ)),
      processModelInferenceResults applicationHelper flatDisplay algorithms [.success 6 (1 / 4)]
        (some (oneRowMetric none none none none)) = .ok (some m₁, some rows)) ∧
    ∀ (algorithms : LikelihoodAlgorithms ℕ ℕ ℕ) (m₁ : AnomalyMetric ℕ ℕ ℕ)
      (rows : List (AnomalyDataRow ℕ ℕ)),
      processModelInferenceResults applicationHelper flatDisplay algorithms [.success 6 (1 / 4)]
        (some (oneRowMetric none none none none)) = .ok (some m₁, some rows) →
      ∃ rows', processModelInferenceResults applicationHelper flatDisplay algorithms
        [.success 6 (1 / 4)] (some m₁) = .ok (some m₁, some rows') := by
  have haccepted : ∃ (algorithms : LikelihoodAlgorithms ℕ ℕ ℕ) (m₁ : AnomalyMetric ℕ ℕ ℕ)
      (rows : List (AnomalyDataRow ℕ ℕ)),
      processModelInferenceResults applicationHelper flatDisplay algorithms [.success 6 (1 / 4)]
        (some (oneRowMetric none none none none)) = .ok (some m₁, some rows) :=
    ⟨countingAlgorithms, oneRowMetric none (some (1 / 4)) (some 0) (some 0),
      [⟨⟨6, 300, 17⟩, some (1 / 4), some 0, some 0⟩], by decide +kernel⟩
  exact ⟨haccepted, (results_idempotent_iff ⟨by decide, by decide⟩ (by decide) haccepted).mpr
    ⟨rfl, by decide⟩⟩

/-- With stored params each delivery of the batch updates them once more. -/
theorem results_not_idempotent :
    ¬ ∀ (results : List ModelInferenceResult) (m m₁ : AnomalyMetric ℕ ℕ ℕ)
      (rows : List (AnomalyDataRow ℕ ℕ)),
      processModelInferenceResults applicationHelper flatDisplay countingAlgorithms results
        (some m) = .ok (some m₁, some rows) →
      ∃ rows', processModelInferenceResults applicationHelper flatDisplay countingAlgorithms
        results (some m₁) = .ok (some m₁, some rows') := by
  intro h
  have hfirst : processModelInferenceResults applicationHelper flatDisplay countingAlgorithms
      [.success 6 (1 / 4)] (some (oneRowMetric (some ⟨5, 0⟩) none none none)) =
      .ok (some (oneRowMetric (some ⟨5, 1⟩) (some (1 / 4)) (some (1 / 2)) (some 0)),
        some [⟨⟨6, 300, 17⟩, some (1 / 4), some (1 / 2), some 0⟩]) := by decide +kernel
  have hsecond : processModelInferenceResults applicationHelper flatDisplay countingAlgorithms
      [.success 6 (1 / 4)]
      (some (oneRowMetric (some ⟨5, 1⟩) (some (1 / 4)) (some (1 / 2)) (some 0))) =
      .ok (some (oneRowMetric (some ⟨5, 2⟩) (some (1 / 4)) (some (1 / 2)) (some 0)),
        some [⟨⟨6, 300, 17⟩, some (1 / 4), some (1 / 2), some 0⟩]) := by decide +kernel
  obtain ⟨rows', hsame⟩ := h _ _ _ _ hfirst
  cases hsecond.symm.trans hsame

end NumentaApps.AnomalyService
