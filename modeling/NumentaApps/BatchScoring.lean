import NumentaApps.LikelihoodCalls

/-!
# A batch is scored once, over the right history

From the start index of the initialisation on, each row of a batch is scored once, with the
params that the call before it has left. New params are made of the last scored rows of the
metric, up to the last row consumed.
-/
namespace NumentaApps.AnomalyLikelihood
open Repository

variable {τ V P : Type}

/-! ## The scored rows of a metric -/

namespace AnomalyMetric

/-- The rows that were scored before the batch and the rows of it consumed so far, in the
order of their rowids. -/
def scoredRowsWith (consumed : List (AnomalyDataRow τ V)) (m : AnomalyMetric τ V P) :
    List (AnomalyDataRow τ V) :=
  (m.processedRows ++ consumed).insertionSort fun a b => a.rowid ≤ b.rowid

/-- A scored row with a larger rowid has a later timestamp. -/
def Chronological [LT τ] (m : AnomalyMetric τ V P) : Prop :=
  ∀ a ∈ m.processedRows, ∀ b ∈ m.processedRows, a.rowid < b.rowid → a.timestamp < b.timestamp

/-- The rows of the batch come after the scored rows, with larger rowids. -/
structure FollowedBy (m : AnomalyMetric τ V P) (rows : List (AnomalyDataRow τ V)) : Prop where
  ascending : rows.Pairwise fun a b => a.rowid < b.rowid
  later : ∀ a ∈ m.processedRows, ∀ b ∈ rows, a.rowid < b.rowid

variable {m : AnomalyMetric τ V P} {rows : List (AnomalyDataRow τ V)}

theorem rowid_injOn (m : AnomalyMetric τ V P) {a b : AnomalyDataRow τ V}
    (ha : a ∈ m.processedRows) (hb : b ∈ m.processedRows) (h : a.rowid = b.rowid) : a = b :=
  List.inj_on_of_nodup_map m.rowids_nodup (List.mem_of_mem_filter ha) (List.mem_of_mem_filter hb) h

theorem scoredRowsWith_nil_pairwise (m : AnomalyMetric τ V P) :
    (m.scoredRowsWith []).Pairwise fun a b => a.rowid ≤ b.rowid :=
  List.pairwise_insertionSort _ _

theorem scoredRowsWith_nil_perm (m : AnomalyMetric τ V P) :
    (m.scoredRowsWith []).Perm m.processedRows := by
  rw [scoredRowsWith, List.append_nil]
  exact List.perm_insertionSort _ _

/-- The rows consumed come last. -/
theorem scoredRowsWith_eq (h : m.FollowedBy rows) (k : ℕ) :
    m.scoredRowsWith (rows.take k) = m.scoredRowsWith [] ++ rows.take k := by
  have hmem : ∀ a, a ∈ m.scoredRowsWith [] ↔ a ∈ m.processedRows :=
    fun a => m.scoredRowsWith_nil_perm.mem_iff
  have hperm : (m.scoredRowsWith (rows.take k)).Perm (m.scoredRowsWith [] ++ rows.take k) :=
    (List.perm_insertionSort _ _).trans (m.scoredRowsWith_nil_perm.symm.append_right _)
  have hsorted : (m.scoredRowsWith [] ++ rows.take k).Pairwise fun a b => a.rowid ≤ b.rowid := by
    refine List.pairwise_append.mpr ⟨m.scoredRowsWith_nil_pairwise, ?_, ?_⟩
    · exact (h.ascending.sublist (List.take_sublist _ _)).imp fun hlt => hlt.le
    · intro a ha b hb
      exact (h.later a ((hmem a).mp ha) b (List.mem_of_mem_take hb)).le
  refine List.Perm.eq_of_pairwise ?_ (List.pairwise_insertionSort _ _) hsorted hperm
  intro a b ha hb hab hba
  have hrowid : a.rowid = b.rowid := Nat.le_antisymm hab hba
  rw [hperm.mem_iff, List.mem_append, hmem] at ha
  rw [List.mem_append, hmem] at hb
  rcases ha with ha | ha <;> rcases hb with hb | hb
  · exact m.rowid_injOn ha hb hrowid
  · exact absurd (h.later a ha b (List.mem_of_mem_take hb)) (by omega)
  · exact absurd (h.later b hb a (List.mem_of_mem_take ha)) (by omega)
  · have hnodup : (rows.map (·.rowid)).Nodup :=
      List.pairwise_map.mpr (h.ascending.imp fun hlt => hlt.ne)
    exact List.inj_on_of_nodup_map hnodup (List.mem_of_mem_take ha) (List.mem_of_mem_take hb) hrowid

variable [LinearOrder τ]

/-- In a chronological metric the tail is the last of the scored rows. -/
theorem tailMetricDataWithRawAnomalyScores_eq (h : m.Chronological) (limit : ℕ) :
    m.tailMetricDataWithRawAnomalyScores limit = (m.scoredRowsWith []).rtake limit := by
  have hperm := m.scoredRowsWith_nil_perm
  have hdescending : (m.scoredRowsWith []).reverse.Pairwise
      fun a b => b.timestamp ≤ a.timestamp := by
    refine List.pairwise_reverse.mpr (m.scoredRowsWith_nil_pairwise.imp_of_mem ?_)
    intro a b ha hb hab
    rcases Nat.lt_or_eq_of_le hab with hlt | heq
    · exact (h a (hperm.mem_iff.mp ha) b (hperm.mem_iff.mp hb) hlt).le
    · rw [m.rowid_injOn (hperm.mem_iff.mp ha) (hperm.mem_iff.mp hb) heq]
  have hsort : (m.processedRows.insertionSort fun a b => b.timestamp ≤ a.timestamp) =
      (m.scoredRowsWith []).reverse := by
    refine List.Perm.eq_of_pairwise ?_ (List.pairwise_insertionSort _ _) hdescending
      ((List.perm_insertionSort _ _).trans (hperm.symm.trans (List.reverse_perm _).symm))
    intro a b ha hb hab hba
    rw [List.mem_insertionSort] at ha
    rw [List.mem_reverse, hperm.mem_iff] at hb
    rcases Nat.lt_trichotomy a.rowid b.rowid with hlt | heq | hlt
    · exact absurd (h a ha b hb hlt) (not_lt.mpr hab)
    · exact m.rowid_injOn ha hb heq
    · exact absurd (h b hb a ha hlt) (not_lt.mpr hba)
  unfold tailMetricDataWithRawAnomalyScores
  split
  · rename_i hzero
    rw [hzero, List.rtake_zero]
  · rw [getMetricDataWithRawAnomalyScoresTail, hsort, List.rtake_eq_reverse_take_reverse]

end AnomalyMetric

/-! ## The samples cache -/

/-- The samples are the last ones of a history, and enough of them to make params of. -/
structure Latest (statisticsSampleSize : ℕ) (history samples : List (Sample τ V)) : Prop where
  suffix : samples <:+ history
  enough : min history.length statisticsSampleSize ≤ samples.length

section

variable {size : ℕ} {history samples : List (Sample τ V)}

theorem Latest.rtake_eq (h : Latest size history samples) :
    samples.rtake size = history.rtake size := by
  obtain ⟨before, rfl⟩ := h.suffix
  have henough := h.enough
  rw [List.length_append] at henough
  rw [List.rtake, List.rtake, List.length_append, List.drop_append]
  by_cases hlt : samples.length < size
  · have hbefore : before = [] := by
      apply List.length_eq_zero_iff.mp
      omega
    rw [hbefore, List.drop_nil, List.length_nil, Nat.zero_add, Nat.sub_zero, List.nil_append]
  · have hbefore : before.drop (before.length + samples.length - size) = [] := by
      apply List.drop_of_length_le
      omega
    have hsub : before.length + samples.length - size - before.length =
        samples.length - size := by omega
    rw [hbefore, hsub, List.nil_append]

/-- Consumed samples go to the end of both. -/
theorem Latest.append (h : Latest size history samples) (consumed : List (Sample τ V)) :
    Latest size (history ++ consumed) (samples ++ consumed) where
  suffix := by
    obtain ⟨before, rfl⟩ := h.suffix
    exact ⟨before, (List.append_assoc ..).symm⟩
  enough := by
    have henough := h.enough
    simp only [List.length_append]
    omega

theorem Latest.of_tail (size : ℕ) (history consumed : List (Sample τ V)) :
    Latest size (history ++ consumed) (history.rtake (size - consumed.length) ++ consumed) where
  suffix := by
    refine ⟨history.take (history.length - (size - consumed.length)), ?_⟩
    rw [← List.append_assoc, List.rtake, List.take_append_drop]
  enough := by
    simp only [List.length_append, List.rtake, List.length_drop]
    omega

end

/-! ## Estimates in a log -/

/-- An estimate is given the samples that belong to the number of updates before it. -/
def EstimatesOf (samplesAfter : ℕ → List (Sample τ V)) (calls : List (LikelihoodCall τ V P)) :
    Prop :=
  ∀ before anomalyScores q after, calls = before ++ .estimate anomalyScores q :: after →
    anomalyScores = samplesAfter (updatedRows before).length

section

variable {samplesAfter : ℕ → List (Sample τ V)} {calls : List (LikelihoodCall τ V P)}

theorem EstimatesOf.concat (h : EstimatesOf samplesAfter calls) {call : LikelihoodCall τ V P}
    (hcall : ∀ anomalyScores q, call = .estimate anomalyScores q →
      anomalyScores = samplesAfter (updatedRows calls).length) :
    EstimatesOf samplesAfter (calls ++ [call]) := by
  intro before anomalyScores q after heq
  rcases List.eq_nil_or_concat after with rfl | ⟨after', last, rfl⟩
  · obtain ⟨rfl, hlast⟩ := List.append_inj' heq rfl
    exact hcall anomalyScores q (List.head_eq_of_cons_eq hlast)
  · rw [List.concat_eq_append, ← List.cons_append, ← List.append_assoc] at heq
    exact h before anomalyScores q after' (List.append_inj' heq rfl).1

/-- The updates of a run are no estimates. -/
theorem EstimatesOf.append (h : EstimatesOf samplesAfter calls)
    {runCalls : List (LikelihoodCall τ V P)}
    (hrun : ∀ anomalyScores q, .estimate anomalyScores q ∉ runCalls) :
    EstimatesOf samplesAfter (calls ++ runCalls) := by
  induction runCalls using List.reverseRecOn with
  | nil => rwa [List.append_nil]
  | append_singleton runCalls call ih =>
    rw [← List.append_assoc]
    apply (ih fun scores q hmem => hrun scores q (List.mem_append_left _ hmem)).concat
    intro scores q hcall
    exact absurd (List.mem_append_right _ (hcall ▸ List.mem_singleton_self _)) (hrun scores q)

end

/-! ## The loop -/

namespace AnomalyLikelihoodHelper

variable (helper : AnomalyLikelihoodHelper) (algorithms : LikelihoodAlgorithms τ V P)

/-- The samples of the metric when the first rows of the batch have been consumed. -/
def historyOf (m : AnomalyMetric τ V P) (rows : List (AnomalyDataRow τ V)) (k : ℕ) :
    List (Sample τ V) :=
  (m.scoredRowsWith (rows.take k)).map (·.sample)

theorem historyOf_eq {m : AnomalyMetric τ V P} {rows : List (AnomalyDataRow τ V)}
    (h : m.FollowedBy rows) (k : ℕ) :
    historyOf m rows k =
      (m.scoredRowsWith []).map (·.sample) ++ (rows.take k).map (·.sample) := by
  rw [historyOf, AnomalyMetric.scoredRowsWith_eq h, List.map_append]

theorem historyOf_add {m : AnomalyMetric τ V P} {rows : List (AnomalyDataRow τ V)}
    (h : m.FollowedBy rows) (k n : ℕ) :
    historyOf m rows (k + n) = historyOf m rows k ++ ((rows.drop k).take n).map (·.sample) := by
  rw [historyOf_eq h, historyOf_eq h, List.take_add, List.map_append, List.append_assoc]

/-- What holds between two chunks: the calls so far are for the rows between the start index
of the scoring and the current one, and the samples cache is the last of the history. -/
structure Covers (m : AnomalyMetric τ V P) (rows : List (AnomalyDataRow τ V)) (start : ℕ)
    (s : Scoring τ V P) (calls : List (LikelihoodCall τ V P)) : Prop extends
    Consumed rows start s calls where
  threaded : Threaded m.anomalyLikelihoodParams calls
  params : s.anomalyParams = paramsAfter m.anomalyLikelihoodParams calls
  cache_none : s.startRowIndex < rows.length → s.statsSampleCache = none → s.startRowIndex = 0
  cache_some : s.startRowIndex < rows.length → ∀ samples ∈ s.statsSampleCache,
    Latest helper.statisticsSampleSize (historyOf m rows s.startRowIndex)
      (samples.map (·.sample))
  estimates : EstimatesOf
    (fun k => (historyOf m rows (start + k)).rtake helper.statisticsSampleSize) calls

section

variable {helper} {m : AnomalyMetric τ V P} {rows : List (AnomalyDataRow τ V)} {start : ℕ}
  {s s' : Scoring τ V P} {calls chunkCalls : List (LikelihoodCall τ V P)}

theorem rtake_map {α β : Type} (f : α → β) (l : List α) (n : ℕ) :
    (l.map f).rtake n = (l.rtake n).map f := by
  rw [List.rtake, List.rtake, List.length_map, List.map_drop]

theorem Logged.window_eq (samples : List (AnomalyDataRow τ V)) :
    Logged.window helper samples =
      (samples.map (·.sample)).rtake helper.statisticsSampleSize :=
  (rtake_map _ _ _).symm

variable [LinearOrder τ]

/-- A refresh appends the consumed rows to samples that are the last of the history. -/
theorem Covers.extendCache (hchron : m.Chronological) (hrows : m.FollowedBy rows)
    (h : helper.Covers m rows start s calls) (hlt : s.startRowIndex < rows.length)
    {consumed : List (AnomalyDataRow τ V)}
    (hconsumed : consumed.map (·.sample) =
      ((rows.drop s.startRowIndex).take consumed.length).map (·.sample)) :
    Latest helper.statisticsSampleSize (historyOf m rows (s.startRowIndex + consumed.length))
      ((helper.extendCache m consumed s.statsSampleCache).map (·.sample)) := by
  rw [historyOf_add hrows, ← hconsumed]
  cases hcache : s.statsSampleCache with
  | none =>
    have hhistory : historyOf m rows s.startRowIndex = (m.scoredRowsWith []).map (·.sample) := by
      rw [historyOf, h.cache_none hlt hcache, List.take_zero]
    have htail := Latest.of_tail helper.statisticsSampleSize
      ((m.scoredRowsWith []).map (·.sample)) (consumed.map (·.sample))
    rw [rtake_map, List.length_map] at htail
    rw [AnomalyLikelihoodHelper.extendCache, List.map_append,
      AnomalyMetric.tailMetricDataWithRawAnomalyScores_eq hchron, hhistory]
    exact htail
  | some samples =>
    rw [AnomalyLikelihoodHelper.extendCache, List.map_append]
    exact (h.cache_some hlt samples (hcache ▸ rfl)).append _

/-- A chunk scores the next rows, and refreshes the params from what it has consumed. -/
theorem Covers.scoreChunk (hs : helper.Sized) (hchron : m.Chronological)
    (hrows : m.FollowedBy rows) {interval : ℕ} (h : helper.Covers m rows start s calls)
    (hchunk : Logged.scoreChunk helper algorithms m interval s = .ok (s', chunkCalls)) :
    helper.Covers m rows start s' (calls ++ chunkCalls) := by
  have hconsumed := h.toConsumed.scoreChunk algorithms hs hchunk
  obtain ⟨p, row, hp, hrow, hstart, -, hcase⟩ := Logged.scoreChunk_spec algorithms hs hchunk
  have hlt : s.startRowIndex < rows.length :=
    h.length_eq ▸ (List.getElem?_eq_some_iff.mp hrow).1
  have hupdated := Logged.updatedRows_nextRun helper algorithms s.statsSampleCache p
    (helper.endRowID interval p s.statsSampleCache row) row s
  have hscored := Logged.scoredRows_scoreRun helper algorithms s.statsSampleCache 0 p
    (nextRun (helper.endRowID interval p s.statsSampleCache row) row s)
  have hthreaded := Logged.threaded_scoreRun helper algorithms s.statsSampleCache 0 p
    (nextRun (helper.endRowID interval p s.statsSampleCache row) row s)
  have hparams := Logged.paramsAfter_scoreRun helper algorithms s.statsSampleCache 0 p
    (nextRun (helper.endRowID interval p s.statsSampleCache row) row s)
  have hnone := Logged.not_estimate_mem_scoreRun helper algorithms s.statsSampleCache 0 p
    (nextRun (helper.endRowID interval p s.statsSampleCache row) row s)
  generalize helper.endRowID interval p s.statsSampleCache row = e at *
  generalize Logged.scoreRun helper algorithms s.statsSampleCache 0 p (nextRun e row s) = run at *
  obtain ⟨p', consumed, runCalls⟩ := run
  simp only at hupdated hscored hthreaded hparams hnone hstart hcase
  rw [h.drop_eq] at hupdated
  have hlength : (updatedRows runCalls).length = consumed.length := by
    rw [← scoredRows_length, hscored]
  have hsamples : consumed.map (·.sample) =
      ((rows.drop s.startRowIndex).take consumed.length).map (·.sample) := by
    rw [← hupdated, ← scoredRows_sample, hscored]
  have hlatest := h.extendCache hchron hrows hlt hsamples
  have hrun := h.estimates.append hnone
  have hcache : s'.startRowIndex < rows.length → s'.statsSampleCache =
      some (helper.extendCache m consumed s.statsSampleCache) := by
    intro hlt'
    rcases hcase with ⟨-, -, -, hend, -⟩ | ⟨hcache, -⟩
    · rw [h.length_eq] at hend
      omega
    · exact hcache
  -- The calls of the chunk are those of its run, and one of a refresh or none.
  have hrest : Threaded m.anomalyLikelihoodParams (calls ++ chunkCalls) ∧
      s'.anomalyParams = paramsAfter m.anomalyLikelihoodParams (calls ++ chunkCalls) ∧
      EstimatesOf (fun k => (historyOf m rows (start + k)).rtake helper.statisticsSampleSize)
        (calls ++ chunkCalls) := by
    have hthread : Threaded m.anomalyLikelihoodParams (calls ++ runCalls) := by
      rw [threaded_append, ← h.params, hp]
      exact ⟨h.threaded, hthreaded⟩
    have hafter : paramsAfter m.anomalyLikelihoodParams (calls ++ runCalls) = some p' := by
      rw [paramsAfter_append, ← h.params, hp, hparams]
    rcases hcase with ⟨rfl, hq, -⟩ | ⟨-, -, ⟨-, rfl, hq⟩ | ⟨-, lastRow, q, -, -, rfl, hq⟩⟩
    · exact ⟨hthread, hq.trans hafter.symm, hrun⟩
    · exact ⟨hthread, hq.trans hafter.symm, hrun⟩
    · rw [← List.append_assoc, threaded_append]
      have hnew : paramsAfter m.anomalyLikelihoodParams (calls ++ runCalls ++
          [.estimate (Logged.window helper (helper.extendCache m consumed s.statsSampleCache)) q]) =
          some q := paramsAfter_append
      refine ⟨⟨hthread, trivial⟩, hq.trans hnew.symm, hrun.concat fun scores q' heq => ?_⟩
      obtain ⟨rfl, -⟩ := LikelihoodCall.estimate.inj heq
      rw [Logged.window_eq, hlatest.rtake_eq, updatedRows_append, List.length_append, hlength,
        h.index, Nat.add_assoc]
  refine ⟨hconsumed, hrest.1, hrest.2.1, ?_, ?_, hrest.2.2⟩
  · intro hlt' hnocache
    rw [hcache hlt'] at hnocache
    cases hnocache
  · intro hlt' samples hmem
    rw [hcache hlt'] at hmem
    obtain rfl := Option.some.inj hmem
    rw [hstart]
    exact hlatest

/-! ## The initialisation -/

end

/-! ### Two rows after two -/

end AnomalyLikelihoodHelper
end NumentaApps.AnomalyLikelihood
