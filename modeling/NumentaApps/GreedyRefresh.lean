import Mathlib.Data.List.Dedup
import Mathlib.Tactic.NormNum
import NumentaApps.LikelihoodCalls

/-!
# The greedy refresh

A row that is scored over the threshold is to be the last sample of new params before
anything else is done, as far as there are samples enough. Every row of a batch is but the
last one: after it the params are refreshed only if it has reached the cutoff.
-/
namespace NumentaApps.AnomalyLikelihood
open Repository

variable {τ V P : Type}

/-- An element of an appended list is in the one or in the other. -/
theorem append_eq_append_cons {α : Type} {l l' before after : List α} {x : α}
    (h : l ++ l' = before ++ x :: after) :
    (∃ rest, l = before ++ x :: rest ∧ after = rest ++ l') ∨
      ∃ earlier, before = l ++ earlier ∧ l' = earlier ++ x :: after := by
  rcases List.append_eq_append_iff.mp h with ⟨as, hbefore, hl'⟩ | ⟨bs, hl, hafter⟩
  · exact .inr ⟨as, hbefore, hl'⟩
  · cases bs with
    | nil =>
      rw [List.append_nil] at hl
      exact .inr ⟨[], by rw [hl, List.append_nil], hafter.symm⟩
    | cons b bs =>
      obtain ⟨rfl, rfl⟩ := List.cons.inj hafter
      exact .inl ⟨bs, hl, rfl⟩

/-- The anomaly score of a row is over the threshold, and the params in force are made of
rows more than three before it. -/
def Exceeds (md : AnomalyDataRow τ V) (anomalyParams : AnomalyParams P) (likelihood : ℚ) : Prop :=
  1.0 - likelihood > 0.99 ∧ anomalyParams.lastRowidForStats + 3 < md.rowid

/-- Some update of a log is of a row over the threshold. -/
def SomeExceeds (calls : List (LikelihoodCall τ V P)) : Prop :=
  ∃ md q likelihood params, .update md q likelihood params ∈ calls ∧ Exceeds md q likelihood

theorem SomeExceeds.append_right {calls later : List (LikelihoodCall τ V P)} (h : SomeExceeds calls) :
    SomeExceeds (calls ++ later) := by
  obtain ⟨md, q, likelihood, params, hmem, hexceeds⟩ := h
  exact ⟨md, q, likelihood, params, List.mem_append_left _ hmem, hexceeds⟩

theorem SomeExceeds.append_left {earlier calls : List (LikelihoodCall τ V P)} (h : SomeExceeds calls) :
    SomeExceeds (earlier ++ calls) := by
  obtain ⟨md, q, likelihood, params, hmem, hexceeds⟩ := h
  exact ⟨md, q, likelihood, params, List.mem_append_right _ hmem, hexceeds⟩

/-- The next call makes new params of the samples down to the row. -/
def RefreshedAt (md : AnomalyDataRow τ V) (after : List (LikelihoodCall τ V P)) : Prop :=
  ∃ anomalyScores q later, after = .estimate anomalyScores q :: later ∧
    q.lastRowidForStats = md.rowid ∧ anomalyScores.getLast? = some md.sample

theorem not_refreshedAt_nil (md : AnomalyDataRow τ V) :
    ¬ RefreshedAt md ([] : List (LikelihoodCall τ V P)) := by
  rintro ⟨anomalyScores, q, later, h, -⟩
  cases h

theorem refreshedAt_cons_append {md : AnomalyDataRow τ V} {call : LikelihoodCall τ V P}
    {calls later : List (LikelihoodCall τ V P)} :
    RefreshedAt md (call :: calls ++ later) ↔ RefreshedAt md (call :: calls) := by
  constructor
  · rintro ⟨anomalyScores, q, after, h, hq, hlast⟩
    exact ⟨anomalyScores, q, calls, by rw [(List.cons.inj h).1], hq, hlast⟩
  · rintro ⟨anomalyScores, q, after, h, hq, hlast⟩
    exact ⟨anomalyScores, q, calls ++ later, by rw [(List.cons.inj h).1]; rfl, hq, hlast⟩

/-- The number of rows up to a row of the batch that have been scored with it: before the
batch, or in it up to the index of the row. -/
def AnomalyMetric.scoredUpTo (rows : List (AnomalyDataRow τ V)) (k : ℕ) (md : AnomalyDataRow τ V)
    (m : AnomalyMetric τ V P) : ℕ :=
  (((m.processedRows ++ rows.take (k + 1)).map (·.rowid)).filter (· ≤ md.rowid)).dedup.length

theorem AnomalyMetric.scoredUpTo_le (rows : List (AnomalyDataRow τ V)) (k : ℕ)
    (md : AnomalyDataRow τ V) (m : AnomalyMetric τ V P) :
    m.scoredUpTo rows k md ≤ m.getProcessedMetricDataCount + (k + 1) := by
  have hdedup := (List.dedup_sublist
    (((m.processedRows ++ rows.take (k + 1)).map (·.rowid)).filter (· ≤ md.rowid))).length_le
  have hfilter := List.length_filter_le (· ≤ md.rowid)
    ((m.processedRows ++ rows.take (k + 1)).map (·.rowid))
  have htake := List.length_take_le (k + 1) rows
  rw [List.length_map, List.length_append] at hfilter
  rw [scoredUpTo, getProcessedMetricDataCount]
  omega

def ContiguousRows (rows : List (AnomalyDataRow τ V)) : Prop :=
  rows.IsChain fun a b => b.rowid = a.rowid + 1

theorem ContiguousRows.rowid_eq {rows : List (AnomalyDataRow τ V)} (h : ContiguousRows rows)
    {i n : ℕ} {a b : AnomalyDataRow τ V} (ha : rows[i]? = some a) (hb : rows[i + n]? = some b) :
    b.rowid = a.rowid + n := by
  induction n generalizing b with
  | zero => rw [Option.some.inj (ha.symm.trans hb), Nat.add_zero]
  | succ n ih =>
    obtain ⟨hlt, rfl⟩ := List.getElem?_eq_some_iff.mp hb
    have hlt' : i + n < rows.length := Nat.lt_of_succ_lt hlt
    have hprevious : rows[i + n].rowid = a.rowid + n := ih (List.getElem?_eq_getElem hlt')
    have hnext : rows[i + (n + 1)].rowid = rows[i + n].rowid + 1 :=
      List.isChain_iff_getElem.mp h (i + n) hlt
    rw [hnext, hprevious, Nat.add_assoc]

namespace AnomalyLikelihoodHelper

variable (helper : AnomalyLikelihoodHelper) (algorithms : LikelihoodAlgorithms τ V P)

/-- There are more rows in the batch, or the row has reached the cutoff of the refresh
interval, or the samples are just enough with it and too few when an earlier row of the
batch was over the threshold. -/
def RefreshesGreedily (m : AnomalyMetric τ V P) (rows : List (AnomalyDataRow τ V)) (k : ℕ)
    (before : List (LikelihoodCall τ V P)) (md : AnomalyDataRow τ V) (q : AnomalyParams P) : Prop :=
  k + 1 < rows.length ∨
    q.lastRowidForStats + helper.getStatisticsRefreshInterval rows.length ≤ md.rowid ∨
    (m.getProcessedMetricDataCount + (k + 1) = helper.statisticsMinSampleSize ∧ SomeExceeds before)

/-! ## The rows of a run -/

section

variable (cache : Option (List (AnomalyDataRow τ V)))

/-- The params of a run are all of the same refresh, and it ends with a row over the
threshold if there are samples enough. -/
theorem Logged.scoreRun_update {k : ℕ} {p q : AnomalyParams P} {rows : List (AnomalyDataRow τ V)}
    {before after : List (LikelihoodCall τ V P)} {md : AnomalyDataRow τ V} {likelihood : ℚ}
    {params : P} (h : (Logged.scoreRun helper algorithms cache k p rows).2.2 =
      before ++ .update md q likelihood params :: after) :
    q.lastRowidForStats = p.lastRowidForStats ∧ rows[before.length]? = some md ∧
      (Exceeds md q likelihood → (∀ samples ∈ cache,
        helper.statisticsMinSampleSize ≤ samples.length + (k + before.length + 1)) →
        after = []) := by
  induction rows generalizing k p before with
  | nil => simp [scoreRun] at h
  | cons row rows ih =>
    simp only [scoreRun] at h
    split at h
    · cases before with
      | nil =>
        obtain ⟨hcall, rfl⟩ := List.cons.inj h
        cases hcall
        exact ⟨rfl, rfl, fun _ _ => rfl⟩
      | cons call before => simp at h
    · rename_i hgoes
      cases before with
      | nil =>
        obtain ⟨hcall, -⟩ := List.cons.inj h
        cases hcall
        exact ⟨rfl, rfl, fun hexceeds henough => absurd ⟨hexceeds.1, hexceeds.2, henough⟩ hgoes⟩
      | cons call before =>
        obtain ⟨-, hrest⟩ := List.cons.inj h
        obtain ⟨hlast, hmd, hstop⟩ := ih hrest
        refine ⟨hlast, hmd, fun hexceeds henough => hstop hexceeds fun samples hmem => ?_⟩
        have hle := henough samples hmem
        rw [List.length_cons] at hle
        omega

/-- A run that stops before its end has met a row over the threshold. -/
theorem Logged.scoreRun_someExceeds (k : ℕ) (p : AnomalyParams P)
    (rows : List (AnomalyDataRow τ V))
    (h : (Logged.scoreRun helper algorithms cache k p rows).2.1.length < rows.length) :
    SomeExceeds (Logged.scoreRun helper algorithms cache k p rows).2.2 := by
  induction rows generalizing k p with
  | nil => exact absurd h (Nat.not_lt_zero _)
  | cons row rows ih =>
    simp only [scoreRun] at h ⊢
    split at h
    · rename_i hstops
      rw [if_pos hstops]
      exact ⟨row, p, _, _, List.mem_cons_self, hstops.1, hstops.2.1⟩
    · rename_i hgoes
      rw [if_neg hgoes]
      obtain ⟨md, q, likelihood, params, hmem, hexceeds⟩ := ih _ _ (Nat.lt_of_succ_lt_succ h)
      exact ⟨md, q, likelihood, params, List.mem_cons_of_mem _ hmem, hexceeds⟩

end

theorem updatedRows_length {calls : List (LikelihoodCall τ V P)}
    (h : ∀ scores q, .estimate scores q ∉ calls) : (updatedRows calls).length = calls.length := by
  induction calls with
  | nil => rfl
  | cons call calls ih =>
    have hrest := ih fun scores q hmem => h scores q (List.mem_cons_of_mem _ hmem)
    cases call with
    | estimate scores q => exact absurd List.mem_cons_self (h scores q)
    | update md q likelihood params => exact congrArg (· + 1) hrest

/-! ## The cutoff -/

/-- A row with samples enough up to it has reached the cutoff if it has passed the refresh
interval, or if the samples were too few at the last refresh. -/
theorem endRowID_le_iff {interval j : ℕ} {p : AnomalyParams P}
    {cache : Option (List (AnomalyDataRow τ V))} {row : AnomalyDataRow τ V}
    (henough : ∀ samples ∈ cache, helper.statisticsMinSampleSize ≤ samples.length + (j + 1)) :
    helper.endRowID interval p cache row ≤ row.rowid + j ↔
      p.lastRowidForStats + interval ≤ row.rowid + j ∨
        ∃ samples ∈ cache, samples.length < helper.statisticsMinSampleSize := by
  cases cache with
  | none => simp [endRowID]
  | some samples =>
    have hle := henough samples rfl
    simp only [endRowID, Option.mem_def, Option.some.injEq, exists_eq_left']
    split
    · split <;> omega
    · omega

/-! ## The loop -/

/-- For each row that is scored over the threshold with samples enough, the params are
refreshed at the row if the condition holds, and only then. -/
def GreedyIff (m : AnomalyMetric τ V P) (rows : List (AnomalyDataRow τ V)) (start : ℕ)
    (calls : List (LikelihoodCall τ V P)) : Prop :=
  ∀ before md q likelihood params after,
    calls = before ++ .update md q likelihood params :: after → Exceeds md q likelihood →
    helper.statisticsMinSampleSize ≤
      m.scoredUpTo rows (start + (updatedRows before).length) md →
    (RefreshedAt md after ↔
      helper.RefreshesGreedily m rows (start + (updatedRows before).length) before md q)

/-- What holds between two chunks. A samples cache that is too short is all there is, and it
was loaded because the cutoff was reached or a row was over the threshold. -/
structure Greedy (m : AnomalyMetric τ V P) (rows : List (AnomalyDataRow τ V)) (start : ℕ)
    (s : Scoring τ V P) (calls : List (LikelihoodCall τ V P)) : Prop extends
    Consumed rows start s calls where
  cache_none : s.startRowIndex < rows.length → s.statsSampleCache = none →
    s.startRowIndex = 0 ∧ calls = []
  cache_ge : s.startRowIndex < rows.length → ∀ samples ∈ s.statsSampleCache,
    min helper.statisticsSampleSize (m.getProcessedMetricDataCount + s.startRowIndex) ≤
      samples.length
  cache_le : s.startRowIndex < rows.length → ∀ samples ∈ s.statsSampleCache,
    samples.length ≤ m.getProcessedMetricDataCount + s.startRowIndex
  cache_short : ∀ samples ∈ s.statsSampleCache,
    samples.length < helper.statisticsMinSampleSize →
    ∀ p ∈ s.anomalyParams, ∀ row ∈ rows[s.startRowIndex]?,
      p.lastRowidForStats + helper.getStatisticsRefreshInterval rows.length < row.rowid ∨
        SomeExceeds calls
  greedy : helper.GreedyIff m rows start calls

section

variable {helper} {m : AnomalyMetric τ V P} {rows : List (AnomalyDataRow τ V)} {start : ℕ}
  {s s' : Scoring τ V P} {calls chunkCalls : List (LikelihoodCall τ V P)}

/-- With samples enough in the metric there are enough of them in the cache. -/
theorem Greedy.enough (hs : helper.Sized) (h : helper.Greedy m rows start s calls)
    (hlt : s.startRowIndex < rows.length) {n : ℕ}
    (hn : helper.statisticsMinSampleSize ≤
      m.getProcessedMetricDataCount + (s.startRowIndex + n)) :
    ∀ samples ∈ s.statsSampleCache, helper.statisticsMinSampleSize ≤ samples.length + n := by
  intro samples hmem
  have hge := h.cache_ge hlt samples hmem
  have hmin := hs.min_le
  omega

/-- The samples that a chunk refreshes from. -/
theorem Greedy.extendCache_length [LinearOrder τ] (h : helper.Greedy m rows start s calls)
    (hlt : s.startRowIndex < rows.length) (consumed : List (AnomalyDataRow τ V)) :
    min helper.statisticsSampleSize
        (m.getProcessedMetricDataCount + (s.startRowIndex + consumed.length)) ≤
      (helper.extendCache m consumed s.statsSampleCache).length ∧
    (helper.extendCache m consumed s.statsSampleCache).length ≤
      m.getProcessedMetricDataCount + (s.startRowIndex + consumed.length) := by
  cases hcache : s.statsSampleCache with
  | none =>
    have hzero := (h.cache_none hlt hcache).1
    rw [extendCache_length_none, hzero]
    omega
  | some samples =>
    have hge := h.cache_ge hlt samples hcache
    have hle := h.cache_le hlt samples hcache
    rw [extendCache_length_some]
    omega

/-- A row of a run is a row of the batch, up to the cutoff. -/
theorem nextRun_getElem? {e j : ℕ} {row md : AnomalyDataRow τ V}
    (h : (nextRun e row s)[j]? = some md) :
    s.metricDataRows[s.startRowIndex + j]? = some md ∧ row.rowid + j ≤ e := by
  have hlt := (List.getElem?_eq_some_iff.mp h).1
  rw [nextRun_length] at hlt
  have hle : row.rowid + j ≤ e := by
    split at hlt <;> omega
  refine ⟨?_, hle⟩
  rw [nextRun, List.getElem?_take] at h
  split at h
  · rwa [List.getElem?_drop] at h
  · cases h

/-- At a row over the threshold with samples enough, the condition says that a refresh
follows the run. -/
theorem Greedy.refreshesGreedily_iff (hs : helper.Sized) (hrows : ContiguousRows rows)
    (h : helper.Greedy m rows start s calls) {p : AnomalyParams P} (hp : s.anomalyParams = some p)
    {row md : AnomalyDataRow τ V} (hrow : rows[s.startRowIndex]? = some row) {e : ℕ}
    (he : e = helper.endRowID (helper.getStatisticsRefreshInterval rows.length) p
      s.statsSampleCache row)
    {earlier : List (LikelihoodCall τ V P)} {q : AnomalyParams P} {likelihood : ℚ} {params : P}
    (hrun : (Logged.scoreRun helper algorithms s.statsSampleCache 0 p (nextRun e row s)).2.2 =
      earlier ++ [.update md q likelihood params])
    (hn : helper.statisticsMinSampleSize ≤
      m.getProcessedMetricDataCount + (s.startRowIndex + (earlier.length + 1))) :
    helper.RefreshesGreedily m rows (s.startRowIndex + earlier.length) (calls ++ earlier) md q ↔
      s.startRowIndex + earlier.length + 1 < rows.length ∨ e ≤ md.rowid := by
  have hlt := (List.getElem?_eq_some_iff.mp hrow).1
  have hmin := hs.min_le
  obtain ⟨hq, hmd, -⟩ := Logged.scoreRun_update helper algorithms s.statsSampleCache hrun
  obtain ⟨hmd, hcutoff⟩ := nextRun_getElem? hmd
  have hrowid : md.rowid = row.rowid + earlier.length := by
    rw [← List.getElem?_drop, h.drop_eq, List.getElem?_drop] at hmd
    exact hrows.rowid_eq hrow hmd
  have henough := h.enough hs hlt hn
  rw [RefreshesGreedily, hq, hrowid]
  refine or_congr_right ?_
  rw [he, endRowID_le_iff helper henough]
  constructor
  · rintro (hinterval | ⟨hjust, hexceeds⟩)
    · exact .inl hinterval
    · right
      cases hcache : s.statsSampleCache with
      | some samples =>
        have hle := h.cache_le hlt samples hcache
        exact ⟨samples, rfl, by omega⟩
      | none =>
        -- Without a cache the run would have ended at the earlier row.
        obtain ⟨md', q', likelihood', params', hmem, hexceeds'⟩ := hexceeds
        rw [(h.cache_none hlt hcache).2, List.nil_append] at hmem
        obtain ⟨before, after, hsplit⟩ := List.append_of_mem hmem
        rw [hsplit, List.append_assoc, List.cons_append] at hrun
        have hnil := (Logged.scoreRun_update helper algorithms s.statsSampleCache hrun).2.2
          hexceeds' fun samples hsamples => by rw [hcache] at hsamples; cases hsamples
        simp at hnil
  · rintro (hinterval | ⟨samples, hsamples, hshort⟩)
    · exact .inl hinterval
    · have hge := h.cache_ge hlt samples hsamples
      have hle := h.cache_le hlt samples hsamples
      have hmany := henough samples hsamples
      have hend : e = row.rowid + (helper.statisticsMinSampleSize - samples.length - 1) := by
        rw [he, hsamples]
        simp only [endRowID]
        rw [if_neg (by omega)]
      rcases h.cache_short samples hsamples hshort p hp row hrow with hpast | hexceeds
      · left
        omega
      · exact .inr ⟨by omega, hexceeds.append_right⟩

/-- The window of a refresh ends with the last sample. -/
theorem Logged.window_getLast? (hs : helper.Sized) {samples : List (AnomalyDataRow τ V)}
    {lastRow : AnomalyDataRow τ V} (h : samples.getLast? = some lastRow) :
    (Logged.window helper samples).getLast? = some lastRow.sample := by
  have hpos := hs.min_pos
  have hmin := hs.min_le
  have hlen : 0 < samples.length := by
    cases samples with
    | nil => cases h
    | cons a l => exact Nat.succ_pos _
  rw [Logged.window, List.getLast?_map, List.rtake, List.getLast?_drop, if_neg (by omega), h]
  rfl

/-- A row over the threshold with samples enough is the last one of its run, and the
condition says that a refresh follows the run. -/
theorem Greedy.last_of_run (hs : helper.Sized) (hrows : ContiguousRows rows)
    (h : helper.Greedy m rows start s calls) {p p' : AnomalyParams P}
    (hp : s.anomalyParams = some p) {row md : AnomalyDataRow τ V}
    (hrow : rows[s.startRowIndex]? = some row) {e : ℕ}
    (he : e = helper.endRowID (helper.getStatisticsRefreshInterval rows.length) p
      s.statsSampleCache row)
    {consumed : List (AnomalyDataRow τ V)} {runCalls earlier rest : List (LikelihoodCall τ V P)}
    (hrun : Logged.scoreRun helper algorithms s.statsSampleCache 0 p (nextRun e row s) =
      (p', consumed, runCalls))
    {q : AnomalyParams P} {likelihood : ℚ} {params : P}
    (hcalls : runCalls = earlier ++ .update md q likelihood params :: rest)
    (hexceeds : Exceeds md q likelihood)
    (hhistory : helper.statisticsMinSampleSize ≤
      m.scoredUpTo rows (start + (updatedRows (calls ++ earlier)).length) md) :
    rest = [] ∧
      (∃ scored, consumed.getLast? = some scored ∧ scored.rowid = md.rowid ∧
        scored.sample = md.sample) ∧
      helper.statisticsMinSampleSize ≤
        m.getProcessedMetricDataCount + (s.startRowIndex + consumed.length) ∧
      (helper.RefreshesGreedily m rows (start + (updatedRows (calls ++ earlier)).length)
          (calls ++ earlier) md q ↔
        s.startRowIndex + consumed.length < rows.length ∨ e ≤ md.rowid) := by
  have hlt := (List.getElem?_eq_some_iff.mp hrow).1
  have hupdate : (Logged.scoreRun helper algorithms s.statsSampleCache 0 p
      (nextRun e row s)).2.2 = earlier ++ .update md q likelihood params :: rest := by
    rw [hrun]
    exact hcalls
  have hearlier : (updatedRows earlier).length = earlier.length := by
    apply updatedRows_length
    intro scores q' hmem
    apply Logged.not_estimate_mem_scoreRun helper algorithms s.statsSampleCache 0 p
      (nextRun e row s) scores q'
    rw [hupdate]
    exact List.mem_append_left _ hmem
  have hindex : start + (updatedRows (calls ++ earlier)).length =
      s.startRowIndex + earlier.length := by
    rw [updatedRows_append, List.length_append, hearlier, h.index, Nat.add_assoc]
  have hn : helper.statisticsMinSampleSize ≤
      m.getProcessedMetricDataCount + (s.startRowIndex + (earlier.length + 1)) := by
    have hle := m.scoredUpTo_le rows (start + (updatedRows (calls ++ earlier)).length) md
    omega
  obtain ⟨-, -, hstop⟩ := Logged.scoreRun_update helper algorithms s.statsSampleCache hupdate
  obtain rfl : rest = [] := by
    apply hstop hexceeds
    intro samples hsamples
    have henough := h.enough hs hlt hn samples hsamples
    omega
  have hconsumed : consumed = scoredRows earlier ++
      [{ md with anomalyScore := some (1.0 - likelihood) }] := by
    have hscored := Logged.scoredRows_scoreRun helper algorithms s.statsSampleCache 0 p
      (nextRun e row s)
    rw [hupdate, hrun, scoredRows_append] at hscored
    exact hscored.symm
  have hlength : consumed.length = earlier.length + 1 := by
    rw [hconsumed, List.length_append, scoredRows_length, hearlier]
    rfl
  refine ⟨rfl, ⟨{ md with anomalyScore := some (1.0 - likelihood) }, ?_, rfl, rfl⟩, ?_, ?_⟩
  · rw [hconsumed, List.getLast?_concat]
  · rw [hlength]
    exact hn
  · rw [hindex, hlength]
    exact h.refreshesGreedily_iff algorithms hs hrows hp hrow he hupdate hn

variable [LinearOrder τ]

/-- The rows of a chunk that are over the threshold, and what is done after them. -/
theorem Greedy.greedyIff_chunk (hs : helper.Sized) (hrows : ContiguousRows rows)
    (h : helper.Greedy m rows start s calls)
    (hchunk : Logged.scoreChunk helper algorithms m
      (helper.getStatisticsRefreshInterval rows.length) s = .ok (s', chunkCalls))
    {earlier after : List (LikelihoodCall τ V P)} {md : AnomalyDataRow τ V} {q : AnomalyParams P}
    {likelihood : ℚ} {params : P}
    (hcalls : chunkCalls = earlier ++ .update md q likelihood params :: after)
    (hexceeds : Exceeds md q likelihood)
    (hhistory : helper.statisticsMinSampleSize ≤
      m.scoredUpTo rows (start + (updatedRows (calls ++ earlier)).length) md) :
    RefreshedAt md after ↔ helper.RefreshesGreedily m rows
      (start + (updatedRows (calls ++ earlier)).length) (calls ++ earlier) md q := by
  obtain ⟨p, row, hp, hrow, -, -, hcase⟩ := Logged.scoreChunk_spec algorithms hs hchunk
  have hrow' := h.getElem?_eq.symm.trans hrow
  have hlt := (List.getElem?_eq_some_iff.mp hrow').1
  generalize he : helper.endRowID (helper.getStatisticsRefreshInterval rows.length) p
    s.statsSampleCache row = e at hcase
  generalize hrun : Logged.scoreRun helper algorithms s.statsSampleCache 0 p (nextRun e row s) =
    run at hcase
  obtain ⟨p', consumed, runCalls⟩ := run
  simp only [h.length_eq] at hcase
  have hextend := h.extendCache_length hlt consumed
  have hmin := hs.min_le
  rcases hcase with ⟨rfl, -, -, hend, lastRow, hgetLast, hbefore⟩ |
    ⟨-, hwhy, ⟨hfew, rfl, -⟩ | ⟨-, lastRow, q', hgetLast, hq', rfl, -⟩⟩
  · obtain ⟨rfl, ⟨scored, hscored, hrowid, -⟩, -, hiff⟩ :=
      h.last_of_run algorithms hs hrows hp hrow' he.symm hrun hcalls hexceeds hhistory
    obtain rfl := Option.some.inj (hgetLast.symm.trans hscored)
    rw [hiff]
    exact iff_of_false (not_refreshedAt_nil md) (by omega)
  · obtain ⟨-, -, hn, -⟩ :=
      h.last_of_run algorithms hs hrows hp hrow' he.symm hrun hcalls hexceeds hhistory
    omega
  · -- The update is one of the run, and the estimate comes after it.
    rcases append_eq_append_cons hcalls with ⟨rest, hruns, rfl⟩ | ⟨between, -, hestimate⟩
    · obtain ⟨rfl, ⟨scored, hscored, hrowid, hsample⟩, -, hiff⟩ :=
        h.last_of_run algorithms hs hrows hp hrow' he.symm hrun hruns hexceeds hhistory
      obtain rfl := Option.some.inj
        (hgetLast.symm.trans (helper.extendCache_getLast? m hscored s.statsSampleCache))
      rw [hiff]
      refine iff_of_true ⟨_, q', [], rfl, hq'.trans hrowid, ?_⟩ ?_
      · rw [Logged.window_getLast? hs hgetLast, hsample]
      · rcases hwhy with hmore | ⟨last, hlast, hcutoff⟩
        · exact .inl hmore
        · obtain rfl := Option.some.inj (hlast.symm.trans hscored)
          exact .inr (hrowid ▸ hcutoff)
    · cases between with
      | nil => cases hestimate
      | cons call between => simp at hestimate

/-- A chunk that leaves the samples too few has stopped at the cutoff of the refresh interval
or at a row over the threshold. -/
theorem Greedy.cache_short_chunk (hs : helper.Sized) (hrows : ContiguousRows rows)
    (h : helper.Greedy m rows start s calls)
    (hchunk : Logged.scoreChunk helper algorithms m
      (helper.getStatisticsRefreshInterval rows.length) s = .ok (s', chunkCalls))
    {p' : AnomalyParams P} {row' : AnomalyDataRow τ V} (hp' : s'.anomalyParams = some p')
    (hrow' : rows[s'.startRowIndex]? = some row') {samples : List (AnomalyDataRow τ V)}
    (hsamples : s'.statsSampleCache = some samples)
    (hshort : samples.length < helper.statisticsMinSampleSize) :
    p'.lastRowidForStats + helper.getStatisticsRefreshInterval rows.length < row'.rowid ∨
      SomeExceeds (calls ++ chunkCalls) := by
  obtain ⟨p, row, hp, hrow, hstart, -, hcase⟩ := Logged.scoreChunk_spec algorithms hs hchunk
  have hrowAt := h.getElem?_eq.symm.trans hrow
  have hlt := (List.getElem?_eq_some_iff.mp hrowAt).1
  have hlt' := (List.getElem?_eq_some_iff.mp hrow').1
  generalize he : helper.endRowID (helper.getStatisticsRefreshInterval rows.length) p
    s.statsSampleCache row = e at hcase hstart
  have hsome := Logged.scoreRun_someExceeds helper algorithms s.statsSampleCache 0 p
    (nextRun e row s)
  have hlast := Logged.scoreRun_lastRowidForStats helper algorithms s.statsSampleCache 0 p
    (nextRun e row s)
  have hlength := Logged.scoreRun_length_le helper algorithms s.statsSampleCache 0 p
    (nextRun e row s)
  generalize Logged.scoreRun helper algorithms s.statsSampleCache 0 p (nextRun e row s) = run at *
  obtain ⟨q, consumed, runCalls⟩ := run
  simp only [h.length_eq] at hcase hstart hsome hlast hlength
  rcases hcase with ⟨-, -, -, hend, -⟩ | ⟨hcache, -, ⟨-, rfl, hq⟩ | ⟨hmany, -⟩⟩
  · omega
  · obtain rfl := Option.some.inj (hp'.symm.trans hq)
    obtain rfl := Option.some.inj (hsamples.symm.trans hcache)
    by_cases hstops : consumed.length < (nextRun e row s).length
    · exact .inr (hsome hstops).append_left
    · left
      rw [hstart] at hrow' hlt'
      have hrowid := hrows.rowid_eq hrowAt hrow'
      have hwhole : consumed.length = (nextRun e row s).length := by omega
      rw [nextRun_length, h.length_eq] at hwhole
      cases hcache₀ : s.statsSampleCache with
      | none =>
        rw [hcache₀] at he
        simp only [endRowID] at he
        split at hwhole <;> omega
      | some samples₀ =>
        rw [hcache₀, extendCache_length_some] at hshort
        rw [hcache₀] at he
        simp only [endRowID] at he
        rw [if_neg (by omega)] at he
        split at hwhole <;> omega
  · obtain rfl := Option.some.inj (hsamples.symm.trans hcache)
    omega

/-- A chunk keeps what holds between two of them. -/
theorem Greedy.scoreChunk (hs : helper.Sized) (hrows : ContiguousRows rows)
    (h : helper.Greedy m rows start s calls)
    (hchunk : Logged.scoreChunk helper algorithms m
      (helper.getStatisticsRefreshInterval rows.length) s = .ok (s', chunkCalls)) :
    helper.Greedy m rows start s' (calls ++ chunkCalls) := by
  have hconsumed := h.toConsumed.scoreChunk algorithms hs hchunk
  obtain ⟨p, row, hp, hrow, hstart, -, hcase⟩ := Logged.scoreChunk_spec algorithms hs hchunk
  have hlt := (List.getElem?_eq_some_iff.mp (h.getElem?_eq.symm.trans hrow)).1
  generalize Logged.scoreRun helper algorithms s.statsSampleCache 0 p
    (nextRun (helper.endRowID (helper.getStatisticsRefreshInterval rows.length) p
      s.statsSampleCache row) row s) = run at hstart hcase
  obtain ⟨q, consumed, runCalls⟩ := run
  simp only [h.length_eq] at hstart hcase
  have hcache : s'.startRowIndex < rows.length → s'.statsSampleCache =
      some (helper.extendCache m consumed s.statsSampleCache) := by
    intro hlt'
    rcases hcase with ⟨-, -, -, hend, -⟩ | ⟨hcache, -⟩
    · omega
    · exact hcache
  have hextend := h.extendCache_length hlt consumed
  refine ⟨hconsumed, ?_, ?_, ?_, ?_, ?_⟩
  · intro hlt' hnone
    rw [hcache hlt'] at hnone
    cases hnone
  · intro hlt' samples hsamples
    rw [hcache hlt'] at hsamples
    obtain rfl := Option.some.inj hsamples
    rw [hstart]
    exact hextend.1
  · intro hlt' samples hsamples
    rw [hcache hlt'] at hsamples
    obtain rfl := Option.some.inj hsamples
    rw [hstart]
    exact hextend.2
  · intro samples hsamples hshort p' hp' row' hrow'
    exact h.cache_short_chunk algorithms hs hrows hchunk hp' hrow' hsamples hshort
  · intro before md q likelihood params after hcalls hexceeds hhistory
    rcases append_eq_append_cons hcalls with ⟨rest, rfl, rfl⟩ | ⟨earlier, rfl, hchunkCalls⟩
    · -- The row was scored before: what comes after it has begun, unless it was the last one.
      have hiff := h.greedy before md q likelihood params rest rfl hexceeds hhistory
      rw [← hiff]
      cases rest with
      | nil =>
        have hone : (updatedRows [LikelihoodCall.update md q likelihood params]).length = 1 := rfl
        have hindex := h.index
        rw [updatedRows_append, List.length_append, hone] at hindex
        exact absurd (hiff.mpr (.inl (by omega))) (not_refreshedAt_nil md)
      | cons call rest => exact refreshedAt_cons_append
    · exact h.greedyIff_chunk algorithms hs hrows hchunk hchunkCalls hexceeds hhistory

/-! ## The batch -/

omit [LinearOrder τ] in
theorem GreedyIff.of_updatedRows (h : updatedRows calls = []) :
    helper.GreedyIff m rows start calls := by
  rintro before md q likelihood params after rfl
  simp [updatedRows, LikelihoodCall.updatedRow] at h

/-- When the scoring starts no row is scored, and a samples cache is long enough. -/
theorem greedy_startScoring (hs : helper.Sized)
    (h : Logged.startScoring helper algorithms m rows = .ok (s, calls)) :
    helper.Greedy m rows s.startRowIndex s calls := by
  rw [Logged.startScoring] at h
  split at h
  · rw [Logged.initAnomalyLikelihoodModel] at h
    split at h
    · cases h
    split at h
    · cases h
    simp only at h
    split at h
    · rename_i henough
      have hmin := hs.min_le
      have hn : helper.statisticsMinSampleSize - m.getProcessedMetricDataCount ≤ rows.length := by
        omega
      generalize hconsume :
        helper.statisticsMinSampleSize - m.getProcessedMetricDataCount = n at hn h
      have hlength := helper.extendCache_length_none m (rows.take n)
      rw [List.length_take, Nat.min_eq_left hn] at hlength
      rcases Logged.refreshAnomalyParams_cases algorithms hs m none (rows.take n) none with
        ⟨hfew, -⟩ | ⟨hmany, lastRow, q, -, -, hnew⟩
      · omega
      · have hge : min helper.statisticsSampleSize (m.getProcessedMetricDataCount + n) ≤
            (helper.extendCache m (rows.take n) none).length := by omega
        have hle : (helper.extendCache m (rows.take n) none).length ≤
            m.getProcessedMetricDataCount + n := by omega
        rw [hnew] at h
        cases h
        refine ⟨.of_init hn rfl, ?_, ?_, ?_, ?_, .of_updatedRows rfl⟩
        · intro _ hnone
          cases hnone
        · intro _ samples hsamples
          obtain rfl := Option.some.inj hsamples
          exact hge
        · intro _ samples hsamples
          obtain rfl := Option.some.inj hsamples
          exact hle
        · intro samples hsamples hshort
          obtain rfl := Option.some.inj hsamples
          exact absurd hshort (Nat.not_lt.mpr hmany)
    · cases h
      exact ⟨.of_init (Nat.le_refl _) rfl, fun hlt => absurd hlt (Nat.lt_irrefl _),
        fun hlt => absurd hlt (Nat.lt_irrefl _), fun hlt => absurd hlt (Nat.lt_irrefl _),
        fun _ hnone => absurd hnone (Option.not_mem_none _), .of_updatedRows rfl⟩
  · cases h
    exact ⟨.of_init (Nat.zero_le _) rfl, fun _ _ => ⟨rfl, rfl⟩,
      fun _ _ hnone => absurd hnone (Option.not_mem_none _),
      fun _ _ hnone => absurd hnone (Option.not_mem_none _),
      fun _ hnone => absurd hnone (Option.not_mem_none _), .of_updatedRows rfl⟩

/-- A row that is scored over the threshold, with the samples for new params, is followed by
a refresh that ends at it exactly if there is another row in the batch, or the row is at the
cutoff of the refresh interval, or the samples are just enough with it and were too few for
an earlier row over the threshold. -/
theorem greedy_refresh_iff (hs : helper.Sized) (hrows : ContiguousRows rows)
    (hstart : helper.startScoring algorithms m rows = .ok s)
    {result : Option (AnomalyParams P) × List (AnomalyDataRow τ V)}
    {before after : List (LikelihoodCall τ V P)} {md : AnomalyDataRow τ V} {q : AnomalyParams P}
    {likelihood : ℚ} {params : P}
    (h : Logged.updateModelAnomalyScores helper algorithms m rows =
      .ok (result, before ++ .update md q likelihood params :: after))
    (hexceeds : Exceeds md q likelihood)
    (hhistory : helper.statisticsMinSampleSize ≤
      m.scoredUpTo rows (s.startRowIndex + (updatedRows before).length) md) :
    RefreshedAt md after ↔
      helper.RefreshesGreedily m rows (s.startRowIndex + (updatedRows before).length) before
        md q := by
  rw [startScoring] at hstart
  rw [Logged.updateModelAnomalyScores] at h
  split at h
  · cases h
  cases hlogged : Logged.startScoring helper algorithms m rows with
  | error e =>
    rw [hlogged] at hstart
    cases hstart
  | ok r =>
    obtain ⟨s₀, startCalls⟩ := r
    rw [hlogged] at hstart h
    cases hstart
    simp only [bind, Except.bind] at h
    cases hloop : Logged.scoreChunks helper algorithms m
        (helper.getStatisticsRefreshInterval rows.length) (2 * rows.length + 1) s₀ with
    | error e =>
      rw [hloop] at h
      cases h
    | ok r =>
      obtain ⟨s₂, loopCalls⟩ := r
      rw [hloop] at h
      simp only [pure, Except.pure, Except.ok.injEq, Prod.mk.injEq] at h
      have hgreedy := (Logged.scoreChunks_invariant algorithms
        (fun _ _ _ _ _ hchunk hinv => hinv.scoreChunk algorithms hs hrows hchunk)
        hloop (greedy_startScoring algorithms hs hlogged)).1.greedy
      exact hgreedy before md q likelihood params after h.2 hexceeds hhistory

end

/-! ### A batch of one row -/

/-- Params with which every sample is anomalous. -/
def anomalousAlgorithms : LikelihoodAlgorithms ℕ ℕ ℕ where
  estimateAnomalyLikelihoods _ _ := 0
  updateAnomalyLikelihoods _ params := (0, params + 1)

/-- A metric with stored params of its row 5, and three scored rows. -/
def quietMetric : AnomalyMetric ℕ ℕ ℕ where
  status := .active
  anomalyLikelihoodParams := some ⟨5, 0⟩
  rows := [6, 7, 8].map fun rowid => ⟨⟨rowid, 300 * rowid, 17⟩, some (1 / 4), some 0, some 0⟩
  rowids_nodup := by decide

def anomalousRow (rowid : ℕ) : AnomalyDataRow ℕ ℕ :=
  ⟨⟨rowid, 300 * rowid, 95⟩, some 1, some 0, some 0⟩

/-- With another row after it the first row of a batch is followed by a refresh. -/
theorem greedy_refresh_iff_first_row :
    RefreshedAt (anomalousRow 9)
      [LikelihoodCall.estimate (([6, 7, 8].map fun rowid =>
        ((300 * rowid, 17, some (1 / 4)) : Sample ℕ ℕ)) ++ [(2700, 95, some 1)]) ⟨9, 0⟩,
      .update (anomalousRow 10) ⟨9, 0⟩ 0 1] ↔
    RefreshesGreedily ⟨24, 4, 10⟩ quietMetric [anomalousRow 9, anomalousRow 10] 0 []
      (anomalousRow 9) (⟨5, 0⟩ : AnomalyParams ℕ) := by
  have hs : Sized ⟨24, 4, 10⟩ := ⟨by decide, by decide⟩
  have hrows : ContiguousRows [anomalousRow 9, anomalousRow 10] := by
    unfold ContiguousRows
    decide
  have h : Logged.updateModelAnomalyScores ⟨24, 4, 10⟩ anomalousAlgorithms quietMetric
      [anomalousRow 9, anomalousRow 10] = .ok ((some ⟨9, 1⟩,
        [{ anomalousRow 9 with anomalyScore := some 1 },
          { anomalousRow 10 with anomalyScore := some 1 }]),
        [] ++ .update (anomalousRow 9) ⟨5, 0⟩ 0 1 ::
          [.estimate (([6, 7, 8].map fun rowid =>
            ((300 * rowid, 17, some (1 / 4)) : Sample ℕ ℕ)) ++ [(2700, 95, some 1)]) ⟨9, 0⟩,
          .update (anomalousRow 10) ⟨9, 0⟩ 0 1]) := by
    decide +kernel
  exact greedy_refresh_iff anomalousAlgorithms hs hrows
    (startScoring_of_params _ _ rfl _) h ⟨by norm_num, by decide⟩ (by decide)

/-- The only row of a batch is not. -/
theorem greedy_refresh_missed :
    ContiguousRows [anomalousRow 9] ∧
    Logged.updateModelAnomalyScores ⟨24, 4, 10⟩ anomalousAlgorithms quietMetric
      [anomalousRow 9] = .ok ((some ⟨5, 1⟩, [{ anomalousRow 9 with anomalyScore := some 1 }]),
        [] ++ .update (anomalousRow 9) ⟨5, 0⟩ 0 1 :: []) ∧
    Exceeds (anomalousRow 9) (⟨5, 0⟩ : AnomalyParams ℕ) 0 ∧
    4 ≤ quietMetric.scoredUpTo [anomalousRow 9] 0 (anomalousRow 9) ∧
    ¬ RefreshedAt (anomalousRow 9) ([] : List (LikelihoodCall ℕ ℕ ℕ)) := by
  refine ⟨List.isChain_singleton _, by decide +kernel, ⟨by norm_num, by decide⟩, by decide,
    not_refreshedAt_nil _⟩

end AnomalyLikelihoodHelper
end NumentaApps.AnomalyLikelihood
