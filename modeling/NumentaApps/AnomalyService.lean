import NumentaApps.AnomalyLikelihood

/-!
# The processing of inference results

`AnomalyService._processModelInferenceResults`: a batch of inference results of one
model is checked against the metric's data rows, the rows get their scores, and one
transaction stores them with the new anomaly likelihood params.
-/
namespace NumentaApps.AnomalyService
open Repository AnomalyLikelihood

/-- A result has an anomaly score or an error, never both. -/
inductive ModelInferenceResult where
  | success (rowID : ℕ) (anomalyScore : ℚ)
  | failure (rowID : ℕ) (status : ℕ) (errorMessage : String)
  deriving DecidableEq, Repr

def ModelInferenceResult.rowID : ModelInferenceResult → ℕ
  | success rowID _ => rowID
  | failure rowID _ _ => rowID

/-- Why a batch is rejected once its metric data rows are at hand. -/
inductive RejectedInferenceResultBatch where
  | noMetricDataRow | truncated | rowIDMismatch | failedResult
  deriving DecidableEq, Repr

/-- The logarithm of display values, and what an `INTEGER` column keeps of one. -/
structure DisplayScale where
  log : ℚ → ℚ
  keep : ℚ → ℤ

namespace DisplayScale

def logScale (display : DisplayScale) (value : ℚ) : ℚ :=
  if value > 0.99999 then 1
  else display.log (1.0000000001 - value) / display.log (1.0 - 0.9999999999)

def greenBarFloor : ℚ := 1000
def yellowBarFloor : ℚ := greenBarFloor * 1000
def redBarFloor : ℚ := yellowBarFloor * 1000
def probationFactor : ℚ := 1.0 / redBarFloor

def rescaleForDisplay (display : DisplayScale) (value : ℚ) (active : Bool) : ℚ :=
  if value = 0 then 0
  else
    let calculated := display.logScale |value|
    let calculated :=
      if calculated ≥ 0.50 then calculated + redBarFloor
      else if calculated ≥ 0.40 then calculated + yellowBarFloor
      else calculated + greenBarFloor
    if active then calculated else calculated * probationFactor

end DisplayScale

variable {τ V P : Type}

/-- The rows of a range of rowids in ascending order. -/
def getMetricData (start stop : ℕ) (m : AnomalyMetric τ V P) : List (AnomalyDataRow τ V) :=
  (m.rows.filter fun r => start ≤ r.rowid ∧ r.rowid ≤ stop).insertionSort
    fun a b => a.rowid ≤ b.rowid

def scrubInferenceResultsAndInitMetricData :
    List ModelInferenceResult → List (AnomalyDataRow τ V) →
      Except RejectedInferenceResultBatch (List (AnomalyDataRow τ V))
  | [], [] => .ok []
  | _ :: _, [] => .error .noMetricDataRow
  | [], _ :: _ => .error .truncated
  | result :: results, metricData :: rows =>
    if result.rowID ≠ metricData.rowid then .error .rowIDMismatch
    else
      match result with
      | .failure _ _ _ => .error .failedResult
      | .success _ anomalyScore => do
        let rows ← scrubInferenceResultsAndInitMetricData results rows
        pure ({ metricData with
          rawAnomalyScore := some anomalyScore
          anomalyScore := some 0 } :: rows)

def setMetricStatus (status : MetricStatus) (m : AnomalyMetric τ V P) :
    AnomalyMetric τ V P := { m with status := status }

/-- The columns of the table that are written back of a processed row. -/
def withResult (metricData r : AnomalyDataRow τ V) : AnomalyDataRow τ V :=
  { r with
    rawAnomalyScore := metricData.rawAnomalyScore
    anomalyScore := metricData.anomalyScore
    displayValue := metricData.displayValue }

def updateMetricDataColumns (rows : List (AnomalyDataRow τ V)) (metricData : AnomalyDataRow τ V) :
    List (AnomalyDataRow τ V) :=
  rows.map fun r => if r.rowid = metricData.rowid then withResult metricData r else r

theorem updateMetricDataColumns_rowids (rows : List (AnomalyDataRow τ V))
    (metricData : AnomalyDataRow τ V) :
    (updateMetricDataColumns rows metricData).map (·.rowid) = rows.map (·.rowid) := by
  rw [updateMetricDataColumns, List.map_map]
  apply List.map_congr_left
  intro r _
  simp only [Function.comp]
  split <;> rfl

theorem foldl_updateMetricDataColumns_rowids (metricDataRows rows : List (AnomalyDataRow τ V)) :
    (metricDataRows.foldl updateMetricDataColumns rows).map (·.rowid) = rows.map (·.rowid) := by
  induction metricDataRows generalizing rows with
  | nil => rfl
  | cons metricData metricDataRows ih =>
    rw [List.foldl_cons, ih, updateMetricDataColumns_rowids]

/-- The one transaction of a batch: its rows and the new params, rolled back if the
metric is no longer active. -/
def updateResults (metricDataRows : List (AnomalyDataRow τ V))
    (anomalyLikelihoodParams : Option (AnomalyParams P)) (m : AnomalyMetric τ V P) :
    Option (AnomalyMetric τ V P) :=
  if m.status ≠ .active then none
  else some { m with
    anomalyLikelihoodParams := anomalyLikelihoodParams
    rows := metricDataRows.foldl updateMetricDataColumns m.rows
    rowids_nodup := by
      rw [foldl_updateMetricDataColumns_rowids]
      exact m.rowids_nodup }

def withDisplayValue (display : DisplayScale) (active : Bool) (row : AnomalyDataRow τ V) :
    AnomalyDataRow τ V :=
  { row with displayValue := row.anomalyScore.map fun anomalyScore =>
      display.keep (display.rescaleForDisplay anomalyScore active) }

/-! ## Storing the rows -/

/-- What the transaction leaves of a row of the table. -/
def storedRow (metricDataRows : List (AnomalyDataRow τ V)) (r : AnomalyDataRow τ V) :
    AnomalyDataRow τ V :=
  metricDataRows.foldl (fun r metricData =>
    if r.rowid = metricData.rowid then withResult metricData r else r) r

theorem foldl_updateMetricDataColumns (metricDataRows rows : List (AnomalyDataRow τ V)) :
    metricDataRows.foldl updateMetricDataColumns rows = rows.map (storedRow metricDataRows) := by
  induction metricDataRows generalizing rows with
  | nil => exact (List.map_id rows).symm
  | cons metricData metricDataRows ih =>
    rw [List.foldl_cons, ih, updateMetricDataColumns, List.map_map]
    rfl

theorem storedRow_toMetricDataRow (metricDataRows : List (AnomalyDataRow τ V))
    (r : AnomalyDataRow τ V) :
    (storedRow metricDataRows r).toMetricDataRow = r.toMetricDataRow := by
  induction metricDataRows generalizing r with
  | nil => rfl
  | cons metricData metricDataRows ih =>
    rw [storedRow, List.foldl_cons]
    refine (ih _).trans ?_
    split <;> rfl

theorem storedRow_of_notMem {metricDataRows : List (AnomalyDataRow τ V)}
    {r : AnomalyDataRow τ V} (h : r.rowid ∉ metricDataRows.map (·.rowid)) :
    storedRow metricDataRows r = r := by
  induction metricDataRows with
  | nil => rfl
  | cons metricData metricDataRows ih =>
    rw [List.map_cons, List.mem_cons, not_or] at h
    rw [storedRow, List.foldl_cons, if_neg h.1]
    exact ih h.2

/-- A row of the batch gets the columns of its row in the batch. -/
theorem storedRow_of_mem {metricDataRows : List (AnomalyDataRow τ V)}
    (hnodup : (metricDataRows.map (·.rowid)).Nodup) {metricData r : AnomalyDataRow τ V}
    (hmem : metricData ∈ metricDataRows) (hid : r.rowid = metricData.rowid) :
    storedRow metricDataRows r = withResult metricData r := by
  induction metricDataRows with
  | nil => cases hmem
  | cons md metricDataRows ih =>
    rw [List.map_cons, List.nodup_cons] at hnodup
    rcases List.mem_cons.mp hmem with rfl | hmem
    · rw [storedRow, List.foldl_cons, if_pos hid]
      exact storedRow_of_notMem (r := withResult metricData r)
        (show r.rowid ∉ _ from hid ▸ hnodup.1)
    · have hne : r.rowid ≠ md.rowid := by
        intro heq
        exact hnodup.1 (heq ▸ hid ▸ List.mem_map_of_mem hmem)
      rw [storedRow, List.foldl_cons, if_neg hne]
      exact ih hnodup.2 hmem

theorem storedRow_storedRow {metricDataRows : List (AnomalyDataRow τ V)}
    (hnodup : (metricDataRows.map (·.rowid)).Nodup) (r : AnomalyDataRow τ V) :
    storedRow metricDataRows (storedRow metricDataRows r) = storedRow metricDataRows r := by
  by_cases h : r.rowid ∈ metricDataRows.map (·.rowid)
  · obtain ⟨metricData, hmem, hid⟩ := List.mem_map.mp h
    have hstored := storedRow_of_mem hnodup (r := r) hmem hid.symm
    rw [hstored, storedRow_of_mem hnodup (r := withResult metricData r) hmem hid.symm]
    rfl
  · rw [storedRow_of_notMem h, storedRow_of_notMem h]

/-- A stored row is a processed row if it was one before or is of the batch. -/
theorem storedRow_rawAnomalyScore {metricDataRows : List (AnomalyDataRow τ V)}
    (hnodup : (metricDataRows.map (·.rowid)).Nodup)
    (hraw : ∀ metricData ∈ metricDataRows, metricData.rawAnomalyScore.isSome)
    (r : AnomalyDataRow τ V) :
    (storedRow metricDataRows r).rawAnomalyScore.isSome ↔
      r.rawAnomalyScore.isSome ∨ r.rowid ∈ metricDataRows.map (·.rowid) := by
  by_cases h : r.rowid ∈ metricDataRows.map (·.rowid)
  · obtain ⟨metricData, hmem, hid⟩ := List.mem_map.mp h
    rw [storedRow_of_mem hnodup hmem hid.symm]
    simp [withResult, hraw metricData hmem, h]
  · simp [storedRow_of_notMem h, h]

/-- The rows of a metric that have a raw score once the results are stored. -/
def processedAfter (results : List ModelInferenceResult) (m : AnomalyMetric τ V P) : ℕ :=
  (m.rows.filter fun r =>
    r.rawAnomalyScore.isSome ∨ r.rowid ∈ results.map (·.rowID)).length

theorem getProcessedMetricDataCount_stored {m m' : AnomalyMetric τ V P}
    {metricDataRows : List (AnomalyDataRow τ V)} {results : List ModelInferenceResult}
    (hids : results.map (·.rowID) = metricDataRows.map (·.rowid))
    (hnodup : (metricDataRows.map (·.rowid)).Nodup)
    (hraw : ∀ metricData ∈ metricDataRows, metricData.rawAnomalyScore.isSome)
    (hrows : m'.rows = m.rows.map (storedRow metricDataRows)) :
    m'.getProcessedMetricDataCount = processedAfter results m := by
  rw [AnomalyMetric.getProcessedMetricDataCount, AnomalyMetric.processedRows, hrows,
    List.filter_map, List.length_map, processedAfter, hids]
  congr 1
  apply List.filter_congr
  intro r _
  rw [Bool.eq_iff_iff]
  simpa using storedRow_rawAnomalyScore hnodup hraw r

theorem getProcessedMetricDataCount_le (results : List ModelInferenceResult)
    (m : AnomalyMetric τ V P) : m.getProcessedMetricDataCount ≤ processedAfter results m := by
  apply List.Sublist.length_le
  apply List.monotone_filter_right
  intro r hr
  simp [hr]

theorem length_filter_or_le {α : Type} (p q : α → Prop) [DecidablePred p] [DecidablePred q]
    (l : List α) : (l.filter fun a => p a ∨ q a).length ≤
      (l.filter fun a => p a).length + (l.filter fun a => q a).length := by
  induction l with
  | nil => rfl
  | cons a l ih =>
    by_cases hp : p a <;> by_cases hq : q a <;> simp [hp, hq] at ih ⊢ <;> omega

/-- Storing results makes at most their rows into processed ones. -/
theorem processedAfter_le (results : List ModelInferenceResult) (m : AnomalyMetric τ V P) :
    processedAfter results m ≤ m.getProcessedMetricDataCount + results.length := by
  have hbatch : (m.rows.filter fun r => r.rowid ∈ results.map (·.rowID)).length ≤
      results.length := by
    have hids : (results.map (·.rowID)).length = results.length := List.length_map ..
    rw [← List.length_map (·.rowid), ← hids]
    apply (List.subperm_of_subset ?_ ?_).length_le
    · exact m.rowids_nodup.sublist (List.filter_sublist.map _)
    · intro k hk
      obtain ⟨r, hr, rfl⟩ := List.mem_map.mp hk
      exact of_decide_eq_true (List.mem_filter.mp hr).2
  have hor := length_filter_or_le (fun r : AnomalyDataRow τ V => r.rawAnomalyScore.isSome)
    (fun r => r.rowid ∈ results.map (·.rowID)) m.rows
  simp only [Bool.decide_eq_true] at hor
  calc processedAfter results m ≤ m.processedRows.length +
        (m.rows.filter fun r => r.rowid ∈ results.map (·.rowID)).length := hor
    _ ≤ m.processedRows.length + results.length := Nat.add_le_add_left hbatch _

theorem updateResults_of_active {m : AnomalyMetric τ V P} (hactive : m.status = .active)
    (metricDataRows : List (AnomalyDataRow τ V)) (q : Option (AnomalyParams P)) :
    ∃ m', updateResults metricDataRows q m = some m' ∧ m'.status = .active ∧
      m'.anomalyLikelihoodParams = q ∧ m'.rows = m.rows.map (storedRow metricDataRows) := by
  rw [updateResults, if_neg (by simp [hactive])]
  exact ⟨_, rfl, hactive, rfl, foldl_updateMetricDataColumns metricDataRows m.rows⟩

/-! ## The rows of a batch -/

def undisplayed (row : AnomalyDataRow τ V) : AnomalyDataRow τ V := { row with displayValue := none }

theorem getMetricData_mem {start stop : ℕ} {m : AnomalyMetric τ V P} {r : AnomalyDataRow τ V}
    (h : r ∈ getMetricData start stop m) : r ∈ m.rows := by
  rw [getMetricData, List.mem_insertionSort] at h
  exact List.mem_of_mem_filter h

/-- The rows of a range ascend strictly, rowid being a key. -/
theorem getMetricData_pairwise (start stop : ℕ) (m : AnomalyMetric τ V P) :
    ((getMetricData start stop m).map (·.rowid)).Pairwise (· < ·) := by
  have hle : ((getMetricData start stop m).map (·.rowid)).Pairwise (· ≤ ·) :=
    List.pairwise_map.mpr (List.pairwise_insertionSort _ _)
  have hperm : ((getMetricData start stop m).map (·.rowid)).Perm
      ((m.rows.filter fun r => start ≤ r.rowid ∧ r.rowid ≤ stop).map (·.rowid)) :=
    (List.perm_insertionSort _ _).map _
  have hnodup : ((getMetricData start stop m).map (·.rowid)).Nodup :=
    hperm.nodup_iff.mpr (m.rowids_nodup.sublist (List.filter_sublist.map _))
  exact hle.imp₂ (fun _ _ hab hne => Nat.lt_of_le_of_ne hab hne) hnodup

/-- The range is made of the columns that the scores are not among. -/
theorem getMetricData_congr {m m' : AnomalyMetric τ V P}
    (h : m'.rows.map (·.toMetricDataRow) = m.rows.map (·.toMetricDataRow)) (start stop : ℕ) :
    (getMetricData start stop m').map (·.toMetricDataRow) =
      (getMetricData start stop m).map (·.toMetricDataRow) := by
  have hbase : ∀ m : AnomalyMetric τ V P, (getMetricData start stop m).map (·.toMetricDataRow) =
      ((m.rows.map (·.toMetricDataRow)).filter fun r =>
        start ≤ r.rowid ∧ r.rowid ≤ stop).insertionSort fun a b => a.rowid ≤ b.rowid := by
    intro m
    rw [getMetricData, List.map_insertionSort (fun a b : AnomalyDataRow τ V => a.rowid ≤ b.rowid)
      (fun a b : MetricDataRow τ V => a.rowid ≤ b.rowid) _ _ (fun _ _ _ _ => Iff.rfl),
      List.filter_map]
    rfl
  rw [hbase, hbase, h]

theorem scrub_cons_eq_ok {result : ModelInferenceResult} {results : List ModelInferenceResult}
    {metricData : AnomalyDataRow τ V} {rows rows' : List (AnomalyDataRow τ V)} :
    scrubInferenceResultsAndInitMetricData (result :: results) (metricData :: rows) = .ok rows' ↔
      ∃ anomalyScore rest, result = .success metricData.rowid anomalyScore ∧
        scrubInferenceResultsAndInitMetricData results rows = .ok rest ∧
        rows' = { metricData with
          rawAnomalyScore := some anomalyScore
          anomalyScore := some 0 } :: rest := by
  cases result with
  | failure rowID status errorMessage =>
    constructor
    · intro h
      simp only [scrubInferenceResultsAndInitMetricData] at h
      split at h <;> cases h
    · rintro ⟨_, _, h, -⟩
      cases h
  | success rowID anomalyScore =>
    simp only [scrubInferenceResultsAndInitMetricData]
    by_cases hid : (ModelInferenceResult.success rowID anomalyScore).rowID = metricData.rowid
    · rw [if_neg (not_not.mpr hid)]
      cases hrest : scrubInferenceResultsAndInitMetricData results rows with
      | error e =>
        constructor
        · intro h
          cases h
        · rintro ⟨_, _, -, h, -⟩
          cases h
      | ok rest =>
        constructor
        · intro h
          cases h
          exact ⟨anomalyScore, rest, by rw [← hid]; rfl, rfl, rfl⟩
        · rintro ⟨_, _, h, hok, rfl⟩
          cases h
          cases hok
          rfl
    · rw [if_pos hid]
      constructor
      · intro h
        cases h
      · rintro ⟨_, _, h, -⟩
        cases h
        exact absurd rfl hid

/-- The scrubbed rows are those of the results, with a raw score and a zeroed score. -/
theorem scrub_spec {results : List ModelInferenceResult} {rows rows' : List (AnomalyDataRow τ V)}
    (h : scrubInferenceResultsAndInitMetricData results rows = .ok rows') :
    rows'.map (·.toMetricDataRow) = rows.map (·.toMetricDataRow) ∧
      results.map (·.rowID) = rows.map (·.rowid) ∧
      ∀ r ∈ rows', r.rawAnomalyScore.isSome ∧ r.anomalyScore = some 0 := by
  induction results generalizing rows rows' with
  | nil =>
    cases rows with
    | nil =>
      cases h
      exact ⟨rfl, rfl, by simp⟩
    | cons metricData rows => cases h
  | cons result results ih =>
    cases rows with
    | nil => cases h
    | cons metricData rows =>
      obtain ⟨anomalyScore, rest, rfl, hrest, rfl⟩ := scrub_cons_eq_ok.mp h
      obtain ⟨hbase, hids, hinit⟩ := ih hrest
      refine ⟨by simp [hbase], ?_, ?_⟩
      · rw [List.map_cons, List.map_cons, hids]
        rfl
      · intro r hr
        rcases List.mem_cons.mp hr with rfl | hr
        · exact ⟨rfl, rfl⟩
        · exact hinit r hr

/-- The scrubbed rows of a batch do not depend on earlier scores of its rows, their
display values apart. -/
theorem scrub_congr {results : List ModelInferenceResult}
    {rows rows' scrubbed : List (AnomalyDataRow τ V)}
    (hrows : rows'.map (·.toMetricDataRow) = rows.map (·.toMetricDataRow))
    (h : scrubInferenceResultsAndInitMetricData results rows = .ok scrubbed) :
    ∃ scrubbed', scrubInferenceResultsAndInitMetricData results rows' = .ok scrubbed' ∧
      scrubbed'.map undisplayed = scrubbed.map undisplayed := by
  induction results generalizing rows rows' scrubbed with
  | nil =>
    cases rows with
    | nil =>
      cases h
      obtain rfl := List.map_eq_nil_iff.mp hrows
      exact ⟨[], rfl, rfl⟩
    | cons metricData rows => cases h
  | cons result results ih =>
    cases rows with
    | nil => cases h
    | cons metricData rows =>
      obtain ⟨anomalyScore, rest, rfl, hrest, rfl⟩ := scrub_cons_eq_ok.mp h
      cases rows' with
      | nil => cases hrows
      | cons metricData' rows' =>
        rw [List.map_cons, List.map_cons, List.cons.injEq] at hrows
        obtain ⟨rest', hrest', hun⟩ := ih hrows.2 hrest
        refine ⟨_, scrub_cons_eq_ok.mpr ⟨anomalyScore, rest', by rw [hrows.1], hrest', rfl⟩, ?_⟩
        rw [List.map_cons, List.map_cons, hun, undisplayed, undisplayed, hrows.1]

variable [LinearOrder τ] (helper : AnomalyLikelihoodHelper) (display : DisplayScale)
  (algorithms : LikelihoodAlgorithms τ V P)

/-- The metric after the processing of a batch, and the updated rows unless the batch
was rejected. -/
def processModelInferenceResults (inferenceResults : List ModelInferenceResult) :
    Option (AnomalyMetric τ V P) →
      Except LikelihoodError (Option (AnomalyMetric τ V P) × Option (List (AnomalyDataRow τ V)))
  | none => .ok (none, none)
  | some m =>
    if m.status ≠ .active then .ok (some m, none)
    else
      match inferenceResults.head?, inferenceResults.getLast? with
      | some first, some last =>
        let metricDataRows := getMetricData first.rowID last.rowID m
        if metricDataRows = [] then .ok (some m, none)
        else
          match scrubInferenceResultsAndInitMetricData inferenceResults metricDataRows with
          | .error .failedResult => .ok (some (setMetricStatus .error m), none)
          | .error _ => .ok (some m, none)
          | .ok metricDataRows => do
            let (anomalyLikelihoodParams, metricDataRows) ←
              helper.updateModelAnomalyScores algorithms m metricDataRows
            let metricDataRows :=
              metricDataRows.map (withDisplayValue display (m.status = .active))
            match updateResults metricDataRows anomalyLikelihoodParams m with
            | none => pure (some m, none)
            | some m => pure (some m, some metricDataRows)
      | _, _ => .error .indexError

/-! ## Accepted batches -/

omit [LinearOrder τ] in
/-- The metric is active and the results are those of its rows in their range. -/
structure Accepted (m : AnomalyMetric τ V P) (results : List ModelInferenceResult)
    (scrubbed : List (AnomalyDataRow τ V)) : Prop where
  active : m.status = .active
  scrub : ∃ first last, results.head? = some first ∧ results.getLast? = some last ∧
    scrubInferenceResultsAndInitMetricData results
      (getMetricData first.rowID last.rowID m) = .ok scrubbed

section

variable {m : AnomalyMetric τ V P} {results : List ModelInferenceResult}
  {scrubbed : List (AnomalyDataRow τ V)}

omit [LinearOrder τ]

theorem Accepted.rowIDs (h : Accepted m results scrubbed) :
    results.map (·.rowID) = scrubbed.map (·.rowid) := by
  obtain ⟨first, last, -, -, hok⟩ := h.scrub
  obtain ⟨hbase, hids, -⟩ := scrub_spec hok
  have hrows := congrArg (List.map (·.rowid)) hbase
  rw [List.map_map, List.map_map] at hrows
  exact hids.trans hrows.symm

theorem Accepted.length_eq (h : Accepted m results scrubbed) : scrubbed.length = results.length := by
  simpa using (congrArg List.length h.rowIDs).symm

theorem Accepted.ne_nil (h : Accepted m results scrubbed) : scrubbed ≠ [] := by
  obtain ⟨first, last, hfirst, -, -⟩ := h.scrub
  have hlen := h.length_eq
  rintro rfl
  rw [List.eq_nil_of_length_eq_zero hlen.symm] at hfirst
  cases hfirst

theorem Accepted.pairwise (h : Accepted m results scrubbed) :
    (scrubbed.map (·.rowid)).Pairwise (· < ·) := by
  obtain ⟨first, last, -, -, hok⟩ := h.scrub
  have hids := (scrub_spec hok).2.1
  rw [← h.rowIDs, hids]
  exact getMetricData_pairwise ..

theorem Accepted.initialized (h : Accepted m results scrubbed) :
    ∀ r ∈ scrubbed, r.rawAnomalyScore.isSome ∧ r.anomalyScore = some 0 := by
  obtain ⟨first, last, -, -, hok⟩ := h.scrub
  exact (scrub_spec hok).2.2

/-- Each row of the batch is one of the table. -/
theorem Accepted.mem_rows (h : Accepted m results scrubbed) {row : AnomalyDataRow τ V}
    (hrow : row ∈ scrubbed) : ∃ r ∈ m.rows, r.rowid = row.rowid := by
  obtain ⟨first, last, -, -, hok⟩ := h.scrub
  have hmem : row.rowid ∈ scrubbed.map (·.rowid) := List.mem_map_of_mem hrow
  rw [← h.rowIDs, (scrub_spec hok).2.1] at hmem
  obtain ⟨r, hr, hid⟩ := List.mem_map.mp hmem
  exact ⟨r, getMetricData_mem hr, hid⟩

/-- Scores and params stored meanwhile do not change what a batch is. -/
theorem Accepted.congr (h : Accepted m results scrubbed) {m' : AnomalyMetric τ V P}
    (hactive : m'.status = .active)
    (hrows : m'.rows.map (·.toMetricDataRow) = m.rows.map (·.toMetricDataRow)) :
    ∃ scrubbed', Accepted m' results scrubbed' ∧
      scrubbed'.map undisplayed = scrubbed.map undisplayed := by
  obtain ⟨first, last, hfirst, hlast, hok⟩ := h.scrub
  obtain ⟨scrubbed', hok', hun⟩ :=
    scrub_congr (getMetricData_congr hrows first.rowID last.rowID) hok
  exact ⟨scrubbed', ⟨hactive, first, last, hfirst, hlast, hok'⟩, hun⟩

end

section

variable {helper display algorithms} {m m' : AnomalyMetric τ V P}
  {results : List ModelInferenceResult}

theorem process_of_accepted {scrubbed rows : List (AnomalyDataRow τ V)}
    {q : Option (AnomalyParams P)} (h : Accepted m results scrubbed)
    (hupdate : helper.updateModelAnomalyScores algorithms m scrubbed = .ok (q, rows))
    (hm : updateResults (rows.map (withDisplayValue display true)) q m = some m') :
    processModelInferenceResults helper display algorithms results (some m) =
      .ok (some m', some (rows.map (withDisplayValue display true))) := by
  obtain ⟨first, last, hfirst, hlast, hok⟩ := h.scrub
  have hne : getMetricData first.rowID last.rowID m ≠ [] := by
    intro hnil
    have hlen := congrArg List.length (scrub_spec hok).1
    rw [hnil] at hlen
    exact h.ne_nil (List.eq_nil_of_length_eq_zero (by simpa using hlen))
  simp only [processModelInferenceResults, hfirst, hlast, hok]
  rw [if_neg (not_not.mpr h.active), if_neg hne, hupdate, h.active]
  simp only [bind, Except.bind, decide_true, hm]
  rfl

/-- A batch that was not rejected was an accepted one, and its rows and params were
stored. -/
theorem process_stored {rows' : List (AnomalyDataRow τ V)}
    (h : processModelInferenceResults helper display algorithms results (some m) =
      .ok (some m', some rows')) :
    ∃ scrubbed q rows, Accepted m results scrubbed ∧
      helper.updateModelAnomalyScores algorithms m scrubbed = .ok (q, rows) ∧
      rows' = rows.map (withDisplayValue display true) ∧ updateResults rows' q m = some m' := by
  simp only [processModelInferenceResults] at h
  split at h
  · cases h
  rename_i hactive
  split at h
  case h_2 => cases h
  rename_i first last hfirst hlast
  split at h
  · cases h
  split at h
  · cases h
  · cases h
  rename_i scrubbed hok
  cases hupdate : helper.updateModelAnomalyScores algorithms m scrubbed with
  | error e =>
    rw [hupdate] at h
    cases h
  | ok r =>
    rw [hupdate, not_not.mp hactive] at h
    simp only [bind, Except.bind, decide_true] at h
    split at h
    · cases h
    · rename_i m₁ hm
      cases h
      exact ⟨scrubbed, r.1, r.2, ⟨not_not.mp hactive, first, last, hfirst, hlast, hok⟩, hupdate,
        rfl, hm⟩

end

end NumentaApps.AnomalyService
