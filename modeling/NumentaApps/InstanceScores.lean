import NumentaApps.HTMITDatabase
import Mathlib.Data.List.DropRight
import Mathlib.Order.Bounds.Basic
import Mathlib.Algebra.Order.Group.MinMax

/-!
# Scores of instances, kept and computed anew

A row of metric data lowers the score of its bucket while the metric is learning, and raises it
from then on. Computed from all rows, the score is the greatest of them, and is negative if all
of them are of the learning period.
-/
namespace NumentaApps.HTMITDatabase
open MobileCore (AggregationType raiseTimestamp)

/-! ## One bucket -/

/-- The score of a bucket after one row more. -/
def scoreAfter (row : MetricData) : Option ℚ → ℚ
  | none => probationScore row
  | some score =>
    if row.Learning then min score (probationScore row) else max score (probationScore row)

def keptScore (rows : List MetricData) : Option ℚ :=
  rows.foldl (fun score row => some (scoreAfter row score)) none

def computedScore (rows : List MetricData) : Option ℚ :=
  if rows = [] then none else some (instanceScore rows)

/-- The rows inserted after the last one of the learning period. -/
def learned (rows : List MetricData) : List MetricData := rows.rtakeWhile fun row => ¬ row.Learning

/-- The rows of a bucket, in the order in which they were inserted, are all of the learning
period, or have no score but 0, or have their greatest score after all that are of the learning
period. -/
def Aligned (rows : List MetricData) : Prop :=
  (∀ row ∈ rows, row.Learning) ∨ (∀ row ∈ rows, row.anomalyScore = 0) ∨
    ∃ row ∈ learned rows, ∀ other ∈ rows, other.anomalyScore ≤ row.anomalyScore

instance (rows : List MetricData) : Decidable (Aligned rows) :=
  inferInstanceAs (Decidable (_ ∨ _ ∨ _))

def scores (rows : List MetricData) : List ℚ := rows.map MetricData.anomalyScore

theorem maxScore_isGreatest {xs : List ℚ} (h : xs ≠ []) : IsGreatest {x | x ∈ xs} (maxScore xs) := by
  obtain ⟨greatest, hgreatest⟩ := Option.ne_none_iff_exists'.mp (mt List.max?_eq_none_iff.mp h)
  rw [maxScore, hgreatest]
  exact List.max?_eq_some_iff.mp hgreatest

theorem maxScore_eq_iff {xs : List ℚ} (h : xs ≠ []) (x : ℚ) :
    maxScore xs = x ↔ x ∈ xs ∧ ∀ y ∈ xs, y ≤ x := by
  constructor
  · rintro rfl
    exact maxScore_isGreatest h
  · intro hx
    exact (maxScore_isGreatest h).unique hx

theorem maxScore_concat {xs : List ℚ} (h : xs ≠ []) (x : ℚ) :
    maxScore (xs ++ [x]) = max (maxScore xs) x := by
  have hgreatest := maxScore_isGreatest h
  apply (maxScore_eq_iff (List.append_ne_nil_of_right_ne_nil _ (List.cons_ne_nil _ _)) _).mpr
  refine ⟨?_, fun y hy => ?_⟩
  · rcases max_choice (maxScore xs) x with hmax | hmax
    · rw [hmax]
      exact List.mem_append_left _ hgreatest.1
    · rw [hmax]
      exact List.mem_append_right _ (List.mem_singleton_self x)
  · rcases List.mem_append.mp hy with hy | hy
    · exact (hgreatest.2 hy).trans (le_max_left _ _)
    · obtain rfl := List.mem_singleton.mp hy
      exact le_max_right _ _

theorem maxScore_singleton (x : ℚ) : maxScore [x] = x := rfl

variable {row : MetricData} {rows : List MetricData}

theorem maxScore_nonneg (rows : List MetricData) : 0 ≤ maxScore (scores rows) := by
  by_cases h : scores rows = []
  · rw [h]
    rfl
  · obtain ⟨row, _, hrow⟩ := List.mem_map.mp (maxScore_isGreatest h).1
    rw [← hrow]
    exact row.nonneg

theorem keptScore_concat (rows : List MetricData) (row : MetricData) :
    keptScore (rows ++ [row]) = some (scoreAfter row (keptScore rows)) := by
  rw [keptScore, List.foldl_append]
  rfl

theorem keptScore_concat_learning (rows : List MetricData) (h : row.Learning) :
    ∃ score, keptScore (rows ++ [row]) = some score ∧ score ≤ -row.anomalyScore := by
  refine ⟨_, keptScore_concat rows row, ?_⟩
  cases keptScore rows with
  | none =>
    apply le_of_eq
    simp [scoreAfter, probationScore, h]
  | some score => simp [scoreAfter, probationScore, h]

theorem keptScore_learning (h : ∀ row ∈ rows, row.Learning) (hne : rows ≠ []) :
    keptScore rows = some (-maxScore (scores rows)) := by
  induction rows using List.reverseRecOn with
  | nil => exact absurd rfl hne
  | append_singleton rows row ih =>
    have hrow : row.Learning := h row (by simp)
    rw [keptScore_concat]
    by_cases hrows : rows = []
    · subst hrows
      simp [keptScore, scoreAfter, probationScore, hrow, scores, maxScore_singleton]
    · rw [ih (fun other hother => h other (List.mem_append_left _ hother)) hrows]
      have hscores : scores rows ≠ [] := by simpa [scores] using hrows
      have hconcat : scores (rows ++ [row]) = scores rows ++ [row.anomalyScore] := by simp [scores]
      rw [hconcat, maxScore_concat hscores]
      simp [scoreAfter, probationScore, hrow, min_neg_neg]

theorem learned_concat (h : ¬ row.Learning) : learned (rows ++ [row]) = learned rows ++ [row] :=
  List.rtakeWhile_concat_pos _ _ _ (by simpa using h)

theorem learned_concat_learning (h : row.Learning) : learned (rows ++ [row]) = [] :=
  List.rtakeWhile_concat_neg _ _ _ (by simpa using h)

/-- A row that raises the score takes it to the greatest since the last that lowered it. -/
theorem keptScore_learned (h : learned rows ≠ []) :
    keptScore rows = some (maxScore (scores (learned rows))) := by
  induction rows using List.reverseRecOn with
  | nil => exact absurd rfl h
  | append_singleton rows row ih =>
    have hrow : ¬ row.Learning := fun hrow => h (learned_concat_learning hrow)
    rw [keptScore_concat, learned_concat hrow]
    have hconcat : scores (learned rows ++ [row]) = scores (learned rows) ++ [row.anomalyScore] := by
      simp [scores]
    by_cases hrows : learned rows = []
    · have hscore : ∀ score ∈ keptScore rows, score ≤ 0 := by
        intro score hscore
        rcases List.eq_nil_or_concat rows with rfl | ⟨before, last, rfl⟩
        · cases hscore
        · rw [List.concat_eq_append] at hrows hscore
          have hlast : last.Learning := by
            by_contra hlast
            rw [learned_concat hlast] at hrows
            simp at hrows
          obtain ⟨score', hscore', hle⟩ := keptScore_concat_learning before hlast
          rw [hscore'] at hscore
          obtain rfl := Option.some.inj hscore
          exact hle.trans (neg_nonpos.mpr last.nonneg)
      rw [hconcat, hrows]
      cases hkept : keptScore rows with
      | none => simp [scoreAfter, probationScore, hrow, scores, maxScore_singleton]
      | some score =>
        have hle : score ≤ row.anomalyScore := (hscore score hkept).trans row.nonneg
        simp [scoreAfter, probationScore, hrow, scores, maxScore_singleton, hle]
    · have hscores : scores (learned rows) ≠ [] := by simpa [scores] using hrows
      rw [ih hrows, hconcat, maxScore_concat hscores]
      simp [scoreAfter, probationScore, hrow]

theorem keptScore_zero (h : ∀ row ∈ rows, row.anomalyScore = 0) (hne : rows ≠ []) :
    keptScore rows = some 0 := by
  induction rows using List.reverseRecOn with
  | nil => exact absurd rfl hne
  | append_singleton rows row ih =>
    have hrow : probationScore row = 0 := by
      have hzero := h row (by simp)
      rw [probationScore, hzero]
      simp
    rw [keptScore_concat]
    by_cases hrows : rows = []
    · subst hrows
      simp [keptScore, scoreAfter, hrow]
    · rw [ih (fun other hother => h other (List.mem_append_left _ hother)) hrows]
      simp [scoreAfter, hrow]

theorem maxRowid_lt_iff (hne : rows ≠ []) :
    maxRowid rows < learningThreshold ↔ ∀ row ∈ rows, row.Learning := by
  have hids : rows.map (fun row => row.rowid) ≠ [] := by simpa using hne
  obtain ⟨greatest, hgreatest⟩ := Option.ne_none_iff_exists'.mp (mt List.max?_eq_none_iff.mp hids)
  obtain ⟨hmem, hle⟩ := List.max?_eq_some_iff.mp hgreatest
  rw [maxRowid, hgreatest, Option.getD_some]
  constructor
  · intro h row hrow
    exact (hle row.rowid (List.mem_map.mpr ⟨row, hrow, rfl⟩)).trans_lt h
  · intro h
    obtain ⟨row, hrow, rfl⟩ := List.mem_map.mp hmem
    exact h row hrow

theorem maxScore_zero_iff (hne : rows ≠ []) :
    maxScore (scores rows) = 0 ↔ ∀ row ∈ rows, row.anomalyScore = 0 := by
  have hscores : scores rows ≠ [] := by simpa [scores] using hne
  have hgreatest := maxScore_isGreatest hscores
  constructor
  · intro h row hrow
    have hle := hgreatest.2 (List.mem_map.mpr ⟨row, hrow, rfl⟩)
    rw [h] at hle
    exact le_antisymm hle row.nonneg
  · intro h
    obtain ⟨row, hrow, hscore⟩ := List.mem_map.mp hgreatest.1
    rw [← hscore]
    exact h row hrow

theorem mem_of_mem_learned (h : row ∈ learned rows) : row ∈ rows :=
  (List.rtakeWhile_suffix _ _).subset h

/-- The greatest score since the last row of the learning period is the greatest of all. -/
theorem maxScore_learned_iff (h : learned rows ≠ []) :
    maxScore (scores (learned rows)) = maxScore (scores rows) ↔
      ∃ row ∈ learned rows, ∀ other ∈ rows, other.anomalyScore ≤ row.anomalyScore := by
  have hscores : scores (learned rows) ≠ [] := by simpa [scores] using h
  have hrows : scores rows ≠ [] := by
    obtain ⟨row, hrow⟩ := List.exists_mem_of_ne_nil _ h
    exact List.ne_nil_of_mem (List.mem_map.mpr ⟨row, mem_of_mem_learned hrow, rfl⟩)
  have hgreatest := maxScore_isGreatest hrows
  constructor
  · intro heq
    obtain ⟨row, hrow, hscore⟩ := List.mem_map.mp (maxScore_isGreatest hscores).1
    refine ⟨row, hrow, fun other hother => ?_⟩
    rw [hscore, heq]
    exact hgreatest.2 (List.mem_map.mpr ⟨other, hother, rfl⟩)
  · rintro ⟨row, hrow, hall⟩
    have hrow' : row.anomalyScore ∈ scores (learned rows) := List.mem_map.mpr ⟨row, hrow, rfl⟩
    have hkept : maxScore (scores (learned rows)) = row.anomalyScore := by
      apply (maxScore_eq_iff hscores _).mpr
      refine ⟨hrow', fun y hy => ?_⟩
      obtain ⟨other, hother, rfl⟩ := List.mem_map.mp hy
      exact hall other (mem_of_mem_learned hother)
    have hcomputed : maxScore (scores rows) = row.anomalyScore := by
      apply (maxScore_eq_iff hrows _).mpr
      refine ⟨List.mem_map.mpr ⟨row, mem_of_mem_learned hrow, rfl⟩, fun y hy => ?_⟩
      obtain ⟨other, hother, rfl⟩ := List.mem_map.mp hy
      exact hall other hother
    rw [hkept, hcomputed]

/-- The two scores of a bucket are the same exactly if its rows are aligned. -/
theorem keptScore_eq_iff (rows : List MetricData) :
    keptScore rows = computedScore rows ↔ Aligned rows := by
  by_cases hne : rows = []
  · subst hne
    exact iff_of_true rfl (Or.inl (fun _ h => by cases h))
  rw [computedScore, if_neg hne]
  by_cases hlearning : ∀ row ∈ rows, row.Learning
  · rw [keptScore_learning hlearning hne, instanceScore, if_pos ((maxRowid_lt_iff hne).mpr hlearning)]
    exact iff_of_true rfl (Or.inl hlearning)
  rw [instanceScore, if_neg (mt (maxRowid_lt_iff hne).mp hlearning)]
  by_cases hlearned : learned rows = []
  · -- the last row is of the learning period, and has made the score negative
    have hzero : keptScore rows = some (maxScore (scores rows)) ↔
        ∀ row ∈ rows, row.anomalyScore = 0 := by
      constructor
      · intro h
        obtain ⟨before, last, hrows⟩ := (List.eq_nil_or_concat rows).resolve_left hne
        rw [List.concat_eq_append] at hrows
        have hlast : last.Learning := by
          by_contra hlast
          rw [hrows, learned_concat hlast] at hlearned
          simp at hlearned
        obtain ⟨score, hscore, hle⟩ := keptScore_concat_learning before hlast
        rw [← hrows, h] at hscore
        obtain rfl := Option.some.inj hscore
        exact (maxScore_zero_iff hne).mp
          (le_antisymm (hle.trans (neg_nonpos.mpr last.nonneg)) (maxScore_nonneg rows))
      · intro h
        rw [keptScore_zero h hne, (maxScore_zero_iff hne).mpr h]
    rw [show (rows.map MetricData.anomalyScore) = scores rows from rfl, hzero]
    simp [Aligned, hlearning, hlearned]
  · have hmax : keptScore rows = some (maxScore (scores rows)) ↔
        ∃ row ∈ learned rows, ∀ other ∈ rows, other.anomalyScore ≤ row.anomalyScore := by
      rw [keptScore_learned hlearned, Option.some_inj, maxScore_learned_iff hlearned]
    rw [show (rows.map MetricData.anomalyScore) = scores rows from rfl, hmax]
    constructor
    · intro h
      exact Or.inr (Or.inr h)
    · rintro (h | h | h)
      · exact absurd h hlearning
      · obtain ⟨row, hrow⟩ := List.exists_mem_of_ne_nil _ hlearned
        refine ⟨row, hrow, fun other hother => ?_⟩
        rw [h other hother, h row (mem_of_mem_learned hrow)]
      · exact h

/-! ## The table -/

theorem minutes_injective : Function.Injective AggregationType.minutes := by
  intro a b h
  cases a <;> cases b <;> first | rfl | cases h

theorem InstanceData.eq_of_key {row other : InstanceData} (hkey : row.key = other.key)
    (hscore : row.anomalyScore = other.anomalyScore) : row = other := by
  obtain ⟨aggregation, instanceId, timestamp, score⟩ := row
  simp only [InstanceData.key, Prod.mk.injEq] at hkey
  obtain ⟨rfl, rfl, rfl⟩ := hkey
  rw [show score = other.anomalyScore from hscore]

/-- The table has the score that a function gives to a bucket of an instance. -/
def Holds (table : List InstanceData) (score : AggregationType → String → ℤ → Option ℚ) : Prop :=
  ∀ row, row ∈ table ↔ ∃ aggregation ∈ validAggregationTypes,
    row.aggregation = aggregation.minutes ∧
      score aggregation row.instanceId row.timestamp = some row.anomalyScore

section Table
variable {table : List InstanceData} {score : AggregationType → String → ℤ → Option ℚ}
  {aggregation : AggregationType} {aggregations : List AggregationType} {instanceId : String}
  {timestamp : ℤ}

/-- What the two statements do to one bucket. -/
def folded (row : MetricData) (aggregation : AggregationType) (instanceId : String)
    (table : List InstanceData) : List InstanceData :=
  let new := ⟨aggregation.minutes, instanceId, aggregation.bucket row.timestamp, probationScore row⟩
  updateInstanceDataRow row.Learning new (insertInstanceDataAnomalyScore new table)

/-- The score of every bucket after a row is folded into the buckets of some aggregations. -/
def foldedScore (row : MetricData) (aggregations : List AggregationType) (instanceId : String)
    (score : AggregationType → String → ℤ → Option ℚ) :
    AggregationType → String → ℤ → Option ℚ := fun aggregation other timestamp =>
  if aggregation ∈ aggregations ∧ other = instanceId ∧
      timestamp = aggregation.bucket row.timestamp then
    some (scoreAfter row (score aggregation other timestamp))
  else score aggregation other timestamp

theorem Holds.any_key (h : Holds table score) (hvalid : aggregation ∈ validAggregationTypes)
    (new : InstanceData) (hnew : new.aggregation = aggregation.minutes) :
    (table.any fun other => other.key = new.key) = true ↔
      (score aggregation new.instanceId new.timestamp).isSome := by
  constructor
  · intro hany
    obtain ⟨other, hother, hkey⟩ := List.any_eq_true.mp hany
    obtain ⟨aggregation', _, hminutes, hscore⟩ := (h other).mp hother
    simp only [InstanceData.key, Prod.mk.injEq, decide_eq_true_eq] at hkey
    obtain ⟨hk, hi, ht⟩ := hkey
    have hagg : aggregation' = aggregation := minutes_injective (by rw [← hminutes, hk, hnew])
    rw [hagg, hi, ht] at hscore
    rw [hscore]
    rfl
  · intro hsome
    obtain ⟨value, hvalue⟩ := Option.isSome_iff_exists.mp hsome
    apply List.any_eq_true.mpr
    refine ⟨{ new with anomalyScore := value }, (h _).mpr ⟨aggregation, hvalid, hnew, hvalue⟩, ?_⟩
    exact decide_eq_true rfl

theorem key_eq_iff {row new : InstanceData} {aggregation' : AggregationType}
    (hrow : row.aggregation = aggregation'.minutes) (hnew : new.aggregation = aggregation.minutes) :
    row.key = new.key ↔ aggregation' = aggregation ∧ row.instanceId = new.instanceId ∧
      row.timestamp = new.timestamp := by
  simp only [InstanceData.key, Prod.mk.injEq, hrow, hnew, minutes_injective.eq_iff]

theorem foldedScore_singleton {row : MetricData} {new other : InstanceData}
    {aggregation' : AggregationType} (hrow : other.aggregation = aggregation'.minutes)
    (hnew : new = ⟨aggregation.minutes, instanceId, aggregation.bucket row.timestamp,
      probationScore row⟩) :
    foldedScore row [aggregation] instanceId score aggregation' other.instanceId other.timestamp =
      if other.key = new.key then
        some (scoreAfter row (score aggregation new.instanceId new.timestamp))
      else score aggregation' other.instanceId other.timestamp := by
  subst hnew
  by_cases hkey : other.key = (⟨aggregation.minutes, instanceId,
      aggregation.bucket row.timestamp, probationScore row⟩ : InstanceData).key
  · rw [if_pos hkey]
    obtain ⟨rfl, hi, ht⟩ := (key_eq_iff hrow rfl).mp hkey
    rw [foldedScore, if_pos ⟨List.mem_singleton_self _, hi, ht⟩, hi, ht]
  · rw [if_neg hkey, foldedScore, if_neg]
    intro h
    obtain ⟨hagg, hi, ht⟩ := h
    obtain rfl := List.mem_singleton.mp hagg
    exact hkey ((key_eq_iff hrow rfl).mpr ⟨rfl, hi, ht⟩)

theorem Holds.folded (h : Holds table score) (row : MetricData)
    (hvalid : aggregation ∈ validAggregationTypes) (instanceId : String) :
    Holds (folded row aggregation instanceId table)
      (foldedScore row [aggregation] instanceId score) := by
  obtain ⟨new, hnew⟩ : ∃ new : InstanceData, new = ⟨aggregation.minutes, instanceId,
    aggregation.bucket row.timestamp, probationScore row⟩ := ⟨_, rfl⟩
  have hminutes : new.aggregation = aggregation.minutes := by rw [hnew]
  have hprobation : new.anomalyScore = probationScore row := by rw [hnew]
  have hany := h.any_key hvalid new hminutes
  intro other
  rw [HTMITDatabase.folded, ← hnew, updateInstanceDataRow, insertInstanceDataAnomalyScore,
    List.mem_map]
  cases hold : score aggregation new.instanceId new.timestamp with
  | none =>
    have hnone : ¬ (table.any fun other => other.key = new.key) = true := by simp [hany, hold]
    have hkeys : ∀ other ∈ table, other.key ≠ new.key := by simpa using hnone
    rw [if_neg hnone]
    constructor
    · rintro ⟨old, hmem, rfl⟩
      rcases List.mem_append.mp hmem with hmem | hmem
      · obtain ⟨aggregation', hvalid', hminutes', hscore⟩ := (h old).mp hmem
        rw [if_neg (hkeys old hmem)]
        refine ⟨aggregation', hvalid', hminutes', ?_⟩
        rw [foldedScore_singleton hminutes' hnew, if_neg (hkeys old hmem), hscore]
      · obtain rfl := List.mem_singleton.mp hmem
        refine ⟨aggregation, hvalid, by rw [if_pos rfl]; exact hminutes, ?_⟩
        rw [if_pos rfl, foldedScore_singleton hminutes hnew, if_pos rfl, hold]
        simp [scoreAfter, hprobation]
    · rintro ⟨aggregation', hvalid', hminutes', hscore⟩
      rw [foldedScore_singleton hminutes' hnew] at hscore
      by_cases hkey : other.key = new.key
      · rw [if_pos hkey, hold] at hscore
        refine ⟨new, List.mem_append_right _ (List.mem_singleton_self _), ?_⟩
        have hvalue : other.anomalyScore = probationScore row := (Option.some.inj hscore).symm
        rw [if_pos rfl]
        refine InstanceData.eq_of_key (?_ : new.key = other.key) ?_
        · exact hkey.symm
        rw [hvalue]
        simp [hprobation]
      · rw [if_neg hkey] at hscore
        refine ⟨other, List.mem_append_left _ ((h other).mpr ⟨_, hvalid', hminutes', hscore⟩), ?_⟩
        rw [if_neg hkey]
  | some value =>
    rw [if_pos (hany.mpr (by rw [hold]; rfl))]
    have hvalue : ∀ old ∈ table, old.key = new.key → old.anomalyScore = value := by
      intro old hmem hkey
      obtain ⟨aggregation', _, hminutes', hscore⟩ := (h old).mp hmem
      obtain ⟨rfl, hi, ht⟩ := (key_eq_iff hminutes' hminutes).mp hkey
      rw [hi, ht, hold] at hscore
      exact (Option.some.inj hscore).symm
    constructor
    · rintro ⟨old, hmem, rfl⟩
      obtain ⟨aggregation', hvalid', hminutes', hscore⟩ := (h old).mp hmem
      by_cases hkey : old.key = new.key
      · rw [if_pos hkey]
        refine ⟨aggregation', hvalid', hminutes', ?_⟩
        have hfolded := @foldedScore_singleton score _ _ row new old aggregation' hminutes' hnew
        rw [if_pos hkey, hold] at hfolded
        rw [hfolded, hvalue old hmem hkey, hprobation]
        rfl
      · rw [if_neg hkey]
        refine ⟨aggregation', hvalid', hminutes', ?_⟩
        rw [foldedScore_singleton hminutes' hnew, if_neg hkey, hscore]
    · rintro ⟨aggregation', hvalid', hminutes', hscore⟩
      rw [foldedScore_singleton hminutes' hnew] at hscore
      by_cases hkey : other.key = new.key
      · rw [if_pos hkey, hold] at hscore
        obtain ⟨rfl, hi, ht⟩ := (key_eq_iff hminutes' hminutes).mp hkey
        refine ⟨{ other with anomalyScore := value },
          (h _).mpr ⟨aggregation', hvalid', hminutes', by rw [hi, ht, hold]⟩, ?_⟩
        have hkey' : ({ other with anomalyScore := value } : InstanceData).key = new.key := hkey
        rw [if_pos hkey']
        refine InstanceData.eq_of_key (?_ : other.key = other.key) ?_
        · rfl
        rw [← Option.some.inj hscore, hprobation]
        rfl
      · rw [if_neg hkey] at hscore
        refine ⟨other, (h other).mpr ⟨_, hvalid', hminutes', hscore⟩, ?_⟩
        rw [if_neg hkey]

theorem foldedScore_cons {row : MetricData} (hnotin : aggregation ∉ aggregations) :
    foldedScore row aggregations instanceId (foldedScore row [aggregation] instanceId score) =
      foldedScore row (aggregation :: aggregations) instanceId score := by
  funext other instanceId' timestamp
  simp only [foldedScore, List.mem_cons]
  by_cases hother : other = aggregation
  · subst hother
    simp [hnotin]
  · simp [hother]

theorem Holds.foldl (h : Holds table score) (row : MetricData)
    (hvalid : ∀ aggregation ∈ aggregations, aggregation ∈ validAggregationTypes)
    (hnodup : aggregations.Nodup) (instanceId : String) :
    Holds (aggregations.foldl (fun table aggregation =>
      HTMITDatabase.folded row aggregation instanceId table) table)
      (foldedScore row aggregations instanceId score) := by
  induction aggregations generalizing table score with
  | nil =>
    have hnil : foldedScore row [] instanceId score = score := by
      funext aggregation other timestamp
      simp [foldedScore]
    rw [hnil]
    exact h
  | cons aggregation aggregations ih =>
    obtain ⟨hnotin, hrest⟩ := List.nodup_cons.mp hnodup
    have hfirst := h.folded row (hvalid aggregation List.mem_cons_self) instanceId
    rw [← foldedScore_cons hnotin]
    exact ih hfirst (fun other hother => hvalid other (List.mem_cons_of_mem _ hother)) hrest

/-- A row goes to one bucket of each aggregation. -/
theorem Holds.updateInstanceDataAnomalyScore (h : Holds table score) (row : MetricData)
    (instanceId : String) :
    Holds (updateInstanceDataAnomalyScore instanceId row table)
      (foldedScore row validAggregationTypes instanceId score) :=
  h.foldl row (fun _ hmem => hmem) (by decide) instanceId

end Table

/-! ## The rows of a bucket -/

def instanceOf (metric : List Metric) (id : String) : Option String :=
  (metric.find? fun m => m.id = id).map Metric.instanceId

/-- The rows of the metrics of an instance that are in a bucket. -/
def bucketRows (metric : List Metric) (metricData : List MetricData) (instanceId : String)
    (aggregation : AggregationType) (bucket : ℤ) : List MetricData :=
  metricData.filter fun row =>
    instanceOf metric row.metricId = some instanceId ∧ aggregation.bucket row.timestamp = bucket

section Rows
variable {metric : List Metric} {metricData : List MetricData} {row : MetricData}
  {instanceId : String} {aggregation : AggregationType} {bucket : ℤ}

theorem instanceOf_eq_some (hnodup : (metric.map Metric.id).Nodup) {id : String} :
    instanceOf metric id = some instanceId ↔
      ∃ m ∈ metric, m.id = id ∧ m.instanceId = instanceId := by
  rw [instanceOf, Option.map_eq_some_iff]
  constructor
  · rintro ⟨m, hfind, rfl⟩
    exact ⟨m, List.mem_of_find?_eq_some hfind, by simpa using List.find?_some hfind, rfl⟩
  · rintro ⟨m, hm, hid, hinstance⟩
    obtain ⟨found, hfound⟩ : ∃ found, metric.find? (fun m => m.id = id) = some found := by
      apply Option.isSome_iff_exists.mp
      rw [List.find?_isSome]
      exact ⟨m, hm, by simpa using hid⟩
    have hsame : found = m := by
      apply List.inj_on_of_nodup_map hnodup (List.mem_of_find?_eq_some hfound) hm
      have hfoundId : found.id = id := by simpa using List.find?_some hfound
      rw [hfoundId, hid]
    exact ⟨found, hfound, by rw [hsame, hinstance]⟩

theorem mem_joined (hnodup : (metric.map Metric.id).Nodup) :
    row ∈ joined metric metricData instanceId ↔
      row ∈ metricData ∧ instanceOf metric row.metricId = some instanceId := by
  rw [instanceOf_eq_some hnodup]
  simp only [joined, List.mem_flatMap, List.mem_filter, decide_eq_true_eq]
  constructor
  · rintro ⟨m, ⟨hm, hinstance⟩, hrow, hid⟩
    exact ⟨hrow, m, hm, hid.symm, hinstance⟩
  · rintro ⟨hrow, m, hm, hid, hinstance⟩
    exact ⟨m, ⟨hm, hinstance⟩, hrow, hid.symm⟩

theorem bucketRows_concat (metric : List Metric) (metricData : List MetricData)
    (row : MetricData) (instanceId : String) (aggregation : AggregationType) (bucket : ℤ) :
    bucketRows metric (metricData ++ [row]) instanceId aggregation bucket =
      bucketRows metric metricData instanceId aggregation bucket ++
        if instanceOf metric row.metricId = some instanceId ∧
          aggregation.bucket row.timestamp = bucket then [row] else [] := by
  rw [bucketRows, List.filter_append, List.filter_singleton, Bool.cond_decide]
  rfl

/-- The score depends on which rows there are only. -/
theorem instanceScore_congr {rows rows' : List MetricData} (h : ∀ row, row ∈ rows ↔ row ∈ rows')
    (hne : rows ≠ []) : instanceScore rows = instanceScore rows' := by
  have hne' : rows' ≠ [] := by
    obtain ⟨row, hrow⟩ := List.exists_mem_of_ne_nil _ hne
    exact List.ne_nil_of_mem ((h row).mp hrow)
  have hscores : ∀ x, x ∈ scores rows' ↔ x ∈ scores rows := by
    intro x
    simp only [scores, List.mem_map, h]
  have hmax : maxScore (scores rows) = maxScore (scores rows') := by
    have hgreatest := maxScore_isGreatest (show scores rows' ≠ [] by simpa [scores] using hne')
    simp only [hscores] at hgreatest
    exact (maxScore_isGreatest (by simpa [scores] using hne)).unique hgreatest
  have hlearning : maxRowid rows < learningThreshold ↔ maxRowid rows' < learningThreshold := by
    rw [maxRowid_lt_iff hne, maxRowid_lt_iff hne']
    simp only [h]
  simp only [instanceScore, hlearning]
  rw [show (rows.map MetricData.anomalyScore) = scores rows from rfl, hmax]
  rfl

/-- What is computed has one row for each bucket that has rows. -/
theorem mem_createInstanceData (hnodup : (metric.map Metric.id).Nodup) {new : InstanceData} :
    new ∈ createInstanceData metric metricData instanceId aggregation ↔
      new.instanceId = instanceId ∧ new.aggregation = aggregation.minutes ∧
        computedScore (bucketRows metric metricData instanceId aggregation new.timestamp) =
          some new.anomalyScore := by
  have hgroup := GroupedByKey.group_isGrouping
    (fun row : MetricData => aggregation.bucket row.timestamp) (joined metric metricData instanceId)
  have hrows : ∀ bucket row, row ∈ (joined metric metricData instanceId).filter
      (fun row => aggregation.bucket row.timestamp = bucket) ↔
        row ∈ bucketRows metric metricData instanceId aggregation bucket := by
    intro bucket row
    simp [bucketRows, mem_joined hnodup, and_assoc]
  rw [createInstanceData, List.mem_map]
  constructor
  · rintro ⟨entry, hentry, rfl⟩
    refine ⟨rfl, rfl, ?_⟩
    have hvalues := hgroup.values entry hentry
    have hmem : ∀ row, row ∈ entry.2 ↔
        row ∈ bucketRows metric metricData instanceId aggregation entry.1 := by
      intro row
      rw [hvalues]
      exact hrows entry.1 row
    have hne : bucketRows metric metricData instanceId aggregation entry.1 ≠ [] := by
      obtain ⟨row, hrow⟩ := List.exists_mem_of_ne_nil _ (hgroup.nonempty entry hentry)
      exact List.ne_nil_of_mem ((hmem row).mp hrow)
    rw [computedScore, if_neg hne, instanceScore_congr hmem (hgroup.nonempty entry hentry)]
  · rintro ⟨hinstance, hminutes, hscore⟩
    have hne : bucketRows metric metricData instanceId aggregation new.timestamp ≠ [] := by
      intro hnil
      rw [hnil] at hscore
      cases hscore
    rw [computedScore, if_neg hne] at hscore
    obtain ⟨row, hrow⟩ := List.exists_mem_of_ne_nil _ hne
    obtain ⟨hjoined, hbucket⟩ := List.mem_filter.mp ((hrows _ row).mpr hrow)
    obtain ⟨entry, hentry, hkey⟩ := hgroup.covers row hjoined
    have htimestamp : entry.1 = new.timestamp := by
      rw [hkey]
      simpa using hbucket
    have hmem : ∀ row, row ∈ entry.2 ↔
        row ∈ bucketRows metric metricData instanceId aggregation new.timestamp := by
      intro row
      rw [hgroup.values entry hentry, ← htimestamp]
      exact hrows entry.1 row
    refine ⟨entry, hentry, ?_⟩
    rw [instanceScore_congr hmem (hgroup.nonempty entry hentry), Option.some.inj hscore,
      htimestamp, ← hinstance, ← hminutes]

end Rows

/-! ## Runs of batches -/

def insertRow (metricData : List MetricData) (row : MetricData) : List MetricData :=
  if metricData.any fun other => other.key = row.key then metricData else metricData ++ [row]

/-- A batch with a metric that is not there is not inserted. -/
def insertBatch (metric : List Metric) (metricData batch : List MetricData) : List MetricData :=
  if ∀ row ∈ batch, (instanceOf metric row.metricId).isSome then batch.foldl insertRow metricData
  else metricData

/-- The rows that batches insert into an empty table, in their order. -/
def insertedRows (metric : List Metric) (batches : List (List MetricData)) : List MetricData :=
  batches.foldl (insertBatch metric) []

/-- Metrics without data. -/
structure Database.Fresh (s : Database) : Prop where
  nodup : (s.metric.map Metric.id).Nodup
  metricData : s.metricData = []
  instanceData : s.instanceData = []
  metricCache : s.caches.metricCache = [] ∨ s.caches.metricCache = s.metric

def Database.addBatches (batches : List (List MetricData)) (s : Database) : Database :=
  batches.foldl (fun s batch => s.addMetricDataBatch batch) s

/-- The table has the same rows of an instance as after a refresh. -/
def Database.Agrees (s : Database) (instanceId : String) : Prop :=
  ∀ row : InstanceData, row.instanceId = instanceId →
    (row ∈ s.instanceData ↔ row ∈ (s.refreshInstanceData instanceId).instanceData)

section Run
variable {metric : List Metric} {id : String} {m : Metric} {s : Database} {c : Caches}
  {row : MetricData} {batch : List MetricData}

theorem any_id_iff : (metric.any fun m => m.id = id) = true ↔ (instanceOf metric id).isSome := by
  rw [instanceOf, Option.isSome_map, List.find?_isSome, List.any_eq_true]

theorem instanceOf_map {f : Metric → Metric} (hid : ∀ m, (f m).id = m.id)
    (hinstance : ∀ m, (f m).instanceId = m.instanceId) :
    instanceOf (metric.map f) id = instanceOf metric id := by
  induction metric with
  | nil => rfl
  | cons m metric ih =>
    rw [instanceOf, instanceOf] at ih ⊢
    rw [List.map_cons, List.find?_cons, List.find?_cons, hid]
    by_cases hm : m.id = id
    · simp [hm, hinstance]
    · simpa [hm] using ih

/-- The metric that takes the place of one has its instance. -/
theorem instanceOf_put (h : instanceOf metric m.id = some m.instanceId) :
    instanceOf (metric.filter (fun other => other.id ≠ m.id) ++ [m]) id = instanceOf metric id := by
  rw [instanceOf, List.find?_append]
  by_cases hid : m.id = id
  · subst hid
    rw [h]
    have hnone : (metric.filter fun other => other.id ≠ m.id).find? (fun other => other.id = m.id) =
        none := by
      apply List.find?_eq_none.mpr
      intro other hother
      simpa using (List.mem_filter.mp hother).2
    rw [hnone]
    simp
  · have hfind : (metric.filter fun other => other.id ≠ m.id).find? (fun other => other.id = id) =
        metric.find? fun other => other.id = id := by
      rw [List.find?_filter]
      congr 1
      funext other
      by_cases hother : other.id = id
      · simp [hother, Ne.symm hid]
      · simp [hother]
    rw [hfind, instanceOf]
    simp [hid]

/-- The cache is empty, or has the metrics with their instances. -/
def Caches.Follows (metric : List Metric) (c : Caches) : Prop :=
  c.metricCache = [] ∨ ∀ id, instanceOf c.metricCache id = instanceOf metric id

/-- The metrics are as they were, but for their last timestamps. -/
structure Steady (metric : List Metric) (s : Database) : Prop where
  nodup : (s.metric.map Metric.id).Nodup
  same : ∀ id, instanceOf s.metric id = instanceOf metric id
  caches : s.caches.Follows metric

/-- The rows of the table have been folded into the scores. -/
structure Kept (metric : List Metric) (s : Database) : Prop extends Steady metric s where
  holds : Holds s.instanceData fun aggregation instanceId bucket =>
    keptScore (bucketRows metric s.metricData instanceId aggregation bucket)

theorem instanceOf_raiseTimestamp (other : String) (timestamp : ℤ) :
    instanceOf (raiseTimestamp other timestamp metric) id = instanceOf metric id := by
  apply instanceOf_map
  · intro m
    split <;> rfl
  · intro m
    split <;> rfl

theorem Caches.Follows.getMetricCache {rows : List Metric} (h : c.Follows metric)
    (hrows : ∀ id, instanceOf rows id = instanceOf metric id) :
    (c.getMetricCache rows).Follows metric := by
  rw [Caches.getMetricCache]
  split
  · exact Or.inr hrows
  · exact h

theorem getMetric_of_instanceOf (h : (c.getMetricCache metric).Follows metric)
    (hsome : (instanceOf metric id).isSome) :
    ∃ m, (c.getMetricCache metric).getMetric id = some m ∧ m.id = id ∧
      instanceOf metric id = some m.instanceId := by
  have hfollows : instanceOf (c.getMetricCache metric).metricCache id = instanceOf metric id := by
    rcases h with h | h
    · have hempty : metric = [] := by
        rw [Caches.getMetricCache] at h
        split at h
        · exact h
        · contradiction
      rw [hempty] at hsome
      cases hsome
    · exact h id
  obtain ⟨instanceId, hinstance⟩ := Option.isSome_iff_exists.mp hsome
  rw [hinstance] at hfollows
  obtain ⟨m, hm, rfl⟩ := Option.map_eq_some_iff.mp hfollows
  exact ⟨m, hm, by simpa using List.find?_some hm, hinstance⟩

theorem Caches.Follows.putMetric (h : c.Follows metric)
    (hm : instanceOf metric m.id = some m.instanceId) (hne : c.metricCache ≠ []) :
    (c.putMetric m).Follows metric := by
  have hall := h.resolve_left hne
  refine Or.inr fun id => ?_
  rw [Caches.putMetric, instanceOf_put (by rw [hall, hm]), hall]

theorem updateLastTimestamp_data (m : Metric) (timestamp : ℤ) (s : Database) :
    (s.updateLastTimestamp m timestamp).metricData = s.metricData ∧
      (s.updateLastTimestamp m timestamp).instanceData = s.instanceData := by
  rw [Database.updateLastTimestamp]
  split
  · split <;> exact ⟨rfl, rfl⟩
  · exact ⟨rfl, rfl⟩

theorem Steady.updateLastTimestamp (h : Steady metric s) (timestamp : ℤ)
    (hm : instanceOf metric m.id = some m.instanceId) (hne : s.caches.metricCache ≠ []) :
    Steady metric (s.updateLastTimestamp m timestamp) := by
  rw [Database.updateLastTimestamp]
  split
  · split
    · refine ⟨?_, ?_, ?_⟩
      · exact (MobileCore.raiseTimestamp_ids m.id timestamp s.metric).symm ▸ h.nodup
      · intro id
        exact (instanceOf_raiseTimestamp m.id timestamp).trans (h.same id)
      · have hloaded : s.caches.getMetricCache
            (raiseTimestamp m.id timestamp s.metric) = s.caches :=
          if_neg hne
        change ((s.caches.getMetricCache (raiseTimestamp m.id timestamp s.metric)).putMetric
          _).Follows metric
        rw [hloaded]
        exact h.caches.putMetric hm hne
    · exact h
  · exact h

/-- A row in the bucket of its metric's instance. -/
theorem bucketRows_foldedScore (hm : instanceOf metric row.metricId = some m.instanceId)
    (metricData : List MetricData) :
    foldedScore row validAggregationTypes m.instanceId (fun aggregation instanceId bucket =>
      keptScore (bucketRows metric metricData instanceId aggregation bucket)) =
    fun aggregation instanceId bucket =>
      if aggregation ∈ validAggregationTypes then
        keptScore (bucketRows metric (metricData ++ [row]) instanceId aggregation bucket)
      else keptScore (bucketRows metric metricData instanceId aggregation bucket) := by
  funext aggregation instanceId bucket
  rw [foldedScore, bucketRows_concat]
  have hinstance : instanceOf metric row.metricId = some instanceId ↔ m.instanceId = instanceId := by
    rw [hm, Option.some_inj]
  by_cases hvalid : aggregation ∈ validAggregationTypes
  · by_cases hbucket : m.instanceId = instanceId ∧ aggregation.bucket row.timestamp = bucket
    · rw [if_pos ⟨hvalid, hbucket.1.symm, hbucket.2.symm⟩, if_pos hvalid,
        if_pos ⟨hinstance.mpr hbucket.1, hbucket.2⟩, keptScore_concat]
    · rw [if_neg fun h => hbucket ⟨h.2.1.symm, h.2.2.symm⟩, if_pos hvalid,
        if_neg fun h => hbucket ⟨hinstance.mp h.1, h.2⟩, List.append_nil]
  · rw [if_neg fun h => hvalid h.1, if_neg hvalid]

theorem Holds.congr {table : List InstanceData}
    {score score' : AggregationType → String → ℤ → Option ℚ} (h : Holds table score)
    (hsame : ∀ aggregation ∈ validAggregationTypes, score aggregation = score' aggregation) :
    Holds table score' := by
  intro row
  rw [h row]
  apply exists_congr
  intro aggregation
  apply and_congr_right
  intro hvalid
  rw [hsame aggregation hvalid]

/-- What a row, or a batch, comes to: it is inserted if its metrics are there. -/
def Outcome (metric : List Metric) (known : Prop) (metricData : List MetricData) :
    Except Caches Database → Prop
  | .ok t => known ∧ Kept metric t ∧ t.metricData = metricData
  | .error c => ¬ known ∧ c.Follows metric

theorem Kept.addMetricData (h : Kept metric s) (row : MetricData) :
    Outcome metric (instanceOf metric row.metricId).isSome (insertRow s.metricData row)
      (s.addMetricData row) := by
  rw [Database.addMetricData]
  have hknown : (s.metric.any fun m => m.id = row.metricId) = true ↔
      (instanceOf metric row.metricId).isSome := by
    rw [any_id_iff, h.same]
  by_cases hin : (instanceOf metric row.metricId).isSome
  · rw [hknown.mpr hin, if_neg (by simp)]
    by_cases hold : (s.metricData.any fun other => other.key = row.key) = true
    · rw [if_pos hold, insertRow, if_pos hold]
      exact ⟨hin, h, rfl⟩
    rw [if_neg hold, insertRow, if_neg hold]
    have hloaded := h.caches.getMetricCache h.same
    have hfollows : (s.caches.getMetricCache s.metric).Follows s.metric :=
      hloaded.imp id fun hall id => (hall id).trans (h.same id).symm
    obtain ⟨m, hget, hid, hinstance⟩ :=
      getMetric_of_instanceOf hfollows (by rw [h.same]; exact hin)
    simp only [hget]
    rw [h.same] at hinstance
    have hne : (s.caches.getMetricCache s.metric).metricCache ≠ [] := by
      apply List.ne_nil_of_mem
      exact List.mem_of_find?_eq_some hget
    obtain ⟨base, hbase⟩ : ∃ base : Database, base = { s with
        metricData := s.metricData ++ [row]
        caches := (s.caches.getMetricCache s.metric).removeMetricDataCache m } := ⟨_, rfl⟩
    have hsteady : Steady metric base := by
      rw [hbase]
      exact ⟨h.nodup, h.same, hloaded⟩
    have hupdated := hsteady.updateLastTimestamp row.timestamp
      (by rw [hid]; exact hinstance) (by rw [hbase]; exact hne)
    obtain ⟨hmetricData, hinstanceData⟩ := updateLastTimestamp_data m row.timestamp base
    have hrows : base.metricData = s.metricData ++ [row] := by rw [hbase]
    have htable : base.instanceData = s.instanceData := by rw [hbase]
    rw [← hbase]
    refine ⟨hin, ⟨⟨hupdated.nodup, hupdated.same, hupdated.caches⟩, ?_⟩, hmetricData.trans hrows⟩
    have hfolded := h.holds.updateInstanceDataAnomalyScore row m.instanceId
    rw [bucketRows_foldedScore hinstance] at hfolded
    simp only [hmetricData, hinstanceData, hrows, htable]
    apply hfolded.congr
    intro aggregation hvalid
    simp only [hvalid, if_true]
  · have hnone : (s.metric.any fun m => m.id = row.metricId) = false :=
      Bool.eq_false_iff.mpr (mt hknown.mp hin)
    rw [hnone]
    exact ⟨hin, h.caches⟩

theorem Kept.addMetricDataRows (h : Kept metric s) (batch : List MetricData) :
    Outcome metric (∀ row ∈ batch, (instanceOf metric row.metricId).isSome)
      (batch.foldl insertRow s.metricData) (s.addMetricDataRows batch) := by
  induction batch generalizing s with
  | nil => exact ⟨List.forall_mem_nil _, h, rfl⟩
  | cons row batch ih =>
    have hrow := h.addMetricData row
    rw [Database.addMetricDataRows, List.forall_mem_cons]
    cases hadd : s.addMetricData row with
    | error c =>
      rw [hadd] at hrow
      exact ⟨fun hall => hrow.1 hall.1, hrow.2⟩
    | ok t =>
      rw [hadd] at hrow
      obtain ⟨hknown, ht, hdata⟩ := hrow
      have hrest := ih ht
      rw [hdata] at hrest
      dsimp only
      cases hadds : t.addMetricDataRows batch with
      | error c =>
        rw [hadds] at hrest
        exact ⟨fun hall => hrest.1 hall.2, hrest.2⟩
      | ok u =>
        rw [hadds] at hrest
        exact ⟨⟨hknown, hrest.1⟩, hrest.2⟩

/-- A batch leaves the scores folded, whether it is inserted or not. -/
theorem Kept.addMetricDataBatch (h : Kept metric s) (batch : List MetricData) :
    Kept metric (s.addMetricDataBatch batch) ∧
      (s.addMetricDataBatch batch).metricData = insertBatch metric s.metricData batch := by
  have hrows := h.addMetricDataRows batch
  rw [Database.addMetricDataBatch, insertBatch]
  cases hadds : s.addMetricDataRows batch with
  | error c =>
    rw [hadds] at hrows
    rw [if_neg hrows.1]
    exact ⟨⟨⟨h.nodup, h.same, hrows.2⟩, h.holds⟩, rfl⟩
  | ok t =>
    rw [hadds] at hrows
    rw [if_pos hrows.1]
    exact hrows.2

theorem Kept.addBatches (h : Kept metric s) (batches : List (List MetricData)) :
    Kept metric (s.addBatches batches) ∧
      (s.addBatches batches).metricData = batches.foldl (insertBatch metric) s.metricData := by
  induction batches generalizing s with
  | nil => exact ⟨h, rfl⟩
  | cons batch batches ih =>
    obtain ⟨hbatch, hdata⟩ := h.addMetricDataBatch batch
    have hrest := ih hbatch
    rw [hdata] at hrest
    exact hrest

theorem Database.Fresh.kept (h : s.Fresh) : Kept s.metric s where
  nodup := h.nodup
  same _ := rfl
  caches := by
    rcases h.metricCache with hempty | hsame
    · exact Or.inl hempty
    · exact Or.inr fun id => by rw [hsame]
  holds := by
    intro row
    rw [h.instanceData, h.metricData]
    simp [bucketRows, keptScore]

theorem bucketRows_congr {metric' : List Metric}
    (h : ∀ id, instanceOf metric' id = instanceOf metric id) (metricData : List MetricData) :
    bucketRows metric' metricData = bucketRows metric metricData := by
  funext instanceId aggregation bucket
  simp only [bucketRows, h]

theorem mem_refreshInstanceData (hnodup : (s.metric.map Metric.id).Nodup) {new : InstanceData} :
    new ∈ (s.refreshInstanceData new.instanceId).instanceData ↔
      ∃ aggregation ∈ validAggregationTypes, new.aggregation = aggregation.minutes ∧
        computedScore (bucketRows s.metric s.metricData new.instanceId aggregation new.timestamp) =
          some new.anomalyScore := by
  simp only [Database.refreshInstanceData, List.mem_append, Database.deleteInstanceData,
    List.mem_filter, Database.refreshedInstanceData, List.mem_flatMap,
    mem_createInstanceData hnodup]
  simp

theorem Kept.agrees_iff (h : Kept metric s) (instanceId : String) :
    s.Agrees instanceId ↔ ∀ aggregation ∈ validAggregationTypes, ∀ bucket,
      Aligned (bucketRows metric s.metricData instanceId aggregation bucket) := by
  simp only [← keptScore_eq_iff]
  have hcomputed : ∀ row : InstanceData, row ∈ (s.refreshInstanceData row.instanceId).instanceData ↔
      ∃ aggregation ∈ validAggregationTypes, row.aggregation = aggregation.minutes ∧
        computedScore (bucketRows metric s.metricData row.instanceId aggregation row.timestamp) =
          some row.anomalyScore := by
    intro row
    rw [mem_refreshInstanceData h.nodup, bucketRows_congr h.same]
  constructor
  · intro hagrees aggregation hvalid bucket
    have hunique : ∀ {score : AggregationType → Option ℚ} {value : ℚ},
        (∃ other ∈ validAggregationTypes, aggregation.minutes = other.minutes ∧
          score other = some value) ↔ score aggregation = some value := by
      intro score value
      constructor
      · rintro ⟨other, _, hminutes, hscore⟩
        rw [minutes_injective hminutes]
        exact hscore
      · intro hscore
        exact ⟨aggregation, hvalid, rfl, hscore⟩
    apply Option.ext
    intro value
    have hrow := hagrees ⟨aggregation.minutes, instanceId, bucket, value⟩ rfl
    rw [h.holds, hcomputed ⟨aggregation.minutes, instanceId, bucket, value⟩] at hrow
    exact hunique.symm.trans (hrow.trans hunique)
  · rintro hall row rfl
    rw [h.holds row, hcomputed row]
    apply exists_congr
    intro aggregation
    apply and_congr_right
    intro hvalid
    simp only [hall aggregation hvalid row.timestamp]

theorem bucketRows_mem_congr {metricData metricData' : List MetricData}
    (h : ∀ row, row ∈ metricData ↔ row ∈ metricData') {instanceId : String}
    {aggregation : AggregationType} {bucket : ℤ} :
    computedScore (bucketRows metric metricData instanceId aggregation bucket) =
      computedScore (bucketRows metric metricData' instanceId aggregation bucket) := by
  have hrows : ∀ row, row ∈ bucketRows metric metricData instanceId aggregation bucket ↔
      row ∈ bucketRows metric metricData' instanceId aggregation bucket := by
    intro row
    simp only [bucketRows, List.mem_filter, h]
  rw [computedScore, computedScore]
  by_cases hne : bucketRows metric metricData instanceId aggregation bucket = []
  · have hne' : bucketRows metric metricData' instanceId aggregation bucket = [] := by
      apply List.eq_nil_iff_forall_not_mem.mpr
      intro row hrow
      rw [← hrows, hne] at hrow
      cases hrow
    rw [if_pos hne, if_pos hne']
  · have hne' : bucketRows metric metricData' instanceId aggregation bucket ≠ [] := by
      obtain ⟨row, hrow⟩ := List.exists_mem_of_ne_nil _ hne
      exact List.ne_nil_of_mem ((hrows row).mp hrow)
    rw [if_neg hne, if_neg hne', instanceScore_congr hrows hne]

end Run

/-! ## When the scores agree -/

/-- The scores of an instance are those that a refresh computes exactly if the rows of each of
its buckets are aligned; where they are, they do not depend on the order of the rows. -/
theorem instance_scores_agree_iff {s : Database} (h : s.Fresh) (batches : List (List MetricData))
    (instanceId : String) :
    ((s.addBatches batches).Agrees instanceId ↔ ∀ aggregation ∈ validAggregationTypes, ∀ bucket,
      Aligned (bucketRows s.metric (insertedRows s.metric batches) instanceId aggregation bucket)) ∧
    ∀ batches' : List (List MetricData),
      (∀ row, row ∈ insertedRows s.metric batches ↔ row ∈ insertedRows s.metric batches') →
      (s.addBatches batches).Agrees instanceId → (s.addBatches batches').Agrees instanceId →
      ∀ row : InstanceData, row.instanceId = instanceId →
        (row ∈ (s.addBatches batches).instanceData ↔ row ∈ (s.addBatches batches').instanceData) := by
  have hdata : ∀ batches, (s.addBatches batches).metricData = insertedRows s.metric batches := by
    intro batches
    rw [(h.kept.addBatches batches).2, h.metricData, insertedRows]
  constructor
  · rw [(h.kept.addBatches batches).1.agrees_iff, hdata]
  · rintro batches' hsame hagrees hagrees' row rfl
    have hkept := (h.kept.addBatches batches).1
    have hkept' := (h.kept.addBatches batches').1
    rw [hagrees row rfl, hagrees' row rfl, mem_refreshInstanceData hkept.nodup,
      mem_refreshInstanceData hkept'.nodup, bucketRows_congr hkept.same,
      bucketRows_congr hkept'.same, hdata, hdata]
    simp only [bucketRows_mem_congr hsame]

def exampleMetric : Metric := ⟨"metric", "instance", 0⟩

def exampleRow (rowid timestamp : ℤ) (score : ℚ) (h : 0 ≤ score) : MetricData :=
  ⟨⟨"metric", rowid, timestamp⟩, score, h⟩

/-- The last row of the learning period and the first one after it, five minutes apart. -/
def exampleBatch : List MetricData :=
  [exampleRow 999 3600000 (9 / 10) (by decide +kernel),
    exampleRow 1000 3900000 (1 / 10) (by decide +kernel)]

def exampleDatabase : Database := ⟨[exampleMetric], [], [], ⟨[], [], []⟩⟩

/-- As long as the metric is learning, the scores agree. -/
theorem instance_scores_agree_learning :
    (exampleDatabase.addBatches [[exampleRow 1 3600000 (9 / 10) (by decide +kernel)],
      [exampleRow 2 3900000 (1 / 10) (by decide +kernel)]]).Agrees "instance" := by
  have hfresh : exampleDatabase.Fresh := ⟨by decide, rfl, rfl, Or.inl rfl⟩
  apply (instance_scores_agree_iff hfresh _ "instance").1.mpr
  intro aggregation _ bucket
  refine Or.inl fun row hrow => ?_
  have hlearning : (insertedRows exampleDatabase.metric
      [[exampleRow 1 3600000 (9 / 10) (by decide +kernel)],
        [exampleRow 2 3900000 (1 / 10) (by decide +kernel)]]).all (·.Learning) = true := by
    decide +kernel
  simpa using List.all_eq_true.mp hlearning row (List.mem_of_mem_filter hrow)

/-- The hour goes on with the low score of its last row, and not with the greatest. -/
theorem instance_scores_disagree :
    ¬ (exampleDatabase.addBatches [exampleBatch]).Agrees "instance" := by
  intro h
  have hrow := h ⟨60, "instance", 3600000, 1 / 10⟩ rfl
  exact absurd (hrow.mp (by decide +kernel)) (by decide +kernel)

end NumentaApps.HTMITDatabase
