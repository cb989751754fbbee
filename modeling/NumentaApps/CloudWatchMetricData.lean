import Mathlib.Data.List.Basic
import NumentaApps.CloudWatchTimeRange

/-!
# The collection of CloudWatch metric data

`getMetricData` of the AWS adapters queries one range after the other until there are samples, and
`_getCloudwatchMetricReadinessPredicate` tells which metrics are collected at all.
-/
namespace NumentaApps.CloudWatch

/-- A row of the raw data with its statistic. -/
structure Datapoint (V : Type) where
  timestamp : ℤ
  value : V
  deriving DecidableEq, Repr

structure BotoServerError where
  status : ℕ
  errorCode : String
  deriving DecidableEq, Repr

inductive CollectError where
  | metricThrottleError (ex : BotoServerError)
  | botoServerError (ex : BotoServerError)
  deriving DecidableEq, Repr

/-- The service answers a query with samples of the queried half-open range, in any order. -/
structure Service (V : Type) where
  queryCloudWatchMetricStats : ℤ → ℤ → Except BotoServerError (List (Datapoint V))
  inRange : ∀ start end_ rawdata, queryCloudWatchMetricStats start end_ = .ok rawdata →
    ∀ x ∈ rawdata, start ≤ x.timestamp ∧ x.timestamp < end_

/-- The ranges queried, in order, and the result of a call. -/
structure Collected (α : Type) where
  queried : List (ℤ × ℤ)
  result : Except CollectError α

variable {V : Type}

def raised (ex : BotoServerError) : CollectError :=
  if ex.status = 400 ∧ ex.errorCode = "Throttling" then .metricThrottleError ex
  else .botoServerError ex

def sortByTimestamp (rawdata : List (Datapoint V)) : List (Datapoint V) :=
  rawdata.mergeSort fun a b => a.timestamp ≤ b.timestamp

/-- What is left to do after a range, which bounds the number of ranges. -/
def remaining (end_ fromDate toDate : ℤ) : ℕ :=
  if fromDate < toDate then (end_ - fromDate).toNat + 1 else 0

theorem remaining_normalize {end_ fromDate toDate : ℤ} {period : ℕ} (hperiod : 0 < period)
    (h : fromDate < toDate) (now : ℤ) :
    remaining end_ (normalizeMetricCollectionTimeRange now (some toDate) (some end_) period).1
        (normalizeMetricCollectionTimeRange now (some toDate) (some end_) period).2 <
      remaining end_ fromDate toDate := by
  have hfst : (normalizeMetricCollectionTimeRange now (some toDate) (some end_) period).1 =
      toDate := normalize_fst _ _ _
  unfold remaining
  rw [if_pos h]
  split
  · next hlt =>
    have hplan : toDate < end_ := planStart_lt_planEnd now (some toDate) (some end_) hperiod hlt
    omega
  · omega

/-- The loop of `getMetricData`: the samples, and the start of the last range considered. -/
def collectLoop (service : Service V) (period : {p : ℕ // 0 < p}) (now end_ fromDate toDate : ℤ) :
    Collected (List (Datapoint V) × ℤ) :=
  if fromDate < toDate then
    match service.queryCloudWatchMetricStats fromDate toDate with
    | .error ex => ⟨[(fromDate, toDate)], .error (raised ex)⟩
    | .ok rawdata =>
        if rawdata ≠ [] then ⟨[(fromDate, toDate)], .ok (sortByTimestamp rawdata, fromDate)⟩
        else
          -- try the next range
          let next := normalizeMetricCollectionTimeRange now (some toDate) (some end_) period.1
          let rest := collectLoop service period now end_ next.1 next.2
          ⟨(fromDate, toDate) :: rest.queried, rest.result⟩
  else ⟨[], .ok ([], fromDate)⟩
termination_by remaining end_ fromDate toDate
decreasing_by exact remaining_normalize period.2 ‹_› now

/-- The start time of the next call. -/
def nextCallStartTime (period : ℕ) (samples : List (Datapoint V)) (fromDate : ℤ) : ℤ :=
  match samples.getLast? with
  | some x => x.timestamp + seconds period
  | none => fromDate

/-- The samples of the first range that has some, and the start time to use in the next call. -/
def getMetricData (service : Service V) (period : {p : ℕ // 0 < p}) (now : ℤ)
    (start end_ : Option ℤ) : Collected (List (Datapoint V) × ℤ) :=
  let range := normalizeMetricCollectionTimeRange now start end_ period.1
  let collected :=
    if range.2 ≤ range.1 then ⟨[], .ok ([], range.1)⟩
    else collectLoop service period now (end_.getD range.2) range.1 range.2
  ⟨collected.queried, collected.result.map fun (samples, fromDate) =>
    (samples, nextCallStartTime period.1 samples fromDate)⟩

/-- The seconds from the last timestamp to the clock's time, towards zero. -/
def timestampdiff (lastTimestamp utcTimestamp : ℤ) : ℤ :=
  (utcTimestamp - lastTimestamp).tdiv 1000000

def metricReadinessPredicate (lastTimestamp : Option ℤ) (pollInterval : ℕ) (utcTimestamp : ℤ) :
    Prop :=
  match lastTimestamp with
  | none => True
  | some lastTimestamp =>
      timestampdiff lastTimestamp utcTimestamp ≥ pollInterval + (pollInterval + 60)

/-! ## The ranges of a call -/

/-- Ranges each of which begins where the one before ended. -/
inductive Contiguous : ℤ → List (ℤ × ℤ) → ℤ → Prop where
  | nil (a : ℤ) : Contiguous a [] a
  | cons {a b c : ℤ} {ranges : List (ℤ × ℤ)} (h : a < b) (hrest : Contiguous b ranges c) :
      Contiguous a ((a, b) :: ranges) c

theorem Contiguous.le {a b : ℤ} {ranges : List (ℤ × ℤ)} (h : Contiguous a ranges b) : a ≤ b := by
  induction h with
  | nil => exact le_refl _
  | cons h _ ih => omega

/-- They are not before the first. -/
theorem Contiguous.le_fst {a b : ℤ} {ranges : List (ℤ × ℤ)} (h : Contiguous a ranges b) :
    ∀ r ∈ ranges, a ≤ r.1 := by
  induction h with
  | nil => exact fun r hr => absurd hr List.not_mem_nil
  | cons h hrest ih =>
    intro r hr
    rcases List.mem_cons.mp hr with rfl | hr
    · exact le_refl _
    · have := ih r hr
      omega

/-- They cover all times between. -/
theorem Contiguous.covers {a b : ℤ} {ranges : List (ℤ × ℤ)} (h : Contiguous a ranges b) {τ : ℤ}
    (ha : a ≤ τ) (hb : τ < b) : ∃ r ∈ ranges, r.1 ≤ τ ∧ τ < r.2 := by
  induction h with
  | nil => omega
  | @cons a c b ranges h hrest ih =>
    by_cases hτ : τ < c
    · exact ⟨(a, c), List.mem_cons_self, ha, hτ⟩
    · obtain ⟨r, hr, hin⟩ := ih (not_lt.mp hτ) hb
      exact ⟨r, List.mem_cons_of_mem _ hr, hin⟩

/-- The last of them ends at the end. -/
theorem Contiguous.getLast_snd {a b : ℤ} {ranges : List (ℤ × ℤ)} (h : Contiguous a ranges b)
    {r : ℤ × ℤ} (hr : ranges.getLast? = some r) : r.2 = b := by
  induction h with
  | nil => cases hr
  | @cons a c b ranges h hrest ih =>
    cases hrest with
    | nil =>
      obtain rfl := Option.some.inj hr
      rfl
    | cons h' hrest' =>
      rw [List.getLast?_cons_cons] at hr
      exact ih hr

/-! ## What a call returns -/

/-- The samples are of the last range, the last sample is the latest. -/
def OfLastRange (queried : List (ℤ × ℤ)) (samples : List (Datapoint V)) : Prop :=
  ∃ r x, queried.getLast? = some r ∧ samples.getLast? = some x ∧
    ∀ y ∈ samples, r.1 ≤ y.timestamp ∧ y.timestamp < r.2 ∧ y.timestamp ≤ x.timestamp

theorem sortByTimestamp_le {rawdata : List (Datapoint V)} {x : Datapoint V}
    (hx : (sortByTimestamp rawdata).getLast? = some x) :
    ∀ y ∈ sortByTimestamp rawdata, y.timestamp ≤ x.timestamp := by
  have hsorted : (sortByTimestamp rawdata).Pairwise fun a b =>
      decide (a.timestamp ≤ b.timestamp) = true := by
    apply List.pairwise_mergeSort
    · intro a b c hab hbc
      exact decide_eq_true (le_trans (of_decide_eq_true hab) (of_decide_eq_true hbc))
    · intro a b
      rcases le_total a.timestamp b.timestamp with h | h
      · simp [h]
      · simp [h]
  obtain ⟨init, hinit⟩ := List.getLast?_eq_some_iff.mp hx
  rw [hinit] at hsorted ⊢
  intro y hy
  rcases List.mem_append.mp hy with hy | hy
  · exact of_decide_eq_true ((List.pairwise_append.mp hsorted).2.2 y hy x List.mem_cons_self)
  · rw [List.mem_singleton.mp hy]

theorem ofLastRange_sort (service : Service V) {fromDate toDate : ℤ} {rawdata : List (Datapoint V)}
    (hquery : service.queryCloudWatchMetricStats fromDate toDate = .ok rawdata)
    (hne : rawdata ≠ []) : OfLastRange [(fromDate, toDate)] (sortByTimestamp rawdata) := by
  have hperm : (sortByTimestamp rawdata).Perm rawdata := List.mergeSort_perm _ _
  have hsome : sortByTimestamp rawdata ≠ [] := fun h => hne (List.perm_nil.mp (h ▸ hperm).symm)
  refine ⟨(fromDate, toDate), (sortByTimestamp rawdata).getLast hsome, rfl,
    List.getLast?_eq_some_getLast hsome, fun y hy => ?_⟩
  obtain ⟨hfrom, hto⟩ := service.inRange _ _ _ hquery y (hperm.subset hy)
  exact ⟨hfrom, hto, sortByTimestamp_le (List.getLast?_eq_some_getLast hsome) y hy⟩

theorem collectLoop_spec (service : Service V) (period : {p : ℕ // 0 < p})
    (now end_ fromDate toDate : ℤ) :
    ∃ last, Contiguous fromDate
        (collectLoop service period now end_ fromDate toDate).queried last ∧
      ∀ samples f, (collectLoop service period now end_ fromDate toDate).result = .ok (samples, f) →
        samples = [] ∧ f = last ∨
          OfLastRange (collectLoop service period now end_ fromDate toDate).queried samples := by
  fun_induction collectLoop service period now end_ fromDate toDate with
  | case1 fromDate toDate hlt ex hquery =>
    exact ⟨toDate, .cons hlt (.nil toDate), fun samples f h => by cases h⟩
  | case2 fromDate toDate hlt rawdata hquery hne =>
    refine ⟨toDate, .cons hlt (.nil toDate), fun samples f h => ?_⟩
    obtain ⟨rfl, -⟩ := Prod.mk.inj (Except.ok.inj h)
    exact .inr (ofLastRange_sort service hquery hne)
  | case3 fromDate toDate hlt rawdata hquery hnil next rest ih =>
    obtain ⟨last, hcontiguous, hresult⟩ := ih
    have hfst : next.1 = toDate := normalize_fst _ _ _
    have hcontiguous : ∀ a, next.1 = a → Contiguous a rest.queried last :=
      fun _ ha => ha ▸ hcontiguous
    refine ⟨last, .cons hlt (hcontiguous toDate hfst), fun samples f h => ?_⟩
    rcases hresult samples f h with hempty | ⟨r, x, hr, hx, hall⟩
    · exact .inl hempty
    · refine .inr ⟨r, x, ?_, hx, hall⟩
      rw [List.getLast?_cons, hr]
      rfl
  | case4 fromDate toDate hle =>
    refine ⟨fromDate, .nil fromDate, fun samples f h => ?_⟩
    obtain ⟨rfl, rfl⟩ := Prod.mk.inj (Except.ok.inj h)
    exact .inl ⟨rfl, rfl⟩

/-- The ranges of a call follow on each other from its start on. The next call is to start a period
after the last sample, which is of the last range, or where the last range ended. -/
theorem getMetricData_spec (service : Service V) (period : {p : ℕ // 0 < p}) (now : ℤ)
    (start end_ : Option ℤ) :
    ∃ last, Contiguous (planStart now start period.1)
        (getMetricData service period now start end_).queried last ∧
      ∀ samples next, (getMetricData service period now start end_).result = .ok (samples, next) →
        samples = [] ∧ next = last ∨
          OfLastRange (getMetricData service period now start end_).queried samples ∧
            ∃ x, samples.getLast? = some x ∧ next = x.timestamp + seconds period.1 := by
  have hfst : (normalizeMetricCollectionTimeRange now start end_ period.1).1 =
      planStart now start period.1 := normalize_fst now start end_
  have hnext : ∀ (collected : Collected (List (Datapoint V) × ℤ)) {samples next},
      collected.result.map (fun (samples, fromDate) =>
        (samples, nextCallStartTime period.1 samples fromDate)) = .ok (samples, next) →
      ∃ f, collected.result = .ok (samples, f) ∧ next = nextCallStartTime period.1 samples f := by
    intro collected samples next h
    cases hresult : collected.result with
    | error e =>
      rw [hresult] at h
      cases h
    | ok p =>
      rw [hresult] at h
      obtain ⟨rfl, rfl⟩ := Prod.mk.inj (Except.ok.inj h)
      exact ⟨p.2, rfl, rfl⟩
  simp only [getMetricData]
  split
  · rw [hfst]
    refine ⟨_, .nil _, fun samples next h => ?_⟩
    obtain ⟨f, hf, rfl⟩ := hnext ⟨[], .ok ([], planStart now start period.1)⟩ h
    obtain ⟨rfl, rfl⟩ := Prod.mk.inj (Except.ok.inj hf)
    exact .inl ⟨rfl, rfl⟩
  · rw [hfst]
    obtain ⟨last, hcontiguous, hresult⟩ := collectLoop_spec service period now
      (end_.getD (normalizeMetricCollectionTimeRange now start end_ period.1).2)
      (planStart now start period.1)
      (normalizeMetricCollectionTimeRange now start end_ period.1).2
    refine ⟨last, hcontiguous, fun samples next h => ?_⟩
    obtain ⟨f, hf, rfl⟩ := hnext _ h
    rcases hresult samples f hf with ⟨rfl, rfl⟩ | hlast
    · exact .inl ⟨rfl, rfl⟩
    · obtain ⟨r, x, -, hx, -⟩ := id hlast
      refine .inr ⟨hlast, x, hx, ?_⟩
      simp only [nextCallStartTime, hx]

/-! ## The metrics that are ready -/

/-- Days from year 1 to year 9999. -/
def IsDatetime (t : ℤ) : Prop := 0 ≤ t ∧ t < seconds (3652059 * 86400)

theorem timestampdiff_seconds (a b : ℤ) : timestampdiff (seconds a) (seconds b) = b - a := by
  unfold timestampdiff seconds
  rw [← sub_mul]
  exact Int.mul_tdiv_cancel _ (by decide)

/-- At least a period is measured where there is one. -/
theorem le_totalSeconds {n difference : ℤ} (h : seconds n ≤ difference)
    (hdifference : |difference| < seconds (2 ^ 53)) : (n : ℚ) ≤ totalSeconds difference := by
  have hmillion : (0 : ℚ) < 1000000 := by norm_num
  apply NearestDouble.le_nearestDouble
  · rw [le_div_iff₀ hmillion]
    have : ((seconds n : ℤ) : ℚ) ≤ difference := by exact_mod_cast h
    unfold seconds at this
    push_cast at this
    exact this
  · rw [abs_div, abs_of_pos hmillion, div_lt_iff₀ hmillion]
    have : ((|difference| : ℤ) : ℚ) < (seconds (2 ^ 53) : ℤ) := by exact_mod_cast hdifference
    rw [Int.cast_abs] at this
    refine this.trans_eq ?_
    unfold seconds
    norm_num

/-- A metric is ready exactly when a collection from its last timestamp on has a range. -/
theorem metricReadinessPredicate_iff {last now : ℤ} (hlast : IsDatetime (seconds last))
    (hnow : IsDatetime (seconds now)) {period : ℕ} (hperiod : 0 < period) :
    metricReadinessPredicate (some (seconds last)) period (seconds now) ↔
      (normalizeMetricCollectionTimeRange (seconds now) (some (seconds last)) none period).1 <
        (normalizeMetricCollectionTimeRange (seconds now) (some (seconds last)) none period).2 := by
  have hplan : planEnd (seconds now) none period - planStart (seconds now) (some (seconds last))
      period = seconds (now - (period + 60) - last) := by
    simp only [planEnd, planStart, getMetricCollectionBackoffSeconds, seconds]
    ring
  rw [normalize_lt_iff _ _ _ hperiod, hplan]
  simp only [metricReadinessPredicate, timestampdiff_seconds]
  constructor
  · intro hready
    apply le_totalSeconds (n := period)
    · unfold seconds
      omega
    · unfold IsDatetime seconds at *
      rw [abs_of_nonneg (by omega)]
      omega
  · intro hle
    have hpos : (0 : ℚ) < period := by exact_mod_cast hperiod
    have hdifference := difference_pos_of_totalSeconds_pos (lt_of_lt_of_le hpos hle)
    have hperiods : (period : ℤ) ≤ now - (period + 60) - last := by
      apply le_of_le_totalSeconds hle
      unfold IsDatetime seconds at *
      rw [abs_of_nonneg (by omega)]
      omega
    omega

end NumentaApps.CloudWatch
