import NumentaApps.NearestDouble

/-!
# The time range of a CloudWatch collection

`cloudwatch_utils`: how long a value takes to become stable, and the range that is collected next.
Times are in microseconds from the start of a day, periods in seconds. `timedelta.total_seconds`
gives the nearest double of the difference, the floor division by the period and the product with it
are exact.
-/
namespace NumentaApps.CloudWatch
open NearestDouble

def seconds (n : ℤ) : ℤ := n * 1000000

/-- Of a time difference. -/
def totalSeconds (difference : ℤ) : ℚ := nearestDouble (difference / 1000000)

/-- Within the hour of the time. -/
def roundUpDatetime (dt : ℤ) (periodSec : ℕ) : ℤ :=
  let secondsOfHour := dt % seconds 3600
  dt - secondsOfHour + ⌈(secondsOfHour : ℚ) / seconds periodSec⌉ * seconds periodSec

/-- More data records in one answer are an error. -/
def cloudwatchMaxDataRecords : ℤ := 1440

/-- Two weeks. -/
def cloudwatchDataMaxStorage : ℤ := seconds (14 * 86400)

def getMetricCollectionBackoffSeconds (period : ℕ) : ℤ := period + 60

/-- The start of the planned range, at the clock's time. -/
def planStart (now : ℤ) (startTime : Option ℤ) (period : ℕ) : ℤ :=
  match startTime with
  | some startTime => startTime
  | none => roundUpDatetime (now - cloudwatchDataMaxStorage) period

/-- The end of the planned range. -/
def planEnd (now : ℤ) (endTime : Option ℤ) (period : ℕ) : ℤ :=
  match endTime with
  | some endTime => endTime
  | none => now - seconds (getMetricCollectionBackoffSeconds period)

/-- The planned range cut to whole periods, and to the number of records allowed. -/
def normalizeMetricCollectionTimeRange (now : ℤ) (startTime endTime : Option ℤ) (period : ℕ) :
    ℤ × ℤ :=
  let startTime := planStart now startTime period
  let endTime := planEnd now endTime period
  let numPeriods := min ⌊totalSeconds (endTime - startTime) / period⌋ cloudwatchMaxDataRecords
  if 0 < numPeriods then (startTime, startTime + seconds (numPeriods * period))
  else (startTime, startTime)

/-! ## The rounding -/

theorem roundUpDatetime_bounds (dt : ℤ) {period : ℕ} (hperiod : 0 < period) :
    dt ≤ roundUpDatetime dt period ∧ roundUpDatetime dt period < dt + seconds period := by
  have hpos : (0 : ℚ) < (seconds period : ℤ) := by
    unfold seconds
    push_cast
    positivity
  have hle := Int.le_ceil ((dt % seconds 3600 : ℤ) / (seconds period : ℤ) : ℚ)
  have hlt := Int.ceil_lt_add_one ((dt % seconds 3600 : ℤ) / (seconds period : ℤ) : ℚ)
  rw [div_le_iff₀ hpos] at hle
  rw [← sub_lt_iff_lt_add, lt_div_iff₀ hpos, sub_mul, one_mul] at hlt
  simp only [roundUpDatetime]
  constructor
  · have hle : dt % seconds 3600 ≤
        ⌈((dt % seconds 3600 : ℤ) / (seconds period : ℤ) : ℚ)⌉ * seconds period := by
      exact_mod_cast hle
    omega
  · have hlt : ⌈((dt % seconds 3600 : ℤ) / (seconds period : ℤ) : ℚ)⌉ * seconds period -
        seconds period < dt % seconds 3600 := by
      exact_mod_cast hlt
    omega

/-- Differences up to 2³⁴ seconds are as good as exact. -/
theorem le_difference_of_le_totalSeconds {n difference : ℤ} (h : (n : ℚ) ≤ totalSeconds difference)
    (hdifference : |difference| < seconds (2 ^ 34)) : seconds n ≤ difference := by
  by_contra hlt
  have hstep : difference + 1 ≤ seconds n := by omega
  have hx : |(difference / 1000000 : ℚ)| < 2 ^ ((33 : ℤ) + 1) := by
    rw [abs_div, abs_of_pos (by norm_num : (0 : ℚ) < 1000000), div_lt_iff₀ (by norm_num)]
    have : ((|difference| : ℤ) : ℚ) < (seconds (2 ^ 34) : ℤ) := by exact_mod_cast hdifference
    rw [Int.cast_abs] at this
    refine this.trans_eq ?_
    unfold seconds
    norm_num
  have hspacing := spacing_le (by norm_num) hx
  have hround := nearestDouble_le (difference / 1000000)
  have hstep : ((difference : ℚ) + 1) / 1000000 ≤ n := by
    rw [div_le_iff₀ (by norm_num)]
    have : ((difference + 1 : ℤ) : ℚ) ≤ (seconds n : ℤ) := by exact_mod_cast hstep
    unfold seconds at this
    push_cast at this
    exact this
  have hsmall : (2 : ℚ) ^ ((33 : ℤ) - 52) / 2 < 1 / 1000000 := by norm_num
  unfold totalSeconds at h
  rw [add_div] at hstep
  linarith

/-- Of whole seconds, all differences of times are. -/
theorem le_of_le_totalSeconds {n w : ℤ} (h : (n : ℚ) ≤ totalSeconds (seconds w))
    (hw : |w| < 2 ^ 53) : n ≤ w := by
  have hx : ((seconds w : ℤ) / 1000000 : ℚ) = w := by
    unfold seconds
    push_cast
    field_simp
  have hbound : |(w : ℚ)| < 2 ^ ((52 : ℤ) + 1) := by
    rw [← Int.cast_abs]
    have : ((|w| : ℤ) : ℚ) < (2 ^ 53 : ℤ) := by exact_mod_cast hw
    refine this.trans_eq ?_
    norm_num
  have hspacing := spacing_le (by norm_num) hbound
  have hround := nearestDouble_le (w : ℚ)
  unfold totalSeconds at h
  rw [hx] at h
  have hone : (2 : ℚ) ^ ((52 : ℤ) - 52) = 1 := by norm_num
  have hlt : (n : ℚ) < (w + 1 : ℤ) := by
    push_cast
    linarith
  have hlt : n < w + 1 := by exact_mod_cast hlt
  omega

/-- A positive number of seconds is measured of a positive difference only. -/
theorem difference_pos_of_totalSeconds_pos {difference : ℤ} (h : 0 < totalSeconds difference) :
    0 < difference := by
  by_contra hle
  have hx : (difference / 1000000 : ℚ) ≤ 0 := by
    apply div_nonpos_of_nonpos_of_nonneg
    · exact_mod_cast not_lt.mp hle
    · norm_num
  exact absurd h (not_lt.mpr (nearestDouble_nonpos hx))

/-! ## The range -/

section Normalize

variable (now : ℤ) (startTime endTime : Option ℤ) {period : ℕ}

theorem normalize_fst :
    (normalizeMetricCollectionTimeRange now startTime endTime period).1 =
      planStart now startTime period := by
  simp only [normalizeMetricCollectionTimeRange]
  split <;> rfl

/-- The range is empty when not a single period is planned, else it has as many as are allowed. -/
theorem normalize_cases (hperiod : 0 < period) :
    let plan := planEnd now endTime period - planStart now startTime period
    totalSeconds plan < period ∧
        (normalizeMetricCollectionTimeRange now startTime endTime period).2 =
          planStart now startTime period ∨
      ∃ k : ℤ, 1 ≤ k ∧ k ≤ cloudwatchMaxDataRecords ∧
        ((k * period : ℤ) : ℚ) ≤ totalSeconds plan ∧
        (normalizeMetricCollectionTimeRange now startTime endTime period).2 =
          planStart now startTime period + seconds (k * period) := by
  intro plan
  have hpos : (0 : ℚ) < period := by exact_mod_cast hperiod
  by_cases hk : 0 < min ⌊totalSeconds plan / period⌋ cloudwatchMaxDataRecords
  · refine .inr ⟨min ⌊totalSeconds plan / period⌋ cloudwatchMaxDataRecords, hk,
      min_le_right _ _, ?_, ?_⟩
    · have hfloor : ((min ⌊totalSeconds plan / period⌋ cloudwatchMaxDataRecords : ℤ) : ℚ) ≤
          totalSeconds plan / period :=
        le_trans (by exact_mod_cast min_le_left _ _) (Int.floor_le _)
      rw [le_div_iff₀ hpos] at hfloor
      push_cast at hfloor ⊢
      exact hfloor
    · simp only [normalizeMetricCollectionTimeRange]
      rw [if_pos hk]
  · refine .inl ⟨?_, ?_⟩
    · by_contra hle
      apply hk
      have hone : 1 ≤ ⌊totalSeconds plan / period⌋ := by
        apply Int.le_floor.mpr
        rw [le_div_iff₀ hpos]
        push_cast
        linarith [not_lt.mp hle]
      exact lt_min hone (by decide)
    · simp only [normalizeMetricCollectionTimeRange]
      rw [if_neg hk]

theorem seconds_pos {n : ℤ} (hn : 0 < n) : 0 < seconds n := by
  unfold seconds
  omega

/-- When the range is not empty. -/
theorem normalize_lt_iff (hperiod : 0 < period) :
    (normalizeMetricCollectionTimeRange now startTime endTime period).1 <
        (normalizeMetricCollectionTimeRange now startTime endTime period).2 ↔
      (period : ℚ) ≤ totalSeconds (planEnd now endTime period - planStart now startTime period) := by
  rw [normalize_fst]
  rcases normalize_cases now startTime endTime hperiod with ⟨hlt, heq⟩ | ⟨k, hk, -, hle, heq⟩
  · rw [heq]
    exact iff_of_false (lt_irrefl _) (not_le.mpr hlt)
  · rw [heq]
    have hperiods : (period : ℤ) ≤ k * period := le_mul_of_one_le_left (by omega) hk
    refine iff_of_true ?_ (le_trans (by exact_mod_cast hperiods) hle)
    have hpos := seconds_pos (by omega : 0 < k * period)
    omega

/-- Then something is planned. -/
theorem planStart_lt_planEnd (hperiod : 0 < period)
    (h : (normalizeMetricCollectionTimeRange now startTime endTime period).1 <
      (normalizeMetricCollectionTimeRange now startTime endTime period).2) :
    planStart now startTime period < planEnd now endTime period := by
  have hle := (normalize_lt_iff now startTime endTime hperiod).mp h
  have hpos : (0 : ℚ) < period := by exact_mod_cast hperiod
  have hdifference := difference_pos_of_totalSeconds_pos (lt_of_lt_of_le hpos hle)
  omega

/-- The range starts as planned and is empty, or of some whole periods, up to the number allowed;
it does not reach beyond the planned end. -/
theorem normalize_spec (hperiod : 0 < period) :
    (normalizeMetricCollectionTimeRange now startTime endTime period).1 =
        planStart now startTime period ∧
      ((normalizeMetricCollectionTimeRange now startTime endTime period).2 =
          planStart now startTime period ∨
        ∃ k : ℤ, 1 ≤ k ∧ k ≤ cloudwatchMaxDataRecords ∧
          (normalizeMetricCollectionTimeRange now startTime endTime period).2 =
            planStart now startTime period + seconds (k * period) ∧
          (planEnd now endTime period - planStart now startTime period < seconds (2 ^ 34) →
            (normalizeMetricCollectionTimeRange now startTime endTime period).2 ≤
              planEnd now endTime period)) := by
  refine ⟨normalize_fst now startTime endTime, ?_⟩
  rcases normalize_cases now startTime endTime hperiod with ⟨-, heq⟩ | ⟨k, hk, hmax, hle, heq⟩
  · exact .inl heq
  · refine .inr ⟨k, hk, hmax, heq, fun hbound => ?_⟩
    have hperiods : (0 : ℤ) < k * period := mul_pos (by omega) (by omega)
    have hplanned := difference_pos_of_totalSeconds_pos
      (lt_of_lt_of_le (by exact_mod_cast hperiods) hle)
    have hexact := le_difference_of_le_totalSeconds hle (by rwa [abs_of_pos hplanned])
    rw [heq]
    omega

end Normalize

end NumentaApps.CloudWatch
