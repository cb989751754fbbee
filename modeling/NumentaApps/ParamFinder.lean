import Mathlib.Data.List.Dedup
import Mathlib.Data.Rat.Floor
import Mathlib.Tactic.FieldSimp
import Mathlib.Tactic.Linarith
import Mathlib.Tactic.NormNum

/-!
# The parameter finder: aggregation

The finder looks for the window over which the samples of a metric should be aggregated. What NumPy
computes of the values is a parameter; all other numbers are exact. Time intervals are in whole
milliseconds, as the type `timedelta64[ms]` keeps them.
-/
namespace NumentaApps.Unicorn.ParamFinder

/-- A sample, with its time in microseconds since the epoch. -/
structure Sample where
  timestamp : ℤ
  value : ℚ

inductive AggFunc where
  | sum
  | mean
  deriving DecidableEq, Repr

structure AggInfo where
  windowSize : ℤ
  func : AggFunc
  deriving DecidableEq, Repr

/-- What NumPy computes: the interpolation of values at other times, the widths of the wavelets up
to a greatest one, and the variance of the wavelet coefficients of values for each width, if it
does not raise. -/
structure NumPy where
  interp : List ℤ → List ℤ → List ℚ → List ℚ
  widths : ℚ → List ℚ
  variance : List ℚ → List ℚ → Option (List ℚ)

def aggregationWindowThresh : ℚ := 3 / 100

def maxWaveletTimeWindowMs : ℚ := 604800 * 20 * 1000

def maxNumRows : ℕ := 20000

def minNumRows : ℕ := 100

def minRowAfterAggregation : ℕ := 1000

/-- A number without its fraction. -/
def truncate (x : ℚ) : ℤ := if 0 ≤ x then ⌊x⌋ else ⌈x⌉

def diff (xs : List ℤ) : List ℤ := xs.zipWith (fun x next => next - x) xs.tail

/-- The one in the middle, or the mean of the two in the middle without its fraction. -/
def median (xs : List ℤ) : ℤ :=
  let sorted := xs.mergeSort
  let half := xs.length / 2
  if xs.length % 2 = 1 then sorted.getD half 0
  else (sorted.getD (half - 1) 0 + sorted.getD half 0).tdiv 2

def getMedianSamplingInterval (timestampsInMs : List ℤ) : ℤ := median (diff timestampsInMs)

section Steps
variable (numpy : NumPy)

def resampleData (timestamps : List ℤ) (values : List ℚ) (newSamplingInterval : ℤ) : List ℚ :=
  let first := timestamps.headD 0
  let totalDuration := (timestamps.getLastD 0 - first).natAbs
  let nSampleNew := totalDuration / newSamplingInterval.toNat + 1
  let newTimestamps := (List.range nSampleNew).map fun (i : ℕ) => first + i * newSamplingInterval
  numpy.interp (newTimestamps.map (· - first)) (timestamps.map (· - first)) values

/-- The variance over the time scales, and the time scales in milliseconds. -/
def calculateContinuousWaveletTransform (samplingInterval : ℤ) (values : List ℚ) :
    Option (List ℚ × List ℤ) :=
  let maxTimeScaleN := min (maxWaveletTimeWindowMs / samplingInterval) (values.length / 10 : ℕ)
  let widths := numpy.widths maxTimeScaleN
  let timeScale := widths.map fun width => truncate (width * samplingInterval) * 4
  (numpy.variance values widths).map fun cwtVar => (cwtVar, timeScale)

end Steps

/-- `numpy.cumsum`. -/
def cumsum (total : ℚ) : List ℚ → List ℚ
  | [] => []
  | x :: xs => (total + x) :: cumsum (total + x) xs

/-- The first time scale at which the cumulative variance reaches the threshold. -/
def cutoffTimeScale (timeScale : List ℤ) (cwtVar : List ℚ) (thresh : ℚ) : Option ℤ :=
  ((cumsum 0 cwtVar).findIdx? fun x => decide (thresh ≤ x)).bind fun i => timeScale[i]?

/-- The window that is suggested for a cut-off. -/
def windowOfCutoff (cutoff samplingInterval : ℤ) (numDataPts : ℕ) : ℤ :=
  -- the quotient is of the type of the time scale
  let aggregationTimeScale : ℚ := cutoff.tdiv 10
  let aggregationTimeScale :=
    if aggregationTimeScale < samplingInterval then (samplingInterval : ℚ) else aggregationTimeScale
  let maxSamplingInterval : ℚ := numDataPts / minRowAfterAggregation * samplingInterval
  truncate <|
    if numDataPts < minRowAfterAggregation then samplingInterval
    else if maxSamplingInterval < aggregationTimeScale ∧ samplingInterval < maxSamplingInterval then
      maxSamplingInterval
    else aggregationTimeScale

/-- None where there is no cut-off, for which it raises. -/
def determineAggregationWindow (timeScale : List ℤ) (cwtVar : List ℚ) (thresh : ℚ)
    (samplingInterval : ℤ) (numDataPts : ℕ) : Option ℤ :=
  (cutoffTimeScale timeScale cwtVar thresh).map fun cutoff =>
    windowOfCutoff cutoff samplingInterval numDataPts

def getAggregationFunction (values : List ℚ) : AggFunc :=
  if values.dedup.length ≤ 2 then .sum else .mean

def getAggInfo (medianSamplingInterval suggestedSamplingInterval : ℤ) (aggFunc : AggFunc) :
    Option AggInfo :=
  if suggestedSamplingInterval ≤ medianSamplingInterval then none
  else some ⟨suggestedSamplingInterval / 1000, aggFunc⟩

/-- The samples that are looked at. -/
def rows (samples : List Sample) : List Sample := samples.take maxNumRows

def timestampsInMs (samples : List Sample) : List ℤ := (rows samples).map (·.timestamp / 1000)

def medianSamplingIntervalInMs (samples : List Sample) : ℤ :=
  getMedianSamplingInterval (timestampsInMs samples)

/-- What the wavelets are computed of. -/
def resampled (numpy : NumPy) (samples : List Sample) : List ℚ :=
  resampleData numpy (timestampsInMs samples) ((rows samples).map Sample.value)
    (medianSamplingIntervalInMs samples)

/-- The `aggInfo` that is returned; none where the finder raises. -/
def findParameters (numpy : NumPy) (samples : List Sample) : Option (Option AggInfo) :=
  if samples = [] then none
  else if samples.length < minNumRows then some none
  else
    let numDataPts := (rows samples).length
    let samplingInterval := medianSamplingIntervalInMs samples
    if 0 < samplingInterval then do
      let values := resampled numpy samples
      let (cwtVar, timeScaleInMs) ←
        calculateContinuousWaveletTransform numpy samplingInterval values
      let suggestedSamplingIntervalInMs ← determineAggregationWindow timeScaleInMs cwtVar
        aggregationWindowThresh samplingInterval numDataPts
      some (getAggInfo samplingInterval suggestedSamplingIntervalInMs
        (getAggregationFunction values))
    else some none

/-! ## The suggested window in whole milliseconds -/

theorem truncate_intCast (n : ℤ) : truncate n = n := by
  rw [truncate, Int.floor_intCast, Int.ceil_intCast, ite_self]

theorem truncate_div {n : ℤ} (h : 0 ≤ n) : truncate ((n : ℚ) / 1000) = n / 1000 := by
  have hdiv : (0 : ℚ) ≤ n / 1000 := div_nonneg (Int.cast_nonneg h) (by norm_num)
  rw [truncate, if_pos hdiv]
  exact Rat.floor_intCast_div_natCast n 1000

theorem maxSamplingInterval_eq (n : ℕ) (s : ℤ) :
    (n : ℚ) / minRowAfterAggregation * s = ((n * s : ℤ) : ℚ) / 1000 := by
  rw [minRowAfterAggregation]
  push_cast
  ring

section Window
variable {cutoff s : ℤ} {n : ℕ}

/-- Too few samples. -/
theorem windowOfCutoff_few (h : n < 1000) : windowOfCutoff cutoff s n = s := by
  rw [windowOfCutoff]
  rw [if_pos (show n < minRowAfterAggregation from h), truncate_intCast]

/-- The cut-off asks for no window. -/
theorem windowOfCutoff_small (h : cutoff.tdiv 10 ≤ s) : windowOfCutoff cutoff s n = s := by
  have hscale : (if ((cutoff.tdiv 10 : ℤ) : ℚ) < s then (s : ℚ) else ((cutoff.tdiv 10 : ℤ) : ℚ)) =
      s := by
    split
    · rfl
    · rename_i hnot
      exact le_antisymm (by exact_mod_cast h) (not_lt.mp hnot)
  rw [windowOfCutoff]
  rw [hscale]
  split
  · exact truncate_intCast s
  · rw [if_neg, truncate_intCast]
    rintro ⟨hless, hmore⟩
    exact absurd hless hmore.not_gt

/-- The window is bounded only with more than a thousand samples. -/
theorem windowOfCutoff_large (hs : 0 < s) (hn : 1000 ≤ n) (h : s < cutoff.tdiv 10) :
    windowOfCutoff cutoff s n =
      if n * s < 1000 * cutoff.tdiv 10 ∧ 1000 < n then n * s / 1000 else cutoff.tdiv 10 := by
  have hscale : (if ((cutoff.tdiv 10 : ℤ) : ℚ) < s then (s : ℚ) else ((cutoff.tdiv 10 : ℤ) : ℚ)) =
      ((cutoff.tdiv 10 : ℤ) : ℚ) :=
    if_neg (not_lt.mpr (by exact_mod_cast h.le))
  have hfew : ¬ n < minRowAfterAggregation := not_lt.mpr hn
  have hless : (((n * s : ℤ) : ℚ) / 1000 < ((cutoff.tdiv 10 : ℤ) : ℚ)) ↔
      n * s < 1000 * cutoff.tdiv 10 := by
    rw [div_lt_iff₀ (by norm_num), mul_comm _ (1000 : ℚ)]
    exact_mod_cast Iff.rfl
  have hmore : ((s : ℚ) < ((n * s : ℤ) : ℚ) / 1000) ↔ 1000 < n := by
    rw [lt_div_iff₀ (by norm_num), mul_comm (s : ℚ)]
    have hcast : ((1000 : ℚ) * s < ((n * s : ℤ) : ℚ)) ↔ 1000 * s < n * s := by exact_mod_cast Iff.rfl
    rw [hcast, mul_lt_mul_iff_left₀ hs]
    exact_mod_cast Iff.rfl
  rw [windowOfCutoff]
  rw [hscale, if_neg hfew, maxSamplingInterval_eq]
  simp only [hless, hmore]
  split
  · exact truncate_div (mul_nonneg (Int.natCast_nonneg n) hs.le)
  · exact truncate_intCast _

end Window

/-! ## When the aggregation leaves the data -/

/-- A window is a positive number of seconds, not below the sampling interval, and leaves a thousand
records; with fewer samples there is none. -/
structure KeepsData (n : ℕ) (s : ℤ) (aggInfo : Option AggInfo) : Prop where
  window : ∀ info ∈ aggInfo, 0 < info.windowSize ∧ s ≤ info.windowSize * 1000 ∧
    1000 * (info.windowSize * 1000) ≤ n * s
  few : n < minRowAfterAggregation → aggInfo = none

/-- Some whole number of seconds is not below the sampling interval and neither above a tenth of
the cut-off nor above what leaves a thousand records. -/
def HasSeconds (n : ℕ) (s cutoff : ℤ) : Prop :=
  ∃ k : ℤ, s ≤ k * 1000 ∧ k * 1000 ≤ cutoff.tdiv 10 ∧ 1000 * (k * 1000) ≤ n * s

/-- There is no window, or it has room between its bounds. -/
def RoomForWindow (n : ℕ) (s cutoff : ℤ) : Prop :=
  n < 1000 ∨ cutoff.tdiv 10 ≤ s ∨
    (n = 1000 ∧ 1000 ∣ s ∧ cutoff.tdiv 10 < s + 1000) ∨
      1000 < n ∧ (n * s < 1000 * (s + 1) ∨ HasSeconds n s cutoff)

section Keeps
variable {cutoff s : ℤ} {n : ℕ} {func : AggFunc}

theorem keepsData_none : KeepsData n s none := by
  refine ⟨?_, fun _ => rfl⟩
  intro info h
  cases h

theorem keepsData_some {window : ℤ} (hn : 1000 ≤ n) : KeepsData n s (some ⟨window, func⟩) ↔
    0 < window ∧ s ≤ window * 1000 ∧ 1000 * (window * 1000) ≤ n * s := by
  constructor
  · intro h
    exact h.window _ rfl
  · intro h
    refine ⟨?_, ?_⟩
    · intro info hinfo
      obtain rfl := Option.some.inj hinfo
      exact h
    · intro hfew
      exact absurd hfew (not_lt.mpr hn)

/-- At a thousand samples nothing bounds the window. -/
theorem keepsData_thousand (hs : 0 < s) (h : s < cutoff.tdiv 10) :
    KeepsData 1000 s (getAggInfo s (windowOfCutoff cutoff s 1000) func) ↔
      1000 ∣ s ∧ cutoff.tdiv 10 < s + 1000 := by
  rw [windowOfCutoff_large hs le_rfl h, if_neg (by omega), getAggInfo, if_neg (not_le.mpr h),
    keepsData_some le_rfl]
  generalize cutoff.tdiv 10 = tenth at h ⊢
  push_cast
  omega

theorem keepsData_more (hs : 0 < s) (hn : 1000 < n) (h : s < cutoff.tdiv 10) :
    KeepsData n s (getAggInfo s (windowOfCutoff cutoff s n) func) ↔
      n * s < 1000 * (s + 1) ∨ HasSeconds n s cutoff := by
  have hproduct : 1000 * s + s ≤ n * s := by
    have hn : (1001 : ℤ) ≤ n := by exact_mod_cast hn
    have := mul_le_mul_of_nonneg_right hn hs.le
    linarith
  by_cases hcap : n * s < 1000 * cutoff.tdiv 10
  · have hwindow : windowOfCutoff cutoff s n = n * s / 1000 :=
      (windowOfCutoff_large hs hn.le h).trans (if_pos ⟨hcap, hn⟩)
    rw [hwindow, getAggInfo, HasSeconds]
    by_cases hnone : n * s / 1000 ≤ s
    · rw [if_pos hnone]
      refine iff_of_true keepsData_none (.inl ?_)
      omega
    · rw [if_neg hnone, keepsData_some hn.le]
      constructor
      · rintro ⟨-, hleast, hmost⟩
        refine .inr ⟨n * s / 1000 / 1000, hleast, ?_, hmost⟩
        omega
      · rintro (hcap' | ⟨k, hleast, hmost, hrecords⟩)
        · omega
        · omega
  · have hwindow : windowOfCutoff cutoff s n = cutoff.tdiv 10 :=
      (windowOfCutoff_large hs hn.le h).trans (if_neg fun hboth => hcap hboth.1)
    rw [hwindow, getAggInfo, HasSeconds, if_neg (not_le.mpr h), keepsData_some hn.le]
    constructor
    · rintro ⟨-, hleast, hmost⟩
      refine .inr ⟨cutoff.tdiv 10 / 1000, hleast, ?_, hmost⟩
      omega
    · rintro (hcap' | ⟨k, hleast, hmost, hrecords⟩)
      · omega
      · omega

theorem keepsData_iff (hs : 0 < s) :
    KeepsData n s (getAggInfo s (windowOfCutoff cutoff s n) func) ↔ RoomForWindow n s cutoff := by
  by_cases hfew : n < 1000
  · rw [windowOfCutoff_few hfew, getAggInfo, if_pos le_rfl]
    exact iff_of_true keepsData_none (.inl hfew)
  · by_cases hsmall : cutoff.tdiv 10 ≤ s
    · rw [windowOfCutoff_small hsmall, getAggInfo, if_pos le_rfl]
      exact iff_of_true keepsData_none (.inr (.inl hsmall))
    · rw [RoomForWindow, or_iff_right hfew, or_iff_right hsmall]
      have hlarge := not_le.mp hsmall
      obtain rfl | hmore := eq_or_lt_of_le (not_lt.mp hfew)
      · rw [keepsData_thousand hs hlarge]
        simp
      · rw [keepsData_more hs hmore hlarge]
        have hne : n ≠ 1000 := hmore.ne'
        simp [hne, hmore]

end Keeps

/-- The cut-off that the wavelet step leads to. -/
def cutoffOf (numpy : NumPy) (samples : List Sample) : Option ℤ :=
  (calculateContinuousWaveletTransform numpy (medianSamplingIntervalInMs samples)
    (resampled numpy samples)).bind fun found =>
      cutoffTimeScale found.2 found.1 aggregationWindowThresh

section Finder
variable {numpy : NumPy} {samples : List Sample} {aggInfo : Option AggInfo}

theorem findParameters_cutoff (hs : 0 < medianSamplingIntervalInMs samples)
    (hrows : minNumRows ≤ samples.length) (h : findParameters numpy samples = some aggInfo) :
    ∃ cutoff, cutoffOf numpy samples = some cutoff ∧
      aggInfo = getAggInfo (medianSamplingIntervalInMs samples)
        (windowOfCutoff cutoff (medianSamplingIntervalInMs samples) (rows samples).length)
        (getAggregationFunction (resampled numpy samples)) := by
  have hnonempty : samples ≠ [] := by
    rintro rfl
    exact absurd hrows (by decide)
  rw [findParameters, if_neg hnonempty, if_neg (not_lt.mpr hrows)] at h
  simp only [if_pos hs] at h
  obtain ⟨⟨cwtVar, timeScale⟩, hfound, h⟩ := Option.bind_eq_some_iff.mp h
  obtain ⟨suggested, hsuggested, h⟩ := Option.bind_eq_some_iff.mp h
  obtain ⟨cutoff, hcutoff, rfl⟩ := Option.map_eq_some_iff.mp hsuggested
  refine ⟨cutoff, ?_, (Option.some.inj h).symm⟩
  rw [cutoffOf, hfound]
  exact hcutoff

theorem findParameters_none (h : findParameters numpy samples = some aggInfo)
    (hcase : samples.length < minNumRows ∨ medianSamplingIntervalInMs samples ≤ 0) :
    aggInfo = none := by
  rw [findParameters] at h
  split_ifs at h with hempty hfew
  · exact (Option.some.inj h).symm
  · have hs := hcase.resolve_left hfew
    simp only [if_neg (not_lt.mpr hs)] at h
    exact (Option.some.inj h).symm

/-- What the finder returns keeps the data exactly where the window that the cut-off asks for has
room, or no intervals between samples are looked at. -/
theorem findParameters_keepsData_iff (h : findParameters numpy samples = some aggInfo) :
    KeepsData (rows samples).length (medianSamplingIntervalInMs samples) aggInfo ↔
      medianSamplingIntervalInMs samples ≤ 0 ∨ ∀ cutoff ∈ cutoffOf numpy samples,
        RoomForWindow (rows samples).length (medianSamplingIntervalInMs samples) cutoff := by
  by_cases hcase : samples.length < minNumRows ∨ medianSamplingIntervalInMs samples ≤ 0
  · rw [findParameters_none h hcase]
    refine iff_of_true keepsData_none ?_
    obtain hfew | hs := hcase
    · refine .inr fun cutoff _ => .inl ?_
      have hrows : (rows samples).length ≤ samples.length := List.length_take_le' _ _
      have hfew : samples.length < 100 := hfew
      omega
    · exact .inl hs
  · obtain ⟨hrows, hs⟩ := not_or.mp hcase
    obtain ⟨cutoff, hcutoff, rfl⟩ := findParameters_cutoff (not_le.mp hs) (not_lt.mp hrows) h
    rw [keepsData_iff (not_le.mp hs), or_iff_right hs, hcutoff]
    constructor
    · intro hroom cutoff' heq
      obtain rfl := Option.some.inj heq
      exact hroom
    · intro hall
      exact hall cutoff rfl

end Finder

/-! ## Samples at equal distances -/

/-- The least and the greatest width for two thousand samples, with all the variance at the
greatest. -/
def twoWidths : NumPy where
  interp _ _ values := values
  widths _ := [1, 200]
  variance _ _ := some [0, 1]

def evenly (n : ℕ) (s : ℤ) : List Sample :=
  (List.range n).map fun (i : ℕ) => ⟨i * s * 1000, i⟩

theorem median_replicate {m : ℕ} (hm : 0 < m) (s : ℤ) : median (List.replicate m s) = s := by
  have hsorted : (List.replicate m s).mergeSort = List.replicate m s := by
    apply List.mergeSort_of_pairwise
    exact List.pairwise_replicate.mpr (.inr (by simp))
  have hget : ∀ i < m, (List.replicate m s).getD i 0 = s := by
    intro i hi
    rw [List.getD_eq_getElem?_getD, List.getElem?_replicate_of_lt hi, Option.getD_some]
  rw [median]
  simp only [hsorted, List.length_replicate]
  split
  · exact hget _ (by omega)
  · rw [hget _ (by omega), hget _ (by omega), ← two_mul]
    exact Int.mul_tdiv_cancel_left s (by norm_num)

theorem rows_evenly {n : ℕ} (hn : n ≤ maxNumRows) (s : ℤ) : rows (evenly n s) = evenly n s := by
  apply List.take_of_length_le
  rw [evenly, List.length_map, List.length_range]
  exact hn

theorem timestampsInMs_evenly {n : ℕ} (hn : n ≤ maxNumRows) (s : ℤ) :
    timestampsInMs (evenly n s) = (List.range n).map fun (i : ℕ) => i * s := by
  rw [timestampsInMs, rows_evenly hn, evenly, List.map_map]
  apply List.map_congr_left
  intro i _
  exact Int.mul_ediv_cancel _ (by norm_num)

theorem median_evenly {n : ℕ} (hleast : 2 ≤ n) (hn : n ≤ maxNumRows) (s : ℤ) :
    medianSamplingIntervalInMs (evenly n s) = s := by
  have hdiff : diff ((List.range n).map fun (i : ℕ) => (i : ℤ) * s) = List.replicate (n - 1) s := by
    apply List.ext_getElem
    · simp [diff]
    · intro i hi hi'
      simp only [diff, List.getElem_zipWith, List.getElem_tail, List.getElem_map,
        List.getElem_range, List.getElem_replicate]
      push_cast
      ring
  rw [medianSamplingIntervalInMs, timestampsInMs_evenly hn, getMedianSamplingInterval, hdiff]
  exact median_replicate (by omega) s

theorem findParameters_evenly {s : ℤ} (hs : 0 < s) :
    findParameters twoWidths (evenly 2000 s) = some (getAggInfo s (windowOfCutoff (800 * s) s 2000)
      (getAggregationFunction (resampled twoWidths (evenly 2000 s)))) := by
  have hmedian : medianSamplingIntervalInMs (evenly 2000 s) = s :=
    median_evenly (by norm_num) (by decide) s
  have hlength : (evenly 2000 s).length = 2000 := by
    rw [evenly, List.length_map, List.length_range]
  have hrows : (rows (evenly 2000 s)).length = 2000 := by
    rw [rows_evenly (by decide), hlength]
  have hempty : evenly 2000 s ≠ [] := by
    intro h
    rw [h] at hlength
    cases hlength
  have hfew : ¬ (evenly 2000 s).length < minNumRows := by
    rw [hlength]
    decide
  have htransform : calculateContinuousWaveletTransform twoWidths s
      (resampled twoWidths (evenly 2000 s)) = some ([0, 1], [s * 4, 200 * s * 4]) := by
    have hlast : truncate (200 * (s : ℚ)) = 200 * s := by
      rw [← truncate_intCast (200 * s)]
      push_cast
      rfl
    simp [calculateContinuousWaveletTransform, twoWidths, truncate_intCast, hlast]
  have hcutoff : cutoffTimeScale [s * 4, 200 * s * 4] [0, 1] aggregationWindowThresh =
      some (800 * s) := by
    have hfirst : (cumsum 0 [0, 1]).findIdx? (fun x => decide (aggregationWindowThresh ≤ x)) =
        some 1 := by decide +kernel
    rw [cutoffTimeScale, hfirst]
    refine congrArg some (?_ : 200 * s * 4 = 800 * s)
    ring
  rw [findParameters, if_neg hempty, if_neg hfew]
  simp only [hmedian, hrows, if_pos hs, htransform]
  refine (?_ : (determineAggregationWindow _ _ _ _ _).bind _ = _)
  rw [determineAggregationWindow, hcutoff]
  rfl

/-- Two thousand samples, one each second. -/
theorem keepsData_each_second :
    KeepsData (rows (evenly 2000 1000)).length (medianSamplingIntervalInMs (evenly 2000 1000))
        (getAggInfo 1000 (windowOfCutoff (800 * 1000) 1000 2000)
          (getAggregationFunction (resampled twoWidths (evenly 2000 1000)))) ↔
      medianSamplingIntervalInMs (evenly 2000 1000) ≤ 0 ∨
        ∀ cutoff ∈ cutoffOf twoWidths (evenly 2000 1000),
          RoomForWindow (rows (evenly 2000 1000)).length
            (medianSamplingIntervalInMs (evenly 2000 1000)) cutoff :=
  findParameters_keepsData_iff (findParameters_evenly (by norm_num))

/-- Two thousand samples, ten each second, are given a window of no seconds. -/
theorem window_of_no_seconds :
    ¬ ∀ (numpy : NumPy) (samples : List Sample) (aggInfo : Option AggInfo),
      findParameters numpy samples = some aggInfo →
        KeepsData (rows samples).length (medianSamplingIntervalInMs samples) aggInfo := by
  intro h
  have hkeeps := h twoWidths (evenly 2000 100) _ (findParameters_evenly (by norm_num))
  have hwindow : windowOfCutoff (800 * 100) 100 2000 = 200 := by decide +kernel
  rw [hwindow] at hkeeps
  exact absurd (hkeeps.window _ rfl).1 (by decide)

end NumentaApps.Unicorn.ParamFinder
