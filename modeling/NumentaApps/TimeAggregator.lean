import NumentaApps.NumericLiteral
import NumentaApps.SampleStatistics
import Mathlib.Algebra.Order.Floor.Ring
import Mathlib.Algebra.Order.Archimedean.Basic
import Mathlib.Data.Finset.Sort
import Mathlib.Data.Rat.Floor
import Mathlib.Tactic.FieldSimp
import Mathlib.Tactic.Linarith
import Mathlib.Tactic.Ring

/-!
# Aggregation of a stream of records by time

A transform stream that keeps the end of the running window and one bucket. Numbers are exact;
times are in milliseconds.
-/
namespace NumentaApps.Unicorn.TimeAggregator
open NumericLiteral (maxValue minValue)
open SampleStatistics (foldl_min_eq_iff foldl_max_eq_iff)

inductive AggregationFunction where
  | sum
  | count
  | avg
  | min
  | max
  deriving DecidableEq, Repr

def AggregationFunction.name : AggregationFunction → String
  | .sum => "sum"
  | .count => "count"
  | .avg => "avg"
  | .min => "min"
  | .max => "max"

/-- The function of a name; none where the code goes to its default case. -/
def AggregationFunction.ofName (name : String) : Option AggregationFunction :=
  if name = "min" then some .min
  else if name = "max" then some .max
  else if name = "sum" then some .sum
  else if name = "avg" then some .avg
  else if name = "count" then some .count
  else none

/-- The settings, without the names of the two fields. -/
structure Options where
  function : Option String
  interval : Option ℚ

/-- A record: its time field as `moment.utc` reads it and its value field as `parseFloat` does,
where it has them. -/
structure Data where
  time : Option ℚ
  value : Option ℚ

structure Bucket where
  timestamp : ℚ
  value : ℚ
  deriving DecidableEq, Repr

/-- The fields of the stream. -/
structure State where
  timebucket : ℚ
  interval : ℚ
  function : Option AggregationFunction
  bucket : Bucket
  count : ℕ

def initialValue : Option AggregationFunction → ℚ
  | some .min => maxValue
  | some .max => minValue
  | _ => 0

def reset (s : State) : State :=
  { s with bucket := ⟨s.timebucket, initialValue s.function⟩, count := 0 }

/-- The constructor. An empty name or an interval of zero counts as absent. -/
def create (options : Options) : State :=
  let name := (options.function.filter (· ≠ "")).getD "count"
  reset {
    timebucket := 0
    interval := (options.interval.filter (· ≠ 0)).getD 60000
    function := AggregationFunction.ofName name
    bucket := ⟨0, 0⟩
    count := 0 }

/-- The value of a bucket after another value, the `count`-th. -/
def nextValue (function : Option AggregationFunction) (count : ℕ) (old value : ℚ) : ℚ :=
  match function with
  | some .sum => old + value
  | some .avg => old + (value - old) / count
  | some .count => count
  | some .min => if value < old then value else old
  | some .max => if value > old then value else old
  | none => old

def update (data : Data) (s : State) : State :=
  match data.value with
  | none => s
  | some value =>
    { s with
      count := s.count + 1
      bucket := ⟨s.bucket.timestamp, nextValue s.function (s.count + 1) s.bucket.value value⟩ }

/-- What is pushed, and the stream with its next bucket. -/
def publish (s : State) : List Bucket × State :=
  (if 0 < s.count then [s.bucket] else [],
    reset { s with timebucket := s.timebucket + s.interval })

def transform (data : Data) (s : State) : List Bucket × State :=
  match data.time with
  | none => ([], s)
  | some timestamp =>
    if s.timebucket = 0 then
      ([], update data { s with timebucket := timestamp + s.interval })
    else if s.timebucket ≤ timestamp then
      ((publish s).1, update data (publish s).2)
    else ([], update data s)

def flush (s : State) : List Bucket := (publish s).1

/-- All that the stream pushes until its end. -/
def pushed (s : State) : List Data → List Bucket
  | [] => flush s
  | data :: rest => (transform data s).1 ++ pushed (transform data s).2 rest

/-! ## The windows of a stream -/

/-- A record that has both fields. -/
structure Sample where
  time : ℚ
  value : ℚ

def Sample.data (sample : Sample) : Data := ⟨some sample.time, some sample.value⟩

/-- What a function gives of the values of a window. -/
def AggregationFunction.apply (function : AggregationFunction) (values : List ℚ) : ℚ :=
  match function with
  | .sum => values.sum
  | .count => values.length
  | .avg => values.sum / values.length
  | .min => values.min?.getD 0
  | .max => values.max?.getD 0

section Windows
variable (first interval : ℚ) (samples : List Sample)

/-- The number of the window that a time is in, from the first time on. -/
def windowOf (time : ℚ) : ℤ := ⌊(time - first) / interval⌋

def windowEnd (window : ℤ) : ℚ := first + (window + 1) * interval

/-- The windows that are not empty, in order. -/
def windows : List ℤ :=
  ((samples.map fun sample => windowOf first interval sample.time).toFinset).sort (· ≤ ·)

def valuesIn (window : ℤ) : List ℚ :=
  (samples.filter fun sample => windowOf first interval sample.time = window).map Sample.value

end Windows

/-- A record for each window that is not empty, with the end of the window. -/
def partitioned (function : AggregationFunction) (interval : ℚ) : List Sample → List Bucket
  | [] => []
  | first :: rest =>
    (windows first.time interval (first :: rest)).map fun window =>
      ⟨windowEnd first.time interval window,
        function.apply (valuesIn first.time interval (first :: rest) window)⟩

/-- What a stream with a function and an interval pushes. -/
def aggregated (function : AggregationFunction) (interval : ℚ) (samples : List Sample) :
    List Bucket :=
  pushed (create ⟨some function.name, some interval⟩) (samples.map Sample.data)

/-! ## The bucket holds the values since the last publication -/

/-- What a bucket holds after values. -/
def accumulated (function : AggregationFunction) (values : List ℚ) : ℚ :=
  match function with
  | .sum => values.sum
  | .count => values.length
  | .avg => values.sum / values.length
  | .min => values.foldl min maxValue
  | .max => values.foldl max minValue

structure Holding (function : AggregationFunction) (values : List ℚ) (s : State) : Prop where
  same : s.function = some function
  count : s.count = values.length
  value : s.bucket.value = accumulated function values

theorem ofName_name (function : AggregationFunction) :
    AggregationFunction.ofName function.name = some function := by
  cases function <;> decide

variable {function : AggregationFunction} {values : List ℚ} {s : State}

theorem ite_lt_eq_min (old value : ℚ) : (if value < old then value else old) = min old value := by
  by_cases h : value < old
  · rw [if_pos h, min_eq_right h.le]
  · rw [if_neg h, min_eq_left (not_lt.mp h)]

theorem ite_gt_eq_max (old value : ℚ) : (if value > old then value else old) = max old value := by
  by_cases h : old < value
  · rw [if_pos h, max_eq_right h.le]
  · rw [if_neg h, max_eq_left (not_lt.mp h)]

theorem nextValue_accumulated (value : ℚ) :
    nextValue (some function) (values.length + 1) (accumulated function values) value =
      accumulated function (values ++ [value]) := by
  cases function with
  | sum => simp [nextValue, accumulated]
  | count => simp [nextValue, accumulated]
  | avg =>
    simp only [nextValue, accumulated, List.sum_append, List.length_append, List.sum_singleton,
      List.length_singleton, Nat.cast_add, Nat.cast_one]
    have hpos : (0 : ℚ) < values.length + 1 := by positivity
    by_cases hnil : values.length = 0
    · rw [List.length_eq_zero_iff.mp hnil]
      simp
    · have hlength : (values.length : ℚ) ≠ 0 := Nat.cast_ne_zero.mpr hnil
      field_simp
      ring
  | min =>
    refine (ite_lt_eq_min (accumulated .min values) value).trans ?_
    simp [accumulated]
  | max =>
    refine (ite_gt_eq_max (accumulated .max values) value).trans ?_
    simp [accumulated]

theorem Holding.update (h : Holding function values s) (sample : Sample) :
    Holding function (values ++ [sample.value]) (update sample.data s) where
  same := h.same
  count := by
    rw [List.length_append, List.length_singleton, ← h.count]
    rfl
  value := by
    refine (?_ : nextValue s.function (s.count + 1) s.bucket.value sample.value = _)
    rw [h.same, h.count, h.value, nextValue_accumulated]

/-- A least or greatest value is found only on the right side of the value that the bucket begins
with. -/
def Reaches (function : AggregationFunction) (values : List ℚ) : Prop :=
  match function with
  | .min => ∃ value ∈ values, value ≤ maxValue
  | .max => ∃ value ∈ values, minValue ≤ value
  | _ => True

theorem accumulated_eq_apply_iff (hvalues : values ≠ []) :
    accumulated function values = function.apply values ↔ Reaches function values := by
  cases function with
  | sum => exact iff_of_true rfl trivial
  | count => exact iff_of_true rfl trivial
  | avg => exact iff_of_true rfl trivial
  | min => exact foldl_min_eq_iff hvalues maxValue 0
  | max => exact foldl_max_eq_iff hvalues minValue 0

/-! ## What is pushed -/

variable {sample : Sample} {samples : List Sample}

theorem transform_first (h : s.timebucket = 0) : transform sample.data s =
    ([], update sample.data { s with timebucket := sample.time + s.interval }) := by
  rw [transform, Sample.data]
  exact if_pos h

theorem transform_next (h : s.timebucket ≠ 0) (hle : s.timebucket ≤ sample.time) :
    transform sample.data s = ((publish s).1, update sample.data (publish s).2) := by
  rw [transform, Sample.data]
  exact (if_neg h).trans (if_pos hle)

theorem transform_same (h : s.timebucket ≠ 0) (hless : sample.time < s.timebucket) :
    transform sample.data s = ([], update sample.data s) := by
  rw [transform, Sample.data]
  exact (if_neg h).trans (if_neg (not_le.mpr hless))

theorem publish_of_pos (h : 0 < s.count) : (publish s).1 = [s.bucket] := if_pos h

theorem flush_of_pos (h : 0 < s.count) : flush s = [s.bucket] := if_pos h

/-- The label of the first record is still the zero that the constructor gave it. -/
theorem pushed_first (hcount : 0 < s.count) (hlabel : s.bucket.timestamp = 0) :
    ∃ value rest, pushed s (samples.map Sample.data) = ⟨0, value⟩ :: rest := by
  induction samples generalizing s with
  | nil =>
    refine ⟨s.bucket.value, [], ?_⟩
    rw [List.map_nil, pushed, flush_of_pos hcount, ← hlabel]
  | cons sample samples ih =>
    rw [List.map_cons, pushed]
    by_cases hzero : s.timebucket = 0
    · rw [transform_first hzero]
      exact ih (Nat.succ_pos _) hlabel
    · by_cases hless : sample.time < s.timebucket
      · rw [transform_same hzero hless]
        exact ih (Nat.succ_pos _) hlabel
      · rw [transform_next hzero (not_lt.mp hless), publish_of_pos hcount]
        refine ⟨s.bucket.value,
          pushed (update sample.data (publish s).2) (samples.map Sample.data), ?_⟩
        rw [← hlabel]
        rfl

/-- The later labels go up from the end of the running window by whole intervals. -/
theorem pushed_labels (hinterval : 0 < s.interval) (hend : 0 < s.timebucket)
    (hcount : 0 < s.count) :
    ∃ value rest, pushed s (samples.map Sample.data) = ⟨s.bucket.timestamp, value⟩ :: rest ∧
      ∀ bucket ∈ rest, ∃ k : ℕ, bucket.timestamp = s.timebucket + (k + 1) * s.interval := by
  induction samples generalizing s with
  | nil =>
    refine ⟨s.bucket.value, [], ?_, ?_⟩
    · rw [List.map_nil, pushed, flush_of_pos hcount]
    · intro bucket h
      cases h
  | cons sample samples ih =>
    rw [List.map_cons, pushed]
    by_cases hless : sample.time < s.timebucket
    · rw [transform_same hend.ne' hless]
      exact @ih (update sample.data s) hinterval hend (Nat.succ_pos _)
    · rw [transform_next hend.ne' (not_lt.mp hless), publish_of_pos hcount]
      obtain ⟨value, rest, hpushed, hrest⟩ := @ih (update sample.data (publish s).2) hinterval
        (add_pos hend hinterval) (Nat.succ_pos _)
      refine ⟨s.bucket.value, _, rfl, ?_⟩
      intro bucket hbucket
      rw [hpushed] at hbucket
      obtain rfl | hbucket := List.mem_cons.mp hbucket
      · refine ⟨0, ?_⟩
        refine (?_ : s.timebucket + s.interval = _)
        push_cast
        ring
      · obtain ⟨k, hk⟩ := hrest bucket hbucket
        refine ⟨k + 1, hk.trans ?_⟩
        refine (?_ : s.timebucket + s.interval + (k + 1) * s.interval = _)
        push_cast
        ring

/-- As long as no time has reached the end of the window, there is one record at the end. -/
theorem pushed_one (hholding : Holding function values s) (hcount : 0 < s.count)
    (hend : 0 ≤ s.timebucket)
    (htimes : ∀ sample ∈ samples, -s.interval ≤ sample.time ∧ sample.time < 0) :
    pushed s (samples.map Sample.data) =
      [⟨s.bucket.timestamp, accumulated function (values ++ samples.map Sample.value)⟩] := by
  induction samples generalizing s values with
  | nil =>
    rw [List.map_nil, pushed, flush_of_pos hcount, List.map_nil, List.append_nil, ← hholding.value]
  | cons sample samples ih =>
    obtain ⟨hleast, hless⟩ := htimes sample List.mem_cons_self
    have hlater : ∀ sample ∈ samples, -s.interval ≤ sample.time ∧ sample.time < 0 :=
      fun other h => htimes other (List.mem_cons_of_mem _ h)
    have hvalues : values ++ (sample :: samples).map Sample.value =
        values ++ [sample.value] ++ samples.map Sample.value := by
      simp
    rw [List.map_cons, pushed, hvalues]
    by_cases hzero : s.timebucket = 0
    · rw [transform_first hzero]
      have hholding' : Holding function values
          { s with timebucket := sample.time + s.interval } :=
        ⟨hholding.same, hholding.count, hholding.value⟩
      refine ih (hholding'.update sample) (Nat.succ_pos _) ?_ hlater
      refine (?_ : 0 ≤ sample.time + s.interval)
      linarith
    · have hpos : 0 < s.timebucket := lt_of_le_of_ne hend (Ne.symm hzero)
      rw [transform_same hzero (hless.trans hpos)]
      exact ih (hholding.update sample) (Nat.succ_pos _) hend hlater

/-! ## The windows -/

section Windows
variable {first interval time : ℚ}

theorem windowEnd_bounds (hinterval : 0 < interval) :
    time < windowEnd first interval (windowOf first interval time) ∧
      windowEnd first interval (windowOf first interval time) ≤ time + interval := by
  have hfloor := Int.floor_le ((time - first) / interval)
  have hless := Int.lt_floor_add_one ((time - first) / interval)
  rw [le_div_iff₀ hinterval] at hfloor
  rw [div_lt_iff₀ hinterval] at hless
  rw [windowEnd, windowOf]
  constructor
  · linarith
  · linarith

theorem windowEnd_zero : windowEnd first interval 0 = first + interval := by
  rw [windowEnd, Int.cast_zero, zero_add, one_mul]

theorem windowOf_first : windowOf first interval first = 0 := by
  rw [windowOf, sub_self, zero_div, Int.floor_zero]

theorem windowOf_nonneg (hinterval : 0 < interval) (h : first ≤ time) :
    0 ≤ windowOf first interval time :=
  Int.floor_nonneg.mpr (div_nonneg (sub_nonneg.mpr h) hinterval.le)

theorem windowOf_eq_zero (hinterval : 0 < interval) (h : first ≤ time)
    (hless : time < first + interval) : windowOf first interval time = 0 := by
  apply Int.floor_eq_zero_iff.mpr
  refine ⟨div_nonneg (sub_nonneg.mpr h) hinterval.le, ?_⟩
  rw [div_lt_one hinterval]
  linarith

theorem mem_windows {window : ℤ} : window ∈ windows first interval samples ↔
    ∃ sample ∈ samples, windowOf first interval sample.time = window := by
  rw [windows, Finset.mem_sort, List.mem_toFinset, List.mem_map]

end Windows

section Partition
variable {first : Sample} {rest : List Sample} {interval : ℚ}

theorem partitioned_label {bucket : Bucket}
    (h : bucket ∈ partitioned function interval (first :: rest)) :
    ∃ window, bucket.timestamp = windowEnd first.time interval window := by
  obtain ⟨window, -, rfl⟩ := List.mem_map.mp h
  exact ⟨window, rfl⟩

theorem exists_partitioned (h : sample ∈ first :: rest) :
    ∃ bucket ∈ partitioned function interval (first :: rest), bucket.timestamp =
      windowEnd first.time interval (windowOf first.time interval sample.time) :=
  ⟨_, List.mem_map_of_mem (mem_windows.mpr ⟨sample, h, rfl⟩), rfl⟩

theorem partitioned_first (hinterval : 0 < interval)
    (hsorted : (first :: rest).Pairwise fun a b => a.time ≤ b.time) :
    ∃ value others, partitioned function interval (first :: rest) =
      ⟨first.time + interval, value⟩ :: others := by
  have hmem : 0 ∈ windows first.time interval (first :: rest) :=
    mem_windows.mpr ⟨first, List.mem_cons_self, windowOf_first⟩
  have hnonneg : ∀ window ∈ windows first.time interval (first :: rest), 0 ≤ window := by
    intro window h
    obtain ⟨sample, hsample, rfl⟩ := mem_windows.mp h
    apply windowOf_nonneg hinterval
    obtain rfl | hrest := List.mem_cons.mp hsample
    · exact le_refl _
    · exact List.rel_of_pairwise_cons hsorted hrest
  have hpairwise : (windows first.time interval (first :: rest)).Pairwise (· ≤ ·) :=
    Finset.pairwise_sort _ _
  rw [partitioned]
  cases hwindows : windows first.time interval (first :: rest) with
  | nil =>
    rw [hwindows] at hmem
    cases hmem
  | cons window others =>
    rw [hwindows] at hmem hnonneg hpairwise
    have hzero : window = 0 := by
      obtain heq | hothers := List.mem_cons.mp hmem
      · exact heq.symm
      · exact le_antisymm (List.rel_of_pairwise_cons hpairwise hothers)
          (hnonneg window List.mem_cons_self)
    subst hzero
    rw [List.map_cons, windowEnd_zero]
    exact ⟨_, _, rfl⟩

theorem partitioned_one (hinterval : 0 < interval)
    (htimes : ∀ sample ∈ first :: rest,
      first.time ≤ sample.time ∧ sample.time < first.time + interval) :
    partitioned function interval (first :: rest) =
      [⟨first.time + interval, function.apply ((first :: rest).map Sample.value)⟩] := by
  have hzero : ∀ sample ∈ first :: rest, windowOf first.time interval sample.time = 0 := by
    intro sample h
    exact windowOf_eq_zero hinterval (htimes sample h).1 (htimes sample h).2
  have hwindows : windows first.time interval (first :: rest) = [0] := by
    have hset : ((first :: rest).map fun sample =>
        windowOf first.time interval sample.time).toFinset = {0} := by
      ext window
      rw [List.mem_toFinset, List.mem_map, Finset.mem_singleton]
      constructor
      · rintro ⟨sample, h, rfl⟩
        exact hzero sample h
      · rintro rfl
        exact ⟨first, List.mem_cons_self, hzero first List.mem_cons_self⟩
    rw [windows, hset, Finset.sort_singleton]
  have hvalues : valuesIn first.time interval (first :: rest) 0 =
      (first :: rest).map Sample.value := by
    rw [valuesIn, List.filter_eq_self.mpr]
    intro sample h
    exact decide_eq_true (hzero sample h)
  rw [partitioned, hwindows, List.map_singleton, hvalues, windowEnd_zero]

end Partition

/-! ## When the records pushed are those of the windows -/

/-- Nothing, or one window that ends at zero, with a value that the bucket's first value does not
hide. -/
def OneWindow (function : AggregationFunction) (interval : ℚ) : List Sample → Prop
  | [] => True
  | first :: rest =>
    first.time = -interval ∧ (∀ sample ∈ rest, sample.time < 0) ∧
      Reaches function ((first :: rest).map Sample.value)

/-- After records at the first time the window is still to be set, by the next that is later. -/
theorem times_negative (hinterval : 0 < s.interval) (hzero : s.timebucket = 0)
    (hlabel : s.bucket.timestamp = 0)
    (htimes : ∀ sample ∈ samples, -s.interval ≤ sample.time)
    (hlabels : ∀ bucket ∈ pushed s (samples.map Sample.data),
      ∃ k : ℤ, bucket.timestamp = k * s.interval)
    (hcovered : ∀ sample ∈ samples, ∃ bucket ∈ pushed s (samples.map Sample.data),
      sample.time < bucket.timestamp ∧ bucket.timestamp ≤ sample.time + s.interval) :
    ∀ sample ∈ samples, sample.time < 0 := by
  induction samples generalizing s with
  | nil =>
    intro sample h
    cases h
  | cons sample samples ih =>
    have hleast := htimes sample List.mem_cons_self
    rw [List.map_cons, pushed, transform_first hzero, List.nil_append] at hlabels hcovered
    obtain hsame | hlater := eq_or_lt_of_le hleast
    · have hrest := @ih (update sample.data { s with timebucket := sample.time + s.interval })
        hinterval (by rw [← hsame]; exact neg_add_cancel s.interval) hlabel
        (fun other h => htimes other (List.mem_cons_of_mem _ h)) hlabels
        (fun other h => hcovered other (List.mem_cons_of_mem _ h))
      intro other h
      obtain rfl | h := List.mem_cons.mp h
      · linarith
      · exact hrest other h
    · have hend : 0 < sample.time + s.interval := by linarith
      obtain ⟨value, rest, hpushed, hrest⟩ := @pushed_labels
        (update sample.data { s with timebucket := sample.time + s.interval }) samples hinterval
        hend (Nat.succ_pos _)
      rw [hpushed] at hlabels hcovered
      have hrest : ∀ bucket ∈ rest, ∃ k : ℕ,
          bucket.timestamp = sample.time + s.interval + (k + 1) * s.interval := hrest
      have hfirst : ∀ {bucket : Bucket} {others : List Bucket}, bucket ∈
          (⟨s.bucket.timestamp, value⟩ : Bucket) :: others → bucket.timestamp = 0 ∨ bucket ∈ others := by
        intro bucket others h
        obtain rfl | h := List.mem_cons.mp h
        · exact .inl hlabel
        · exact .inr h
      have hnegative : sample.time < 0 := by
        obtain ⟨bucket, hbucket, hless, hle⟩ := hcovered sample List.mem_cons_self
        obtain hbucket | hbucket := hfirst hbucket
        · linarith
        · obtain ⟨k, hk⟩ := hrest bucket hbucket
          have hpos : 0 < ((k : ℚ) + 1) * s.interval := by positivity
          linarith
      -- a later label is no multiple of the interval
      have hnil : rest = [] := by
        by_contra hne
        obtain ⟨bucket, hbucket⟩ := List.exists_mem_of_ne_nil rest hne
        obtain ⟨k, hk⟩ := hrest bucket hbucket
        obtain ⟨j, hj⟩ := hlabels bucket (List.mem_cons_of_mem _ hbucket)
        have hmultiple : sample.time = ((j - k - 2 : ℤ) : ℚ) * s.interval := by
          push_cast
          linarith
        rw [hmultiple] at hlater hnegative
        have hbelow : ((j - k - 2 : ℤ) : ℚ) < 0 := by
          by_contra h
          exact absurd hnegative (not_lt.mpr (mul_nonneg (not_lt.mp h) hinterval.le))
        have habove : (-1 : ℚ) < ((j - k - 2 : ℤ) : ℚ) := by
          by_contra h
          have := mul_le_mul_of_nonneg_right (not_lt.mp h) hinterval.le
          linarith
        have hbelow : j - k - 2 < 0 := by exact_mod_cast hbelow
        have habove : -1 < j - k - 2 := by exact_mod_cast habove
        omega
      intro other h
      obtain ⟨bucket, hbucket, hless, -⟩ := hcovered other h
      obtain hbucket | hbucket := hfirst hbucket
      · linarith
      · rw [hnil] at hbucket
        cases hbucket

variable {interval : ℚ}

theorem create_eq (hinterval : 0 < interval) :
    create ⟨some function.name, some interval⟩ =
      ⟨0, interval, some function, ⟨0, initialValue (some function)⟩, 0⟩ := by
  have hname : (some function.name).filter (· ≠ "") = some function.name := by
    cases function <;> rfl
  have hoption : (some interval).filter (· ≠ 0) = some interval := by
    simp [hinterval.ne']
  rw [create]
  simp only [hname, hoption, Option.getD_some, ofName_name]
  rfl

theorem holding_create (timebucket : ℚ) : Holding function []
    ⟨timebucket, interval, some function, ⟨0, initialValue (some function)⟩, 0⟩ where
  same := rfl
  count := rfl
  value := by cases function <;> simp [accumulated, initialValue]

/-- The stream after its first record. -/
def afterFirst (function : AggregationFunction) (interval : ℚ) (first : Sample) : State :=
  update first.data
    ⟨first.time + interval, interval, some function, ⟨0, initialValue (some function)⟩, 0⟩

theorem aggregated_cons (hinterval : 0 < interval) (first : Sample) (rest : List Sample) :
    aggregated function interval (first :: rest) =
      pushed (afterFirst function interval first) (rest.map Sample.data) := by
  rw [aggregated, create_eq hinterval, List.map_cons, pushed, transform_first rfl]
  rfl

theorem holding_afterFirst (first : Sample) :
    Holding function [first.value] (afterFirst function interval first) :=
  (holding_create (first.time + interval)).update first

section OneWindow
variable {first : Sample} {rest : List Sample}

/-- With all times in a window that ends at zero. -/
theorem aggregated_one (hinterval : 0 < interval) (hfirst : first.time = -interval)
    (hrest : ∀ sample ∈ rest, first.time ≤ sample.time ∧ sample.time < 0) :
    aggregated function interval (first :: rest) = partitioned function interval (first :: rest) ↔
      Reaches function ((first :: rest).map Sample.value) := by
  have hend : first.time + interval = 0 := by linarith
  have hpushed : aggregated function interval (first :: rest) =
      [⟨0, accumulated function ((first :: rest).map Sample.value)⟩] := by
    rw [aggregated_cons hinterval]
    refine pushed_one (holding_afterFirst first) (Nat.succ_pos _) hend.ge ?_
    intro sample h
    obtain ⟨hleast, hless⟩ := hrest sample h
    exact ⟨hfirst ▸ hleast, hless⟩
  have hpartitioned : partitioned function interval (first :: rest) =
      [⟨0, function.apply ((first :: rest).map Sample.value)⟩] := by
    rw [partitioned_one hinterval, hend]
    intro sample h
    rw [hend]
    obtain rfl | h := List.mem_cons.mp h
    · exact ⟨le_refl _, by linarith⟩
    · exact hrest sample h
  have hiff := @accumulated_eq_apply_iff function ((first :: rest).map Sample.value)
    (List.cons_ne_nil _ _)
  rw [hpushed, hpartitioned, ← hiff]
  constructor
  · intro h
    exact congrArg Bucket.value (List.cons.inj h).1
  · intro h
    rw [h]

/-- The label of the first record asks for the first time, the other labels for the others. -/
theorem oneWindow_of_eq (hinterval : 0 < interval)
    (hsorted : (first :: rest).Pairwise fun a b => a.time ≤ b.time)
    (h : aggregated function interval (first :: rest) =
      partitioned function interval (first :: rest)) :
    first.time = -interval ∧ ∀ sample ∈ rest, sample.time < 0 := by
  rw [aggregated_cons hinterval] at h
  have hfirst : first.time = -interval := by
    obtain ⟨value, others, hpushed⟩ := @pushed_first
      (afterFirst function interval first) rest (Nat.succ_pos _) rfl
    obtain ⟨value', others', hpartitioned⟩ :=
      @partitioned_first function first rest interval hinterval hsorted
    rw [hpushed, hpartitioned] at h
    have hlabel := congrArg Bucket.timestamp (List.cons.inj h).1
    have hlabel : 0 = first.time + interval := hlabel
    linarith
  refine ⟨hfirst, ?_⟩
  have hzero : first.time + interval = 0 := by linarith
  refine @times_negative (afterFirst function interval first) rest hinterval hzero rfl ?_ ?_ ?_
  · intro sample hsample
    exact hfirst ▸ List.rel_of_pairwise_cons hsorted hsample
  · intro bucket hbucket
    rw [h] at hbucket
    obtain ⟨window, hwindow⟩ := partitioned_label hbucket
    refine ⟨window, hwindow.trans ?_⟩
    refine (?_ : first.time + (window + 1) * interval = window * interval)
    rw [hfirst]
    ring
  · intro sample hsample
    rw [h]
    obtain ⟨bucket, hbucket, hlabel⟩ := @exists_partitioned function sample first rest interval
      (List.mem_cons_of_mem _ hsample)
    refine ⟨bucket, hbucket, ?_⟩
    rw [hlabel]
    exact windowEnd_bounds hinterval

end OneWindow

/-- The records pushed are those of the windows for no other streams. -/
theorem aggregated_eq_iff (hinterval : 0 < interval)
    (hsorted : samples.Pairwise fun a b => a.time ≤ b.time) :
    aggregated function interval samples = partitioned function interval samples ↔
      OneWindow function interval samples := by
  cases samples with
  | nil =>
    refine iff_of_true ?_ trivial
    rw [aggregated, create_eq hinterval]
    rfl
  | cons first rest =>
    constructor
    · intro h
      obtain ⟨hfirst, hrest⟩ := oneWindow_of_eq hinterval hsorted h
      refine ⟨hfirst, hrest, (aggregated_one hinterval hfirst ?_).mp h⟩
      intro sample hsample
      exact ⟨List.rel_of_pairwise_cons hsorted hsample, hrest sample hsample⟩
    · rintro ⟨hfirst, hrest, hreaches⟩
      refine (aggregated_one hinterval hfirst ?_).mpr hreaches
      intro sample hsample
      exact ⟨List.rel_of_pairwise_cons hsorted hsample, hrest sample hsample⟩

/-- Two records of the last second before 1970. -/
theorem aggregated_eq_iff_second :
    aggregated .sum 1000 [⟨-1000, -1⟩, ⟨-500, 3⟩] = partitioned .sum 1000 [⟨-1000, -1⟩, ⟨-500, 3⟩] ↔
      OneWindow .sum 1000 [⟨-1000, -1⟩, ⟨-500, 3⟩] :=
  aggregated_eq_iff (by norm_num) (by norm_num)

/-- The only record is labelled with zero, not with the end of its window. -/
theorem first_label_zero :
    ¬ ∀ (function : AggregationFunction) (interval : ℚ) (samples : List Sample), 0 < interval →
      (samples.Pairwise fun a b => a.time ≤ b.time) →
        aggregated function interval samples = partitioned function interval samples := by
  intro h
  have heq := h .count 1000 [⟨500, 7⟩] (by norm_num) (by norm_num)
  rw [partitioned_one (by norm_num) (by norm_num)] at heq
  revert heq
  decide +kernel

end NumentaApps.Unicorn.TimeAggregator
