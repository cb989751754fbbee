import NumentaApps.CloudWatchMetricData
import NumentaApps.TransitionSystem

/-!
# The ranges of many collections

Every call of `getMetricData` is given the start time that the one before returned. The ranges
queried go on from there, and what lies between the last range and the start time returned is in the
period of a sample.
-/
namespace NumentaApps.CloudWatch
open TransitionSystem

variable {V : Type}

/-- What the calls that returned have queried and returned, and the start time of the next one. -/
structure Collection (V : Type) where
  start : Option ℤ
  queried : List (ℤ × ℤ)
  samples : List (Datapoint V)

structure Call (V : Type) where
  service : Service V
  now : ℤ
  end_ : Option ℤ

namespace Collection

/-- The next call. -/
def getMetricData (period : {p : ℕ // 0 < p}) (call : Call V) (c : Collection V) :
    Collected (List (Datapoint V) × ℤ) :=
  CloudWatch.getMetricData call.service period call.now c.start call.end_

/-- A call that fails returns no start time, the next one starts where it did. -/
def collect (period : {p : ℕ // 0 < p}) (call : Call V) (c : Collection V) :
    Option (Collection V) :=
  match (c.getMetricData period call).result with
  | .error _ => some c
  | .ok (samples, next) =>
      some ⟨some next, c.queried ++ (c.getMetricData period call).queried, c.samples ++ samples⟩

end Collection

/-- Any start time may be the first, or none. -/
def collectionSystem (V : Type) (period : {p : ℕ // 0 < p}) : System (Collection V) (Call V) where
  init c := c.queried = [] ∧ c.samples = []
  next := Collection.collect period

/-- A time is in a range, or in the period of a sample. -/
def Accounted (period : ℕ) (queried : List (ℤ × ℤ)) (samples : List (Datapoint V)) (τ : ℤ) :
    Prop :=
  (∃ r ∈ queried, r.1 ≤ τ ∧ τ < r.2) ∨
    ∃ x ∈ samples, x.timestamp ≤ τ ∧ τ < x.timestamp + seconds period

theorem Accounted.mono {period : ℕ} {queried queried' : List (ℤ × ℤ)}
    {samples samples' : List (Datapoint V)} {τ : ℤ} (h : Accounted period queried samples τ)
    (hqueried : queried ⊆ queried') (hsamples : samples ⊆ samples') :
    Accounted period queried' samples' τ := by
  rcases h with ⟨r, hr, hin⟩ | ⟨x, hx, hin⟩
  · exact .inl ⟨r, hqueried hr, hin⟩
  · exact .inr ⟨x, hsamples hx, hin⟩

/-- A call leaves out no time between its start and the one it returns, which is not in the period
of a sample. -/
theorem getMetricData_accounts (service : Service V) (period : {p : ℕ // 0 < p}) (now : ℤ)
    (start end_ : Option ℤ) {samples : List (Datapoint V)} {next : ℤ}
    (h : (getMetricData service period now start end_).result = .ok (samples, next)) :
    planStart now start period.1 ≤ next ∧
      (∀ y ∈ samples, y.timestamp + seconds period.1 ≤ next) ∧
      ∀ τ, planStart now start period.1 ≤ τ → τ < next →
        Accounted period.1 (getMetricData service period now start end_).queried samples τ := by
  obtain ⟨last, hcontiguous, hresult⟩ := getMetricData_spec service period now start end_
  rcases hresult samples next h with ⟨rfl, rfl⟩ | ⟨⟨r, x, hr, hx, hlast⟩, x', hx', rfl⟩
  · refine ⟨hcontiguous.le, fun y hy => absurd hy List.not_mem_nil, fun τ ha hb => ?_⟩
    exact .inl (hcontiguous.covers ha hb)
  · obtain rfl := Option.some.inj (hx.symm.trans hx')
    have hxmem : x ∈ samples := List.mem_of_getLast? hx
    have hxin := hlast x hxmem
    have hfirst := hcontiguous.le_fst r (List.mem_of_getLast? hr)
    have hend := hcontiguous.getLast_snd hr
    have hpos : 0 < seconds period.1 := seconds_pos (by exact_mod_cast period.2)
    refine ⟨by omega, fun y hy => ?_, fun τ ha hb => ?_⟩
    · have := hlast y hy
      omega
    · by_cases hτ : τ < last
      · exact .inl (hcontiguous.covers ha hτ)
      · -- beyond the last range, hence after the sample
        exact .inr ⟨x, hxmem, by omega, hb⟩

/-! ## The runs -/

namespace Collection

/-- The start time of the next call is at the end of what is accounted for. -/
structure Tiled (period : ℕ) (c : Collection V) : Prop where
  started : c.start = none → c.queried = [] ∧ c.samples = []
  after : ∀ next, c.start = some next → ∀ x ∈ c.samples, x.timestamp + seconds period ≤ next
  accounted : ∀ next, c.start = some next → ∀ r ∈ c.queried, ∀ τ, r.1 ≤ τ → τ < next →
    Accounted period c.queried c.samples τ

variable {period : {p : ℕ // 0 < p}} {c d : Collection V} {call : Call V}

theorem tiled_init (h : (collectionSystem V period).init c) : c.Tiled period.1 := by
  obtain ⟨hqueried, hsamples⟩ := h
  refine ⟨fun _ => ⟨hqueried, hsamples⟩, fun next _ x hx => ?_, fun next _ r hr => ?_⟩
  · rw [hsamples] at hx
    cases hx
  · rw [hqueried] at hr
    cases hr

theorem Tiled.collect (hc : c.Tiled period.1) (h : c.collect period call = some d) :
    d.Tiled period.1 := by
  unfold Collection.collect at h
  split at h
  · obtain rfl := Option.some.inj h
    exact hc
  · next samples next hresult =>
    obtain rfl := Option.some.inj h
    obtain ⟨hle, hafter, haccounted⟩ := getMetricData_accounts _ _ _ _ _ hresult
    -- the call starts where the last one asked it to
    have hstart : ∀ s, c.start = some s → planStart call.now c.start period.1 = s := by
      intro s hs
      rw [hs]
      rfl
    refine ⟨fun hnone => (by cases hnone), ?_, ?_⟩
    · intro s' hs' x hx
      obtain rfl := Option.some.inj hs'
      rcases List.mem_append.mp hx with hx | hx
      · cases hs : c.start with
        | none =>
          rw [(hc.started hs).2] at hx
          cases hx
        | some s =>
          have := hc.after s hs x hx
          have := hstart s hs
          omega
      · exact hafter x hx
    · intro s' hs' r hr τ hr₁ hτ
      obtain rfl := Option.some.inj hs'
      by_cases hnew : planStart call.now c.start period.1 ≤ τ
      · exact (haccounted τ hnew hτ).mono (List.subset_append_right _ _)
          (List.subset_append_right _ _)
      · rcases List.mem_append.mp hr with hr | hr
        · cases hs : c.start with
          | none =>
            rw [(hc.started hs).1] at hr
            cases hr
          | some s =>
            have := hstart s hs
            refine (hc.accounted s hs r hr τ hr₁ (by omega)).mono ?_ ?_
            · exact List.subset_append_left _ _
            · exact List.subset_append_left _ _
        · obtain ⟨last, hcontiguous, -⟩ := getMetricData_spec call.service period call.now c.start
            call.end_
          have := hcontiguous.le_fst r hr
          omega

/-- No range of the next call, failing or not, begins before the end of a sample's period. -/
theorem Tiled.queried_after (hc : c.Tiled period.1) (call : Call V) :
    ∀ r ∈ (c.getMetricData period call).queried, ∀ x ∈ c.samples,
      x.timestamp + seconds period.1 ≤ r.1 := by
  intro r hr x hx
  obtain ⟨last, hcontiguous, -⟩ := getMetricData_spec call.service period call.now c.start call.end_
  have hfirst := hcontiguous.le_fst r hr
  cases hs : c.start with
  | none =>
    rw [(hc.started hs).2] at hx
    cases hx
  | some s =>
    have hafter := hc.after s hs x hx
    have hstart : planStart call.now c.start period.1 = s := by
      rw [hs]
      rfl
    omega

end Collection

/-- A metric without data is collected from the limit on, which leaves a range unless the periods
are of days. -/
theorem normalize_none_lt (now : ℤ) {period : ℕ} (hperiod : 0 < period)
    (hdays : 3 * period + 60 ≤ 14 * 86400) :
    (normalizeMetricCollectionTimeRange now none none period).1 <
      (normalizeMetricCollectionTimeRange now none none period).2 := by
  obtain ⟨hle, hlt⟩ := roundUpDatetime_bounds (now - cloudwatchDataMaxStorage) hperiod
  rw [normalize_lt_iff _ _ _ hperiod]
  simp only [planEnd, planStart, getMetricCollectionBackoffSeconds, cloudwatchDataMaxStorage,
    seconds] at hle hlt ⊢
  apply le_totalSeconds (n := period)
  · unfold seconds
    omega
  · unfold seconds
    rw [abs_of_nonneg (by omega)]
    omega

/-! ## The tiling -/

/-- The range arithmetic, the calls and the readiness of a metric fit together. -/
structure TilesTime (V : Type) (period : {p : ℕ // 0 < p}) : Prop where
  /-- A range starts as planned and is empty or of whole periods. -/
  range : ∀ now startTime endTime,
    (normalizeMetricCollectionTimeRange now startTime endTime period.1).1 =
        planStart now startTime period.1 ∧
      ((normalizeMetricCollectionTimeRange now startTime endTime period.1).2 =
          planStart now startTime period.1 ∨
        ∃ k : ℤ, 1 ≤ k ∧ k ≤ cloudwatchMaxDataRecords ∧
          (normalizeMetricCollectionTimeRange now startTime endTime period.1).2 =
            planStart now startTime period.1 + seconds (k * period.1) ∧
          (planEnd now endTime period.1 - planStart now startTime period.1 < seconds (2 ^ 34) →
            (normalizeMetricCollectionTimeRange now startTime endTime period.1).2 ≤
              planEnd now endTime period.1))
  /-- The limit is rounded up by less than a period. -/
  limit : ∀ now, now - cloudwatchDataMaxStorage ≤ planStart now none period.1 ∧
    planStart now none period.1 < now - cloudwatchDataMaxStorage + seconds period.1
  /-- The ranges of a call are contiguous, the next call starts after the last sample. -/
  call : ∀ (service : Service V) (now : ℤ) (start end_ : Option ℤ),
    ∃ last, Contiguous (planStart now start period.1)
        (getMetricData service period now start end_).queried last ∧
      ∀ samples next, (getMetricData service period now start end_).result = .ok (samples, next) →
        samples = [] ∧ next = last ∨
          OfLastRange (getMetricData service period now start end_).queried samples ∧
            ∃ x, samples.getLast? = some x ∧ next = x.timestamp + seconds period.1
  /-- No call queries a time before the end of a sample's period. -/
  notAgain : ∀ (tr : List (Collection V × Call V)) (c : Collection V),
    Run (collectionSystem V period) tr c →
      ∀ p ∈ tr, ∀ r ∈ (p.1.getMetricData period p.2).queried, ∀ x ∈ p.1.samples,
        x.timestamp + seconds period.1 ≤ r.1
  /-- From a range queried to the start of the next call all times are accounted for. -/
  noGap : ∀ (tr : List (Collection V × Call V)) (c : Collection V),
    Run (collectionSystem V period) tr c →
      ∀ next, c.start = some next → ∀ r ∈ c.queried, ∀ τ, r.1 ≤ τ → τ < next →
        Accounted period.1 c.queried c.samples τ
  /-- A metric is ready exactly when its range is not empty. -/
  ready : ∀ last now, IsDatetime (seconds last) → IsDatetime (seconds now) →
    (metricReadinessPredicate (some (seconds last)) period.1 (seconds now) ↔
      (normalizeMetricCollectionTimeRange (seconds now) (some (seconds last)) none period.1).1 <
        (normalizeMetricCollectionTimeRange (seconds now) (some (seconds last)) none period.1).2)
  /-- Without data it is ready, and so it is with periods of less than days. -/
  readyFirst : ∀ now, metricReadinessPredicate none period.1 now ∧
    (3 * period.1 + 60 ≤ 14 * 86400 →
      (normalizeMetricCollectionTimeRange now none none period.1).1 <
        (normalizeMetricCollectionTimeRange now none none period.1).2)

theorem collection_tiles_time (V : Type) (period : {p : ℕ // 0 < p}) : TilesTime V period := by
  have hinit : ∀ c : Collection V, (collectionSystem V period).init c → c.Tiled period.1 :=
    fun _ h => Collection.tiled_init h
  have hstep : ∀ call c d, c.Tiled period.1 → True →
      (collectionSystem V period).next call c = some d → d.Tiled period.1 :=
    fun _ _ _ hc _ hn => Collection.Tiled.collect hc hn
  refine ⟨?_, ?_, ?_, ?_, ?_, ?_, ?_⟩
  · intro now startTime endTime
    exact normalize_spec now startTime endTime period.2
  · intro now
    exact roundUpDatetime_bounds _ period.2
  · exact fun service now start end_ => getMetricData_spec service period now start end_
  · intro tr c h p hp
    obtain ⟨d, -, hafter⟩ := h.forall_steps hinit hstep
      (fun call c _ hc _ _ => hc.queried_after call) (fun _ _ => trivial) p hp
    exact hafter
  · intro tr c h
    exact (h.invariant hinit hstep (fun _ _ => trivial)).accounted
  · intro last now hlast hnow
    exact metricReadinessPredicate_iff hlast hnow period.2
  · intro now
    exact ⟨trivial, normalize_none_lt now period.2⟩

/-- A single sample, half a minute past. -/
def halfMinuteService : Service Unit where
  queryCloudWatchMetricStats start end_ :=
    .ok (if start ≤ seconds 30 ∧ seconds 30 < end_ then [⟨seconds 30, ()⟩] else [])
  inRange start end_ rawdata h x hx := by
    obtain rfl := Except.ok.inj h
    split at hx
    · next hin =>
      obtain rfl := List.mem_singleton.mp hx
      exact hin
    · cases hx

def minute : {p : ℕ // 0 < p} := ⟨60, by decide⟩

theorem getMetricData_halfMinute :
    getMetricData halfMinuteService minute 0 (some 0) (some (seconds 60)) =
      ⟨[(0, seconds 60)], .ok ([⟨seconds 30, ()⟩], seconds 90)⟩ := by
  have hrange : normalizeMetricCollectionTimeRange 0 (some 0) (some (seconds 60)) 60 =
      (0, seconds 60) := by decide +kernel
  simp only [getMetricData, minute, hrange]
  rw [collectLoop]
  simp [halfMinuteService, sortByTimestamp, nextCallStartTime, seconds, Except.map]

theorem getMetricData_afterHalfMinute :
    getMetricData halfMinuteService minute 0 (some (seconds 90)) (some (seconds 150)) =
      ⟨[(seconds 90, seconds 150)], .ok ([], seconds 150)⟩ := by
  have hrange : normalizeMetricCollectionTimeRange 0 (some (seconds 90)) (some (seconds 150)) 60 =
      (seconds 90, seconds 150) := by decide +kernel
  have hnext : normalizeMetricCollectionTimeRange 0 (some (seconds 150)) (some (seconds 150)) 60 =
      (seconds 150, seconds 150) := by decide +kernel
  have hlast : collectLoop halfMinuteService minute 0 (seconds 150) (seconds 150) (seconds 150) =
      ⟨[], .ok ([], seconds 150)⟩ := by
    rw [collectLoop]
    rfl
  have hquery : halfMinuteService.queryCloudWatchMetricStats (seconds 90) (seconds 150) = .ok [] :=
    rfl
  have hloop : collectLoop halfMinuteService minute 0 (seconds 150) (seconds 90) (seconds 150) =
      ⟨[(seconds 90, seconds 150)], .ok ([], seconds 150)⟩ := by
    rw [collectLoop, if_pos (by decide), hquery]
    simp only [ne_eq, not_true_eq_false, if_false]
    rw [show minute.1 = 60 from rfl, hnext, hlast]
  simp only [getMetricData, show minute.1 = 60 from rfl, hrange, Option.getD_some, hloop]
  rfl

/-- Two calls, each up to a minute after the start. -/
def twoCalls : List (Call Unit) :=
  [⟨halfMinuteService, 0, some (seconds 60)⟩, ⟨halfMinuteService, 0, some (seconds 150)⟩]

def collectedTwice : Collection Unit :=
  ⟨some (seconds 150), [(0, seconds 60), (seconds 90, seconds 150)], [⟨seconds 30, ()⟩]⟩

theorem exec_twoCalls :
    (collectionSystem Unit minute).exec twoCalls ⟨some 0, [], []⟩ = some collectedTwice := by
  simp only [System.exec, twoCalls, collectionSystem, Collection.collect, Collection.getMetricData,
    getMetricData_halfMinute, Option.bind_some, getMetricData_afterHalfMinute]
  rfl

/-- The second call starts a period after the sample, and not where the first range ended; and a
range of many centuries ends after the end given. -/
theorem collection_leaves_gap :
    (∃ tr c, Run (collectionSystem Unit minute) tr c ∧ (0, seconds 60) ∈ c.queried ∧
      (seconds 90, seconds 150) ∈ c.queried ∧
      ∀ r ∈ c.queried, ¬ (r.1 ≤ seconds 60 ∧ seconds 60 < r.2)) ∧
    normalizeMetricCollectionTimeRange 0 (some 0) (some (seconds 60000000000 - 1)) 6000000000 =
      (0, seconds 60000000000) := by
  constructor
  · have hrun := (Run.init (S := collectionSystem Unit minute) (s := ⟨some 0, [], []⟩)
      ⟨rfl, rfl⟩).exec_trace exec_twoCalls
    refine ⟨_, _, hrun, ?_, ?_, ?_⟩
    · exact List.mem_cons_self
    · exact List.mem_cons_of_mem _ List.mem_cons_self
    · decide
  · decide +kernel

theorem collection_tiles_time_minute :
    TilesTime Unit minute ∧
      Accounted 60 collectedTwice.queried collectedTwice.samples (seconds 60) := by
  have hrun := (Run.init (S := collectionSystem Unit minute) (s := ⟨some 0, [], []⟩)
    ⟨rfl, rfl⟩).exec_trace exec_twoCalls
  refine ⟨collection_tiles_time Unit minute, ?_⟩
  exact (collection_tiles_time Unit minute).noGap _ _ hrun (seconds 150) rfl (0, seconds 60)
    List.mem_cons_self (seconds 60) (by decide) (by decide)

end NumentaApps.CloudWatch
