import NumentaApps.MetricStreamer
import NumentaApps.TransitionSystem

/-!
# Retries of the store transaction

`storeDataWithRetries` is repeated until an attempt commits. An aborted attempt
rolls the rows back but not the cached tail; the rows finally committed are those
of a first attempt that had succeeded as long as no attempt is aborted after the
cache has moved on.
-/
namespace NumentaApps.Runtime
open TransitionSystem Repository

namespace MetricStreamer

variable {Uid T C V : Type} [LinearOrder T] [LinearOrder C]

/-- The tail timestamp that is loaded when the cache has none. -/
def storedTail (col : DatetimeColumn T C) (m : Metric C V) : Option T :=
  (m.rowAt m.lastRowid).map fun r => col.read r.timestamp

variable [DecidableEq Uid]

/-- Some sample passes the scrub of an attempt, so the attempt moves the cached
tail before it commits. -/
def Stores (col : DatetimeColumn T C) (now : ℤ) (uid : Uid) (data : List (T × V))
    (st : MetricStreamer Uid T) (m : Metric C V) : Prop :=
  m.status ≠ .error ∧ scrubDataSamples (st.getTailMetricRowTimestamp col now uid m).1 data ≠ []

/-- The cached tails, if any, that the scrubs of a call begin with. -/
def scrubTails (col : DatetimeColumn T C) (uid : Uid) (data : List (T × V)) (m : Metric C V) :
    List (ℤ × AbortPoint) → ℤ → MetricStreamer Uid T → List (Option T)
  | [], now, st => [(st.collectGarbage now).tailInputMetricDataTimestamps uid]
  | (t, point) :: aborted, now, st =>
    if point = .atLock then scrubTails col uid data m aborted now st
    else (st.collectGarbage t).tailInputMetricDataTimestamps uid ::
      scrubTails col uid data m aborted now (st.abortedAttempt col t uid data m point)

/-- After an attempt that was aborted at commit with samples stored, a garbage
collection of the cache is due at the next scrub. -/
def Collected (col : DatetimeColumn T C) (uid : Uid) (data : List (T × V)) (m : Metric C V) :
    Prop → List (ℤ × AbortPoint) → ℤ → MetricStreamer Uid T → Prop
  | moved, [], now, st => moved → st.gcDue now
  | moved, (t, point) :: aborted, now, st =>
    if point = .atLock then Collected col uid data m moved aborted now st
    else (moved → st.gcDue t) ∧
      Collected col uid data m (point = .atCommit ∧ st.Stores col t uid data m) aborted now
        (st.abortedAttempt col t uid data m point)

/-- No attempt is aborted with the cached tail moved, unless the cache is collected
before the next scrub; and a collection that falls due between the attempts does
not change the tail, the cached one being kept exactly by the column. -/
def RetrySafe (col : DatetimeColumn T C) (uid : Uid) (data : List (T × V)) (m : Metric C V)
    (aborted : List (ℤ × AbortPoint)) (now : ℤ) (st : MetricStreamer Uid T) : Prop :=
  Collected col uid data m False aborted now st ∧
    (aborted ≠ [] → (∀ t ∈ aborted.map Prod.fst ++ [now], ¬ st.gcDue t) ∨
      ∀ c ∈ st.tailInputMetricDataTimestamps uid, col.read (col.keep c) = c)

/-! ## The tail an attempt starts from -/

theorem getTail_fst (col : DatetimeColumn T C) (now : ℤ) (uid : Uid) (m : Metric C V)
    (st : MetricStreamer Uid T) :
    (st.getTailMetricRowTimestamp col now uid m).1 =
      ((st.collectGarbage now).tailInputMetricDataTimestamps uid).or (storedTail col m) := by
  unfold getTailMetricRowTimestamp storedTail
  dsimp only
  split
  · rename_i h
    rw [h]
    rfl
  · rename_i h
    rw [h]
    cases m.rowAt m.lastRowid <;> rfl

/-- Reading the tail caches it, for this metric only. -/
theorem getTail_snd_self (col : DatetimeColumn T C) (now : ℤ) (uid : Uid) (m : Metric C V)
    (st : MetricStreamer Uid T) :
    (st.getTailMetricRowTimestamp col now uid m).2.tailInputMetricDataTimestamps uid =
      (st.getTailMetricRowTimestamp col now uid m).1 := by
  unfold getTailMetricRowTimestamp
  dsimp only
  split
  · rename_i h
    exact h
  · rename_i h
    split
    · exact Function.update_self ..
    · exact h

theorem getTail_snd_of_ne (col : DatetimeColumn T C) (now : ℤ) {uid uid' : Uid} (m : Metric C V)
    (st : MetricStreamer Uid T) (h : uid' ≠ uid) :
    (st.getTailMetricRowTimestamp col now uid m).2.tailInputMetricDataTimestamps uid' =
      (st.collectGarbage now).tailInputMetricDataTimestamps uid' := by
  unfold getTailMetricRowTimestamp
  dsimp only
  split
  · rfl
  · split
    · exact Function.update_of_ne h ..
    · rfl

theorem getTail_snd_gcTime (col : DatetimeColumn T C) (now : ℤ) (uid : Uid) (m : Metric C V)
    (st : MetricStreamer Uid T) :
    (st.getTailMetricRowTimestamp col now uid m).2.lastTailInputMetricDataTimestampsGCTime =
      (st.collectGarbage now).lastTailInputMetricDataTimestampsGCTime := by
  unfold getTailMetricRowTimestamp
  dsimp only
  split
  · rfl
  · split <;> rfl

theorem getTail_of_due {col : DatetimeColumn T C} {now : ℤ} {uid : Uid} {m : Metric C V}
    {st : MetricStreamer Uid T} (h : st.gcDue now) :
    (st.getTailMetricRowTimestamp col now uid m).1 = storedTail col m := by
  rw [getTail_fst, collectGarbage_of_due h]
  rfl

theorem getTail_of_not_due {col : DatetimeColumn T C} {now : ℤ} {uid : Uid} {m : Metric C V}
    {st : MetricStreamer Uid T} (h : ¬ st.gcDue now) :
    (st.getTailMetricRowTimestamp col now uid m).1 =
      (st.tailInputMetricDataTimestamps uid).or (storedTail col m) := by
  rw [getTail_fst, collectGarbage_of_not_due h]

/-! ## What an aborted attempt leaves behind -/

section

variable {col : DatetimeColumn T C} {uid : Uid} {data : List (T × V)} {m : Metric C V}
variable {st st' : MetricStreamer Uid T} {t : ℤ} {point : AbortPoint}

/-- The streamer has at most collected its cache and loaded the tail. -/
structure Loaded (col : DatetimeColumn T C) (uid : Uid) (m : Metric C V) (t : ℤ)
    (st st' : MetricStreamer Uid T) : Prop where
  gcTime : st'.lastTailInputMetricDataTimestampsGCTime =
    (st.collectGarbage t).lastTailInputMetricDataTimestampsGCTime
  tail : st'.tailInputMetricDataTimestamps uid =
      (st.collectGarbage t).tailInputMetricDataTimestamps uid ∨
    st'.tailInputMetricDataTimestamps uid = (st.getTailMetricRowTimestamp col t uid m).1

theorem loaded_getTail : Loaded col uid m t st (st.getTailMetricRowTimestamp col t uid m).2 :=
  ⟨getTail_snd_gcTime col t uid m st, .inr (getTail_snd_self col t uid m st)⟩

/-- The streamer after an attempt that gets to its commit. -/
theorem storeData_streamer_cases (col : DatetimeColumn T C) (t : ℤ) (uid : Uid)
    (data : List (T × V)) (st : MetricStreamer Uid T) (m : Metric C V) :
    (m.status = .error ∧ (st.storeData col t uid data m).streamer = st) ∨
      (m.status ≠ .error ∧
        scrubDataSamples (st.getTailMetricRowTimestamp col t uid m).1 data = [] ∧
        (st.storeData col t uid data m).streamer = (st.getTailMetricRowTimestamp col t uid m).2) ∨
      ∃ rest x, m.status ≠ .error ∧
        scrubDataSamples (st.getTailMetricRowTimestamp col t uid m).1 data = rest ++ [x] ∧
        (st.storeData col t uid data m).streamer =
          (st.getTailMetricRowTimestamp col t uid m).2.cacheTail uid x.1 := by
  by_cases hm : m.status = .error
  · exact .inl ⟨hm, by simp [storeData, hm]⟩
  by_cases hnil : scrubDataSamples (st.getTailMetricRowTimestamp col t uid m).1 data = []
  · exact .inr (.inl ⟨hm, hnil, by simp [storeData, hm, hnil]⟩)
  · obtain ⟨rest, x, hx⟩ := (List.eq_nil_or_concat' _).resolve_left hnil
    refine .inr (.inr ⟨rest, x, hm, hx, ?_⟩)
    simp only [storeData, hm, if_false, hnil]
    rw [hx, storeDataSamples_eq]

theorem storeData_streamer_of_not_stores (h : ¬ st.Stores col t uid data m) (hm : m.status ≠ .error) :
    (st.storeData col t uid data m).streamer = (st.getTailMetricRowTimestamp col t uid m).2 := by
  rcases storeData_streamer_cases col t uid data st m with ⟨he, -⟩ | ⟨-, -, heq⟩ | ⟨rest, x, -, hx, -⟩
  · exact absurd he hm
  · exact heq
  · exact absurd ⟨hm, by simp [hx]⟩ h

theorem abortedAttempt_cases (hp : point ≠ .atLock)
    (h : ¬ (point = .atCommit ∧ st.Stores col t uid data m)) :
    (m.status = .error ∧ st.abortedAttempt col t uid data m point = st) ∨
      Loaded col uid m t st (st.abortedAttempt col t uid data m point) := by
  by_cases hm : m.status = .error
  · left
    cases point <;> simp [abortedAttempt, storeData, hm]
  · cases point with
    | atLock => exact absurd rfl hp
    | atTailRead =>
      right
      simp only [abortedAttempt, hm, if_false]
      exact ⟨rfl, .inl rfl⟩
    | atInsert =>
      right
      simp only [abortedAttempt, hm, if_false]
      exact loaded_getTail
    | atCommit =>
      right
      have hs : ¬ st.Stores col t uid data m := fun hs => h ⟨rfl, hs⟩
      simp only [abortedAttempt, storeData_streamer_of_not_stores hs hm]
      exact loaded_getTail

/-- An attempt that moved nothing leaves the tail of the later attempts alone. -/
theorem Loaded.steady (h : Loaded col uid m t st st') {u : ℤ}
    (hu : ¬ st.gcDue t → (st.getTailMetricRowTimestamp col u uid m).1 =
      (st.getTailMetricRowTimestamp col t uid m).1) :
    (st'.getTailMetricRowTimestamp col u uid m).1 =
      (st.getTailMetricRowTimestamp col t uid m).1 := by
  by_cases ht : st.gcDue t
  · have htail : (st.getTailMetricRowTimestamp col t uid m).1 = storedTail col m :=
      getTail_of_due ht
    have hcache : st'.tailInputMetricDataTimestamps uid = none ∨
        st'.tailInputMetricDataTimestamps uid = storedTail col m :=
      h.tail.imp (fun heq => heq.trans (collectGarbage_of_due ht uid)) (fun heq => heq.trans htail)
    rw [htail]
    by_cases hdue : st'.gcDue u
    · exact getTail_of_due hdue
    · rw [getTail_of_not_due hdue]
      rcases hcache with heq | heq <;> simp [heq]
  · have hgc : ∀ v, st'.gcDue v ↔ st.gcDue v := by
      intro v
      unfold gcDue
      rw [h.gcTime, collectGarbage_of_not_due ht]
    by_cases hdue : st.gcDue u
    · rw [← hu ht, getTail_of_due hdue, getTail_of_due ((hgc u).mpr hdue)]
    · rw [getTail_of_not_due (fun hd => hdue ((hgc u).mp hd))]
      rcases h.tail with heq | heq
      · rw [heq, collectGarbage_of_not_due ht, ← getTail_of_not_due ht]
      · rw [heq, getTail_of_not_due ht, Option.or_assoc, Option.or_self]

theorem storeData_gcTime (ht : ¬ st.gcDue t) :
    (st.storeData col t uid data m).streamer.lastTailInputMetricDataTimestampsGCTime =
      st.lastTailInputMetricDataTimestampsGCTime := by
  have hload : (st.getTailMetricRowTimestamp col t uid m).2.lastTailInputMetricDataTimestampsGCTime =
      st.lastTailInputMetricDataTimestampsGCTime := by
    rw [getTail_snd_gcTime, collectGarbage_of_not_due ht]
  rcases storeData_streamer_cases col t uid data st m with ⟨-, h⟩ | ⟨-, -, h⟩ | ⟨rest, x, -, -, h⟩
  · rw [h]
  · rw [h, hload]
  · rw [h]
    exact hload

theorem abortedAttempt_gcTime (ht : ¬ st.gcDue t) :
    (st.abortedAttempt col t uid data m point).lastTailInputMetricDataTimestampsGCTime =
      st.lastTailInputMetricDataTimestampsGCTime := by
  by_cases h : point = .atCommit ∧ st.Stores col t uid data m
  · obtain ⟨rfl, -⟩ := h
    exact storeData_gcTime ht
  · by_cases hp : point = .atLock
    · rw [hp]
      rfl
    rcases abortedAttempt_cases hp h with ⟨-, heq⟩ | hload
    · rw [heq]
    · rw [hload.gcTime, collectGarbage_of_not_due ht]

/-- The cached tails of the other metrics are kept or collected. -/
theorem storeData_of_ne {uid' : Uid} (h : uid' ≠ uid) :
    (st.storeData col t uid data m).streamer.tailInputMetricDataTimestamps uid' = none ∨
      (st.storeData col t uid data m).streamer.tailInputMetricDataTimestamps uid' =
        st.tailInputMetricDataTimestamps uid' := by
  have hload := collectGarbage_cases t st uid'
  rw [← getTail_snd_of_ne col t m st h] at hload
  rcases storeData_streamer_cases col t uid data st m with
    ⟨-, heq⟩ | ⟨-, -, heq⟩ | ⟨rest, x, -, -, heq⟩
  · exact .inr (by rw [heq])
  · rw [heq]
    exact hload
  · rw [heq]
    simpa [cacheTail, Function.update_of_ne h] using hload

theorem abortedAttempt_of_ne {uid' : Uid} (h : uid' ≠ uid) :
    (st.abortedAttempt col t uid data m point).tailInputMetricDataTimestamps uid' = none ∨
      (st.abortedAttempt col t uid data m point).tailInputMetricDataTimestamps uid' =
        st.tailInputMetricDataTimestamps uid' := by
  have hgc := collectGarbage_cases t st uid'
  cases point with
  | atLock => exact .inr rfl
  | atTailRead =>
    simp only [abortedAttempt]
    split
    · exact .inr rfl
    · exact hgc
  | atInsert =>
    simp only [abortedAttempt]
    split
    · exact .inr rfl
    · rw [getTail_snd_of_ne col t m st h]
      exact hgc
  | atCommit => exact storeData_of_ne h

/-! ## A call with its retries -/

/-- What a call does when every scrub starts from the tail `τ`: no scrub begins
with another tail in the cache, and the attempt that commits starts from `τ`. -/
structure CallFrom (col : DatetimeColumn T C) (uid : Uid) (data : List (T × V)) (m : Metric C V)
    (τ : Option T) (aborted : List (ℤ × AbortPoint)) (now : ℤ) (st : MetricStreamer Uid T) :
    Prop where
  scrubs : ∀ c ∈ scrubTails col uid data m aborted now st, c = none ∨ c = τ
  commits : ∃ last : MetricStreamer Uid T,
    storeDataWithRetries col uid data m aborted now st = last.storeData col now uid data m ∧
      (last.getTailMetricRowTimestamp col now uid m).1 = τ ∧
      ∀ uid', uid' ≠ uid → last.tailInputMetricDataTimestamps uid' = none ∨
        last.tailInputMetricDataTimestamps uid' = st.tailInputMetricDataTimestamps uid'

theorem tail_of_collected {τ : Option T} {moved : Prop} (hdue : moved → st.gcDue t)
    (htail : ¬ moved → (st.getTailMetricRowTimestamp col t uid m).1 = τ)
    (hgc : τ = storedTail col m ∨ ¬ st.gcDue t) :
    (st.getTailMetricRowTimestamp col t uid m).1 = τ := by
  by_cases hm : moved
  · rw [hgc.resolve_right (not_not_intro (hdue hm)), getTail_of_due (hdue hm)]
  · exact htail hm

theorem cached_of_tail {τ : Option T} (htail : (st.getTailMetricRowTimestamp col t uid m).1 = τ) :
    (st.collectGarbage t).tailInputMetricDataTimestamps uid = none ∨
      (st.collectGarbage t).tailInputMetricDataTimestamps uid = τ := by
  rw [getTail_fst] at htail
  cases hcache : (st.collectGarbage t).tailInputMetricDataTimestamps uid with
  | none => exact .inl rfl
  | some c =>
    rw [hcache] at htail
    exact .inr htail

theorem callFrom_of_collected {τ : Option T} {now : ℤ} {aborted : List (ℤ × AbortPoint)}
    {moved : Prop} (hc : Collected col uid data m moved aborted now st)
    (herr : moved → m.status ≠ .error)
    (hsteady : ¬ moved → ∀ u ∈ aborted.map Prod.fst ++ [now],
      (st.getTailMetricRowTimestamp col u uid m).1 = τ)
    (hgc : τ = storedTail col m ∨ ∀ u ∈ aborted.map Prod.fst ++ [now], ¬ st.gcDue u) :
    CallFrom col uid data m τ aborted now st := by
  induction aborted generalizing st moved with
  | nil =>
    have htail := tail_of_collected hc (fun hm => hsteady hm now (by simp))
      (hgc.imp id fun h => h now (by simp))
    refine ⟨fun c hcm => ?_, st, rfl, htail, fun _ _ => .inr rfl⟩
    obtain rfl := List.mem_singleton.mp hcm
    exact cached_of_tail htail
  | cons attempt aborted ih =>
    obtain ⟨t, point⟩ := attempt
    have hrest : ∀ u ∈ aborted.map Prod.fst ++ [now],
        u ∈ ((t, point) :: aborted).map Prod.fst ++ [now] := fun u hu => List.mem_cons_of_mem t hu
    by_cases hp : point = .atLock
    · subst hp
      obtain ⟨hs, hcommit⟩ := ih hc herr (fun hm u hu => hsteady hm u (hrest u hu))
        (hgc.imp id fun h u hu => h u (hrest u hu))
      exact ⟨hs, hcommit⟩
    · rw [Collected, if_neg hp] at hc
      have htail := tail_of_collected hc.1 (fun hm => hsteady hm t (by simp))
        (hgc.imp id fun h => h t (by simp))
      have hgc' : τ = storedTail col m ∨ ∀ u ∈ aborted.map Prod.fst ++ [now],
          ¬ (st.abortedAttempt col t uid data m point).gcDue u := by
        refine hgc.imp id fun h u hu => ?_
        have hnot := h u (hrest u hu)
        unfold gcDue at hnot ⊢
        rwa [abortedAttempt_gcTime (h t (by simp))]
      have hsteady' : ¬ (point = .atCommit ∧ st.Stores col t uid data m) →
          ∀ u ∈ aborted.map Prod.fst ++ [now],
            ((st.abortedAttempt col t uid data m point).getTailMetricRowTimestamp col u uid m).1
              = τ := by
        intro hstore u hu
        rcases abortedAttempt_cases hp hstore with ⟨he, heq⟩ | hload
        · rw [heq]
          exact hsteady (fun hm => herr hm he) u (hrest u hu)
        · rw [hload.steady fun hnot => ?_]
          · exact htail
          · rw [htail]
            exact hsteady (fun hm => hnot (hc.1 hm)) u (hrest u hu)
      obtain ⟨hs, last, hlast, htlast, hother⟩ := ih hc.2 (fun hm => hm.2.1) hsteady' hgc'
      refine ⟨?_, last, hlast, htlast, fun uid' hu => ?_⟩
      · rw [scrubTails, if_neg hp]
        intro c hcm
        rcases List.mem_cons.mp hcm with rfl | hcm
        · exact cached_of_tail htail
        · exact hs c hcm
      · rcases hother uid' hu with hnone | hsame
        · exact .inl hnone
        · rw [hsame]
          exact abortedAttempt_of_ne hu

/-- A call that may be retried safely does what it does without retries. -/
theorem RetrySafe.callFrom {now : ℤ} {aborted : List (ℤ × AbortPoint)}
    (h : RetrySafe col uid data m aborted now st)
    (hfresh : ∀ c ∈ st.tailInputMetricDataTimestamps uid,
      ∃ r, m.rowAt m.lastRowid = some r ∧ r.timestamp = col.keep c) :
    CallFrom col uid data m (st.getTailMetricRowTimestamp col
      ((aborted.head?.map Prod.fst).getD now) uid m).1 aborted now st := by
  obtain ⟨hc, hgc⟩ := h
  have hexact : (∀ c ∈ st.tailInputMetricDataTimestamps uid, col.read (col.keep c) = c) →
      ∀ u, (st.getTailMetricRowTimestamp col u uid m).1 = storedTail col m := by
    intro hex u
    by_cases hdue : st.gcDue u
    · exact getTail_of_due hdue
    · rw [getTail_of_not_due hdue]
      cases hcache : st.tailInputMetricDataTimestamps uid with
      | none => rfl
      | some c =>
        obtain ⟨r, hr, hts⟩ := hfresh c hcache
        simp [storedTail, hr, hts, hex c hcache]
  cases aborted with
  | nil =>
    refine callFrom_of_collected hc (by simp) (fun _ u hu => ?_) ?_
    · obtain rfl : u = now := by simpa using hu
      rfl
    · by_cases hdue : st.gcDue now
      · exact .inl (getTail_of_due hdue)
      · exact .inr (by simpa using hdue)
  | cons attempt aborted =>
    rcases hgc (by simp) with hnot | hex
    · refine callFrom_of_collected hc (by simp) (fun _ u hu => ?_) (.inr hnot)
      rw [getTail_of_not_due (hnot u hu)]
      exact (getTail_of_not_due (hnot attempt.1 (by simp))).symm
    · exact callFrom_of_collected hc (by simp)
        (fun _ u _ => (hexact hex u).trans (hexact hex _).symm) (.inl (hexact hex _))

theorem storeDataWithRetries_of_error {now : ℤ} {aborted : List (ℤ × AbortPoint)}
    (h : m.status = .error) :
    storeDataWithRetries col uid data m aborted now st = ⟨st, m, none, m.status⟩ := by
  induction aborted generalizing st with
  | nil => simp [storeDataWithRetries, storeData, h]
  | cons attempt aborted ih =>
    obtain ⟨t, point⟩ := attempt
    have hsame : st.abortedAttempt col t uid data m point = st := by
      cases point <;> simp [abortedAttempt, storeData, h]
    rw [storeDataWithRetries, hsame, ih]

end

end MetricStreamer

/-- One streamer process and the database. -/
structure StreamerProcess (Uid T C V : Type) where
  db : Database Uid C V
  streamer : MetricStreamer Uid T

namespace StreamerProcess

inductive Action (Uid T V : Type) where
  | createMetric (uid : Uid)
  | setMetricStatus (uid : Uid) (status : MetricStatus)
  | streamMetricData (uid : Uid) (data : List (T × V)) (aborted : List (ℤ × AbortPoint)) (now : ℤ)

variable {Uid T C V : Type} [LinearOrder T] [LinearOrder C]

/-- Every cached tail is that of the newest row. -/
structure Fresh (col : DatetimeColumn T C) (s : StreamerProcess Uid T C V) : Prop where
  keyed : ∀ uid m, s.db uid = some m → m.Keyed
  tails : ∀ uid c, s.streamer.tailInputMetricDataTimestamps uid = some c →
    ∃ m r, s.db uid = some m ∧ m.rowAt m.lastRowid = some r ∧ r.timestamp = col.keep c

theorem Fresh.cached {col : DatetimeColumn T C} {s : StreamerProcess Uid T C V} (h : s.Fresh col)
    {uid : Uid} {m : Metric C V} (hm : s.db uid = some m) :
    ∀ c ∈ s.streamer.tailInputMetricDataTimestamps uid,
      ∃ r, m.rowAt m.lastRowid = some r ∧ r.timestamp = col.keep c := by
  intro c hc
  obtain ⟨m', r, hm', hr, hts⟩ := h.tails uid c hc
  obtain rfl : m = m' := Option.some.inj (hm.symm.trans hm')
  exact ⟨r, hr, hts⟩

variable [DecidableEq Uid]

/-- A call for a metric that does not exist raises and changes nothing. -/
def act (col : DatetimeColumn T C) :
    Action Uid T V → StreamerProcess Uid T C V → Option (StreamerProcess Uid T C V)
  | .createMetric uid, s =>
    match s.db uid with
    | some _ => none
    | none => some { s with db := s.db.set uid ⟨.unmonitored, 0, []⟩ }
  | .setMetricStatus uid status, s =>
    (s.db uid).map fun m => { s with db := s.db.set uid { m with status := status } }
  | .streamMetricData uid data aborted now, s =>
    if data = [] then some s
    else match s.db uid with
      | none => some s
      | some m =>
        let r := MetricStreamer.storeDataWithRetries col uid data m aborted now s.streamer
        some { db := s.db.set uid r.metric, streamer := r.streamer }

/-- The retries of a call are harmless. -/
def RetrySafe (col : DatetimeColumn T C) (s : StreamerProcess Uid T C V) : Action Uid T V → Prop
  | .streamMetricData uid data aborted now => ∀ m, s.db uid = some m →
      MetricStreamer.RetrySafe col uid data m aborted now s.streamer
  | _ => True

/-- The rows a call commits are those its first attempt would have committed, and
no scrub begins with a cached tail newer than the newest row. -/
def NothingLost (col : DatetimeColumn T C) (s : StreamerProcess Uid T C V) : Action Uid T V → Prop
  | .streamMetricData uid data aborted now => ∀ m, s.db uid = some m → m.status ≠ .error →
      (MetricStreamer.storeDataWithRetries col uid data m aborted now s.streamer).metric =
          (s.streamer.storeData col ((aborted.head?.map Prod.fst).getD now) uid data m).metric ∧
        ∀ c, some c ∈ MetricStreamer.scrubTails col uid data m aborted now s.streamer →
          ∃ r ∈ m.rows, col.keep c ≤ r.timestamp
  | _ => True

variable {col : DatetimeColumn T C} {s t : StreamerProcess Uid T C V}

/-- The tail of a scrub is kept as the timestamp of the newest row. -/
theorem Fresh.tail (h : s.Fresh col) {uid : Uid} {m : Metric C V} (hm : s.db uid = some m) {now : ℤ}
    {c : T} (hc : (s.streamer.getTailMetricRowTimestamp col now uid m).1 = some c) :
    ∃ r, m.rowAt m.lastRowid = some r ∧ r.timestamp = col.keep c := by
  by_cases hdue : s.streamer.gcDue now
  · rw [MetricStreamer.getTail_of_due hdue] at hc
    obtain ⟨r, hr, rfl⟩ := Option.map_eq_some_iff.mp hc
    exact ⟨r, hr, (col.keep_read _).symm⟩
  · rw [MetricStreamer.getTail_of_not_due hdue] at hc
    cases hcache : s.streamer.tailInputMetricDataTimestamps uid with
    | some c' =>
      rw [hcache] at hc
      obtain rfl : c' = c := Option.some.inj hc
      exact h.cached hm c' hcache
    | none =>
      rw [hcache] at hc
      obtain ⟨r, hr, rfl⟩ := Option.map_eq_some_iff.mp hc
      exact ⟨r, hr, (col.keep_read _).symm⟩

theorem Fresh.nothingLost (h : s.Fresh col) {a : Action Uid T V} (hsafe : s.RetrySafe col a) :
    s.NothingLost col a := by
  cases a with
  | createMetric uid => trivial
  | setMetricStatus uid status => trivial
  | streamMetricData uid data aborted now =>
    intro m hm _
    obtain ⟨hscrubs, last, hlast, htail, -⟩ := (hsafe m hm).callFrom (h.cached hm)
    constructor
    · rw [hlast, MetricStreamer.storeData_metric, MetricStreamer.storeData_metric, htail]
    · intro c hc
      rcases hscrubs _ hc with hnone | hτ
      · cases hnone
      · obtain ⟨r, hr, hts⟩ := h.tail hm hτ.symm
        exact ⟨r, List.mem_of_find?_eq_some hr, hts.ge⟩

theorem Fresh.streamed (h : s.Fresh col) {uid : Uid} {m : Metric C V} (hm : s.db uid = some m)
    {data : List (T × V)} {aborted : List (ℤ × AbortPoint)} {now : ℤ}
    (hsafe : MetricStreamer.RetrySafe col uid data m aborted now s.streamer) :
    Fresh col ⟨s.db.set uid
        (MetricStreamer.storeDataWithRetries col uid data m aborted now s.streamer).metric,
      (MetricStreamer.storeDataWithRetries col uid data m aborted now s.streamer).streamer⟩ := by
  have hk := h.keyed uid m hm
  by_cases herr : m.status = .error
  · rw [MetricStreamer.storeDataWithRetries_of_error herr, show s.db.set uid m = s.db from
      Function.update_eq_self_iff.mpr hm.symm]
    exact h
  obtain ⟨-, last, hlast, htail, hother⟩ := hsafe.callFrom (h.cached hm)
  rw [hlast, MetricStreamer.storeData_metric, if_neg herr]
  constructor
  · intro uid' m' hm'
    rcases Database.set_cases hm' with ⟨-, rfl⟩ | ⟨-, hm'⟩
    · exact addMetricData_keyed hk col _
    · exact h.keyed uid' m' hm'
  · intro uid' c hc
    by_cases hu : uid' = uid
    · subst hu
      rcases MetricStreamer.storeData_streamer_cases col now uid' data last m with
        ⟨he, -⟩ | ⟨-, hnil, hst⟩ | ⟨rest, x, -, hx, hst⟩
      · exact absurd he herr
      · rw [hst, MetricStreamer.getTail_snd_self, htail] at hc
        obtain ⟨r, hr, hts⟩ := h.tail hm hc
        refine ⟨_, r, s.db.set_self _ _, ?_, hts⟩
        rw [hnil, List.map_nil, addMetricData_eq]
        simpa using hr
      · rw [hst] at hc
        obtain rfl : x.1 = c := by simpa [MetricStreamer.cacheTail] using hc
        refine ⟨_, ⟨m.lastRowid + (rest.map Prod.swap).length + 1, col.keep x.1, x.2⟩,
          s.db.set_self _ _, ?_, rfl⟩
        have hrow := rowAt_addMetricData hk col (rest.map Prod.swap) x.swap
        rw [hx, List.map_append]
        exact hrow
    · have hold : s.streamer.tailInputMetricDataTimestamps uid' = some c := by
        have hstore : (last.storeData col now uid data m).streamer.tailInputMetricDataTimestamps uid' =
              none ∨
            (last.storeData col now uid data m).streamer.tailInputMetricDataTimestamps uid' =
              last.tailInputMetricDataTimestamps uid' := MetricStreamer.storeData_of_ne hu
        rcases hstore with hnone | hsame
        · rw [hnone] at hc
          cases hc
        · rcases hother uid' hu with hnone | hsame'
          · rw [hsame, hnone] at hc
            cases hc
          · rwa [hsame, hsame'] at hc
      obtain ⟨m', r, hm', hr⟩ := h.tails uid' c hold
      exact ⟨m', r, (s.db.set_of_ne _ hu).trans hm', hr⟩

theorem Fresh.act (h : s.Fresh col) {a : Action Uid T V} (hsafe : s.RetrySafe col a)
    (ht : StreamerProcess.act col a s = some t) : t.Fresh col := by
  cases a with
  | createMetric uid =>
    simp only [StreamerProcess.act] at ht
    split at ht
    · cases ht
    · rename_i hnone
      cases ht
      constructor
      · intro uid' m' hm'
        rcases Database.set_cases hm' with ⟨-, rfl⟩ | ⟨-, hm'⟩
        · exact ⟨List.nodup_nil, by simp⟩
        · exact h.keyed uid' m' hm'
      · intro uid' c hc
        obtain ⟨m', r, hm', hr⟩ := h.tails uid' c hc
        have hu : uid' ≠ uid := by
          rintro rfl
          simp [hnone] at hm'
        exact ⟨m', r, (s.db.set_of_ne _ hu).trans hm', hr⟩
  | setMetricStatus uid status =>
    obtain ⟨m, hm, rfl⟩ := Option.map_eq_some_iff.mp ht
    constructor
    · intro uid' m' hm'
      rcases Database.set_cases hm' with ⟨-, rfl⟩ | ⟨-, hm'⟩
      · exact ⟨(h.keyed uid m hm).nodup, (h.keyed uid m hm).le⟩
      · exact h.keyed uid' m' hm'
    · intro uid' c hc
      obtain ⟨m', r, hm', hr⟩ := h.tails uid' c hc
      by_cases hu : uid' = uid
      · subst hu
        obtain rfl : m = m' := Option.some.inj (hm.symm.trans hm')
        exact ⟨_, r, s.db.set_self _ _, hr⟩
      · exact ⟨m', r, (s.db.set_of_ne _ hu).trans hm', hr⟩
  | streamMetricData uid data aborted now =>
    simp only [StreamerProcess.act] at ht
    split at ht
    · cases ht
      exact h
    split at ht
    · cases ht
      exact h
    · rename_i m hm
      cases ht
      exact h.streamed hm (hsafe m hm)

end StreamerProcess

section

variable {Uid T C V : Type} [LinearOrder T] [LinearOrder C] [DecidableEq Uid]

/-- A streamer with an empty cache, next to any metric and metric_data tables. -/
def streamerSystem (col : DatetimeColumn T C) :
    System (StreamerProcess Uid T C V) (StreamerProcess.Action Uid T V) where
  init s := s.streamer = .initial Uid T ∧ ∀ uid m, s.db uid = some m → m.Keyed
  next := StreamerProcess.act col

/-- In every run whose retries are harmless no sample is lost: every call commits
the rows its first attempt would have committed. -/
theorem retries_lose_nothing {col : DatetimeColumn T C}
    {tr : List (StreamerProcess Uid T C V × StreamerProcess.Action Uid T V)}
    {s : StreamerProcess Uid T C V} (h : Run (streamerSystem col) tr s)
    (hsafe : ∀ p ∈ tr, p.1.RetrySafe col p.2) : ∀ p ∈ tr, p.1.NothingLost col p.2 := by
  have hinit : ∀ s : StreamerProcess Uid T C V, (streamerSystem col).init s → s.Fresh col := by
    rintro s ⟨hs, hk⟩
    refine ⟨hk, fun uid c hc => ?_⟩
    rw [hs] at hc
    cases hc
  intro p hp
  obtain ⟨t, -, hlost⟩ := Run.forall_steps (P := fun s a _ => s.NothingLost col a) hinit
    (fun a s t hf hg ht => hf.act hg ht) (fun a s t hf hg _ => hf.nothingLost hg) h hsafe p hp
  exact hlost

end

def noMetrics : StreamerProcess Bool ℤ ℤ ℤ := ⟨fun _ => none, .initial Bool ℤ⟩

def newMetric : StreamerProcess Bool ℤ ℤ ℤ :=
  { noMetrics with db := noMetrics.db.set true ⟨.unmonitored, 0, []⟩ }

theorem noMetrics_init : (streamerSystem DatetimeColumn.seconds).init noMetrics :=
  ⟨rfl, fun _ _ h => (by cases h)⟩

/-- A call with two samples, one attempt of which is aborted. -/
def retriedCall (point : AbortPoint) : StreamerProcess.Action Bool ℤ ℤ :=
  .streamMetricData true [(10000000, 1), (20000000, 2)] [(1443000000000000, point)] 1443000001000000

theorem retriedCall_run (point : AbortPoint) : ∃ s,
    Run (streamerSystem DatetimeColumn.seconds)
      [(noMetrics, .createMetric true), (newMetric, retriedCall point)] s :=
  ⟨_, .step _ (.step _ (.init noMetrics_init) rfl) rfl⟩

theorem retries_lose_nothing_insert : ∃ s,
    Run (streamerSystem DatetimeColumn.seconds)
        [(noMetrics, .createMetric true), (newMetric, retriedCall .atInsert)] s ∧
      newMetric.NothingLost DatetimeColumn.seconds (retriedCall .atInsert) := by
  obtain ⟨s, hs⟩ := retriedCall_run .atInsert
  refine ⟨s, hs, retries_lose_nothing hs ?_ (newMetric, retriedCall .atInsert) (by simp)⟩
  intro p hp
  rcases List.mem_cons.mp hp with rfl | hp
  · trivial
  · obtain rfl := List.mem_singleton.mp hp
    intro m hm
    obtain rfl : (⟨.unmonitored, 0, []⟩ : Metric ℤ ℤ) = m := Option.some.inj hm
    refine ⟨⟨fun h => h.elim, fun h => absurd h.1 (by decide)⟩, fun _ => .inr ?_⟩
    intro c hc
    cases hc

/-- A failure at commit loses the samples of the batch: the retry rejects them. -/
theorem retries_lose_samples :
    ¬ ∀ tr (s : StreamerProcess Bool ℤ ℤ ℤ), Run (streamerSystem DatetimeColumn.seconds) tr s →
      ∀ p ∈ tr, p.1.NothingLost DatetimeColumn.seconds p.2 := by
  intro h
  obtain ⟨s, hs⟩ := retriedCall_run .atCommit
  have hlost := h _ s hs (newMetric, retriedCall .atCommit) (by simp) ⟨.unmonitored, 0, []⟩ rfl
    (by decide)
  exact absurd hlost.1 (by decide)

end NumentaApps.Runtime
