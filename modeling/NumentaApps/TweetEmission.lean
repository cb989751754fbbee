import NumentaApps.TweetVolume

/-!
# Tweet volume emission without gaps

The intervals form a grid of step `aggSec` through the initial tracker value. The
attempts go up the grid, one step after an attempt that was tracked and none after one
that was not, and every tweet is attributed to the interval that contains it.
-/
namespace NumentaApps.TwitterDirect
open TransitionSystem

/-! ## The grid -/

/-- In either branch the timestamp is the grid point at or before the sample. -/
theorem aggTimestampFromSampleTimestamp_eq (sampleEpoch aggRefEpoch : ℤ) {aggSec : ℤ}
    (h : 0 < aggSec) :
    aggTimestampFromSampleTimestamp sampleEpoch aggRefEpoch aggSec =
      aggRefEpoch + (sampleEpoch - aggRefEpoch) / aggSec * aggSec := by
  simp only [aggTimestampFromSampleTimestamp]
  split
  · rfl
  · rename_i hneg
    have hne : aggSec ≠ 0 := by omega
    have habs : ((sampleEpoch - aggRefEpoch).natAbs : ℤ) = -(sampleEpoch - aggRefEpoch) := by omega
    have hdiv := Int.mul_ediv_add_emod (sampleEpoch - aggRefEpoch) aggSec
    have hmod := Int.emod_nonneg (sampleEpoch - aggRefEpoch) hne
    have hlt := Int.emod_lt_of_pos (sampleEpoch - aggRefEpoch) h
    have hsplit : -(sampleEpoch - aggRefEpoch) + (aggSec - 1) =
        aggSec - 1 - (sampleEpoch - aggRefEpoch) % aggSec +
          aggSec * -((sampleEpoch - aggRefEpoch) / aggSec) := by
      rw [Int.mul_neg]
      omega
    have hquot : (-(sampleEpoch - aggRefEpoch) + (aggSec - 1)) / aggSec =
        -((sampleEpoch - aggRefEpoch) / aggSec) := by
      rw [hsplit, Int.add_mul_ediv_left _ _ hne, Int.ediv_eq_zero_of_lt (by omega) (by omega)]
      omega
    rw [habs, hquot, Int.neg_mul]
    omega

/-- The interval of the grid through `t₀` that starts at `aggStart` contains the time. -/
def InInterval (t₀ aggSec aggStart time : ℤ) : Prop :=
  aggSec ∣ aggStart - t₀ ∧ aggStart ≤ time ∧ time < aggStart + aggSec

theorem inInterval_aggTimestamp {t₀ aggSec aggRef : ℤ} (h : 0 < aggSec) (href : aggSec ∣ aggRef - t₀)
    (time : ℤ) :
    InInterval t₀ aggSec (aggTimestampFromSampleTimestamp time aggRef aggSec) time := by
  rw [aggTimestampFromSampleTimestamp_eq _ _ h]
  have hdiv := Int.mul_ediv_add_emod (time - aggRef) aggSec
  have hne : aggSec ≠ 0 := by omega
  have hmod := Int.emod_nonneg (time - aggRef) hne
  have hlt := Int.emod_lt_of_pos (time - aggRef) h
  rw [Int.mul_comm] at hdiv
  refine ⟨?_, by omega, by omega⟩
  have hsum : aggRef + (time - aggRef) / aggSec * aggSec - t₀ =
      (aggRef - t₀) + (time - aggRef) / aggSec * aggSec := by omega
  rw [hsum]
  exact Int.dvd_add href (Int.dvd_mul_left _ _)

/-- No two intervals of the grid contain the same time. -/
theorem InInterval.unique {t₀ aggSec aggStart aggStart' time : ℤ} (h : 0 < aggSec)
    (ha : InInterval t₀ aggSec aggStart time) (hb : InInterval t₀ aggSec aggStart' time) :
    aggStart = aggStart' := by
  obtain ⟨hdvd, hle, hlt⟩ := ha
  obtain ⟨hdvd', hle', hlt'⟩ := hb
  have hdiff : aggSec ∣ aggStart - aggStart' := by
    have hsub := Int.dvd_sub hdvd hdvd'
    have heq : aggStart - t₀ - (aggStart' - t₀) = aggStart - aggStart' := by omega
    rwa [heq] at hsub
  have hzero := Int.eq_zero_of_dvd_of_natAbs_lt_natAbs hdiff (by omega)
  omega

namespace TweetVolume

variable {metricSpecs : List String} {aggSec : ℤ} {s t : TweetVolume}

/-! ## The attempts -/

/-- An attempt follows one of the same interval that was not tracked, or one of the
interval before that was. -/
def Follows (aggSec : ℤ) (later earlier : Attempt) : Prop :=
  (later.aggStart = earlier.aggStart ∧ (earlier.ended = .failed ∨ earlier.ended = .died)) ∨
    (later.aggStart = earlier.aggStart + aggSec ∧ earlier.ended = .tracked)

/-- The latest attempt is of the tracked interval if it was tracked, else of the next. -/
def Newest (aggSec t₀ last : ℤ) : List Attempt → Prop
  | [] => last = t₀
  | attempt :: _ => (attempt.ended = .tracked ∧ attempt.aggStart = last) ∨
      (attempt.ended ≠ .tracked ∧ attempt.aggStart = last + aggSec)

/-- The attempts, latest first, from the initial tracker value to the tracked time. -/
structure Climb (aggSec t₀ last : ℤ) (attempts : List Attempt) : Prop where
  follows : attempts.IsChain (Follows aggSec)
  oldest : ∀ attempt ∈ attempts.getLast?, attempt.aggStart = t₀ + aggSec
  newest : Newest aggSec t₀ last attempts

def Idle (attempts : List Attempt) : Prop := ∀ attempt ∈ attempts.head?, attempt.ended ≠ .underWay

def UnderWay (attempts : List Attempt) : Prop :=
  ∃ attempt ∈ attempts.head?, attempt.ended = .underWay

variable {t₀ last : ℤ} {attempts : List Attempt}

/-- With none under way, the interval after the tracked one is the one to attempt. -/
theorem Climb.begin (h : Climb aggSec t₀ last attempts) (hidle : Idle attempts) (began : ℤ)
    (rows : List ReferenceRow) :
    Climb aggSec t₀ last (⟨last + aggSec, began, rows, .underWay⟩ :: attempts) := by
  cases attempts with
  | nil =>
    refine ⟨.singleton _, ?_, .inr ⟨by simp, rfl⟩⟩
    intro attempt hattempt
    obtain rfl := Option.some.inj hattempt
    have heq : last = t₀ := h.newest
    simp [heq]
  | cons attempt attempts =>
    refine ⟨.cons_cons ?_ h.follows, ?_, .inr ⟨by simp, rfl⟩⟩
    · rcases h.newest with ⟨htracked, heq⟩ | ⟨hnot, heq⟩
      · exact .inr ⟨by simp [heq], htracked⟩
      · have hover := hidle attempt rfl
        refine .inl ⟨heq.symm, ?_⟩
        cases hended : attempt.ended with
        | underWay => exact absurd hended hover
        | failed => exact .inl rfl
        | died => exact .inr rfl
        | tracked => exact absurd hended hnot
    · intro oldest holdest
      exact h.oldest oldest (by simpa using holdest)

/-- The end of the attempt under way, with the time tracked after it. -/
theorem Climb.endAttempt {began : ℤ} {rows : List ReferenceRow} {ended : AttemptEnd} {last' : ℤ}
    {attempt : Attempt} (h : Climb aggSec t₀ last (attempt :: attempts))
    (hnew : Newest aggSec t₀ last' [⟨attempt.aggStart, began, rows, ended⟩]) :
    Climb aggSec t₀ last' (⟨attempt.aggStart, began, rows, ended⟩ :: attempts) := by
  refine ⟨?_, ?_, hnew⟩
  · cases attempts with
    | nil => exact .singleton _
    | cons earlier attempts =>
      obtain ⟨hfollows, hrest⟩ := List.isChain_cons_cons.mp h.follows
      exact .cons_cons hfollows hrest
  · intro oldest holdest
    cases attempts with
    | nil =>
      obtain rfl := Option.some.inj holdest
      exact h.oldest attempt rfl
    | cons earlier attempts => exact h.oldest oldest (by simpa using holdest)

/-- Every metric has a sample of the interval among those emitted. -/
def Published (metricSpecs : List String) (s : TweetVolume) (aggStart : ℤ) : Prop :=
  ∀ metric ∈ metricSpecs, ∃ value time, (⟨metric, value, aggStart⟩, time) ∈ s.emittedSamples

/-- The aggregation ends are on the grid, and their harvest time has come. -/
structure Due (aggSec last nextAggEnd clock : ℤ) : Prop where
  grid : aggSec ∣ nextAggEnd - last
  harvest : nextAggEnd + aggSec ≤ clock

/-- What the forwarder's thread knows. -/
def Knows (metricSpecs : List String) (aggSec last : ℤ) (s : TweetVolume) :
    MetricDataForwarder → Prop
  | .down | .establishing _ => Idle s.attempts
  | .waiting lastEmittedAggTime nextAggEnd =>
    lastEmittedAggTime = last ∧ aggSec ∣ nextAggEnd - last ∧ Idle s.attempts
  | .forwarding lastEmittedAggTime aggStart nextAggEnd =>
    lastEmittedAggTime = last ∧ aggStart = last + aggSec ∧ Due aggSec last nextAggEnd s.clock ∧
      Idle s.attempts
  | .emitting lastEmittedAggTime aggStart nextAggEnd samples =>
    lastEmittedAggTime = last ∧ aggStart = last + aggSec ∧ Due aggSec last nextAggEnd s.clock ∧
      aggStart < nextAggEnd ∧ UnderWay s.attempts ∧
      (∀ sample ∈ samples, sample.epochTimestamp = aggStart) ∧
      ∀ metric ∈ metricSpecs, (∃ value, ⟨metric, value, aggStart⟩ ∈ samples) ∨
        ∃ value time, (⟨metric, value, aggStart⟩, time) ∈ s.emittedSamples
  | .emitted aggStart nextAggEnd =>
    aggStart = last + aggSec ∧ Due aggSec last nextAggEnd s.clock ∧ UnderWay s.attempts ∧
      Published metricSpecs s aggStart

/-- Before there is a tracker value nothing has been done. -/
structure Before (s : TweetVolume) : Prop where
  tracker : s.tracker = none
  initialTracker : s.initialTracker = none
  attempts : s.attempts = []
  referenceRows : s.referenceRows = []
  emittedSamples : s.emittedSamples = []
  forwarder : s.forwarder = .down ∨ ∃ time, s.forwarder = .establishing time
  storer : s.storer = .down ∨ ∃ time, s.storer = .establishing time

/-- From the initial tracker value `t₀` to the tracked time `last`. -/
structure After (metricSpecs : List String) (aggSec t₀ last : ℤ) (s : TweetVolume) : Prop where
  initialTracker : s.initialTracker = some t₀
  tracker : s.tracker = some last
  climb : Climb aggSec t₀ last s.attempts
  published : ∃ k : ℕ, last = t₀ + k * aggSec ∧
    ∀ j : ℕ, 1 ≤ j → j ≤ k → Published metricSpecs s (t₀ + j * aggSec)
  times : ∀ p ∈ s.emittedSamples, p.1.epochTimestamp + aggSec + aggSec ≤ p.2
  rows : ∀ row ∈ s.referenceRows, InInterval t₀ aggSec row.aggTs row.createdAt
  storer : ∀ aggRef, s.storer = .storing aggRef → aggSec ∣ aggRef - t₀
  forwarder : Knows metricSpecs aggSec last s s.forwarder

def Inv (metricSpecs : List String) (aggSec : ℤ) (s : TweetVolume) : Prop :=
  s.Before ∨ ∃ t₀ last, After metricSpecs aggSec t₀ last s

theorem Knows.tick {f : MetricDataForwarder} (h : Knows metricSpecs aggSec last s f)
    (seconds : ℕ) : Knows metricSpecs aggSec last { s with clock := s.clock + seconds } f := by
  have hdue : ∀ nextAggEnd, Due aggSec last nextAggEnd s.clock →
      Due aggSec last nextAggEnd (s.clock + seconds) := by
    rintro nextAggEnd ⟨hgrid, hharvest⟩
    exact ⟨hgrid, by omega⟩
  cases f with
  | down => exact h
  | establishing time => exact h
  | waiting l next => exact h
  | forwarding l start next =>
    obtain ⟨hl, hstart, hd, hidle⟩ := h
    exact ⟨hl, hstart, hdue next hd, hidle⟩
  | emitting l start next samples =>
    obtain ⟨hl, hstart, hd, hrest⟩ := h
    exact ⟨hl, hstart, hdue next hd, hrest⟩
  | emitted start next =>
    obtain ⟨hstart, hd, hrest⟩ := h
    exact ⟨hstart, hdue next hd, hrest⟩

theorem Due.interval_le {nextAggEnd clock : ℤ} (h : Due aggSec last nextAggEnd clock)
    (hpos : 0 < aggSec) (hlt : last + aggSec < nextAggEnd) :
    last + aggSec + aggSec + aggSec ≤ clock := by
  obtain ⟨⟨q, hq⟩, hharvest⟩ := h
  have hq2 : 2 ≤ q := by
    by_contra hlt2
    have hle : aggSec * q ≤ aggSec * 1 := Int.mul_le_mul_of_nonneg_left (by omega) (by omega)
    omega
  have hle : aggSec * 2 ≤ aggSec * q := Int.mul_le_mul_of_nonneg_left hq2 (by omega)
  omega

theorem After.grid (h : After metricSpecs aggSec t₀ last s) : aggSec ∣ last - t₀ := by
  obtain ⟨k, hk, -⟩ := h.published
  refine ⟨k, ?_⟩
  rw [hk, Int.mul_comm]
  omega

/-! ## The storer -/

/-- The first insert establishes the initial tracker value. -/
theorem Inv.insertTracker (h : Inv metricSpecs aggSec s) (time : ℤ) :
    ∃ t₀ last, After metricSpecs aggSec t₀ last (s.insertTracker time) := by
  rcases h with h | ⟨t₀, last, h⟩
  · refine ⟨time, time, ?_⟩
    have hidle : Idle s.attempts := by
      intro attempt hattempt
      rw [h.attempts] at hattempt
      cases hattempt
    rw [TweetVolume.insertTracker, h.tracker]
    refine ⟨rfl, rfl, ?_, ⟨0, by omega, fun j hj hk => by omega⟩, ?_, ?_, ?_, ?_⟩
    · simp only [h.attempts]
      exact ⟨.nil, by simp, rfl⟩
    · intro p hp
      simp [h.emittedSamples] at hp
    · intro row hrow
      simp [h.referenceRows] at hrow
    · intro aggRef hstorer
      rcases h.storer with hdown | ⟨time', hest⟩
      · cases hdown.symm.trans hstorer
      · cases hest.symm.trans hstorer
    · rcases h.forwarder with hdown | ⟨time', hest⟩
      · simp only [hdown]
        exact hidle
      · simp only [hest]
        exact hidle
  · refine ⟨t₀, last, ?_⟩
    rw [TweetVolume.insertTracker, h.tracker]
    exact h

theorem After.setStorer (h : After metricSpecs aggSec t₀ last s) {storer : TweetStorer}
    (hstorer : ∀ aggRef, storer = .storing aggRef → aggSec ∣ aggRef - t₀) :
    After metricSpecs aggSec t₀ last { s with storer := storer } where
  initialTracker := h.initialTracker
  tracker := h.tracker
  climb := h.climb
  published := h.published
  times := h.times
  rows := h.rows
  storer := hstorer
  forwarder := by
    have hk := h.forwarder
    show Knows metricSpecs aggSec last _ s.forwarder
    cases hf : s.forwarder <;> rw [hf] at hk <;> exact hk

theorem Inv.storerAct {a : Action} (hpos : 0 < aggSec) (h : Inv metricSpecs aggSec s)
    (hn : s.storerAct aggSec a = some t) : Inv metricSpecs aggSec t := by
  unfold TweetVolume.storerAct at hn
  split at hn
  · cases hn
    rcases h with h | ⟨t₀, last, h⟩
    · refine .inl { h with storer := .inr ⟨s.clock - aggSec, ?_⟩ }
      simp only [h.tracker]
    · refine .inr ⟨t₀, last, h.setStorer ?_⟩
      intro aggRef haggRef
      simp only [h.tracker, TweetStorer.storing.injEq] at haggRef
      exact haggRef ▸ h.grid
  · cases hn
    rename_i time _
    obtain ⟨t₀, last, h⟩ := h.insertTracker time
    refine .inr ⟨t₀, last, h.setStorer ?_⟩
    intro aggRef haggRef
    simp only [h.tracker, TweetStorer.storing.injEq] at haggRef
    exact haggRef ▸ h.grid
  · cases hn
    rename_i createdAt metric aggRef hstoring
    rcases h with h | ⟨t₀, last, h⟩
    · rcases h.storer with hdown | ⟨time, hest⟩
      · cases hdown.symm.trans hstoring
      · cases hest.symm.trans hstoring
    · refine .inr ⟨t₀, last, { h with rows := ?_, forwarder := ?_ }⟩
      · intro row hrow
        rcases List.mem_append.mp hrow with hrow | hrow
        · exact h.rows row hrow
        · obtain rfl := List.mem_singleton.mp hrow
          exact inInterval_aggTimestamp hpos (h.storer aggRef hstoring) createdAt
      · have hk := h.forwarder
        show Knows metricSpecs aggSec last _ s.forwarder
        cases hf : s.forwarder <;> rw [hf] at hk <;> exact hk
  · cases hn
    rcases h with h | ⟨t₀, last, h⟩
    · exact .inl { h with storer := .inl rfl }
    · exact .inr ⟨t₀, last, h.setStorer fun aggRef hdown => by cases hdown⟩
  · cases hn

/-! ## The forwarder -/

theorem After.setForwarder (h : After metricSpecs aggSec t₀ last s) {f : MetricDataForwarder}
    (hf : Knows metricSpecs aggSec last s f) :
    After metricSpecs aggSec t₀ last { s with forwarder := f } :=
  { h with forwarder := by cases f <;> exact hf }

theorem After.beginRun (h : After metricSpecs aggSec t₀ last s) (hidle : Idle s.attempts) :
    After metricSpecs aggSec t₀ last (s.beginRun aggSec last) := by
  refine h.setForwarder ⟨rfl, ⟨2, ?_⟩, hidle⟩
  omega

/-- The next interval is attempted, or the call returns. -/
theorem After.forwardNext (h : After metricSpecs aggSec t₀ last s) {nextAggEnd : ℤ}
    (hdue : Due aggSec last nextAggEnd s.clock) (hidle : Idle s.attempts) :
    After metricSpecs aggSec t₀ last
      (s.forwardNext metricSpecs aggSec last (last + aggSec) nextAggEnd) := by
  unfold TweetVolume.forwardNext
  split
  · rename_i hlt
    refine { h with climb := h.climb.begin hidle s.clock s.referenceRows, forwarder := ?_ }
    refine ⟨rfl, rfl, hdue, hlt, ⟨_, rfl, rfl⟩, ?_, ?_⟩
    · intro sample hsample
      obtain ⟨metric, -, rfl⟩ := List.mem_map.mp hsample
      rfl
    · intro metric hmetric
      exact .inl ⟨_, List.mem_map_of_mem hmetric⟩
  · refine h.setForwarder ⟨rfl, ?_, hidle⟩
    obtain ⟨q, hq⟩ := hdue.grid
    refine ⟨q + 1, ?_⟩
    rw [Int.mul_add]
    omega

/-- Sending samples of the interval keeps what was emitted, and is not early. -/
theorem After.sendBatch (h : After metricSpecs aggSec t₀ last s) (hpos : 0 < aggSec)
    {nextAggEnd : ℤ} {samples : List MetricSample} (hdue : Due aggSec last nextAggEnd s.clock)
    (hlt : last + aggSec < nextAggEnd)
    (hsamples : ∀ sample ∈ samples, sample.epochTimestamp = last + aggSec)
    {f : MetricDataForwarder}
    (hf : Knows metricSpecs aggSec last (s.sendBatch samples) f) :
    After metricSpecs aggSec t₀ last { s.sendBatch samples with forwarder := f } := by
  refine { h with published := ?_, times := ?_, forwarder := by cases f <;> exact hf }
  · obtain ⟨k, hk, hall⟩ := h.published
    refine ⟨k, hk, fun j hj hjk metric hmetric => ?_⟩
    obtain ⟨value, time, hin⟩ := hall j hj hjk metric hmetric
    exact ⟨value, time, List.mem_append_left _ hin⟩
  · intro p hp
    rcases List.mem_append.mp hp with hp | hp
    · exact h.times p hp
    · obtain ⟨sample, hsample, rfl⟩ := List.mem_map.mp hp
      have hle := hdue.interval_le hpos hlt
      have hepoch := hsamples sample (List.mem_of_mem_take hsample)
      simp only [hepoch]
      omega

/-- What is left to send covers the metrics together with what was sent. -/
theorem sent_or_pending {samples : List MetricSample} {aggStart : ℤ} {metric : String}
    (h : (∃ value, ⟨metric, value, aggStart⟩ ∈ samples) ∨
      ∃ value time, (⟨metric, value, aggStart⟩, time) ∈ s.emittedSamples) :
    (∃ value, ⟨metric, value, aggStart⟩ ∈ samples.drop metricDataBatchWriteSize) ∨
      ∃ value time, (⟨metric, value, aggStart⟩, time) ∈ (s.sendBatch samples).emittedSamples := by
  rcases h with ⟨value, hin⟩ | ⟨value, time, hin⟩
  · rw [← List.take_append_drop metricDataBatchWriteSize samples] at hin
    rcases List.mem_append.mp hin with hin | hin
    · exact .inr ⟨value, s.clock, List.mem_append_right _ (List.mem_map_of_mem hin)⟩
    · exact .inl ⟨value, hin⟩
  · exact .inr ⟨value, time, List.mem_append_left _ hin⟩

/-- An attempt that ends without its tracker update leaves the interval to be attempted. -/
theorem After.endAttempt (h : After metricSpecs aggSec t₀ last s) (hunder : UnderWay s.attempts)
    {ended : AttemptEnd} (hended : ended = .failed ∨ ended = .died) {f : MetricDataForwarder}
    (hf : Idle (s.endAttempt ended).attempts →
      Knows metricSpecs aggSec last (s.endAttempt ended) f) :
    After metricSpecs aggSec t₀ last { s.endAttempt ended with forwarder := f } := by
  obtain ⟨attempt, hhead, hattempt⟩ := hunder
  cases hs : s.attempts with
  | nil =>
    rw [hs] at hhead
    cases hhead
  | cons first attempts =>
    rw [hs] at hhead
    obtain rfl := Option.some.inj hhead
    have hclimb := h.climb
    rw [hs] at hclimb
    have hstart : first.aggStart = last + aggSec := by
      rcases hclimb.newest with ⟨htracked, -⟩ | ⟨-, hstart⟩
      · rw [hattempt] at htracked
        cases htracked
      · exact hstart
    have hends : (s.endAttempt ended).attempts = { first with ended := ended } :: attempts := by
      simp only [TweetVolume.endAttempt, hs]
    have hidle : Idle (s.endAttempt ended).attempts := by
      rw [hends]
      intro latest hlatest
      obtain rfl := Option.some.inj hlatest
      rcases hended with rfl | rfl
      · simp
      · simp
    refine { h with climb := ?_, forwarder := ?_ }
    · simp only [hends]
      refine hclimb.endAttempt (.inr ⟨?_, hstart⟩)
      rcases hended with rfl | rfl
      · simp
      · simp
    · have hk := hf hidle
      cases f <;> exact hk

/-- The update of the tracker after an interval that was published completely. -/
theorem After.updateTracker (h : After metricSpecs aggSec t₀ last s) {nextAggEnd : ℤ}
    (hdue : Due aggSec last nextAggEnd s.clock) (hunder : UnderWay s.attempts)
    (hpublished : Published metricSpecs s (last + aggSec)) :
    After metricSpecs aggSec t₀ (last + aggSec) { s.endAttempt .tracked with
      tracker := some (last + aggSec)
      forwarder := .forwarding (last + aggSec) (last + aggSec + aggSec) nextAggEnd } := by
  obtain ⟨attempt, hhead, hattempt⟩ := hunder
  cases hs : s.attempts with
  | nil =>
    rw [hs] at hhead
    cases hhead
  | cons first attempts =>
    rw [hs] at hhead
    obtain rfl := Option.some.inj hhead
    have hclimb := h.climb
    rw [hs] at hclimb
    have hstart : first.aggStart = last + aggSec := by
      rcases hclimb.newest with ⟨htracked, -⟩ | ⟨-, hstart⟩
      · rw [hattempt] at htracked
        cases htracked
      · exact hstart
    have hends : (s.endAttempt .tracked).attempts = { first with ended := .tracked } :: attempts := by
      simp only [TweetVolume.endAttempt, hs]
    refine { h with tracker := rfl, climb := ?_, published := ?_, forwarder := ?_ }
    · simp only [hends]
      exact hclimb.endAttempt (.inl ⟨rfl, hstart⟩)
    · obtain ⟨k, hk, hall⟩ := h.published
      refine ⟨k + 1, ?_, ?_⟩
      · have hcast : ((k + 1 : ℕ) : ℤ) = k + 1 := by omega
        rw [hcast, Int.add_mul]
        omega
      · intro j hj hjk
        by_cases hlast : j ≤ k
        · exact hall j hj hlast
        · obtain rfl : j = k + 1 := by omega
          have hcast : ((k + 1 : ℕ) : ℤ) = k + 1 := by omega
          have heq : t₀ + ((k + 1 : ℕ) : ℤ) * aggSec = last + aggSec := by
            rw [hcast, Int.add_mul]
            omega
          rw [heq]
          exact hpublished
    · refine ⟨rfl, rfl, ⟨?_, hdue.harvest⟩, ?_⟩
      · obtain ⟨q, hq⟩ := hdue.grid
        refine ⟨q - 1, ?_⟩
        rw [Int.mul_sub]
        omega
      · intro latest hlatest
        simp only [hends] at hlatest
        obtain rfl := Option.some.inj hlatest
        simp

/-- The process may die anywhere; an attempt under way dies with it. -/
theorem After.crash (h : After metricSpecs aggSec t₀ last s)
    (hn : s.forwarderAct metricSpecs aggSec .crash = some t) :
    After metricSpecs aggSec t₀ last t := by
  have hk := h.forwarder
  simp only [forwarderAct] at hn
  cases hf : s.forwarder with
  | down | establishing time =>
    rw [hf] at hn hk
    cases hn
    exact h.setForwarder hk
  | waiting l next =>
    rw [hf] at hn hk
    cases hn
    exact h.setForwarder hk.2.2
  | forwarding l start next =>
    rw [hf] at hn hk
    cases hn
    exact h.setForwarder hk.2.2.2
  | emitting l start next samples =>
    rw [hf] at hn hk
    cases hn
    exact h.endAttempt hk.2.2.2.2.1 (.inr rfl) fun hidle => hidle
  | emitted start next =>
    rw [hf] at hn hk
    cases hn
    exact h.endAttempt hk.2.2.1 (.inr rfl) fun hidle => hidle

theorem After.forwarderAct {a : Action} (hpos : 0 < aggSec)
    (h : After metricSpecs aggSec t₀ last s) (hn : s.forwarderAct metricSpecs aggSec a = some t) :
    ∃ last', After metricSpecs aggSec t₀ last' t := by
  by_cases hcrash : a = .crash
  · subst hcrash
    exact ⟨last, h.crash hn⟩
  have hk := h.forwarder
  unfold TweetVolume.forwarderAct at hn
  split at hn
  · rename_i hf
    rw [hf] at hk
    simp only [h.tracker, Option.some.injEq] at hn
    exact ⟨last, hn ▸ h.beginRun hk⟩
  · rename_i time hf
    rw [hf] at hk
    have hsame : s.insertTracker time = s := by rw [TweetVolume.insertTracker, h.tracker]
    simp only [hsame, h.tracker, Option.some.injEq] at hn
    exact ⟨last, hn ▸ h.beginRun hk⟩
  · rename_i l next hf
    rw [hf] at hk
    obtain ⟨rfl, hgrid, hidle⟩ := hk
    split at hn
    · cases hn
    · rename_i hdue
      cases hn
      exact ⟨l, h.setForwarder ⟨rfl, rfl, ⟨hgrid, by omega⟩, hidle⟩⟩
  · rename_i l start next hf
    rw [hf] at hk
    obtain ⟨rfl, rfl, hdue, hidle⟩ := hk
    cases hn
    exact ⟨l, h.forwardNext hdue hidle⟩
  · rename_i l start next samples hf
    rw [hf] at hk
    obtain ⟨rfl, rfl, hdue, hlt, hunder, hsamples, hcover⟩ := hk
    split at hn
    · cases hn
    · cases hn
      refine ⟨l, h.sendBatch hpos hdue hlt hsamples ⟨rfl, rfl, hdue, hlt, hunder, ?_, ?_⟩⟩
      · exact fun sample hsample => hsamples sample (List.mem_of_mem_drop hsample)
      · exact fun metric hmetric => sent_or_pending (hcover metric hmetric)
  · rename_i sent l start next samples hf
    rw [hf] at hk
    obtain ⟨rfl, rfl, hdue, hlt, hunder, hsamples, hcover⟩ := hk
    cases hn
    have hgrid : aggSec ∣ next + aggSec - l := by
      have heq : next + aggSec - l = next - l + aggSec := by omega
      rw [heq]
      exact Int.dvd_add hdue.grid (Int.dvd_refl _)
    refine ⟨l, ?_⟩
    cases sent with
    | false => exact h.endAttempt hunder (.inl rfl) fun hidle => ⟨rfl, hgrid, hidle⟩
    | true =>
      -- The samples that were sent before the sending raised stay emitted.
      have hsent : After metricSpecs aggSec t₀ l { s.sendBatch samples with
          forwarder := .emitting l (l + aggSec) next (samples.drop metricDataBatchWriteSize) } := by
        refine h.sendBatch hpos hdue hlt hsamples ⟨rfl, rfl, hdue, hlt, hunder, ?_, ?_⟩
        · exact fun sample hsample => hsamples sample (List.mem_of_mem_drop hsample)
        · exact fun metric hmetric => sent_or_pending (hcover metric hmetric)
      exact hsent.endAttempt hunder (.inl rfl) fun hidle => ⟨rfl, hgrid, hidle⟩
  · rename_i l start next hf
    rw [hf] at hk
    obtain ⟨rfl, rfl, hdue, -, hunder, -, hcover⟩ := hk
    cases hn
    refine ⟨l, h.setForwarder ⟨rfl, hdue, hunder, ?_⟩⟩
    intro metric hmetric
    rcases hcover metric hmetric with ⟨value, hin⟩ | hin
    · cases hin
    · exact hin
  · rename_i start next hf
    rw [hf] at hk
    obtain ⟨rfl, hdue, hunder, hpublished⟩ := hk
    cases hn
    exact ⟨_, h.updateTracker hdue hunder hpublished⟩
  · exact absurd rfl hcrash
  · exact absurd rfl hcrash
  · exact absurd rfl hcrash
  · cases hn

/-- Before there is a tracker value the forwarder can only establish it. -/
theorem Before.forwarderAct {a : Action} (h : s.Before)
    (hn : s.forwarderAct metricSpecs aggSec a = some t) : Inv metricSpecs aggSec t := by
  have hdown : ∀ f : MetricDataForwarder, (f = .down ∨ ∃ time, f = .establishing time) →
      Before { s with forwarder := f } := fun f hf => { h with forwarder := hf }
  have hphase := h.forwarder
  unfold TweetVolume.forwarderAct at hn
  split at hn
  · split at hn
    · rename_i hsome
      cases h.tracker.symm.trans hsome
    · cases hn
      exact .inl (hdown _ (.inr ⟨_, rfl⟩))
  · rename_i time hf
    obtain ⟨t₀, last, hafter⟩ : ∃ t₀ last,
        After metricSpecs aggSec t₀ last (s.insertTracker time) :=
      Inv.insertTracker (.inl h) time
    have hattempts : (s.insertTracker time).attempts = [] := by
      rw [TweetVolume.insertTracker, h.tracker]
      exact h.attempts
    have hidle : Idle (s.insertTracker time).attempts := by
      intro attempt hattempt
      rw [hattempts] at hattempt
      cases hattempt
    simp only [hafter.tracker, Option.some.injEq] at hn
    exact .inr ⟨t₀, last, hn ▸ hafter.beginRun hidle⟩
  · rename_i hf
    simp [hf] at hphase
  · rename_i hf
    simp [hf] at hphase
  · rename_i hf
    simp [hf] at hphase
  · rename_i hf
    simp [hf] at hphase
  · rename_i hf
    simp [hf] at hphase
  · rename_i hf
    simp [hf] at hphase
  · rename_i hf
    simp [hf] at hphase
  · rename_i hf
    simp [hf] at hphase
  · cases hn
    exact .inl (hdown _ (.inl rfl))
  · cases hn

/-- Every step keeps the invariant. -/
theorem Inv.act {a : Action} (hpos : 0 < aggSec) (h : Inv metricSpecs aggSec s)
    (hn : s.act metricSpecs aggSec a = some t) : Inv metricSpecs aggSec t := by
  have hforwarder : ∀ a, s.forwarderAct metricSpecs aggSec a = some t →
      Inv metricSpecs aggSec t := by
    intro a hn
    rcases h with h | ⟨t₀, last, h⟩
    · exact h.forwarderAct hn
    · obtain ⟨last', h'⟩ := h.forwarderAct hpos hn
      exact .inr ⟨t₀, last', h'⟩
  cases a with
  | tick seconds =>
    cases hn
    rcases h with h | ⟨t₀, last, h⟩
    · exact .inl { h with }
    · exact .inr ⟨t₀, last, { h with forwarder := h.forwarder.tick seconds }⟩
  | startStorer => exact h.storerAct hpos hn
  | insertByStorer => exact h.storerAct hpos hn
  | saveTweet createdAt metric => exact h.storerAct hpos hn
  | stopStorer =>
    have hstop : s.storerAct aggSec .stopStorer = some t := hn
    exact h.storerAct hpos hstop
  | start => exact hforwarder _ hn
  | insertByForwarder => exact hforwarder _ hn
  | wake => exact hforwarder _ hn
  | forwardNext => exact hforwarder _ hn
  | sendBatch => exact hforwarder _ hn
  | fail sent => exact hforwarder _ hn
  | finishAttempt => exact hforwarder _ hn
  | updateTracker => exact hforwarder _ hn
  | crash => exact hforwarder _ hn

theorem inv_initial (clock : ℤ) (tracker : Option ℤ) :
    Inv metricSpecs aggSec (initial clock tracker) := by
  cases tracker with
  | none => exact .inl ⟨rfl, rfl, rfl, rfl, rfl, .inl rfl, .inl rfl⟩
  | some t₀ =>
    refine .inr ⟨t₀, t₀, rfl, rfl, ⟨.nil, by simp [initial], rfl⟩,
      ⟨0, by omega, fun j hj hk => by omega⟩, ?_, ?_, ?_, ?_⟩
    · intro p hp
      cases hp
    · intro row hrow
      cases hrow
    · intro aggRef haggRef
      cases haggRef
    · intro attempt hattempt
      cases hattempt

theorem reachable_inv (hpos : 0 < aggSec) (h : Reachable (system metricSpecs aggSec) s) :
    Inv metricSpecs aggSec s := by
  refine h.invariant ?_ ?_
  · rintro s ⟨clock, tracker, rfl⟩
    exact inv_initial clock tracker
  · intro a s t _ hs hn
    exact hs.act hpos hn

/-- The tweets that are attributed to an interval are those that were created in it. -/
theorem countP_interval {rows : List ReferenceRow} (hpos : 0 < aggSec)
    (hrows : ∀ row ∈ rows, InInterval t₀ aggSec row.aggTs row.createdAt) {aggStart : ℤ}
    (hgrid : aggSec ∣ aggStart - t₀) (metric : String) :
    (rows.countP fun row => row.metric = metric ∧ row.aggTs = aggStart) = rows.countP fun row =>
      row.metric = metric ∧ aggStart ≤ row.createdAt ∧ row.createdAt < aggStart + aggSec := by
  refine List.countP_congr fun row hrow => ?_
  have hin := hrows row hrow
  simp only [decide_eq_true_eq, and_congr_right_iff]
  intro _
  constructor
  · rintro rfl
    exact hin.2
  · intro hcontains
    exact InInterval.unique hpos hin ⟨hgrid, hcontains⟩

/-- The attempts are on the grid. -/
theorem Climb.grid (h : Climb aggSec t₀ last attempts) :
    ∀ attempt ∈ attempts, aggSec ∣ attempt.aggStart - t₀ := by
  have hgrid : ∀ attempts : List Attempt, attempts.IsChain (Follows aggSec) →
      (∀ attempt ∈ attempts.getLast?, attempt.aggStart = t₀ + aggSec) →
        ∀ attempt ∈ attempts, aggSec ∣ attempt.aggStart - t₀ := by
    intro attempts
    induction attempts with
    | nil => exact fun _ _ _ hmem => (List.not_mem_nil hmem).elim
    | cons latest attempts ih =>
      intro hchain holdest
      cases attempts with
      | nil =>
        intro attempt hmem
        rw [List.mem_singleton.mp hmem, holdest latest rfl]
        exact ⟨1, by omega⟩
      | cons earlier attempts =>
        obtain ⟨hfollows, hrest⟩ := List.isChain_cons_cons.mp hchain
        have hearlier := ih hrest fun attempt hmem => holdest attempt (by simpa using hmem)
        refine List.forall_mem_cons.mpr ⟨?_, hearlier⟩
        rcases hfollows with ⟨hsame, -⟩ | ⟨hnext, -⟩
        · rw [hsame]
          exact hearlier earlier List.mem_cons_self
        · have hsum : earlier.aggStart + aggSec - t₀ = earlier.aggStart - t₀ + aggSec := by omega
          rw [hnext, hsum]
          exact Int.dvd_add (hearlier earlier List.mem_cons_self) (Int.dvd_refl _)
  exact hgrid attempts h.follows h.oldest

/-! ## The emitted volumes -/

def pendingSamples : MetricDataForwarder → List MetricSample
  | .emitting _ _ _ samples => samples
  | _ => []

/-- The sample has the number of tweets of its metric that the attempt read for the interval. -/
def Reads (attempt : Attempt) (sample : MetricSample) : Prop :=
  attempt.aggStart = sample.epochTimestamp ∧ sample.value = attempt.rows.countP fun row =>
    row.metric = sample.metricName ∧ row.aggTs = sample.epochTimestamp

/-- The sample was read by the attempt that was under way at the time. -/
def ReadAt (attempts : List Attempt) (sample : MetricSample) (time : ℤ) : Prop :=
  ∃ later attempt earlier, attempts = later ++ attempt :: earlier ∧
    (∀ next ∈ later, time ≤ next.began) ∧ attempt.began ≤ time ∧ Reads attempt sample

structure Counts (s : TweetVolume) : Prop where
  rows : ∀ attempt ∈ s.attempts, attempt.rows <+: s.referenceRows ∧ attempt.began ≤ s.clock
  pending : ∀ sample ∈ pendingSamples s.forwarder, ∃ attempt ∈ s.attempts.head?, Reads attempt sample
  emitted : ∀ p ∈ s.emittedSamples, p.2 ≤ s.clock ∧ ReadAt s.attempts p.1 p.2

theorem ReadAt.begin {sample : MetricSample} {time : ℤ} {attempt : Attempt}
    (h : ReadAt attempts sample time) (htime : time ≤ attempt.began) :
    ReadAt (attempt :: attempts) sample time := by
  obtain ⟨later, reader, earlier, rfl, hlater, hreads⟩ := h
  exact ⟨attempt :: later, reader, earlier, rfl, List.forall_mem_cons.mpr ⟨htime, hlater⟩, hreads⟩

/-- How an attempt ends does not matter to what was read. -/
theorem ReadAt.endAttempt {sample : MetricSample} {time : ℤ} (h : ReadAt s.attempts sample time)
    (ended : AttemptEnd) : ReadAt (s.endAttempt ended).attempts sample time := by
  obtain ⟨later, attempt, earlier, hattempts, hlater, hbegan, hreads⟩ := h
  rw [TweetVolume.endAttempt, hattempts]
  cases later with
  | nil => exact ⟨[], { attempt with ended := ended }, earlier, rfl, hlater, hbegan, hreads⟩
  | cons next later =>
    obtain ⟨hnext, hlater⟩ := List.forall_mem_cons.mp hlater
    exact ⟨{ next with ended := ended } :: later, attempt, earlier, rfl,
      List.forall_mem_cons.mpr ⟨hnext, hlater⟩, hbegan, hreads⟩

/-- Steps that neither attempt nor emit anything. -/
theorem Counts.mono (h : s.Counts) (hrows : s.referenceRows <+: t.referenceRows)
    (hclock : s.clock ≤ t.clock) (hattempts : t.attempts = s.attempts)
    (hemitted : t.emittedSamples = s.emittedSamples)
    (hpending : pendingSamples t.forwarder ⊆ pendingSamples s.forwarder) : t.Counts := by
  refine ⟨fun attempt hattempt => ?_, fun sample hsample => ?_, fun p hp => ?_⟩
  · rw [hattempts] at hattempt
    obtain ⟨hread, hbegan⟩ := h.rows attempt hattempt
    exact ⟨hread.trans hrows, Int.le_trans hbegan hclock⟩
  · rw [hattempts]
    exact h.pending sample (hpending hsample)
  · rw [hemitted] at hp
    rw [hattempts]
    obtain ⟨htime, hread⟩ := h.emitted p hp
    exact ⟨Int.le_trans htime hclock, hread⟩

theorem Counts.setForwarder (h : s.Counts) {f : MetricDataForwarder} (hf : pendingSamples f = []) :
    Counts { s with forwarder := f } :=
  h.mono (List.prefix_refl _) (Int.le_refl _) rfl rfl (hf ▸ List.nil_subset _)

theorem Counts.insertTracker (h : s.Counts) (time : ℤ) : (s.insertTracker time).Counts := by
  rw [TweetVolume.insertTracker]
  split
  · exact h
  · exact h.mono (List.prefix_refl _) (Int.le_refl _) rfl rfl (List.Subset.refl _)

theorem Counts.forwardNext (h : s.Counts) (lastEmittedAggTime aggStart nextAggEnd : ℤ) :
    (s.forwardNext metricSpecs aggSec lastEmittedAggTime aggStart nextAggEnd).Counts := by
  rw [TweetVolume.forwardNext]
  split
  · refine ⟨fun attempt hattempt => ?_, fun sample hsample => ⟨_, rfl, ?_⟩, fun p hp => ?_⟩
    · rcases List.mem_cons.mp hattempt with rfl | hattempt
      · exact ⟨List.prefix_refl _, Int.le_refl _⟩
      · exact h.rows attempt hattempt
    · obtain ⟨metric, -, rfl⟩ := List.mem_map.mp hsample
      exact ⟨rfl, rfl⟩
    · obtain ⟨htime, hread⟩ := h.emitted p hp
      exact ⟨htime, hread.begin htime⟩
  · exact h.setForwarder rfl

/-- What is sent was read by the attempt under way. -/
theorem Counts.sendBatch {samples : List MetricSample} {f : MetricDataForwarder} (h : s.Counts)
    (hsamples : samples ⊆ pendingSamples s.forwarder)
    (hf : pendingSamples f ⊆ pendingSamples s.forwarder) :
    Counts { s.sendBatch samples with forwarder := f } := by
  refine ⟨h.rows, fun sample hsample => h.pending sample (hf hsample), fun p hp => ?_⟩
  rcases List.mem_append.mp hp with hold | hnew
  · exact h.emitted p hold
  · obtain ⟨sample, hsample, rfl⟩ := List.mem_map.mp hnew
    obtain ⟨attempt, hhead, hreads⟩ := h.pending sample (hsamples (List.mem_of_mem_take hsample))
    obtain ⟨earlier, hattempts⟩ := List.head?_eq_some_iff.mp hhead
    have hbegan := (h.rows attempt (List.mem_of_mem_head? hhead)).2
    exact ⟨Int.le_refl _, [], attempt, earlier, hattempts, fun _ hnext => (List.not_mem_nil hnext).elim,
      hbegan, hreads⟩

theorem Counts.endAttempt {ended : AttemptEnd} {f : MetricDataForwarder} {tracker : Option ℤ}
    (h : s.Counts) (hf : pendingSamples f = []) :
    Counts { s.endAttempt ended with
      tracker := tracker
      forwarder := f } := by
  refine ⟨fun attempt hattempt => ?_, fun sample hsample => ?_, fun p hp => ?_⟩
  · cases hs : s.attempts with
    | nil =>
      simp only [TweetVolume.endAttempt, hs] at hattempt
      exact (List.not_mem_nil hattempt).elim
    | cons first attempts =>
      have hrows := h.rows
      simp only [TweetVolume.endAttempt, hs, List.forall_mem_cons] at hattempt hrows
      rcases List.mem_cons.mp hattempt with rfl | hattempt
      · exact hrows.1
      · exact hrows.2 attempt hattempt
  · rw [hf] at hsample
    exact (List.not_mem_nil hsample).elim
  · obtain ⟨htime, hread⟩ := h.emitted p hp
    exact ⟨htime, hread.endAttempt ended⟩

theorem Counts.storerAct {a : Action} (h : s.Counts) (hn : s.storerAct aggSec a = some t) :
    t.Counts := by
  unfold TweetVolume.storerAct at hn
  split at hn
  · cases hn
    exact h.mono (List.prefix_refl _) (Int.le_refl _) rfl rfl (List.Subset.refl _)
  · cases hn
    exact (h.insertTracker _).mono (List.prefix_refl _) (Int.le_refl _) rfl rfl (List.Subset.refl _)
  · cases hn
    exact h.mono (List.prefix_append _ _) (Int.le_refl _) rfl rfl (List.Subset.refl _)
  · cases hn
    exact h.mono (List.prefix_refl _) (Int.le_refl _) rfl rfl (List.Subset.refl _)
  · cases hn

theorem Counts.forwarderAct {a : Action} (h : s.Counts)
    (hn : s.forwarderAct metricSpecs aggSec a = some t) : t.Counts := by
  unfold TweetVolume.forwarderAct at hn
  split at hn
  · split at hn
    · cases hn
      exact h.setForwarder rfl
    · cases hn
      exact h.setForwarder rfl
  · rename_i time _
    have hinsert := h.insertTracker time
    dsimp only at hn
    split at hn
    · cases hn
      exact hinsert.setForwarder rfl
    · cases hn
      exact hinsert.setForwarder rfl
  · split at hn
    · cases hn
    · cases hn
      exact h.setForwarder rfl
  · cases hn
    exact h.forwardNext _ _ _
  · rename_i hf
    split at hn
    · cases hn
    · cases hn
      refine h.sendBatch ?_ ?_
      · rw [hf]
        exact List.Subset.refl _
      · rw [hf]
        exact List.drop_subset _ _
  · rename_i sent _ _ _ samples hf
    cases hn
    refine Counts.endAttempt ?_ rfl
    cases sent with
    | false => exact h
    | true =>
      have hsent : Counts { s.sendBatch samples with forwarder := s.forwarder } := by
        refine h.sendBatch ?_ (List.Subset.refl _)
        rw [hf]
        exact List.Subset.refl _
      exact hsent
  · cases hn
    exact h.setForwarder rfl
  · cases hn
    exact h.endAttempt rfl
  · cases hn
    exact h.endAttempt rfl
  · cases hn
    exact h.endAttempt rfl
  · cases hn
    exact h.setForwarder rfl
  · cases hn

theorem Counts.act {a : Action} (h : s.Counts) (hn : s.act metricSpecs aggSec a = some t) :
    t.Counts := by
  cases a with
  | tick seconds =>
    cases hn
    exact h.mono (List.prefix_refl _) (Int.le_add_of_nonneg_right (Int.natCast_nonneg seconds)) rfl rfl
      (List.Subset.refl _)
  | startStorer | insertByStorer | saveTweet _ _ => exact h.storerAct hn
  | stopStorer =>
    have hstop : s.storerAct aggSec .stopStorer = some t := hn
    exact h.storerAct hstop
  | start | insertByForwarder | wake | forwardNext | sendBatch | fail _ | finishAttempt
  | updateTracker | crash => exact h.forwarderAct hn

/-- An emitted volume is the number of the tweets of the interval that were stored when it was
read. -/
theorem After.emitted (h : After metricSpecs aggSec t₀ last s) (hcounts : s.Counts)
    (hpos : 0 < aggSec) {p : MetricSample × ℤ} (hp : p ∈ s.emittedSamples) :
    ∃ later attempt earlier, s.attempts = later ++ attempt :: earlier ∧
      (∀ next ∈ later, p.2 ≤ next.began) ∧ attempt.began ≤ p.2 ∧
      attempt.aggStart = p.1.epochTimestamp ∧ attempt.rows <+: s.referenceRows ∧
      p.1.value = attempt.rows.countP fun row => row.metric = p.1.metricName ∧
        p.1.epochTimestamp ≤ row.createdAt ∧ row.createdAt < p.1.epochTimestamp + aggSec := by
  obtain ⟨-, later, attempt, earlier, hattempts, hlater, hbegan, hstart, hvalue⟩ := hcounts.emitted p hp
  have hattempt : attempt ∈ s.attempts := by
    rw [hattempts]
    exact List.mem_append_right _ List.mem_cons_self
  have hstored := (hcounts.rows attempt hattempt).1
  refine ⟨later, attempt, earlier, hattempts, hlater, hbegan, hstart, hstored, ?_⟩
  rw [hvalue]
  refine countP_interval hpos (fun row hrow => h.rows row (hstored.subset hrow)) ?_ _
  rw [← hstart]
  exact h.climb.grid attempt hattempt

end TweetVolume

end NumentaApps.TwitterDirect
