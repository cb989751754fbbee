import NumentaApps.TransitionSystem
import Mathlib.Data.Int.Notation
import Mathlib.Data.List.Destutter

/-!
# Tweet volume metrics

The forwarder aggregates the stored tweets of one interval after the other and emits
the samples to the metric listener; the start of the last interval it has emitted is
tracked in the database. The storer attributes a tweet to an interval relative to the
tracked time that it read at its start.

Times are in whole seconds. The clock has a fraction, but it is compared with whole
numbers only, so its whole seconds stand for it.
-/
namespace NumentaApps.TwitterDirect
open TransitionSystem

/-- The aggregation timestamp of a sample, relative to a reference that may precede or
follow it. -/
def aggTimestampFromSampleTimestamp (sampleEpoch aggRefEpoch aggSec : ℤ) : ℤ :=
  let deltaSec := sampleEpoch - aggRefEpoch
  if deltaSec ≥ 0 then
    let deltaAggIntervalSec := (deltaSec / aggSec) * aggSec
    aggRefEpoch + deltaAggIntervalSec
  else
    let deltaAggIntervalSec := (((deltaSec.natAbs : ℤ) + (aggSec - 1)) / aggSec) * aggSec
    aggRefEpoch - deltaAggIntervalSec

structure MetricSample where
  metricName : String
  value : ℕ
  epochTimestamp : ℤ
  deriving DecidableEq, Repr

/-- A reference row, with the creation time of its tweet. -/
structure ReferenceRow where
  metric : String
  createdAt : ℤ
  aggTs : ℤ
  deriving DecidableEq, Repr

/-- How a call of `aggregateAndForward` ended, if it has: it raised, the process died
before the tracker was updated, or the tracker was updated. -/
inductive AttemptEnd where
  | underWay | failed | died | tracked
  deriving DecidableEq, Repr

/-- A call for the interval from `aggStart`, which began at a time and read the reference rows that
were stored then. -/
structure Attempt where
  aggStart : ℤ
  began : ℤ
  rows : List ReferenceRow
  ended : AttemptEnd
  deriving DecidableEq, Repr

/-- Where the forwarder's thread is, with the variables it goes on with. -/
inductive MetricDataForwarder where
  | down
  | establishing (lastEmittedTimestamp : ℤ)
  | waiting (lastEmittedAggTime nextAggEnd : ℤ)
  | forwarding (lastEmittedAggTime aggStart nextAggEnd : ℤ)
  | emitting (lastEmittedAggTime aggStart nextAggEnd : ℤ) (samples : List MetricSample)
  | emitted (aggStart nextAggEnd : ℤ)
  deriving DecidableEq, Repr

inductive TweetStorer where
  | down
  | establishing (lastEmittedTimestamp : ℤ)
  | storing (aggRef : ℤ)
  deriving DecidableEq, Repr

/-- The row of the tracker table and the reference rows, the threads, the clock, and what
has happened: the initial tracker value, the attempts, latest first, and the samples
emitted, each with its time. -/
structure TweetVolume where
  clock : ℤ
  tracker : Option ℤ
  referenceRows : List ReferenceRow
  forwarder : MetricDataForwarder
  storer : TweetStorer
  initialTracker : Option ℤ
  attempts : List Attempt
  emittedSamples : List (MetricSample × ℤ)
  deriving DecidableEq, Repr

namespace TweetVolume

def metricDataBatchWriteSize : ℕ := 200

def initial (clock : ℤ) (tracker : Option ℤ) : TweetVolume where
  clock := clock
  tracker := tracker
  referenceRows := []
  forwarder := .down
  storer := .down
  initialTracker := tracker
  attempts := []
  emittedSamples := []

/-- "INSERT IGNORE" of a synthesized time into the tracker table. -/
def insertTracker (lastEmittedTimestamp : ℤ) (s : TweetVolume) : TweetVolume :=
  match s.tracker with
  | some _ => s
  | none => { s with
      tracker := some lastEmittedTimestamp, initialTracker := some lastEmittedTimestamp }

/-- The start of `_run`, once the last emitted time is known. -/
def beginRun (aggSec lastEmittedAggTime : ℤ) (s : TweetVolume) : TweetVolume :=
  { s with forwarder := .waiting lastEmittedAggTime (lastEmittedAggTime + aggSec + aggSec) }

def queryTweetVolumes (aggStart : ℤ) (metric : String) (s : TweetVolume) : ℕ :=
  s.referenceRows.countP fun row => row.metric = metric ∧ row.aggTs = aggStart

/-- The samples of one aggregation interval. -/
def getSamples (metricSpecs : List String) (aggStart : ℤ) (s : TweetVolume) : List MetricSample :=
  metricSpecs.map fun metric =>
    { metricName := metric
      value := s.queryTweetVolumes aggStart metric
      epochTimestamp := aggStart }

def endAttempt (ended : AttemptEnd) (s : TweetVolume) : TweetVolume :=
  { s with attempts := match s.attempts with
      | [] => []
      | attempt :: attempts => { attempt with ended := ended } :: attempts }

/-- The top of the loop of `_forwardTweetVolumeMetrics`, which ends with the return to the
loop of `_run`. -/
def forwardNext (metricSpecs : List String) (aggSec lastEmittedAggTime aggStart nextAggEnd : ℤ)
    (s : TweetVolume) : TweetVolume :=
  if aggStart < nextAggEnd then { s with
    forwarder := .emitting lastEmittedAggTime aggStart nextAggEnd (s.getSamples metricSpecs aggStart)
    attempts := ⟨aggStart, s.clock, s.referenceRows, .underWay⟩ :: s.attempts }
  else { s with forwarder := .waiting lastEmittedAggTime (nextAggEnd + aggSec) }

/-- Samples are sent in batches. -/
def sendBatch (samples : List MetricSample) (s : TweetVolume) : TweetVolume :=
  { s with emittedSamples := s.emittedSamples ++
      (samples.take metricDataBatchWriteSize).map fun sample => (sample, s.clock) }

inductive Action where
  | tick (seconds : ℕ)
  | startStorer
  | insertByStorer
  | saveTweet (createdAt : ℤ) (metric : String)
  | stopStorer
  | start
  | insertByForwarder
  | wake
  | forwardNext
  | sendBatch
  | fail (sent : Bool)
  | finishAttempt
  | updateTracker
  | crash

def storerAct (aggSec : ℤ) (a : Action) (s : TweetVolume) : Option TweetVolume :=
  match a, s.storer with
  | .startStorer, .down => some { s with storer := match s.tracker with
      | some aggRef => .storing aggRef
      | none => .establishing (s.clock - aggSec) }
  | .insertByStorer, .establishing lastEmittedTimestamp =>
    let s := s.insertTracker lastEmittedTimestamp
    some { s with storer := match s.tracker with
      | some aggRef => .storing aggRef
      | none => .down }
  | .saveTweet createdAt metric, .storing aggRef =>
    some { s with referenceRows := s.referenceRows ++
      [⟨metric, createdAt, aggTimestampFromSampleTimestamp createdAt aggRef aggSec⟩] }
  | .stopStorer, _ => some { s with storer := .down }
  | _, _ => none

/-- A failed call returns to the loop of `_run` with the last emitted time it had. A batch
may have been sent although the sending raises. -/
def forwarderAct (metricSpecs : List String) (aggSec : ℤ) (a : Action) (s : TweetVolume) :
    Option TweetVolume :=
  match a, s.forwarder with
  | .start, .down => match s.tracker with
    | some lastEmittedAggTime => some (s.beginRun aggSec lastEmittedAggTime)
    | none => some { s with forwarder := .establishing (s.clock - aggSec) }
  | .insertByForwarder, .establishing lastEmittedTimestamp =>
    let s := s.insertTracker lastEmittedTimestamp
    match s.tracker with
    | some lastEmittedAggTime => some (s.beginRun aggSec lastEmittedAggTime)
    | none => some { s with forwarder := .down }
  | .wake, .waiting lastEmittedAggTime nextAggEnd =>
    if s.clock < nextAggEnd + aggSec then none
    else some { s with
      forwarder := .forwarding lastEmittedAggTime (lastEmittedAggTime + aggSec) nextAggEnd }
  | .forwardNext, .forwarding lastEmittedAggTime aggStart nextAggEnd =>
    some (s.forwardNext metricSpecs aggSec lastEmittedAggTime aggStart nextAggEnd)
  | .sendBatch, .emitting lastEmittedAggTime aggStart nextAggEnd samples =>
    if samples = [] then none
    else some { s.sendBatch samples with
      forwarder := .emitting lastEmittedAggTime aggStart nextAggEnd
        (samples.drop metricDataBatchWriteSize) }
  | .fail sent, .emitting lastEmittedAggTime _ nextAggEnd samples =>
    some { (if sent then s.sendBatch samples else s).endAttempt .failed with
      forwarder := .waiting lastEmittedAggTime (nextAggEnd + aggSec) }
  | .finishAttempt, .emitting _ aggStart nextAggEnd [] =>
    some { s with forwarder := .emitted aggStart nextAggEnd }
  | .updateTracker, .emitted aggStart nextAggEnd =>
    some { s.endAttempt .tracked with
      tracker := some aggStart
      forwarder := .forwarding aggStart (aggStart + aggSec) nextAggEnd }
  | .crash, .emitting _ _ _ _ => some { s.endAttempt .died with forwarder := .down }
  | .crash, .emitted _ _ => some { s.endAttempt .died with forwarder := .down }
  | .crash, _ => some { s with forwarder := .down }
  | _, _ => none

def act (metricSpecs : List String) (aggSec : ℤ) (a : Action) (s : TweetVolume) :
    Option TweetVolume :=
  match a with
  | .tick seconds => some { s with clock := s.clock + seconds }
  | .startStorer | .insertByStorer | .saveTweet _ _ | .stopStorer => s.storerAct aggSec a
  | .start | .insertByForwarder | .wake | .forwardNext | .sendBatch | .fail _ | .finishAttempt
  | .updateTracker | .crash => s.forwarderAct metricSpecs aggSec a

def system (metricSpecs : List String) (aggSec : ℤ) : System TweetVolume Action where
  init s := ∃ clock tracker, s = initial clock tracker
  next := act metricSpecs aggSec

end TweetVolume
end NumentaApps.TwitterDirect
