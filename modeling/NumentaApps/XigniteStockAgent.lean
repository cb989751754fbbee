import NumentaApps.TransitionSystem
import Mathlib.Algebra.Order.Group.Int
import Mathlib.Data.List.Sort
import Mathlib.Data.Rat.Defs
import Mathlib.Logic.Function.Basic

/-!
# The stock agent

The agent of a symbol stores the bars that it polls, sends those that are not marked as sent, and
marks them once they are sent. Times are in seconds; the bars are stored with their wall-clock times
in the zone of the exchange.
-/
namespace NumentaApps.Xignite
open TransitionSystem

def secondsPerDay : ℤ := 86400

def timeOfDay (wallClock : ℤ) : ℤ := wallClock % secondsPerDay

def date (wallClock : ℤ) : ℤ := wallClock / secondsPerDay

/-- From half past nine. -/
def naiveMarketOpenTime : ℤ := 9 * 3600 + 30 * 60

/-- To four o'clock. -/
def naiveMarketCloseTime : ℤ := 16 * 3600

/-- The time zone of the exchange: its wall-clock time at an instant, and the instant that a
wall-clock time is taken for. The clocks are set at night, and are behind by less than a day. -/
structure EasternTime where
  ofUtc : ℤ → ℤ
  localize : ℤ → ℤ
  localize_ofUtc : ∀ t, naiveMarketOpenTime ≤ timeOfDay (ofUtc t) → localize (ofUtc t) = t
  localize_lt : ∀ a b, naiveMarketOpenTime ≤ timeOfDay a → naiveMarketOpenTime ≤ timeOfDay b → a < b →
    localize a < localize b
  behind : ∀ t, ofUtc t ≤ t ∧ t ≤ ofUtc t + secondsPerDay

/-- The values of a bar. -/
structure Values where
  openPrice : ℚ
  high : ℚ
  low : ℚ
  closePrice : ℚ
  volume : ℤ
  trades : ℤ
  deriving DecidableEq, Repr

/-- A bar of a response, with its times at its offset from UTC, in hours. -/
structure Sample where
  start : ℤ
  stop : ℤ
  utcOffset : ℤ
  values : Values
  deriving DecidableEq, Repr

def Sample.startTimestamp (sample : Sample) : ℤ := sample.start - sample.utcOffset * 3600

def Sample.stopTimestamp (sample : Sample) : ℤ := sample.stop - sample.utcOffset * 3600

/-- The primary key of `xignite_security_bars` and of the tables of what was sent, of one symbol. -/
structure BarKey where
  start : ℤ
  stop : ℤ
  utcOffset : ℤ
  deriving DecidableEq, Repr

structure Bar where
  key : BarKey
  values : Values
  deriving DecidableEq, Repr

/-- `sampleKey` of a metric of the symbol, `Close` or `Volume`. -/
inductive SampleKey where
  | close
  | volume
  deriving DecidableEq, Repr

/-- A row of the query of what is not sent, with the marks of both metrics. -/
structure Row where
  bar : Bar
  closeSent : Bool
  volumeSent : Bool
  deriving DecidableEq, Repr

def Row.isSent (row : Row) : SampleKey → Bool
  | .close => row.closeSent
  | .volume => row.volumeSent

/-- Where `forward` and `transmitMetricData` are, and what was polled for the one. -/
inductive Process where
  | polled (samples : List Sample)
  | buffering (samples : List Sample) (lastEnd : Option ℤ)
  | selected (rows : List Row)
  | sending (chunk todo : List (SampleKey × Bar)) (rows : List Row)
  | marking (todo : List (SampleKey × Bar)) (rows : List Row)
  deriving DecidableEq

/-- The metrics of the symbol, and the options of the agent. -/
structure Options where
  specs : List SampleKey
  barlength : ℤ
  days : ℤ
  active : Bool

/-- The tables of a symbol, the last row of its history file from before there were tables, if it has
one with rows, and the process that works on it. The last three say what has happened: the bars published
for each metric, those that were purged, and how often a process was given up. -/
structure StockAgent where
  clock : ℤ
  history : Option Sample
  bars : List Bar
  marked : SampleKey → List BarKey
  process : Option Process
  sent : SampleKey → List Bar
  purged : List Bar
  aborts : ℕ

namespace StockAgent

variable (eastern : EasternTime) (options : Options)

/-- The row with the latest end. -/
def getLatestSample (bars : List Bar) : Option Bar :=
  bars.foldl (fun latest bar =>
    match latest with
    | none => some bar
    | some last => if last.key.stop < bar.key.stop then some bar else some last) none

def lastEnd (agent : StockAgent) : Option ℤ :=
  (getLatestSample agent.bars).map fun bar => eastern.localize bar.key.stop

/-- The end of what was collected before: of the latest sample, or of the history file as long as
there is no sample. -/
def localizedLastEndTime (agent : StockAgent) : Option ℤ :=
  (agent.lastEnd eastern).or (agent.history.map Sample.stopTimestamp)

/-- The end of the request, aligned and padded. -/
def endOfRequest (barlength clock : ℤ) : ℤ :=
  clock - (barlength + clock / 60 % 60 % barlength) * 60 - clock % 60

def startOfRequest (agent : StockAgent) : ℤ :=
  (agent.localizedLastEndTime eastern).getD
    (endOfRequest options.barlength agent.clock - options.days * secondsPerDay)

/-- Of a response only what starts at or after the end of what was collected before. -/
def poll (response : List Sample) (agent : StockAgent) : List Sample :=
  response.filter fun sample =>
    (agent.localizedLastEndTime eastern).all fun last => last ≤ sample.startTimestamp

/-- The sample starts in market hours. -/
def InMarketHours (sample : Sample) : Prop :=
  naiveMarketOpenTime ≤ timeOfDay (eastern.ofUtc sample.startTimestamp) ∧
    timeOfDay (eastern.ofUtc sample.startTimestamp) < naiveMarketCloseTime

instance (sample : Sample) : Decidable (InMarketHours eastern sample) :=
  inferInstanceAs (Decidable (_ ∧ _))

/-- What the service answers: the bars in market hours are of the requested time, in order, end after
they start, and do not reach into the next morning. -/
def IsResponse (start : ℤ) (response : List Sample) : Prop :=
  (response.filter fun sample => InMarketHours eastern sample).Pairwise
      (fun sample sample' => sample.stopTimestamp ≤ sample'.startTimestamp) ∧
    ∀ sample ∈ response, InMarketHours eastern sample → start ≤ sample.startTimestamp ∧
      sample.startTimestamp < sample.stopTimestamp ∧
        naiveMarketOpenTime ≤ timeOfDay (eastern.ofUtc sample.stopTimestamp)

instance (start : ℤ) (response : List Sample) : Decidable (IsResponse eastern start response) :=
  inferInstanceAs (Decidable (_ ∧ ∀ sample ∈ response, _ → _))

def barOf (sample : Sample) : Bar where
  key := ⟨eastern.ofUtc sample.startTimestamp, eastern.ofUtc sample.stopTimestamp, sample.utcOffset⟩
  values := sample.values

def rowOf (agent : StockAgent) (bar : Bar) : Row where
  bar := bar
  closeSent := bar.key ∈ agent.marked .close
  volumeSent := bar.key ∈ agent.marked .volume

/-- The rows that have not been sent to both, in the order of their ends. -/
def fetchUnsentSamples (agent : StockAgent) : List Row :=
  ((agent.bars.map agent.rowOf).filter fun row => !row.closeSent || !row.volumeSent).insertionSort
    fun row row' => row.bar.key.stop ≤ row'.bar.key.stop

/-- The samples of rows that are not sent. -/
def samplesOf (specs : List SampleKey) (rows : List Row) : List (SampleKey × Bar) :=
  rows.flatMap fun row => (specs.filter fun key => !row.isSent key).map fun key => (key, row.bar)

def chunkSize : ℕ := 1000

def metricDataBatchWriteSize : ℕ := 200

def send (agent : StockAgent) (sample : SampleKey × Bar) : StockAgent := { agent with
  sent := Function.update agent.sent sample.1 (agent.sent sample.1 ++ [sample.2]) }

def abort (agent : StockAgent) : StockAgent := { agent with
  process := none
  aborts := agent.aborts + 1 }

def stepBuffering (sample : Sample) (rest : List Sample) (last : Option ℤ) (agent : StockAgent) :
    StockAgent :=
  if InMarketHours eastern sample ∧ last.all (· ≤ sample.startTimestamp) then
    let bar := barOf eastern sample
    -- an integrity error other than of the missing security
    if bar.key ∈ agent.bars.map Bar.key then agent.abort
    else { agent with
      bars := agent.bars ++ [bar]
      process := some (.buffering rest last) }
  else { agent with process := some (.buffering rest last) }

/-- Updates the history of emitted samples; the row needs its bar, and is added once. -/
def stepMarking (sample : SampleKey × Bar) (todo : List (SampleKey × Bar)) (rows : List Row)
    (agent : StockAgent) : StockAgent :=
  if sample.2.key ∈ agent.bars.map Bar.key ∧ sample.2.key ∉ agent.marked sample.1 then
    { agent with
      marked := Function.update agent.marked sample.1 (agent.marked sample.1 ++ [sample.2.key])
      process := some (.marking todo rows) }
  else agent.abort

/-- The next step of the process. -/
def step (agent : StockAgent) : Option StockAgent :=
  match agent.process with
  | none => none
  | some (.polled samples) =>
    some { agent with process := some (.buffering samples (agent.lastEnd eastern)) }
  | some (.buffering [] _) =>
    some { agent with
      process := if options.active then some (.selected agent.fetchUnsentSamples) else none }
  | some (.buffering (sample :: rest) last) => some (agent.stepBuffering eastern sample rest last)
  | some (.selected []) => some { agent with process := none }
  | some (.selected (row :: rows)) =>
    let chunk := samplesOf options.specs ((row :: rows).take chunkSize)
    some { agent with process := some (.sending chunk chunk ((row :: rows).drop chunkSize)) }
  | some (.sending chunk [] rows) => some { agent with process := some (.marking chunk rows) }
  | some (.sending chunk (sample :: todo) rows) =>
    some { ((sample :: todo).take metricDataBatchWriteSize).foldl send agent with
      process := some (.sending chunk ((sample :: todo).drop metricDataBatchWriteSize) rows) }
  | some (.marking [] rows) => some { agent with process := some (.selected rows) }
  | some (.marking (sample :: todo) rows) => some (agent.stepMarking sample todo rows)

def retainDays : ℤ := 30

/-- Bars that ended that many days ago are deleted, and with them their marks. -/
def isOld (clock : ℤ) (bar : Bar) : Bool := date bar.key.stop < date (eastern.ofUtc clock) - retainDays

def purgeOldRecords (agent : StockAgent) : StockAgent :=
  let bars := agent.bars.filter fun bar => !isOld eastern agent.clock bar
  { agent with
    bars := bars
    marked := fun key => (agent.marked key).filter fun barKey => barKey ∈ bars.map Bar.key
    purged := agent.purged ++ agent.bars.filter (isOld eastern agent.clock) }

/-- A symbol is polled once its last call is over, and `forward` is called with the new data, if any;
`transmitMetricData` is called by friends of the agent too. A process may fail at any time, also when
what it sent arrived. -/
inductive Action where
  | tick (now : ℤ)
  | poll (response : List Sample)
  | transmit
  | step
  | fail
  | purge
  deriving DecidableEq

def act : Action → StockAgent → Option StockAgent
  | .tick now, agent => if agent.clock ≤ now then some { agent with clock := now } else none
  | .poll response, agent =>
    if agent.process.isNone ∧ IsResponse eastern (agent.startOfRequest eastern options) response ∧
        agent.poll eastern response ≠ [] then
      some { agent with process := some (.polled (agent.poll eastern response)) }
    else none
  | .transmit, agent =>
    if agent.process.isNone then some { agent with process := some (.selected agent.fetchUnsentSamples) }
    else none
  | .step, agent => agent.step eastern options
  | .fail, agent => if agent.process.isSome then some agent.abort else none
  | .purge, agent => some (agent.purgeOldRecords eastern)

/-- Nothing has been collected at first. -/
def system : System StockAgent Action where
  init agent := agent.bars = [] ∧ agent.marked = (fun _ => []) ∧ agent.process = none ∧
    agent.sent = (fun _ => []) ∧ agent.purged = [] ∧ agent.aborts = 0
  next := act eastern options

/-- The time that a sample is published with. -/
def epochTimestamp (bar : Bar) : ℤ := eastern.localize bar.key.start

end StockAgent

end NumentaApps.Xignite
