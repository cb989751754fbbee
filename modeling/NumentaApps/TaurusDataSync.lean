import NumentaApps.TaurusClient
import NumentaApps.TransitionSystem

/-!
# The synchronisation of the Taurus application

`TaurusDataSyncService.loadAllData` resumes from the last timestamp of the database. The records are
received newest first and are saved in batches while they are received. A run may fail after any
number of records, and the application may be restarted between two runs.
-/
namespace NumentaApps.Taurus
open UtcCalendar TransitionSystem

/-! ## The server -/

/-- The final values of every hour, one for an instance. -/
structure Server (V : Type) where
  final : ℤ → List (String × V)
  unique : ∀ hour, ((final hour).map Prod.fst).Nodup

/-- Fifteen minutes of the following hour have passed. -/
def IsFinal (hour now : ℤ) : Prop := (hour + 1) * millisPerHour + 15 * millisPerMinute ≤ now

instance (hour now : ℤ) : Decidable (IsFinal hour now) :=
  inferInstanceAs (Decidable (_ ≤ _))

/-- The first time after the given one at which an hour becomes final. -/
def nextFinal (now : ℤ) : ℤ :=
  ((now - 15 * millisPerMinute) / millisPerHour + 1) * millisPerHour + 15 * millisPerMinute

/-- The hourly table at some time: hours that are not final may have any values. -/
structure Answer {V : Type} (server : Server V) (now : ℤ) where
  table : ℤ → List (String × V)
  of_final : ∀ hour, IsFinal hour now → ∀ item, item ∈ table hour ↔ item ∈ server.final hour
  begun : ∀ hour, now < hour * millisPerHour → table hour = []

variable {V : Type}

/-- A run at a time of the clock, in the phone's time zone. Unless it completes, it is cut short
after a number of records. -/
structure SyncRun (server : Server V) where
  now : ℤ
  zoneOffset : ℤ
  answer : Answer server now
  cutAfter : Option ℕ

/-! ## The application -/

structure App (V : Type) where
  database : Database V
  previousHourThreshold : Option ℤ
  /-- The last time of the clock. -/
  clock : ℤ
  /-- When the database had all that was final, if nothing has got lost since; not of the code. -/
  syncedAt : Option ℤ

/-- The oldest timestamp that is downloaded. -/
def oldestTimestamp (now : ℤ) : ℤ := floorTo60minutes (now - numberOfDaysToSync * millisPerDay)

/-- Minute 15 of the next hour, by the phone's calendar. -/
def nextThreshold (zoneOffset now : ℤ) : ℤ :=
  (now + millisPerHour + zoneOffset) / millisPerHour * millisPerHour + 15 * millisPerMinute -
    zoneOffset

variable [DecidableEq V]

/-- The records are saved in batches; a batch ends with the first record before its timestamp. -/
def saveBatches (batchTimestamp : ℤ) (batch : List (InstanceData V)) :
    List (InstanceData V) → Database V → Database V
  | [], db => if batch.isEmpty then db else db.addInstanceDataBatch batch
  | data :: pending, db =>
    let batch := batch ++ [data]
    if data.timestamp < batchTimestamp then
      saveBatches (data.timestamp - millisPerHour) [] pending (db.addInstanceDataBatch batch)
    else saveBatches batchTimestamp batch pending db

namespace App

variable {server : Server V}

omit [DecidableEq V] in
/-- When the time is above the threshold, the previous hour is downloaded once more. -/
def updatesPreviousHour (now : ℤ) (app : App V) : Bool :=
  app.previousHourThreshold.getD now ≤ now

def fromTimestamp (now : ℤ) (app : App V) : ℤ :=
  let fromTime := app.database.lastTimestamp
  let fromTime := if app.updatesPreviousHour now then fromTime - millisPerHour else fromTime
  -- catch up and download old data
  let fromTime :=
    if oldestTimestamp now < app.database.firstTimestamp then oldestTimestamp now else fromTime
  if fromTime < oldestTimestamp now then oldestTimestamp now else fromTime

def thresholdAfter (zoneOffset now : ℤ) (app : App V) : Option ℤ :=
  if app.updatesPreviousHour now then some (nextThreshold zoneOffset now)
  else app.previousHourThreshold

/-- All records that the server has for a run. -/
def download (run : SyncRun server) (app : App V) : List (InstanceData V) :=
  getAllInstanceData run.answer.table (app.fromTimestamp run.now) run.now false

def received (run : SyncRun server) (app : App V) : List (InstanceData V) :=
  match run.cutAfter with
  | none => app.download run
  | some n => (app.download run).take n

/-- The records after the cut. -/
def leftOut (run : SyncRun server) (app : App V) : List (InstanceData V) :=
  match run.cutAfter with
  | none => []
  | some n => (app.download run).drop n

/-- A run starts from the oldest timestamp or resumes where nothing had got lost, and its days are
counted right. -/
def KeepsUp (now : ℤ) (app : App V) : Prop :=
  (app.fromTimestamp now = oldestTimestamp now ∨ app.syncedAt.isSome) ∧
    DaysCounted (app.fromTimestamp now) now

/-- What a run leaves out is there already, as far as it is final. -/
def LeavesNothingOut (run : SyncRun server) (app : App V) : Prop :=
  ∀ data ∈ app.leftOut run, IsFinal (hourOf data.timestamp) run.now →
    get app.database.instanceData data.key = some data.value

instance (now : ℤ) (app : App V) : Decidable (app.KeepsUp now) :=
  inferInstanceAs (Decidable ((_ ∨ _) ∧ (_ ∨ _)))

instance (run : SyncRun server) (app : App V) : Decidable (app.LeavesNothingOut run) :=
  inferInstanceAs (Decidable (∀ data ∈ _, _ → _))

/-- The next hour that becomes final is to be downloaded then, for which the threshold must have
passed. -/
def syncedAfter (run : SyncRun server) (app : App V) : Option ℤ :=
  if app.received run = [] ∧ !app.updatesPreviousHour run.now then app.syncedAt
  else if app.KeepsUp run.now ∧ app.LeavesNothingOut run ∧
      (app.thresholdAfter run.zoneOffset run.now).all (· ≤ nextFinal run.now) then some run.now
  else none

def loadAllData (run : SyncRun server) (app : App V) : App V where
  database := saveBatches (run.now - millisPerHour) [] (app.received run) app.database
  previousHourThreshold := app.thresholdAfter run.zoneOffset run.now
  clock := run.now
  syncedAt := app.syncedAfter run

/-- The table, the preferences and what the server has remain. -/
def restart (now : ℤ) (app : App V) : App V :=
  { app with database := .load now app.database.instanceData, clock := now }

inductive Action (server : Server V) where
  | loadAllData (run : SyncRun server)
  | restart (now : ℤ)

def Action.now : Action server → ℤ
  | .loadAllData run => run.now
  | .restart now => now

def act (action : Action server) (app : App V) : App V :=
  match action with
  | .loadAllData run => app.loadAllData run
  | .restart now => app.restart now

/-- Just installed. -/
def installed (now : ℤ) : App V := ⟨.load now [], none, now, none⟩

end App

/-- The clock does not go back. -/
def syncSystem (server : Server V) : System (App V) (App.Action server) where
  init app := app = .installed app.clock ∧ 0 ≤ app.clock
  next action app := if app.clock ≤ action.now then some (app.act action) else none

end NumentaApps.Taurus
