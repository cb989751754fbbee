import NumentaApps.TransitionSystem
import Mathlib.Data.Int.Notation

/-!
# Dispatching the failures of checks

Monitors, of which there may be several, run their checks and mail what the checks raise. A
notification is recorded in a table that the monitors share, in a transaction that stays open while
the mail is sent; a notification that is recorded already is not mailed.
-/
namespace NumentaApps.TaurusMonitoring
open TransitionSystem

variable {D : Type} (sha1 : String → D)

/-- In seconds, to which the times of the table are cut. -/
def notificationRetentionPeriod : ℤ := 7 * 24 * 3600

structure Failure where
  checkFn : String
  excType : String
  excValue : String
  deriving DecidableEq

/-- The primary key of the table. -/
structure Key (D : Type) where
  checkFn : String
  excType : String
  excValueDigest : D
  deriving DecidableEq

structure Row (D : Type) where
  key : Key D
  timestamp : ℤ
  excValue : String
  deriving DecidableEq

def hashExceptionValue (excValue : String) : D := sha1 excValue

def Failure.key (failure : Failure) : Key D :=
  ⟨failure.checkFn, failure.excType, hashExceptionValue sha1 failure.excValue⟩

/-- A failure and the time of its check. -/
structure Failed where
  failure : Failure
  time : ℤ
  deriving DecidableEq

structure Mail (D : Type) where
  key : Key D
  sentAt : ℤ
  deriving DecidableEq

/-- A notification whose transaction was committed, and when it was inserted, mailed and committed;
`clears` counts the times that the table had been cleared by hand. -/
structure Record (D : Type) where
  row : Row D
  insertedAt : ℤ
  sentAt : ℤ
  committedAt : ℤ
  clears : ℕ
  deriving DecidableEq

def Record.mail (record : Record D) : Mail D := ⟨record.row.key, record.sentAt⟩

/-- How far a notification has got: the old ones are to be deleted, then there are attempts at a
transaction, of which the statement is issued, the mail sent and the end committed. -/
inductive Phase (D : Type) where
  | failed
  | cleanUp (cutoffDate : ℤ)
  | ready
  | insert (row : Row D)
  | dispatch (insertedAt : ℤ)
  | commit (insertedAt sentAt : ℤ)
  | duplicate
  deriving DecidableEq

/-- A call of the wrapped `dispatchNotification`. -/
structure Call (D : Type) where
  failed : Failed
  phase : Phase D
  deriving DecidableEq

/-- A run of `checkAll`: the checks to come, what failed, the call that it is in, and the row that
its transaction holds on the server. -/
structure Monitor (D : Type) where
  checks : List String
  failures : List Failed
  call : Option (Call D)
  transaction : Option (Row D)
  deriving DecidableEq

def Monitor.pendingKeys (monitor : Monitor D) : List (Key D) :=
  (monitor.transaction.map Row.key).toList

/-- The mail that was sent in a transaction that is not at its end. -/
def Call.pendingMails (call : Call D) : List (Mail D) :=
  match call.phase with
  | .commit _ sentAt => [⟨call.failed.failure.key sha1, sentAt⟩]
  | _ => []

def Monitor.pendingMails (monitor : Monitor D) : List (Mail D) :=
  monitor.call.toList.flatMap (Call.pendingMails sha1)

/-- The clock and the table, and what was ever committed to it. -/
structure Store (D : Type) where
  clock : ℤ
  table : List (Row D)
  records : List (Record D)
  clears : ℕ
  deriving DecidableEq

/-- The failed mails are those whose transaction was rolled back. -/
structure Monitoring (D : Type) where
  store : Store D
  monitors : List (Monitor D)
  mails : List (Mail D)
  failedMails : List (Mail D)
  returned : List (List Failed)
  deriving DecidableEq

namespace Store

def cleanupOldNotifications (cutoffDate : ℤ) (store : Store D) : Store D :=
  { store with table := store.table.filter fun row => ¬ row.timestamp < cutoffDate }

def clearAllNotifications (store : Store D) : Store D :=
  { store with
    table := []
    clears := store.clears + 1 }

def commit (row : Row D) (insertedAt sentAt : ℤ) (store : Store D) : Store D :=
  { store with
    table := store.table ++ [row]
    records := store.records ++ [⟨row, insertedAt, sentAt, store.clock, store.clears⟩] }

end Store

/-- The steps of the monitors. A statement may be carried out without an answer; a transaction may
be rolled back by the server, or given up, and is then tried again; what is not worth a retry ends
the monitor. -/
inductive Action where
  | tick (now : ℤ)
  | checkAll (checks : List String)
  | check (i : ℕ) (raised : Option (String × String))
  | cutoff (i : ℕ)
  | cleanUp (i : ℕ) (answered : Bool)
  | prepare (i : ℕ)
  | insert (i : ℕ)
  | dispatch (i : ℕ)
  | commit (i : ℕ) (answered : Bool)
  | ignore (i : ℕ)
  | rollback (i : ℕ)
  | retry (i : ℕ)
  | raise (i : ℕ)
  | finish (i : ℕ)
  | clearAll

/-- Where an error may be one of the database. -/
def Phase.inTransaction : Phase D → Bool
  | .insert _ | .commit _ _ | .duplicate => true
  | _ => false

namespace Monitoring

variable [DecidableEq D]

def setMonitor (i : ℕ) (monitor : Monitor D) (s : Monitoring D) : Monitoring D :=
  { s with monitors := s.monitors.set i monitor }

/-- The transaction of a monitor comes to nothing. -/
def fail (monitor : Monitor D) (s : Monitoring D) : Monitoring D :=
  { s with failedMails := s.failedMails ++ monitor.pendingMails sha1 }

/-- A check that raises is to be notified of. -/
def check (i : ℕ) (raised : Option (String × String)) (checkFn : String) (checks : List String)
    (failures : List Failed) (s : Monitoring D) : Monitoring D :=
  match raised with
  | none => s.setMonitor i ⟨checks, failures, none, none⟩
  | some (excType, excValue) =>
    let failed : Failed := ⟨⟨checkFn, excType, excValue⟩, s.store.clock⟩
    s.setMonitor i ⟨checks, failures ++ [failed], some ⟨failed, .failed⟩, none⟩

/-- The server holds back a row whose key another transaction is about to add, and refuses one whose
key is in the table. -/
def insert (i : ℕ) (row : Row D) (monitor : Monitor D) (call : Call D) (s : Monitoring D) :
    Option (Monitoring D) :=
  if row.key ∈ s.monitors.flatMap Monitor.pendingKeys then none
  else if row.key ∈ s.store.table.map Row.key then
    some (s.setMonitor i { monitor with call := some ⟨call.failed, .duplicate⟩ })
  else
    some (s.setMonitor i { monitor with
      call := some ⟨call.failed, .dispatch s.store.clock⟩
      transaction := some row })

def dispatch (i : ℕ) (insertedAt : ℤ) (monitor : Monitor D) (call : Call D) (s : Monitoring D) :
    Monitoring D :=
  let mail : Mail D := ⟨call.failed.failure.key sha1, s.store.clock⟩
  { s with
    mails := s.mails ++ [mail]
  }.setMonitor i { monitor with call := some ⟨call.failed, .commit insertedAt s.store.clock⟩ }

def commit (i : ℕ) (answered : Bool) (row : Row D) (insertedAt sentAt : ℤ) (monitor : Monitor D)
    (call : Call D) (s : Monitoring D) : Monitoring D :=
  { s with
    store := s.store.commit row insertedAt sentAt
  }.setMonitor i { monitor with
    call := if answered then none else some ⟨call.failed, .ready⟩
    transaction := none }

/-- A step of a call, up to the end of its transaction. -/
def step (i : ℕ) (monitor : Monitor D) (call : Call D) (s : Monitoring D) :
    Action → Option (Monitoring D)
  | .cutoff _ =>
    if call.phase = .failed then
      some (s.setMonitor i { monitor with
        call := some ⟨call.failed, .cleanUp (s.store.clock - notificationRetentionPeriod)⟩ })
    else none
  | .cleanUp _ answered =>
    match call.phase with
    | .cleanUp cutoffDate =>
      some ({ s with
        store := s.store.cleanupOldNotifications cutoffDate
      }.setMonitor i { monitor with
        call := some ⟨call.failed, if answered then .ready else .cleanUp cutoffDate⟩ })
    | _ => none
  | .prepare _ =>
    if call.phase = .ready then
      let row : Row D := ⟨call.failed.failure.key sha1, s.store.clock, call.failed.failure.excValue⟩
      some (s.setMonitor i { monitor with call := some ⟨call.failed, .insert row⟩ })
    else none
  | .insert _ =>
    match call.phase with
    | .insert row => s.insert i row monitor call
    | _ => none
  | .dispatch _ =>
    match call.phase with
    | .dispatch insertedAt => some (s.dispatch sha1 i insertedAt monitor call)
    | _ => none
  | .commit _ answered =>
    match call.phase, monitor.transaction with
    | .commit insertedAt sentAt, some row =>
      some (s.commit i answered row insertedAt sentAt monitor call)
    | _, _ => none
  | .ignore _ =>
    if call.phase = .duplicate then some (s.setMonitor i { monitor with call := none }) else none
  | .retry _ =>
    if call.phase.inTransaction then
      some ((s.fail sha1 monitor).setMonitor i { monitor with
        call := some ⟨call.failed, .ready⟩
        transaction := none })
    else none
  | _ => none

def stepMonitor (i : ℕ) (a : Action) (s : Monitoring D) : Option (Monitoring D) :=
  (s.monitors[i]?).bind fun monitor => monitor.call.bind fun call => s.step sha1 i monitor call a

def act : Action → Monitoring D → Option (Monitoring D)
  | .tick now, s =>
    if s.store.clock ≤ now then some { s with store := { s.store with clock := now } } else none
  | .checkAll checks, s => some { s with monitors := s.monitors ++ [⟨checks, [], none, none⟩] }
  | .check i raised, s =>
    match s.monitors[i]? with
    | some ⟨checkFn :: checks, failures, none, none⟩ =>
      some (s.check i raised checkFn checks failures)
    | _ => none
  | .rollback i, s =>
    (s.monitors[i]?).map fun monitor => s.setMonitor i { monitor with transaction := none }
  | .raise i, s =>
    (s.monitors[i]?).map fun monitor =>
      { s.fail sha1 monitor with monitors := s.monitors.eraseIdx i }
  | .finish i, s =>
    match s.monitors[i]? with
    | some ⟨[], failures, none, none⟩ => some { s with
        monitors := s.monitors.eraseIdx i
        returned := s.returned ++ [failures] }
    | _ => none
  | .clearAll, s => some { s with store := s.store.clearAllNotifications }
  | .cutoff i, s => s.stepMonitor sha1 i (.cutoff i)
  | .cleanUp i answered, s => s.stepMonitor sha1 i (.cleanUp i answered)
  | .prepare i, s => s.stepMonitor sha1 i (.prepare i)
  | .insert i, s => s.stepMonitor sha1 i (.insert i)
  | .dispatch i, s => s.stepMonitor sha1 i (.dispatch i)
  | .commit i answered, s => s.stepMonitor sha1 i (.commit i answered)
  | .ignore i, s => s.stepMonitor sha1 i (.ignore i)
  | .retry i, s => s.stepMonitor sha1 i (.retry i)

/-- Nothing has been recorded at first. -/
def init (s : Monitoring D) : Prop :=
  s.store.table = [] ∧ s.store.records = [] ∧ s.monitors = [] ∧ s.mails = [] ∧ s.failedMails = [] ∧
    s.returned = []

def system : System (Monitoring D) Action where
  init := init
  next := act sha1

end Monitoring

end NumentaApps.TaurusMonitoring
