import NumentaApps.NotificationTables
import NumentaApps.TransitionSystem
import Mathlib.Logic.Function.Basic

/-!
# The notification service

A handler goes through the rows of a batch of results and the devices. The services, of which
there may be several, share the tables with the web handlers; each statement is a step.
-/
namespace NumentaApps.Notifications
open TransitionSystem

/-- What the rows of the data of metrics say for good: their timestamps. -/
structure MetricFacts where
  timestamp : String → ℤ → ℤ

structure ResultRow where
  rowid : ℤ
  ts : ℤ
  anomaly : ℚ
  deriving DecidableEq, Repr

/-- A batch of results of a metric; the resource is the server that the metric had when the batch was
made. -/
structure Message where
  uid : String
  resource : String
  results : List ResultRow
  deriving DecidableEq, Repr

def Message.OfMetric (facts : MetricFacts) (message : Message) : Prop :=
  ∀ row ∈ message.results, row.ts = facts.timestamp message.uid row.rowid

instance (facts : MetricFacts) (message : Message) : Decidable (message.OfMetric facts) :=
  inferInstanceAs (Decidable (∀ row ∈ _, _))

/-- A row that the handler looks at for a device. -/
structure Work where
  row : ResultRow
  setting : NotificationSettings
  deriving DecidableEq, Repr

inductive Phase where
  | examine
  | add
  | mail (notificationId : String)
  deriving DecidableEq, Repr

/-- A call of `messageHandler`, with what it still has to do. -/
structure Handler where
  message : Message
  work : List Work
  phase : Phase
  deriving DecidableEq, Repr

/-- What a notification was looked up with: the servers of the metrics, and the one it is of. -/
structure Lookup where
  servers : String → String
  resource : String

/-- The tables with the servers of the metrics, the running handlers, and what has happened: the
notifications that were created, what they were looked up with, and those that a mail was sent for. -/
structure Server where
  clock : ℤ
  tables : NotificationTables
  servers : String → String
  handlers : List Handler
  created : List Notification
  lookups : String → Lookup
  emails : List String

/-- The least sensitivity of any device, to pass over most rows at once. -/
def minThreshold (settings : List NotificationSettings) : ℚ :=
  ((settings.map NotificationSettings.sensitivity).min?).getD (99999 / 100000)

def workOf (settings : List NotificationSettings) (message : Message) : List Work :=
  (message.results.filter fun row => minThreshold settings ≤ row.anomaly).flatMap fun row =>
    settings.map fun setting => ⟨row, setting⟩

def notificationDeviceStaleDays : ℤ := 30

/-- There is enough data, the row is not old, and its anomaly reaches the sensitivity. -/
def Work.Qualifies (now : ℤ) (work : Work) : Prop :=
  1000 < work.row.rowid ∧ now - 3600 ≤ work.row.ts ∧ work.setting.sensitivity ≤ work.row.anomaly

instance (now : ℤ) (work : Work) : Decidable (work.Qualifies now) :=
  inferInstanceAs (Decidable (_ ∧ _ ∧ _))

def Work.notification (message : Message) (work : Work) (notificationId : String) : Notification where
  uid := notificationId
  metric := message.uid
  rowid := work.row.rowid
  device := work.setting.uid
  windowsize := work.setting.windowsize
  timestamp := work.row.ts
  acknowledged := false
  seen := false
  sesMessageId := none

namespace Server

def setHandler (i : ℕ) (handler : Handler) (s : Server) : Server :=
  { s with handlers := s.handlers.set i handler }

/-- The handler is done with a row and a device. -/
def goOn (i : ℕ) (message : Message) (rest : List Work) (s : Server) : Server :=
  s.setHandler i ⟨message, rest, .examine⟩

def examine (i : ℕ) (message : Message) (work : Work) (rest : List Work) (s : Server) : Server :=
  if work.Qualifies s.clock then
    { s with tables := s.tables.deleteStaleNotificationDevices s.clock notificationDeviceStaleDays
    }.setHandler i ⟨message, work :: rest, .add⟩
  else s.goOn i message rest

/-- A mail is sent if a row was added and the device has an address. -/
def add (i : ℕ) (notificationId : String) (message : Message) (work : Work) (rest : List Work)
    (s : Server) : Server :=
  let n := work.notification message notificationId
  match s.tables.addNotification s.servers message.resource n with
  | (tables, true) =>
    { s with
      tables := tables
      created := s.created ++ [n]
      lookups := Function.update s.lookups notificationId ⟨s.servers, message.resource⟩
    }.setHandler i
      (if work.setting.emailAddr = "" then ⟨message, rest, .examine⟩
        else ⟨message, work :: rest, .mail notificationId⟩)
  | (tables, false) => { s with tables := tables }.goOn i message rest

/-- The mail service answers with a message id, or fails. A notification that is gone raises. -/
def mail (i : ℕ) (notificationId : String) (messageId : Option String) (message : Message)
    (rest : List Work) (s : Server) : Server :=
  match s.tables.getNotification notificationId with
  | none => { s with handlers := s.handlers.eraseIdx i }
  | some _ =>
    { s with
      tables := messageId.elim s.tables fun id => s.tables.updateNotificationMessageId notificationId id
      emails := s.emails ++ [notificationId]
    }.goOn i message rest

/-- The steps of the handlers, of which any may be given up at any time; those of the web handlers;
and metrics that come and go, or are monitored again, under another server too. A batch may be delivered
again. -/
inductive Action where
  | tick (now : ℤ)
  | start (message : Message)
  | examine (i : ℕ)
  | add (i : ℕ) (notificationId : String)
  | mail (i : ℕ) (messageId : Option String)
  | finish (i : ℕ)
  | abort (i : ℕ)
  | see (notificationIds : List String)
  | acknowledge (notificationIds : List String)
  | putSettings (deviceId : String) (changes : NotificationTables.SettingsChanges)
  | touch (deviceId : String)
  | addMetric (uid : String)
  | monitor (uid server : String)
  | deleteMetric (uid : String)

/-- The ids of notifications are new ones. -/
def act (facts : MetricFacts) : Action → Server → Option Server
  | .tick now, s => if s.clock ≤ now then some { s with clock := now } else none
  | .start message, s =>
    if message.OfMetric facts then
      some { s with handlers := s.handlers ++ [⟨message, workOf s.tables.settings message, .examine⟩] }
    else none
  | .examine i, s =>
    match s.handlers[i]? with
    | some ⟨message, work :: rest, .examine⟩ => some (s.examine i message work rest)
    | _ => none
  | .add i notificationId, s =>
    match s.handlers[i]? with
    | some ⟨message, work :: rest, .add⟩ =>
      if notificationId ∈ s.created.map Notification.uid then none
      else some (s.add i notificationId message work rest)
    | _ => none
  | .mail i messageId, s =>
    match s.handlers[i]? with
    | some ⟨message, _ :: rest, .mail notificationId⟩ =>
      some (s.mail i notificationId messageId message rest)
    | _ => none
  | .finish i, s =>
    match s.handlers[i]? with
    | some ⟨_, [], .examine⟩ => some { s with
        handlers := s.handlers.eraseIdx i
        tables := s.tables.clearOldNotifications s.clock }
    | _ => none
  | .abort i, s => some { s with handlers := s.handlers.eraseIdx i }
  | .see notificationIds, s =>
    some { s with tables := s.tables.batchSeeNotifications notificationIds }
  | .acknowledge notificationIds, s =>
    some { s with tables := s.tables.batchAcknowledgeNotifications notificationIds }
  | .putSettings deviceId changes, s =>
    some { s with tables := s.tables.putSettings deviceId changes s.clock }
  | .touch deviceId, s =>
    some { s with tables := s.tables.updateNotificationDeviceTimestamp deviceId s.clock }
  | .addMetric uid, s => some { s with tables := s.tables.addMetric uid }
  | .monitor uid server, s => some { s with servers := Function.update s.servers uid server }
  | .deleteMetric uid, s => some { s with tables := s.tables.deleteMetric uid }

/-- Nothing has been notified at first. -/
def system (facts : MetricFacts) : System Server Action where
  init s := s.tables.notifications = [] ∧ s.handlers = [] ∧ s.created = [] ∧ s.emails = []
  next := act facts

end Server

/-! ### The rows that are passed over -/

theorem minThreshold_le {settings : List NotificationSettings} {setting : NotificationSettings}
    (h : setting ∈ settings) : minThreshold settings ≤ setting.sensitivity := by
  have hmem := List.mem_map_of_mem (f := NotificationSettings.sensitivity) h
  rw [minThreshold]
  cases hmin : (settings.map NotificationSettings.sensitivity).min? with
  | none =>
    rw [List.min?_eq_none_iff] at hmin
    rw [hmin] at hmem
    exact absurd hmem List.not_mem_nil
  | some least => exact (List.min?_eq_some_iff.mp hmin).2 _ hmem

theorem mem_workOf {settings : List NotificationSettings} {message : Message} {work : Work} :
    work ∈ workOf settings message ↔ work.row ∈ message.results ∧ work.setting ∈ settings ∧
      minThreshold settings ≤ work.row.anomaly := by
  simp only [workOf, List.mem_flatMap, List.mem_filter, List.mem_map, decide_eq_true_eq]
  constructor
  · intro ⟨row, ⟨hrow, hleast⟩, setting, hsetting, heq⟩
    subst heq
    exact ⟨hrow, hsetting, hleast⟩
  · intro ⟨hrow, hsetting, hleast⟩
    exact ⟨work.row, ⟨hrow, hleast⟩, work.setting, hsetting, rfl⟩

/-- The cached threshold passes over no row that a device is to be notified of. -/
theorem mem_workOf_of_sensitivity {settings : List NotificationSettings} {message : Message}
    {work : Work} (hrow : work.row ∈ message.results) (hsetting : work.setting ∈ settings)
    (hanomaly : work.setting.sensitivity ≤ work.row.anomaly) : work ∈ workOf settings message :=
  mem_workOf.mpr ⟨hrow, hsetting, (minThreshold_le hsetting).trans hanomaly⟩

end NumentaApps.Notifications
