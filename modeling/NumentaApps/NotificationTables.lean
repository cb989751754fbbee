import Mathlib.Data.Int.Notation
import Mathlib.Data.List.Nodup
import Mathlib.Algebra.Order.Ring.Unbundled.Rat

/-!
# The notification tables of the server

A notification belongs to a metric and to a device; the constraints of the tables are fields
of their contents, and a statement that would break one adds nothing. Times are in seconds.
-/
namespace NumentaApps.Notifications

/-- A row of the table `notification_settings`: a device. -/
structure NotificationSettings where
  uid : String
  windowsize : ℤ
  sensitivity : ℚ
  emailAddr : String
  lastTimestamp : ℤ
  deriving DecidableEq, Repr

structure Notification where
  uid : String
  metric : String
  rowid : ℤ
  device : String
  windowsize : ℤ
  timestamp : ℤ
  acknowledged : Bool
  seen : Bool
  sesMessageId : Option String
  deriving DecidableEq, Repr

/-- The unique index `metric_rowid`. -/
def Notification.key (n : Notification) : String × ℤ × String := (n.metric, n.rowid, n.device)

/-- Primary keys, the unique index and the foreign keys of the notifications. -/
structure Consistent (metrics : List String) (settings : List NotificationSettings)
    (notifications : List Notification) : Prop where
  devices : (settings.map NotificationSettings.uid).Nodup
  uids : (notifications.map Notification.uid).Nodup
  keys : (notifications.map Notification.key).Nodup
  metric_mem : ∀ n ∈ notifications, n.metric ∈ metrics
  device_mem : ∀ n ∈ notifications, n.device ∈ settings.map NotificationSettings.uid

/-- The uids of the metrics, the devices, and the notifications in the order of their insertion. -/
structure NotificationTables where
  metrics : List String
  settings : List NotificationSettings
  notifications : List Notification
  consistent : Consistent metrics settings notifications

/-- What is left of consistent tables is consistent, provided that what a notification belongs
to is left. -/
theorem Consistent.of_sublist {metrics metrics' : List String}
    {settings settings' : List NotificationSettings} {notifications notifications' : List Notification}
    (h : Consistent metrics settings notifications)
    (hdevices : (settings'.map NotificationSettings.uid).Nodup)
    (hsub : notifications'.Sublist notifications)
    (hmetric : ∀ n ∈ notifications', n.metric ∈ metrics')
    (hdevice : ∀ n ∈ notifications', n.device ∈ settings'.map NotificationSettings.uid) :
    Consistent metrics' settings' notifications' :=
  ⟨hdevices, h.uids.sublist (hsub.map _), h.keys.sublist (hsub.map _), hmetric, hdevice⟩

/-- A change of the rows that keeps what the constraints are about. -/
theorem Consistent.map_notifications {metrics : List String} {settings : List NotificationSettings}
    {notifications : List Notification} (h : Consistent metrics settings notifications)
    (f : Notification → Notification) (huid : ∀ n, (f n).uid = n.uid) (hkey : ∀ n, (f n).key = n.key) :
    Consistent metrics settings (notifications.map f) := by
  have hparts : ∀ n, (f n).metric = n.metric ∧ (f n).device = n.device := by
    intro n
    have hn := hkey n
    simp only [Notification.key, Prod.mk.injEq] at hn
    exact ⟨hn.1, hn.2.2⟩
  refine ⟨h.devices, ?_, ?_, ?_, ?_⟩
  · rw [List.map_map, funext huid (f := Notification.uid ∘ f)]
    exact h.uids
  · rw [List.map_map, funext hkey (f := Notification.key ∘ f)]
    exact h.keys
  · intro n hn
    obtain ⟨m, hm, rfl⟩ := List.mem_map.mp hn
    rw [(hparts m).1]
    exact h.metric_mem m hm
  · intro n hn
    obtain ⟨m, hm, rfl⟩ := List.mem_map.mp hn
    rw [(hparts m).2]
    exact h.device_mem m hm

theorem Consistent.append {metrics : List String} {settings : List NotificationSettings}
    {notifications : List Notification} (h : Consistent metrics settings notifications)
    {n : Notification} (hmetric : n.metric ∈ metrics) (hdevice : n.device ∈ settings.map NotificationSettings.uid)
    (huid : n.uid ∉ notifications.map Notification.uid)
    (hkey : n.key ∉ notifications.map Notification.key) :
    Consistent metrics settings (notifications ++ [n]) := by
  refine ⟨h.devices, ?_, ?_, ?_, ?_⟩
  · rw [List.map_append, List.map_singleton]
    exact List.nodup_append.mpr ⟨h.uids, List.nodup_singleton _, fun a ha b hb =>
      fun heq => huid (List.mem_singleton.mp hb ▸ heq ▸ ha)⟩
  · rw [List.map_append, List.map_singleton]
    exact List.nodup_append.mpr ⟨h.keys, List.nodup_singleton _, fun a ha b hb =>
      fun heq => hkey (List.mem_singleton.mp hb ▸ heq ▸ ha)⟩
  · intro m hm
    rcases List.mem_append.mp hm with hm | hm
    · exact h.metric_mem m hm
    · rwa [List.mem_singleton.mp hm]
  · intro m hm
    rcases List.mem_append.mp hm with hm | hm
    · exact h.device_mem m hm
    · rwa [List.mem_singleton.mp hm]

namespace NotificationTables

def secondsPerDay : ℤ := 86400

/-! ### Devices -/

/-- "DELETE" of devices, which cascades to their notifications. -/
def deleteDevices (gone : NotificationSettings → Bool) (tables : NotificationTables) :
    NotificationTables where
  metrics := tables.metrics
  settings := tables.settings.filter fun setting => !gone setting
  notifications := tables.notifications.filter fun n =>
    n.device ∈ (tables.settings.filter fun setting => !gone setting).map NotificationSettings.uid
  consistent := tables.consistent.of_sublist
    (tables.consistent.devices.sublist (List.filter_sublist.map _)) List.filter_sublist
    (fun n hn => tables.consistent.metric_mem n (List.mem_of_mem_filter hn))
    (fun n hn => by simpa using (List.mem_filter.mp hn).2)

/-- A device is stale when it has not asked for that many days. -/
def isStale (now days : ℤ) (setting : NotificationSettings) : Bool :=
  setting.lastTimestamp + days * secondsPerDay < now

def deleteStaleNotificationDevices (now days : ℤ) (tables : NotificationTables) : NotificationTables :=
  tables.deleteDevices (isStale now days)

theorem updateSettings_consistent (tables : NotificationTables)
    {f : NotificationSettings → NotificationSettings} (h : ∀ setting, (f setting).uid = setting.uid) :
    Consistent tables.metrics (tables.settings.map f) tables.notifications := by
  have huids : (tables.settings.map f).map NotificationSettings.uid =
      tables.settings.map NotificationSettings.uid := by
    rw [List.map_map, funext h (f := NotificationSettings.uid ∘ f)]
  refine ⟨huids ▸ tables.consistent.devices, tables.consistent.uids, tables.consistent.keys,
    tables.consistent.metric_mem, fun n hn => ?_⟩
  rw [huids]
  exact tables.consistent.device_mem n hn

/-- The values that a request changes; what it leaves out stays. -/
structure SettingsChanges where
  windowsize : Option ℤ
  sensitivity : Option ℚ
  emailAddr : Option String

def SettingsChanges.apply (changes : SettingsChanges) (setting : NotificationSettings) :
    NotificationSettings := { setting with
  windowsize := changes.windowsize.getD setting.windowsize
  sensitivity := changes.sensitivity.getD setting.sensitivity
  emailAddr := changes.emailAddr.getD setting.emailAddr }

def updateDeviceNotificationSettings (deviceId : String) (changes : SettingsChanges)
    (tables : NotificationTables) : NotificationTables where
  metrics := tables.metrics
  settings := tables.settings.map fun setting =>
    if setting.uid = deviceId then changes.apply setting else setting
  notifications := tables.notifications
  consistent := tables.updateSettings_consistent fun setting => by split <;> rfl

def updateNotificationDeviceTimestamp (deviceId : String) (now : ℤ) (tables : NotificationTables) :
    NotificationTables where
  metrics := tables.metrics
  settings := tables.settings.map fun setting =>
    if setting.uid = deviceId then { setting with lastTimestamp := now } else setting
  notifications := tables.notifications
  consistent := tables.updateSettings_consistent fun setting => by split <;> rfl

/-- The settings of a new device; an hour and 0.99999 are the defaults. -/
def newSettings (deviceId emailAddr : String) (changes : SettingsChanges) (now : ℤ) :
    NotificationSettings where
  uid := deviceId
  windowsize := changes.windowsize.getD (60 * 60)
  sensitivity := changes.sensitivity.getD (99999 / 100000)
  emailAddr := emailAddr
  lastTimestamp := now

theorem addDevice_consistent (tables : NotificationTables) {setting : NotificationSettings}
    (h : setting.uid ∉ tables.settings.map NotificationSettings.uid) :
    Consistent tables.metrics (tables.settings ++ [setting]) tables.notifications := by
  refine ⟨?_, tables.consistent.uids, tables.consistent.keys, tables.consistent.metric_mem, ?_⟩
  · rw [List.map_append, List.map_singleton]
    exact List.nodup_append.mpr ⟨tables.consistent.devices, List.nodup_singleton _, fun a ha b hb =>
      fun heq => h (List.mem_singleton.mp hb ▸ heq ▸ ha)⟩
  · intro n hn
    rw [List.map_append]
    exact List.mem_append_left _ (tables.consistent.device_mem n hn)

/-- "PUT" of the settings of a device. The column of the address cannot be null, so that a new
device without one is refused. -/
def putSettings (deviceId : String) (changes : SettingsChanges) (now : ℤ) (tables : NotificationTables) :
    NotificationTables :=
  if h : deviceId ∈ tables.settings.map NotificationSettings.uid then
    tables.updateDeviceNotificationSettings deviceId changes
  else
    match changes.emailAddr with
    | none => tables
    | some emailAddr => { tables with
        settings := tables.settings ++ [newSettings deviceId emailAddr changes now]
        consistent := tables.addDevice_consistent h }

/-! ### Metrics -/

def addMetric (uid : String) (tables : NotificationTables) : NotificationTables where
  metrics := tables.metrics ++ [uid]
  settings := tables.settings
  notifications := tables.notifications
  consistent := tables.consistent.of_sublist tables.consistent.devices (.refl _)
    (fun n hn => List.mem_append_left _ (tables.consistent.metric_mem n hn)) tables.consistent.device_mem

/-- "DELETE" of a metric, which cascades to its notifications. -/
def deleteMetric (uid : String) (tables : NotificationTables) : NotificationTables where
  metrics := tables.metrics.filter (· ≠ uid)
  settings := tables.settings
  notifications := tables.notifications.filter fun n => n.metric ≠ uid
  consistent := tables.consistent.of_sublist tables.consistent.devices List.filter_sublist
    (fun n hn => List.mem_filter.mpr
      ⟨tables.consistent.metric_mem n (List.mem_of_mem_filter hn), (List.mem_filter.mp hn).2⟩)
    (fun n hn => tables.consistent.device_mem n (List.mem_of_mem_filter hn))

/-! ### Notifications -/

/-- An unseen notification of the device, for a metric of the same server, that the requested
window reaches from. -/
def blocks (serverOf : String → String) (server device : String) (windowsize timestamp : ℤ)
    (n : Notification) : Bool :=
  serverOf n.metric = server ∧ n.device = device ∧ n.seen = false ∧ timestamp < n.timestamp + windowsize

/-- The constraints that the new row is checked against; an `IntegrityError` if they fail. -/
def Insertable (n : Notification) (tables : NotificationTables) : Prop :=
  n.metric ∈ tables.metrics ∧ n.device ∈ tables.settings.map NotificationSettings.uid ∧
    n.uid ∉ tables.notifications.map Notification.uid ∧ n.key ∉ tables.notifications.map Notification.key

instance (n : Notification) (tables : NotificationTables) : Decidable (tables.Insertable n) :=
  inferInstanceAs (Decidable (_ ∧ _ ∧ _ ∧ _))

/-- The select and the insert are made under a lock of the table; whether a row was added. -/
def addNotification (serverOf : String → String) (server : String) (n : Notification)
    (tables : NotificationTables) : NotificationTables × Bool :=
  if tables.notifications.any (blocks serverOf server n.device n.windowsize n.timestamp) then
    (tables, false)
  else if h : tables.Insertable n then
    ({ tables with
        notifications := tables.notifications ++ [n]
        consistent := tables.consistent.append h.1 h.2.1 h.2.2.1 h.2.2.2 }, true)
  else (tables, false)

/-- "UPDATE" of notifications in a column that no constraint is about. -/
def updateNotifications (f : Notification → Notification) (huid : ∀ n, (f n).uid = n.uid)
    (hkey : ∀ n, (f n).key = n.key) (tables : NotificationTables) : NotificationTables where
  metrics := tables.metrics
  settings := tables.settings
  notifications := tables.notifications.map f
  consistent := tables.consistent.map_notifications f huid hkey

def batchAcknowledgeNotifications (notificationIds : List String) (tables : NotificationTables) :
    NotificationTables :=
  tables.updateNotifications
    (fun n => if n.uid ∈ notificationIds then { n with acknowledged := true } else n)
    (fun n => by split <;> rfl) (fun n => by split <;> rfl)

def batchSeeNotifications (notificationIds : List String) (tables : NotificationTables) :
    NotificationTables :=
  tables.updateNotifications (fun n => if n.uid ∈ notificationIds then { n with seen := true } else n)
    (fun n => by split <;> rfl) (fun n => by split <;> rfl)

def updateNotificationMessageId (notificationId messageId : String) (tables : NotificationTables) :
    NotificationTables :=
  tables.updateNotifications
    (fun n => if n.uid = notificationId then { n with sesMessageId := some messageId } else n)
    (fun n => by split <;> rfl) (fun n => by split <;> rfl)

/-- Deletes all notifications outside of the thirty-day window. -/
def clearOldNotifications (now : ℤ) (tables : NotificationTables) : NotificationTables where
  metrics := tables.metrics
  settings := tables.settings
  notifications := tables.notifications.filter fun n => now ≤ n.timestamp + 30 * secondsPerDay
  consistent := tables.consistent.of_sublist tables.consistent.devices List.filter_sublist
    (fun n hn => tables.consistent.metric_mem n (List.mem_of_mem_filter hn))
    (fun n hn => tables.consistent.device_mem n (List.mem_of_mem_filter hn))

def getNotification (notificationId : String) (tables : NotificationTables) : Option Notification :=
  tables.notifications.find? fun n => n.uid = notificationId

/-- Neither acknowledged nor seen, and of the last seven days by the local clock of the server;
the latest come first. -/
def getUnseenNotificationList (deviceId : String) (localNow : ℤ) (limit : Option ℕ)
    (tables : NotificationTables) : List Notification :=
  let rows := (tables.notifications.filter fun n => n.device = deviceId ∧ n.acknowledged = false ∧
    n.seen = false ∧ localNow - 7 * secondsPerDay < n.timestamp).mergeSort
      fun n n' => n'.timestamp ≤ n.timestamp
  match limit with
  | some limit => rows.take limit
  | none => rows

/-! ### What the statements do -/

variable {serverOf : String → String} {server : String} {n : Notification} {tables : NotificationTables}

theorem addNotification_cases (serverOf : String → String) (server : String) (n : Notification)
    (tables : NotificationTables) :
    ((∀ m ∈ tables.notifications, blocks serverOf server n.device n.windowsize n.timestamp m = false) ∧
        tables.Insertable n ∧ ∃ tables' : NotificationTables,
          tables.addNotification serverOf server n = (tables', true) ∧
            tables'.notifications = tables.notifications ++ [n]) ∨
      (((∃ m ∈ tables.notifications, blocks serverOf server n.device n.windowsize n.timestamp m = true) ∨
        ¬ tables.Insertable n) ∧ tables.addNotification serverOf server n = (tables, false)) := by
  rw [addNotification]
  split
  · next hany =>
    exact .inr ⟨.inl (List.any_eq_true.mp hany), rfl⟩
  · next hany =>
    have hnone : ∀ m ∈ tables.notifications,
        blocks serverOf server n.device n.windowsize n.timestamp m = false := by
      intro m hm
      apply Bool.eq_false_iff.mpr
      intro hblocks
      exact hany (List.any_eq_true.mpr ⟨m, hm, hblocks⟩)
    split
    · next hinsertable => exact .inl ⟨hnone, hinsertable, _, rfl, rfl⟩
    · next hinsertable => exact .inr ⟨.inr hinsertable, rfl⟩

end NotificationTables

end NumentaApps.Notifications
