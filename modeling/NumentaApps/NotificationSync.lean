import NumentaApps.NotificationThrottle

/-!
# Notifications on the device

The device downloads its notifications, stores and shows those of metrics that it knows, and
acknowledges what it went through. It may be stopped at any time, and requests and answers may be
lost.
-/
namespace NumentaApps.Notifications
open TransitionSystem

/-- A row of the notifications on the device; times are in milliseconds. -/
structure LocalNotification where
  localId : ℕ
  notificationId : String
  metricId : String
  timestamp : ℤ
  read : Bool
  deriving DecidableEq, Repr

/-- The table, with its counter of ids; the ids of the server are unique, "ON CONFLICT IGNORE". -/
structure LocalTable where
  rows : List LocalNotification
  nextId : ℕ
  unique : (rows.map LocalNotification.notificationId).Nodup

namespace LocalTable

theorem append_unique {rows : List LocalNotification} {row : LocalNotification}
    (h : (rows.map LocalNotification.notificationId).Nodup)
    (hrow : row.notificationId ∉ rows.map LocalNotification.notificationId) :
    ((rows ++ [row]).map LocalNotification.notificationId).Nodup := by
  rw [List.map_append, List.map_singleton]
  exact List.nodup_append.mpr ⟨h, List.nodup_singleton _, fun a ha b hb heq =>
    hrow (List.mem_singleton.mp hb ▸ heq ▸ ha)⟩

/-- The id of the new row, or none where the source returns -1: an error of the database, a
metric without a row, or a notification that is there already. -/
def addNotification (metrics : List String) (fails : Bool) (notificationId metricId : String)
    (timestamp : ℤ) (table : LocalTable) : LocalTable × Option ℕ :=
  if fails ∨ metricId ∉ metrics then (table, none)
  else if h : notificationId ∉ table.rows.map LocalNotification.notificationId then
    ({ rows := table.rows ++ [⟨table.nextId, notificationId, metricId, timestamp, false⟩]
       nextId := table.nextId + 1
       unique := append_unique table.unique h }, some table.nextId)
  else (table, none)

def markNotificationRead (localId : ℕ) (table : LocalTable) : LocalTable where
  rows := table.rows.map fun row => if row.localId = localId then { row with read := true } else row
  nextId := table.nextId
  unique := by
    rw [List.map_map]
    refine (List.map_congr_left fun row _ => ?_).symm ▸ table.unique
    simp only [Function.comp_apply]
    split <;> rfl

/-- "DELETE" of rows. -/
def delete (gone : LocalNotification → Bool) (table : LocalTable) : LocalTable where
  rows := table.rows.filter fun row => !gone row
  nextId := table.nextId
  unique := table.unique.sublist (List.filter_sublist.map _)

end LocalTable

/-- A call of `synchronizeNotifications`: what it received, what of it is still to go through, and
the ids to acknowledge. -/
structure SyncRun where
  enable : Bool
  received : List Notification
  pending : List Notification
  acknowledge : List String

/-- The device. The last fields say what has happened: the notifications shown singly, and the groups
that were shown; those stored, those of unknown metrics, those that could not be added, and those removed
again. -/
structure App where
  metrics : List String
  table : LocalTable
  sync : Option SyncRun
  shown : List String
  grouped : List (List String)
  stored : List String
  unknown : List String
  notAdded : List String
  removed : List String

namespace App

/-- Rows that a request deletes from the table. -/
def delete (gone : LocalNotification → Bool) (app : App) : App := { app with
  table := app.table.delete gone
  removed := app.removed ++ (app.table.rows.filter gone).map LocalNotification.notificationId }

/-- The row is added, and shown if notifications are enabled and not grouped. -/
def store (group enable fails : Bool) (n : Notification) (app : App) : App :=
  match app.table.addNotification app.metrics fails n.uid n.metric (1000 * n.timestamp) with
  | (table, some _) => { app with
      table := table
      stored := app.stored ++ [n.uid]
      shown := if enable ∧ ¬ group then app.shown ++ [n.uid] else app.shown }
  | (_, none) => { app with notAdded := app.notAdded ++ [n.uid] }

/-- One notification of the run. Without grouping, one of an unknown metric is left out. -/
def process (group fails : Bool) (sync : SyncRun) (n : Notification) (rest : List Notification)
    (app : App) : App :=
  if group then
    { app.store group sync.enable fails n with sync := some { sync with pending := rest } }
  else if n.metric ∈ app.metrics then
    { app.store group sync.enable fails n with
      sync := some { sync with
        pending := rest
        acknowledge := sync.acknowledge ++ [n.uid] } }
  else
    { app with
      unknown := app.unknown ++ [n.uid]
      sync := some { sync with
        pending := rest
        acknowledge := sync.acknowledge ++ [n.uid] } }

end App

/-- A server and a device. -/
structure Delivery where
  server : Server
  app : App

namespace Delivery

/-- The user, the services of the device, and the server. -/
inductive Action where
  | server (a : Server.Action)
  | download (enable : Bool) (localNow : ℤ)
  | process (fails : Bool)
  | acknowledge (arrives : Bool)
  | showGroup
  | stop
  | markRead (localId : ℕ)
  | delete (gone : LocalNotification → Bool)
  | learnMetric (uid : String)
  | forgetMetric (uid : String)

/-- Other devices acknowledge what they received. -/
def Foreign (deviceId : String) (created : List Notification) (a : Server.Action) : Prop :=
  ∀ c ∈ created, c.uid ∈ a.acknowledged → c.device ≠ deviceId

instance (deviceId : String) (created : List Notification) (a : Server.Action) :
    Decidable (Foreign deviceId created a) :=
  inferInstanceAs (Decidable (∀ c ∈ created, _ → _))

/-- The list is asked for, by which the server notes the time; a device without settings gets none.
Nothing is done with an empty list, or with one to be grouped when notifications are disabled. -/
def download (group : Bool) (deviceId : String) (enable : Bool) (localNow : ℤ) (d : Delivery) :
    Delivery :=
  let received := d.server.tables.getUnseenNotificationList deviceId localNow none
  { server := { d.server with
      tables := d.server.tables.updateNotificationDeviceTimestamp deviceId d.server.clock }
    app :=
      if deviceId ∉ d.server.tables.settings.map NotificationSettings.uid ∨ received = [] ∨
          (group ∧ ¬ enable) then d.app
      else { d.app with sync := some ⟨enable, received, received, []⟩ } }

/-- Without grouping the list ends with the acknowledgement; whether it arrives or not, the run is
over. -/
def act (facts : MetricFacts) (group : Bool) (deviceId : String) : Action → Delivery → Option Delivery
  | .server a, d =>
    if Foreign deviceId d.server.created a then
      (Server.act facts a d.server).map fun server => { d with server := server }
    else none
  | .download enable localNow, d =>
    if d.app.sync.isNone then some (d.download group deviceId enable localNow) else none
  | .process fails, d =>
    match d.app.sync with
    | some ⟨enable, received, n :: rest, ids⟩ =>
      some { d with app := d.app.process group fails ⟨enable, received, n :: rest, ids⟩ n rest }
    | _ => none
  | .acknowledge arrives, d =>
    match d.app.sync with
    | some ⟨_, _, [], ids⟩ =>
      if group then none
      else some {
        server := { d.server with
          tables := if arrives then d.server.tables.batchAcknowledgeNotifications ids
            else d.server.tables }
        app := { d.app with sync := none } }
    | _ => none
  | .showGroup, d =>
    match d.app.sync with
    | some ⟨_, received, [], _⟩ =>
      if group then some { d with
        app := { d.app with
          sync := none
          grouped := d.app.grouped ++ [received.map Notification.uid] } }
      else none
    | _ => none
  | .stop, d => some { d with app := { d.app with sync := none } }
  | .markRead localId, d =>
    some { d with app := { d.app with table := d.app.table.markNotificationRead localId } }
  | .delete gone, d => some { d with app := d.app.delete gone }
  | .learnMetric uid, d => some { d with app := { d.app with metrics := d.app.metrics ++ [uid] } }
  | .forgetMetric uid, d =>
    some { d with
      app := { d.app.delete fun row => row.metricId = uid with
        metrics := d.app.metrics.filter (· ≠ uid) } }

/-- Nothing has been notified, and the device has nothing, at first. -/
def system (facts : MetricFacts) (group : Bool) (deviceId : String) : System Delivery Action where
  init d := (Server.system facts).init d.server ∧ d.app.table.rows = [] ∧ d.app.sync = none ∧
    d.app.shown = [] ∧ d.app.stored = [] ∧ d.app.removed = []
  next := act facts group deviceId

/-! ### The server -/

variable {facts : MetricFacts} {group : Bool} {deviceId : String} {d e : Delivery}

/-- A notification of the device is among those created. -/
def IsCreated (deviceId : String) (created : List Notification) (id metric : String) (timestamp : ℤ) :
    Prop :=
  ∃ c ∈ created, c.uid = id ∧ c.device = deviceId ∧ c.metric = metric ∧ c.timestamp = timestamp

theorem IsCreated.mono {created created' : List Notification} {id metric : String} {timestamp : ℤ}
    (h : IsCreated deviceId created id metric timestamp) (hsub : ∀ c ∈ created, c ∈ created') :
    IsCreated deviceId created' id metric timestamp := by
  obtain ⟨c, hc, hsame⟩ := h
  exact ⟨c, hsub c hc, hsame⟩

/-- What is in the table of the server was created. -/
def Recorded (server : Server) : Prop :=
  ∀ n ∈ server.tables.notifications, IsCreated n.device server.created n.uid n.metric n.timestamp

theorem server_act_created {s t : Server} {a : Server.Action} (ha : Server.act facts a s = some t) :
    ∀ c ∈ s.created, c ∈ t.created := by
  rcases Server.act_cases ha with ⟨_, hcreated, _⟩ | ⟨n, hcreates⟩
  · exact fun c hc => hcreated ▸ hc
  · exact fun c hc => hcreates.created ▸ List.mem_append_left _ hc

theorem Recorded.act {s t : Server} {a : Server.Action} (h : Recorded s)
    (ha : Server.act facts a s = some t) : Recorded t := by
  intro m hm
  rcases Server.act_cases ha with ⟨hleaves, _⟩ | ⟨n, hcreates⟩
  · obtain ⟨n, hn, halters⟩ := hleaves.of_mem hm
    rw [halters.uid, halters.timestamp, halters.metric.1, halters.metric.2.2]
    exact (h n hn).mono (server_act_created ha)
  · rw [hcreates.notifications] at hm
    rcases List.mem_append.mp hm with hm | hm
    · exact (h m hm).mono (server_act_created ha)
    · rw [List.mem_singleton.mp hm]
      exact ⟨n, hcreates.created ▸ List.mem_append_right _ List.mem_cons_self, rfl, rfl, rfl, rfl⟩

/-- What is acknowledged was so before, or a step acknowledges it. -/
theorem acknowledged_before {s t : Server} {a : Server.Action} (ha : Server.act facts a s = some t)
    {m : Notification} (hm : m ∈ t.tables.notifications) (hack : m.acknowledged = true) :
    ∃ n ∈ s.tables.notifications, n.uid = m.uid ∧ n.device = m.device ∧
      (n.acknowledged = true ∨ n.uid ∈ a.acknowledged) := by
  rcases Server.act_cases ha with ⟨hleaves, _⟩ | ⟨n, hcreates⟩
  · obtain ⟨n, hn, halters⟩ := hleaves.of_mem hm
    exact ⟨n, hn, halters.uid.symm, halters.metric.2.2.symm, halters.acknowledges hack⟩
  · rw [hcreates.notifications] at hm
    rcases List.mem_append.mp hm with hm | hm
    · exact ⟨m, hm, rfl, rfl, .inl hack⟩
    · obtain ⟨_, _, _, _, _, _, _, rfl, _⟩ := hcreates.handler
      rw [List.mem_singleton.mp hm] at hack
      cases hack

/-- What was acknowledged stays so, and the ids of new notifications are other ones. -/
theorem acknowledged_after {s t : Server} {a : Server.Action} (ha : Server.act facts a s = some t)
    {ids : List String} (hids : ∀ id ∈ ids, id ∈ s.created.map Notification.uid)
    (hack : ∀ n ∈ s.tables.notifications, n.uid ∈ ids → n.acknowledged = true) :
    ∀ m ∈ t.tables.notifications, m.uid ∈ ids → m.acknowledged = true := by
  intro m hm hid
  rcases Server.act_cases ha with ⟨hleaves, _⟩ | ⟨n, hcreates⟩
  · obtain ⟨n, hn, halters⟩ := hleaves.of_mem hm
    exact halters.acknowledged (hack n hn (halters.uid ▸ hid))
  · rw [hcreates.notifications] at hm
    rcases List.mem_append.mp hm with hm | hm
    · exact hack m hm hid
    · rw [List.mem_singleton.mp hm] at hid
      exact absurd (hids _ hid) hcreates.fresh

theorem mem_getUnseenNotificationList {tables : NotificationTables} {localNow : ℤ} {limit : Option ℕ}
    {n : Notification} (h : n ∈ tables.getUnseenNotificationList deviceId localNow limit) :
    n ∈ tables.notifications ∧ n.device = deviceId ∧ n.acknowledged = false := by
  have hrows : n ∈ (tables.notifications.filter fun n => n.device = deviceId ∧ n.acknowledged = false ∧
      n.seen = false ∧ localNow - 7 * NotificationTables.secondsPerDay < n.timestamp).mergeSort
        fun n n' => n'.timestamp ≤ n.timestamp := by
    cases limit with
    | none => exact h
    | some limit => exact List.mem_of_mem_take h
  obtain ⟨hmem, hwanted⟩ := List.mem_filter.mp (List.mem_mergeSort.mp hrows)
  have hdevice := of_decide_eq_true hwanted
  exact ⟨hmem, hdevice.1, hdevice.2.1⟩

/-! ### The device -/

/-- What became of a notification that the device went through. -/
def Handled (app : App) (id : String) : Prop := id ∈ app.stored ∨ id ∈ app.unknown ∨ id ∈ app.notAdded

/-- What the device has was created for it; each notification stored is there or was removed again,
and was shown as often as it was stored, if at all. -/
structure Holds (deviceId : String) (created : List Notification) (app : App) : Prop where
  rows : ∀ row ∈ app.table.rows, ∃ time, row.timestamp = 1000 * time ∧
    IsCreated deviceId created row.notificationId row.metricId time
  counts : ∀ id, app.stored.count id =
    app.removed.count id + (app.table.rows.map LocalNotification.notificationId).count id
  shown : ∀ id, app.shown.count id ≤ app.stored.count id

theorem Holds.mono {created created' : List Notification} {app : App}
    (h : Holds deviceId created app) (hsub : ∀ c ∈ created, c ∈ created') :
    Holds deviceId created' app := by
  refine ⟨fun row hrow => ?_, h.counts, h.shown⟩
  obtain ⟨time, htime, hcreated⟩ := h.rows row hrow
  exact ⟨time, htime, hcreated.mono hsub⟩

theorem count_filter_add (gone : LocalNotification → Bool) (rows : List LocalNotification)
    (id : String) :
    ((rows.filter gone).map LocalNotification.notificationId).count id +
      ((rows.filter fun row => !gone row).map LocalNotification.notificationId).count id =
        (rows.map LocalNotification.notificationId).count id := by
  induction rows with
  | nil => rfl
  | cons row rows ih =>
    cases hgone : gone row <;> simp only [List.filter_cons, hgone, List.map_cons, List.count_cons,
      Bool.not_true, Bool.not_false, if_true, Bool.false_eq_true, if_false] <;> omega

theorem Holds.delete {created : List Notification} {app : App} (h : Holds deviceId created app)
    (gone : LocalNotification → Bool) : Holds deviceId created (app.delete gone) := by
  refine ⟨fun row hrow => h.rows row (List.mem_of_mem_filter hrow), fun id => ?_, h.shown⟩
  have hcount := h.counts id
  have hsplit := count_filter_add gone app.table.rows id
  simp only [App.delete, LocalTable.delete, List.count_append]
  omega

theorem Holds.markRead {created : List Notification} {app : App} (h : Holds deviceId created app)
    (localId : ℕ) :
    Holds deviceId created { app with table := app.table.markNotificationRead localId } := by
  have hids : (app.table.markNotificationRead localId).rows.map LocalNotification.notificationId =
      app.table.rows.map LocalNotification.notificationId := by
    simp only [LocalTable.markNotificationRead, List.map_map]
    apply List.map_congr_left
    intro row _
    simp only [Function.comp_apply]
    split <;> rfl
  refine ⟨fun row hrow => ?_, fun id => ?_, h.shown⟩
  · obtain ⟨old, hold, rfl⟩ := List.mem_map.mp hrow
    obtain ⟨time, htime, hcreated⟩ := h.rows old hold
    refine ⟨time, ?_⟩
    split
    · exact ⟨htime, hcreated⟩
    · exact ⟨htime, hcreated⟩
  · simp only [hids]
    exact h.counts id

theorem addNotification_cases (metrics : List String) (fails : Bool) (id metric : String)
    (timestamp : ℤ) (table : LocalTable) :
    (∃ table' localId, table.addNotification metrics fails id metric timestamp = (table', some localId) ∧
        table'.rows = table.rows ++ [⟨localId, id, metric, timestamp, false⟩]) ∨
      table.addNotification metrics fails id metric timestamp = (table, none) := by
  rw [LocalTable.addNotification]
  split
  · exact .inr rfl
  · split
    · exact .inl ⟨_, _, rfl, rfl⟩
    · exact .inr rfl

/-- The notification is stored, or could not be added. -/
theorem store_spec {created : List Notification} {app : App} {enable fails : Bool} {n : Notification}
    (h : Holds deviceId created app) (hn : IsCreated deviceId created n.uid n.metric n.timestamp) :
    Holds deviceId created (app.store group enable fails n) ∧
      Handled (app.store group enable fails n) n.uid ∧
      ∀ id, Handled app id → Handled (app.store group enable fails n) id := by
  rw [App.store]
  rcases addNotification_cases app.metrics fails n.uid n.metric (1000 * n.timestamp) app.table with
    ⟨table, localId, heq, hrows⟩ | heq
  · rw [heq]
    refine ⟨⟨?_, ?_, ?_⟩, .inl (List.mem_append_right _ List.mem_cons_self), ?_⟩
    · intro row hrow
      simp only [hrows, List.mem_append, List.mem_singleton] at hrow
      rcases hrow with hrow | rfl
      · exact h.rows row hrow
      · exact ⟨n.timestamp, rfl, hn⟩
    · intro id
      have hcount := h.counts id
      simp only [hrows, List.map_append, List.map_singleton, List.count_append]
      omega
    · intro id
      have hshown := h.shown id
      simp only [List.count_append]
      split
      · rw [List.count_append]
        omega
      · omega
    · intro id hid
      rcases hid with hid | hid
      · exact .inl (List.mem_append_left _ hid)
      · exact .inr hid
  · rw [heq]
    refine ⟨⟨h.rows, h.counts, h.shown⟩, .inr (.inr (List.mem_append_right _ List.mem_cons_self)), ?_⟩
    intro id hid
    rcases hid with hid | hid | hid
    · exact .inl hid
    · exact .inr (.inl hid)
    · exact .inr (.inr (List.mem_append_left _ hid))

/-- A run goes through what it received, which was created for the device. -/
structure Follows (group : Bool) (deviceId : String) (created : List Notification) (app : App)
    (sync : SyncRun) : Prop where
  received : ∀ n ∈ sync.received, IsCreated deviceId created n.uid n.metric n.timestamp
  pending : ∀ n ∈ sync.pending, n ∈ sync.received
  parts : group = false → sync.received.map Notification.uid =
    sync.acknowledge ++ sync.pending.map Notification.uid
  handled : ∀ id ∈ sync.acknowledge, Handled app id

theorem Follows.mono {created created' : List Notification} {app app' : App} {sync : SyncRun}
    (h : Follows group deviceId created app sync) (hsub : ∀ c ∈ created, c ∈ created')
    (happ : ∀ id, Handled app id → Handled app' id) : Follows group deviceId created' app' sync :=
  ⟨fun n hn => (h.received n hn).mono hsub, h.pending, h.parts, fun id hid => happ id (h.handled id hid)⟩

theorem process_spec {created : List Notification} {app : App} {fails : Bool} {sync : SyncRun}
    {n : Notification} {rest : List Notification} (h : Holds deviceId created app)
    (hsync : Follows group deviceId created app sync) (hpending : sync.pending = n :: rest) :
    Holds deviceId created (app.process group fails sync n rest) ∧
      (∀ id, Handled app id → Handled (app.process group fails sync n rest) id) ∧
      ∀ sync' ∈ (app.process group fails sync n rest).sync,
        Follows group deviceId created (app.process group fails sync n rest) sync' := by
  have hn : n ∈ sync.received := hsync.pending n (hpending ▸ List.mem_cons_self)
  have hrest : ∀ m ∈ rest, m ∈ sync.received :=
    fun m hm => hsync.pending m (hpending ▸ List.mem_cons_of_mem _ hm)
  have hparts : group = false → sync.received.map Notification.uid =
      (sync.acknowledge ++ [n.uid]) ++ rest.map Notification.uid := by
    intro hgroup
    rw [hsync.parts hgroup, hpending, List.map_cons, List.append_assoc, List.singleton_append]
  have hstore := @store_spec group deviceId created app sync.enable fails n h (hsync.received n hn)
  obtain ⟨hholds, hnew, hhandled⟩ := hstore
  rw [App.process]
  split
  · next hgroup =>
    refine ⟨⟨hholds.rows, hholds.counts, hholds.shown⟩, hhandled, fun sync' hsync' => ?_⟩
    cases hsync'
    refine ⟨hsync.received, hrest, fun hnot => ?_, fun id hid => hhandled id (hsync.handled id hid)⟩
    rw [hgroup] at hnot
    cases hnot
  · split
    · refine ⟨⟨hholds.rows, hholds.counts, hholds.shown⟩, hhandled, fun sync' hsync' => ?_⟩
      cases hsync'
      refine ⟨hsync.received, hrest, hparts, fun id hid => ?_⟩
      rcases List.mem_append.mp hid with hid | hid
      · exact hhandled id (hsync.handled id hid)
      · rw [List.mem_singleton.mp hid]
        exact hnew
    · have hunknown : ∀ id, Handled app id →
          Handled { app with unknown := app.unknown ++ [n.uid] } id := by
        intro id hid
        rcases hid with hid | hid | hid
        · exact .inl hid
        · exact .inr (.inl (List.mem_append_left _ hid))
        · exact .inr (.inr hid)
      refine ⟨⟨h.rows, h.counts, h.shown⟩, hunknown, fun sync' hsync' => ?_⟩
      cases hsync'
      refine ⟨hsync.received, hrest, hparts, fun id hid => ?_⟩
      rcases List.mem_append.mp hid with hid | hid
      · exact hunknown id (hsync.handled id hid)
      · rw [List.mem_singleton.mp hid]
        exact .inr (.inl (List.mem_append_right _ List.mem_cons_self))

/-! ### Runs -/

/-- What the server takes as acknowledged by the device was gone through there. -/
structure Inv (group : Bool) (deviceId : String) (d : Delivery) : Prop where
  recorded : Recorded d.server
  acknowledged : ∀ n ∈ d.server.tables.notifications, n.device = deviceId → n.acknowledged = true →
    group = false ∧ Handled d.app n.uid
  holds : Holds deviceId d.server.created d.app
  sync : ∀ sync ∈ d.app.sync, Follows group deviceId d.server.created d.app sync

/-- Steps of the device that leave the server. -/
theorem Inv.of_app (h : Inv group deviceId d) {app : App} (hholds : Holds deviceId d.server.created app)
    (hhandled : ∀ id, Handled d.app id → Handled app id)
    (hsync : ∀ sync ∈ app.sync, Follows group deviceId d.server.created app sync) :
    Inv group deviceId { d with app := app } :=
  ⟨h.recorded, fun n hn hdevice hack => ⟨(h.acknowledged n hn hdevice hack).1,
    hhandled _ (h.acknowledged n hn hdevice hack).2⟩, hholds, hsync⟩

theorem Inv.server (h : Inv group deviceId d) {a : Server.Action} {t : Server}
    (hforeign : Foreign deviceId d.server.created a) (ha : Server.act facts a d.server = some t) :
    Inv group deviceId { d with server := t } := by
  have hsub := server_act_created ha
  refine ⟨h.recorded.act ha, fun m hm hdevice hack => ?_, h.holds.mono hsub,
    fun sync hsync => (h.sync sync hsync).mono hsub fun _ hid => hid⟩
  obtain ⟨n, hn, huid, hsame, hbefore | hids⟩ := acknowledged_before ha hm hack
  · rw [← huid]
    exact h.acknowledged n hn (hsame.trans hdevice) hbefore
  · obtain ⟨c, hc, hcid, hcdevice, _⟩ := h.recorded n hn
    exact absurd (hcdevice.trans (hsame.trans hdevice)) (hforeign c hc (hcid ▸ hids))

theorem Inv.download (h : Inv group deviceId d) (enable : Bool) (localNow : ℤ) :
    Inv group deviceId (d.download group deviceId enable localNow) := by
  rw [Delivery.download]
  split
  · exact ⟨h.recorded, h.acknowledged, h.holds, h.sync⟩
  · refine ⟨h.recorded, h.acknowledged, ⟨h.holds.rows, h.holds.counts, h.holds.shown⟩, fun sync hsync => ?_⟩
    cases hsync
    refine ⟨fun n hn => ?_, fun n hn => hn, fun _ => rfl, fun id hid => absurd hid List.not_mem_nil⟩
    have hlisted : n ∈ d.server.tables.getUnseenNotificationList deviceId localNow none := hn
    obtain ⟨hmem, hdevice, _⟩ := mem_getUnseenNotificationList hlisted
    exact hdevice ▸ h.recorded n hmem

theorem Inv.acknowledge (h : Inv group deviceId d) {enable : Bool} {received : List Notification}
    {ids : List String} (hsync : d.app.sync = some ⟨enable, received, [], ids⟩) (hgroup : group = false)
    (arrives : Bool) :
    Inv group deviceId {
      server := { d.server with
        tables := if arrives then d.server.tables.batchAcknowledgeNotifications ids else d.server.tables }
      app := { d.app with sync := none } } := by
  have hfollows := h.sync _ hsync
  have hnone : ∀ sync ∈ (none : Option SyncRun),
      Follows group deviceId d.server.created { d.app with sync := none } sync :=
    fun _ hnot => by cases hnot
  have hholds : Holds deviceId d.server.created { d.app with sync := none } :=
    ⟨h.holds.rows, h.holds.counts, h.holds.shown⟩
  cases arrives with
  | false => exact ⟨h.recorded, h.acknowledged, hholds, hnone⟩
  | true =>
    refine ⟨fun m hm => ?_, fun m hm hdevice hack => ⟨hgroup, ?_⟩, hholds, hnone⟩
    · obtain ⟨n, hn, rfl⟩ := List.mem_map.mp hm
      have halters := NotificationTables.acknowledge_alters ids n
      rw [halters.uid, halters.timestamp, halters.metric.1, halters.metric.2.2]
      exact h.recorded n hn
    · obtain ⟨n, hn, rfl⟩ := List.mem_map.mp hm
      have halters := NotificationTables.acknowledge_alters ids n
      rw [halters.metric.2.2] at hdevice
      rw [halters.uid]
      rcases halters.acknowledges hack with hbefore | hid
      · exact (h.acknowledged n hn hdevice hbefore).2
      · exact hfollows.handled _ hid

theorem Inv.act (h : Inv group deviceId d) {a : Action} (ha : act facts group deviceId a d = some e) :
    Inv group deviceId e := by
  have hstopped : ∀ app : App, app.sync = none → ∀ sync ∈ app.sync,
      Follows group deviceId d.server.created app sync := by
    intro app hnone sync hsync
    rw [hnone] at hsync
    cases hsync
  cases a with
  | server a =>
    rw [Delivery.act] at ha
    split at ha
    · next hforeign =>
      obtain ⟨t, ht, rfl⟩ := Option.map_eq_some_iff.mp ha
      exact h.server hforeign ht
    · cases ha
  | download enable localNow =>
    rw [Delivery.act] at ha
    split at ha
    · cases ha
      exact h.download enable localNow
    · cases ha
  | process fails =>
    rw [Delivery.act] at ha
    split at ha
    · next enable received n rest ids hsync =>
      cases ha
      obtain ⟨hholds, hhandled, hfollows⟩ :=
        @process_spec group deviceId _ _ fails _ n rest h.holds (h.sync _ hsync) rfl
      exact h.of_app hholds hhandled hfollows
    · cases ha
  | acknowledge arrives =>
    rw [Delivery.act] at ha
    split at ha
    · next enable received ids hsync =>
      split at ha
      · cases ha
      · next hgroup =>
        cases ha
        exact h.acknowledge hsync (Bool.eq_false_iff.mpr hgroup) arrives
    · cases ha
  | showGroup =>
    rw [Delivery.act] at ha
    split at ha
    · split at ha
      · cases ha
        exact h.of_app ⟨h.holds.rows, h.holds.counts, h.holds.shown⟩ (fun _ hid => hid) (hstopped _ rfl)
      · cases ha
    · cases ha
  | stop =>
    cases ha
    exact h.of_app ⟨h.holds.rows, h.holds.counts, h.holds.shown⟩ (fun _ hid => hid) (hstopped _ rfl)
  | markRead localId =>
    cases ha
    exact h.of_app (h.holds.markRead localId) (fun _ hid => hid)
      fun sync hsync => (h.sync sync hsync).mono (fun _ hc => hc) fun _ hid => hid
  | delete gone =>
    cases ha
    exact h.of_app (h.holds.delete gone) (fun _ hid => hid)
      fun sync hsync => (h.sync sync hsync).mono (fun _ hc => hc) fun _ hid => hid
  | learnMetric uid =>
    cases ha
    exact h.of_app ⟨h.holds.rows, h.holds.counts, h.holds.shown⟩ (fun _ hid => hid)
      fun sync hsync => (h.sync sync hsync).mono (fun _ hc => hc) fun _ hid => hid
  | forgetMetric uid =>
    cases ha
    have hdelete := h.holds.delete fun row => row.metricId = uid
    exact h.of_app ⟨hdelete.rows, hdelete.counts, hdelete.shown⟩ (fun _ hid => hid)
      fun sync hsync => (h.sync sync hsync).mono (fun _ hc => hc) fun _ hid => hid

theorem system_inv (h : Reachable (system facts group deviceId) d) : Inv group deviceId d := by
  apply h.invariant
  · intro d ⟨⟨hnots, _⟩, hrows, hsync, hshown, hstored, hremoved⟩
    refine ⟨?_, ?_, ⟨?_, ?_, ?_⟩, ?_⟩
    · rw [Recorded, hnots]
      exact fun _ hn => absurd hn List.not_mem_nil
    · rw [hnots]
      exact fun _ hn => absurd hn List.not_mem_nil
    · rw [hrows]
      exact fun _ hrow => absurd hrow List.not_mem_nil
    · intro id
      rw [hstored, hremoved, hrows]
      rfl
    · intro id
      rw [hshown]
      exact Nat.zero_le _
    · rw [hsync]
      exact fun _ hnot => by cases hnot
  · exact fun a d e _ hI ha => hI.act ha

/-- The notifications are acknowledged, and their ids are not given away again. -/
def Settled (ids : List String) (d : Delivery) : Prop :=
  (∀ id ∈ ids, id ∈ d.server.created.map Notification.uid) ∧
    ∀ n ∈ d.server.tables.notifications, n.uid ∈ ids → n.acknowledged = true

theorem Settled.act {ids : List String} (h : Settled ids d) {a : Action}
    (ha : act facts group deviceId a d = some e) : Settled ids e := by
  cases a with
  | server a =>
    rw [Delivery.act] at ha
    split at ha
    · obtain ⟨t, ht, rfl⟩ := Option.map_eq_some_iff.mp ha
      refine ⟨fun id hid => ?_, acknowledged_after ht h.1 h.2⟩
      obtain ⟨c, hc, hcid⟩ := List.mem_map.mp (h.1 id hid)
      exact List.mem_map.mpr ⟨c, server_act_created ht c hc, hcid⟩
    · cases ha
  | download enable localNow =>
    rw [Delivery.act] at ha
    split at ha
    · cases ha
      exact h
    · cases ha
  | acknowledge arrives =>
    rw [Delivery.act] at ha
    split at ha
    · next enable received ids' _ =>
      split at ha
      · cases ha
      · cases ha
        refine ⟨h.1, ?_⟩
        cases arrives with
        | false => exact h.2
        | true =>
          intro m hm hid
          obtain ⟨n, hn, rfl⟩ := List.mem_map.mp hm
          have halters := NotificationTables.acknowledge_alters ids' n
          exact halters.acknowledged (h.2 n hn (halters.uid ▸ hid))
    · cases ha
  | process fails =>
    rw [Delivery.act] at ha
    split at ha
    · cases ha
      exact h
    · cases ha
  | showGroup =>
    rw [Delivery.act] at ha
    split at ha
    · split at ha
      · cases ha
        exact h
      · cases ha
    · cases ha
  | stop | markRead _ | delete _ | learnMetric _ | forgetMetric _ =>
    cases ha
    exact h

/-- An acknowledgement that arrives is for all that the run received. -/
theorem settled_of_acknowledge (h : Inv group deviceId d) {sync : SyncRun}
    (hsync : d.app.sync = some sync)
    (ha : act facts group deviceId (.acknowledge true) d = some e) :
    Settled (sync.received.map Notification.uid) e := by
  have hfollows := h.sync sync hsync
  rw [Delivery.act] at ha
  split at ha
  · next enable received ids heq =>
    split at ha
    · cases ha
    · next hgroup =>
      cases ha
      obtain rfl := Option.some.inj (hsync.symm.trans heq)
      have hparts : received.map Notification.uid = ids := by
        simpa using hfollows.parts (Bool.eq_false_iff.mpr hgroup)
      constructor
      · intro id hid
        obtain ⟨n, hn, rfl⟩ := List.mem_map.mp hid
        obtain ⟨c, hc, hcid, _⟩ := hfollows.received n hn
        exact List.mem_map.mpr ⟨c, hc, hcid⟩
      · intro m hm hid
        obtain ⟨n, hn, rfl⟩ := List.mem_map.mp hm
        have huid := (NotificationTables.acknowledge_alters ids n).uid
        rw [huid, hparts] at hid
        rw [if_pos hid]
  · cases ha

/-- In every run of the server and the device: what the server takes as acknowledged was stored on
the device, or is of a metric that was unknown there, or could not be added; what is stored was
created for the device and is there unless it was removed; nothing is shown singly more often than
it was removed and once more; and what a run received is not received again once its acknowledgement
arrived. -/
theorem notifications_delivered {tr : List (Delivery × Action)}
    (h : Run (system facts group deviceId) tr d) :
    (∀ n ∈ d.server.tables.notifications, n.device = deviceId → n.acknowledged = true →
      group = false ∧ Handled d.app n.uid) ∧
    (∀ row ∈ d.app.table.rows, ∃ time, row.timestamp = 1000 * time ∧
      IsCreated deviceId d.server.created row.notificationId row.metricId time) ∧
    (∀ id ∈ d.app.stored, id ∈ d.app.table.rows.map LocalNotification.notificationId ∨
      id ∈ d.app.removed) ∧
    (∀ id, d.app.shown.count id ≤ d.app.removed.count id + 1) ∧
    ∀ p ∈ tr, p.2 = .acknowledge true → ∀ sync, p.1.app.sync = some sync → ∀ localNow limit,
      ∀ n ∈ d.server.tables.getUnseenNotificationList deviceId localNow limit,
        n.uid ∉ sync.received.map Notification.uid := by
  have hinv := system_inv h.reachable
  refine ⟨hinv.acknowledged, hinv.holds.rows, fun id hid => ?_, fun id => ?_, ?_⟩
  · have hcount := hinv.holds.counts id
    have hpos := List.count_pos_iff.mpr hid
    by_cases hremoved : id ∈ d.app.removed
    · exact .inr hremoved
    · have hzero := List.count_eq_zero.mpr hremoved
      exact .inl (List.count_pos_iff.mp (by omega))
  · have hcount := hinv.holds.counts id
    have hshown := hinv.holds.shown id
    have hunique := List.nodup_iff_count_le_one.mp d.app.table.unique id
    omega
  · intro p hp hack sync hsync localNow limit n hn hid
    have hsettled : Settled (sync.received.map Notification.uid) d := by
      apply h.of_mem hp
      · intro t hreachable ht
        rw [hack] at ht
        exact @settled_of_acknowledge facts _ _ _ _ (system_inv hreachable) _ hsync ht
      · exact fun a s t hs ht => hs.act ht
    obtain ⟨hmem, _, hnot⟩ := mem_getUnseenNotificationList hn
    rw [hsettled.2 n hmem hid] at hnot
    cases hnot

/-- A device that knows the metric. -/
def exampleApp : App where
  metrics := ["cpu"]
  table := ⟨[], 1, List.nodup_nil⟩
  sync := none
  shown := []
  grouped := []
  stored := []
  unknown := []
  notAdded := []
  removed := []

/-- The acknowledgement is lost at first. -/
def deliveredActions : List Action :=
  Server.exampleActions.map .server ++ [.download true 600900, .process false, .acknowledge false,
    .download true 600900, .process false, .acknowledge true]

/-- The notification is stored and shown once. -/
theorem notifications_delivered_once : ∃ tr d, Run (system Server.exampleFacts false "phone") tr d ∧
    (d.app.shown = ["a"] ∧ d.app.stored = ["a"]) ∧
    (∀ n ∈ d.server.tables.notifications, n.device = "phone" → n.acknowledged = true →
      false = false ∧ Handled d.app n.uid) ∧
    (∀ row ∈ d.app.table.rows, ∃ time, row.timestamp = 1000 * time ∧
      IsCreated "phone" d.server.created row.notificationId row.metricId time) ∧
    (∀ id ∈ d.app.stored, id ∈ d.app.table.rows.map LocalNotification.notificationId ∨
      id ∈ d.app.removed) ∧
    (∀ id, d.app.shown.count id ≤ d.app.removed.count id + 1) ∧
    ∀ p ∈ tr, p.2 = .acknowledge true → ∀ sync, p.1.app.sync = some sync → ∀ localNow limit,
      ∀ n ∈ d.server.tables.getUnseenNotificationList "phone" localNow limit,
        n.uid ∉ sync.received.map Notification.uid := by
  have hshown : ((system Server.exampleFacts false "phone").exec deliveredActions
      ⟨Server.exampleServer, exampleApp⟩).map (fun d => (d.app.shown, d.app.stored)) =
        some (["a"], ["a"]) := by decide +kernel
  obtain ⟨d, hexec, hone⟩ := Option.map_eq_some_iff.mp hshown
  have hinit : (system Server.exampleFacts false "phone").init ⟨Server.exampleServer, exampleApp⟩ :=
    ⟨⟨rfl, rfl, rfl, rfl⟩, rfl, rfl, rfl, rfl, rfl⟩
  have hrun := (Run.init hinit).exec_trace hexec
  exact ⟨_, d, hrun, Prod.mk.inj hone, notifications_delivered hrun⟩

end Delivery

end NumentaApps.Notifications
