import NumentaApps.NotificationThrottle
import NumentaApps.OpenTransactions

/-!
# Redelivered batches

A batch may be delivered again when a service went down before it acknowledged it. Old rows are
passed over before old notifications are cleared, so that one service at a time creates a
notification for a row and a device once, and mails it once.
-/
namespace NumentaApps.Notifications
open TransitionSystem

namespace Server

variable {facts : MetricFacts} {s t : Server} {a : Action}

/-! ### What clearing and old rows have to do with each other -/

/-- The notifications created for the row of a metric and a device are in the table. -/
def Present (s : Server) (key : String × ℤ × String) : Prop :=
  ∀ c ∈ s.created, c.key = key → ∃ n ∈ s.tables.notifications, n.key = key

/-- A handler that is about to look its row up in the table would find it there. -/
def Handler.Aware (s : Server) (handler : Handler) : Prop :=
  ∀ message work rest, handler = ⟨message, work :: rest, .add⟩ →
    s.Present (message.uid, work.row.rowid, work.setting.uid)

/-- The times are those of the rows; what was created is in the table or out of the thirty-day
window; and no two notifications were created for a row and a device. -/
structure Inv (facts : MetricFacts) (s : Server) : Prop where
  sound : ∀ handler ∈ s.handlers, Sound facts handler
  alone : s.handlers.length ≤ 1
  times : ∀ n ∈ s.tables.notifications, n.timestamp = facts.timestamp n.metric n.rowid
  created_times : ∀ c ∈ s.created, c.timestamp = facts.timestamp c.metric c.rowid
  kept : ∀ c ∈ s.created, (∃ n ∈ s.tables.notifications, n.key = c.key) ∨
    c.timestamp + 30 * NotificationTables.secondsPerDay < s.clock
  aware : ∀ handler ∈ s.handlers, Handler.Aware s handler
  once : (s.created.map Notification.key).Nodup

/-- A service is started when the last one is down, and no metric or device is removed. -/
def Undisturbed (s : Server) (a : Action) : Prop :=
  match a with
  | .start _ => s.handlers = []
  | .examine _ => ∀ setting ∈ s.tables.settings,
      NotificationTables.isStale s.clock notificationDeviceStaleDays setting = false
  | .deleteMetric _ => False
  | _ => True

theorem times_eq_of_key {n c : Notification} (hn : n.timestamp = facts.timestamp n.metric n.rowid)
    (hc : c.timestamp = facts.timestamp c.metric c.rowid) (hkey : n.key = c.key) :
    n.timestamp = c.timestamp := by
  simp only [Notification.key, Prod.mk.injEq] at hkey
  rw [hn, hc, hkey.1, hkey.2.1]

/-- A row that is not old has not been cleared. -/
theorem Inv.present_of_recent (h : s.Inv facts) {message : Message} {work : Work}
    (hmessage : message.OfMetric facts) (hrow : work.row ∈ message.results)
    (hrecent : s.clock - 3600 ≤ work.row.ts) :
    s.Present (message.uid, work.row.rowid, work.setting.uid) := by
  intro c hc hkey
  rcases h.kept c hc with ⟨n, hn, hsame⟩ | hold
  · exact ⟨n, hn, hsame.trans hkey⟩
  · have htime := h.created_times c hc
    simp only [Notification.key, Prod.mk.injEq] at hkey
    rw [hkey.1, hkey.2.1, ← hmessage work.row hrow] at htime
    simp only [NotificationTables.secondsPerDay] at hold
    omega

/-- Steps that leave the keys of the table as they are, and the handlers or a part of them. -/
theorem Inv.of_same_keys {l : List String} (h : s.Inv facts)
    (hsound : ∀ handler ∈ t.handlers, Sound facts handler) (halone : t.handlers.length ≤ 1)
    (hleaves : Leaves l s.tables.notifications t.tables.notifications)
    (hkeys : t.tables.notifications.map Notification.key = s.tables.notifications.map Notification.key)
    (hcreated : t.created = s.created) (hclock : s.clock ≤ t.clock)
    (haware : ∀ handler ∈ t.handlers, handler ∈ s.handlers ∨ Handler.Aware s handler) : t.Inv facts := by
  have hmem : ∀ key, (∃ n ∈ s.tables.notifications, n.key = key) →
      ∃ n ∈ t.tables.notifications, n.key = key := by
    intro key ⟨n, hn, hkey⟩
    have hmapped : key ∈ t.tables.notifications.map Notification.key := by
      rw [hkeys]
      exact List.mem_map.mpr ⟨n, hn, hkey⟩
    exact List.mem_map.mp hmapped
  refine ⟨hsound, halone, ?_, hcreated ▸ h.created_times, ?_, ?_, hcreated ▸ h.once⟩
  · intro m hm
    obtain ⟨n, hn, halters⟩ := hleaves.of_mem hm
    rw [halters.timestamp, halters.metric.1, halters.metric.2.1]
    exact h.times n hn
  · intro c hc
    rw [hcreated] at hc
    rcases h.kept c hc with hpresent | hold
    · exact .inl (hmem _ hpresent)
    · exact .inr (by omega)
  · intro handler hhandler message work rest heq c hc hkey
    rw [hcreated] at hc
    have hold : Handler.Aware s handler := by
      rcases haware handler hhandler with hmem | hnew
      · exact h.aware handler hmem
      · exact hnew
    exact hmem _ (hold message work rest heq c hc hkey)

theorem leaves_keys {ids : List String} {notifications : List Notification}
    {f : Notification → Notification} (hf : ∀ n : Notification, n.Alters ids (f n)) :
    (notifications.map f).map Notification.key = notifications.map Notification.key := by
  rw [List.map_map]
  apply List.map_congr_left
  intro n _
  exact (hf n).key

/-- With no stale device nothing is deleted. -/
theorem deleteStale_notifications
    (h : ∀ setting ∈ s.tables.settings,
      NotificationTables.isStale s.clock notificationDeviceStaleDays setting = false) :
    (s.tables.deleteStaleNotificationDevices s.clock notificationDeviceStaleDays).notifications =
      s.tables.notifications := by
  have hall : s.tables.settings.filter (fun setting =>
      !NotificationTables.isStale s.clock notificationDeviceStaleDays setting) = s.tables.settings :=
    List.filter_eq_self.mpr fun setting hsetting => by rw [h setting hsetting, Bool.not_false]
  simp only [NotificationTables.deleteStaleNotificationDevices, NotificationTables.deleteDevices, hall]
  apply List.filter_eq_self.mpr
  intro n hn
  exact decide_eq_true (s.tables.consistent.device_mem n hn)

/-! ### The steps -/

theorem aware_examine {s : Server} {message : Message} {work : List Work} :
    Handler.Aware s ⟨message, work, .examine⟩ := by
  intro _ _ _ heq
  cases heq

theorem aware_mail {s : Server} {message : Message} {work : List Work} {id : String} :
    Handler.Aware s ⟨message, work, .mail id⟩ := by
  intro _ _ _ heq
  cases heq

theorem mem_set_of_mem {handlers : List Handler} {i : ℕ} {new handler : Handler}
    (h : handler ∈ handlers.set i new) (haware : Handler.Aware s new) :
    handler ∈ handlers ∨ Handler.Aware s handler := by
  rcases List.mem_or_eq_of_mem_set h with h | rfl
  · exact .inl h
  · exact .inr haware

theorem Inv.examine (h : s.Inv facts) {i : ℕ} {message : Message} {work : Work} {rest : List Work}
    (hhandler : s.handlers[i]? = some ⟨message, work :: rest, .examine⟩)
    (hstale : ∀ setting ∈ s.tables.settings,
      NotificationTables.isStale s.clock notificationDeviceStaleDays setting = false) :
    (s.examine i message work rest).Inv facts := by
  have hsound := h.sound _ (List.mem_of_getElem? hhandler)
  rw [Server.examine]
  split
  · next hqualifies =>
    have hnots := deleteStale_notifications hstale
    have hnext : Sound facts ⟨message, work :: rest, .add⟩ := ⟨hsound.1, hsound.2⟩
    have hpresent := h.present_of_recent hsound.1 (hsound.2 work List.mem_cons_self) hqualifies.2.1
    refine h.of_same_keys (l := []) (sound_set h.sound hnext i) ?_ ?_ (congrArg _ hnots) rfl (Int.le_refl _) ?_
    · exact List.length_set.trans_le h.alone
    · rw [setHandler, hnots]
      exact .refl _ _
    · intro handler hmem
      apply mem_set_of_mem hmem
      intro message' work' rest' heq
      cases heq
      exact hpresent
  · refine h.of_same_keys (sound_set h.sound (hsound.rest _) i) ?_ (.refl [] _) rfl rfl (Int.le_refl _) ?_
    · exact List.length_set.trans_le h.alone
    · exact fun handler hmem => mem_set_of_mem hmem aware_examine

/-- A handler alone is the one that is replaced. -/
theorem set_of_alone {handlers : List Handler} {i : ℕ} {old new handler : Handler}
    (halone : handlers.length ≤ 1) (hold : handlers[i]? = some old)
    (h : handler ∈ handlers.set i new) : handler = new := by
  obtain ⟨hlt, _⟩ := List.getElem?_eq_some_iff.mp hold
  match handlers, i with
  | [_], 0 => exact List.mem_singleton.mp h
  | [_], i + 1 => simp at hlt
  | _ :: _ :: _, _ => simp at halone

theorem Inv.add (h : s.Inv facts) {i : ℕ} {id : String} {message : Message} {work : Work}
    {rest : List Work} (hhandler : s.handlers[i]? = some ⟨message, work :: rest, .add⟩) :
    (s.add i id message work rest).Inv facts := by
  have hsound := h.sound _ (List.mem_of_getElem? hhandler)
  have haware := h.aware _ (List.mem_of_getElem? hhandler) message work rest rfl
  rcases s.tables.addNotification_cases s.servers message.resource
    (work.notification message id) with ⟨_, hinsertable, tables, heq, htables⟩ | ⟨_, heq⟩
  · have htime : (work.notification message id).timestamp =
        facts.timestamp (work.notification message id).metric (work.notification message id).rowid :=
      hsound.1 _ (hsound.2 work List.mem_cons_self)
    have hnext : ∃ new : Handler, Sound facts new ∧ (∀ s, Handler.Aware s new) ∧
        s.add i id message work rest = { s with
          tables := tables
          created := s.created ++ [work.notification message id]
          lookups := Function.update s.lookups id ⟨s.servers, message.resource⟩ }.setHandler i new := by
      rw [Server.add, heq]
      by_cases haddress : work.setting.emailAddr = ""
      · exact ⟨⟨message, rest, .examine⟩, hsound.rest _, fun _ => aware_examine, by
          simp only [if_pos haddress]⟩
      · exact ⟨⟨message, work :: rest, .mail id⟩, ⟨hsound.1, hsound.2⟩, fun _ => aware_mail, by
          simp only [if_neg haddress]⟩
    obtain ⟨new, hnew, hnewAware, hstate⟩ := hnext
    rw [hstate]
    refine ⟨sound_set h.sound hnew i, List.length_set.trans_le h.alone, ?_, ?_, ?_, ?_, ?_⟩
    · simp only [setHandler, htables, List.mem_append, List.mem_singleton]
      rintro n (hn | rfl)
      · exact h.times n hn
      · exact htime
    · simp only [setHandler, List.mem_append, List.mem_singleton]
      rintro c (hc | rfl)
      · exact h.created_times c hc
      · exact htime
    · simp only [setHandler, htables, List.mem_append, List.mem_singleton]
      rintro c (hc | rfl)
      · rcases h.kept c hc with ⟨n, hn, hkey⟩ | hold
        · exact .inl ⟨n, .inl hn, hkey⟩
        · exact .inr hold
      · exact .inl ⟨_, .inr rfl, rfl⟩
    · intro handler hmem
      rw [set_of_alone h.alone hhandler hmem]
      exact hnewAware _
    · simp only [setHandler, List.map_append, List.map_singleton]
      refine List.nodup_append.mpr ⟨h.once, List.nodup_singleton _, ?_⟩
      intro key hkey key' hkey' heq'
      rw [List.mem_singleton.mp hkey'] at heq'
      obtain ⟨c, hc, hsame⟩ := List.mem_map.mp hkey
      obtain ⟨n, hn, hpresent⟩ := haware c hc (hsame.trans heq')
      exact hinsertable.2.2.2 (List.mem_map.mpr ⟨n, hn, hpresent⟩)
  · rw [Server.add, heq]
    refine h.of_same_keys (sound_set h.sound (hsound.rest _) i) ?_ (.refl [] _) rfl rfl (Int.le_refl _) ?_
    · exact List.length_set.trans_le h.alone
    · exact fun handler hmem => mem_set_of_mem hmem aware_examine

theorem Inv.eraseIdx (h : s.Inv facts) (i : ℕ) :
    { s with handlers := s.handlers.eraseIdx i }.Inv facts := by
  refine h.of_same_keys (sound_eraseIdx h.sound i) ?_ (.refl [] _) rfl rfl (Int.le_refl _) ?_
  · exact Nat.le_trans (List.eraseIdx_sublist _ _).length_le h.alone
  · exact fun handler hmem => .inl (List.mem_of_mem_eraseIdx hmem)

theorem Inv.mail (h : s.Inv facts) {i : ℕ} {id : String} {messageId : Option String} {message : Message}
    {work : Work} {rest : List Work}
    (hhandler : s.handlers[i]? = some ⟨message, work :: rest, .mail id⟩) :
    (s.mail i id messageId message rest).Inv facts := by
  have hsound := h.sound _ (List.mem_of_getElem? hhandler)
  rw [Server.mail]
  split
  · exact h.eraseIdx i
  · refine h.of_same_keys (l := []) (sound_set h.sound (hsound.rest _) i) ?_ ?_ ?_ rfl (Int.le_refl _) ?_
    · exact List.length_set.trans_le h.alone
    · cases messageId with
      | none => exact .refl [] _
      | some messageId => exact leaves_map _ (NotificationTables.messageId_alters id messageId)
    · cases messageId with
      | none => rfl
      | some messageId => exact leaves_keys (NotificationTables.messageId_alters id messageId)
    · exact fun handler hmem => mem_set_of_mem hmem aware_examine

/-- What is cleared is out of the thirty-day window. -/
theorem Inv.finish (h : s.Inv facts) {i : ℕ} {message : Message}
    (hhandler : s.handlers[i]? = some ⟨message, [], .examine⟩) :
    { s with
      handlers := s.handlers.eraseIdx i
      tables := s.tables.clearOldNotifications s.clock }.Inv facts := by
  have hnone : s.handlers.eraseIdx i = [] := by
    obtain ⟨hlt, _⟩ := List.getElem?_eq_some_iff.mp hhandler
    have hlength := List.length_eraseIdx_of_lt hlt
    have halone := h.alone
    exact List.length_eq_zero_iff.mp (by omega)
  refine ⟨sound_eraseIdx h.sound i, ?_, ?_, h.created_times, ?_, ?_, h.once⟩
  · simp [hnone]
  · exact fun n hn => h.times n (List.mem_of_mem_filter hn)
  · intro c hc
    rcases h.kept c hc with ⟨n, hn, hkey⟩ | hold
    · by_cases hwindow : s.clock ≤ n.timestamp + 30 * NotificationTables.secondsPerDay
      · exact .inl ⟨n, List.mem_filter.mpr ⟨hn, decide_eq_true hwindow⟩, hkey⟩
      · rw [times_eq_of_key (h.times n hn) (h.created_times c hc) hkey] at hwindow
        exact .inr (Int.not_le.mp hwindow)
    · exact .inr hold
  · rw [hnone]
    exact fun _ hmem => absurd hmem List.not_mem_nil

theorem Inv.updated {ids : List String} (h : s.Inv facts) {f : Notification → Notification}
    (huid : ∀ n, (f n).uid = n.uid) (hkey : ∀ n, (f n).key = n.key) (hf : ∀ n : Notification, n.Alters ids (f n)) :
    { s with tables := s.tables.updateNotifications f huid hkey }.Inv facts :=
  h.of_same_keys h.sound h.alone (leaves_map _ hf) (leaves_keys hf) rfl (Int.le_refl _)
    fun _ hmem => .inl hmem

theorem Inv.act (h : s.Inv facts) (hundisturbed : Undisturbed s a) (ha : act facts a s = some t) :
    t.Inv facts := by
  cases a with
  | tick now =>
    rw [Server.act] at ha
    split at ha
    · next hle =>
      cases ha
      exact h.of_same_keys h.sound h.alone (.refl [] _) rfl rfl hle fun _ hmem => .inl hmem
    · cases ha
  | start message =>
    rw [Server.act] at ha
    split at ha
    · next hmessage =>
      cases ha
      have hnone : s.handlers = [] := hundisturbed
      refine h.of_same_keys ?_ ?_ (.refl [] _) rfl rfl (Int.le_refl _) ?_
      · rw [hnone]
        intro handler hmem
        rw [List.mem_singleton.mp hmem]
        exact workOf_sound hmessage _ _
      · simp [hnone]
      · intro handler hmem
        rcases List.mem_append.mp hmem with hmem | hmem
        · exact .inl hmem
        · rw [List.mem_singleton.mp hmem]
          exact .inr aware_examine
    · cases ha
  | examine i =>
    rw [Server.act] at ha
    split at ha
    · next hhandler =>
      cases ha
      exact h.examine hhandler hundisturbed
    · cases ha
  | add i id =>
    rw [Server.act] at ha
    split at ha
    · next hhandler =>
      split at ha
      · cases ha
      · cases ha
        exact h.add hhandler
    · cases ha
  | mail i messageId =>
    rw [Server.act] at ha
    split at ha
    · next hhandler =>
      cases ha
      exact h.mail hhandler
    · cases ha
  | finish i =>
    rw [Server.act] at ha
    split at ha
    · next hhandler =>
      cases ha
      exact h.finish hhandler
    · cases ha
  | abort i =>
    cases ha
    exact h.eraseIdx i
  | see ids =>
    cases ha
    exact h.updated _ _ (NotificationTables.see_alters ids)
  | acknowledge ids =>
    cases ha
    exact h.updated _ _ (NotificationTables.acknowledge_alters ids)
  | putSettings deviceId changes =>
    cases ha
    have hnots := @NotificationTables.putSettings_notifications s.tables deviceId changes s.clock
    have hleaves : Leaves [] s.tables.notifications
        (s.tables.putSettings deviceId changes s.clock).notifications := by
      rw [hnots]
      exact .refl _ _
    exact h.of_same_keys h.sound h.alone hleaves (congrArg _ hnots) rfl (Int.le_refl _)
      fun _ hmem => .inl hmem
  | touch deviceId =>
    cases ha
    exact h.of_same_keys h.sound h.alone (.refl [] _) rfl rfl (Int.le_refl _) fun _ hmem => .inl hmem
  | addMetric uid =>
    cases ha
    exact h.of_same_keys h.sound h.alone (.refl [] _) rfl rfl (Int.le_refl _) fun _ hmem => .inl hmem
  | monitor uid server =>
    cases ha
    exact h.of_same_keys h.sound h.alone (.refl [] _) rfl rfl (Int.le_refl _) fun _ hmem => .inl hmem
  | deleteMetric uid => exact absurd hundisturbed id

/-! ### Mails -/

/-- The notification that a handler is about to send a mail for. -/
def mailing (handler : Handler) : List String :=
  match handler.phase with
  | .mail id => [id]
  | _ => []

/-- The mails sent and those about to be sent are for different notifications, all created. -/
def Mailed (s : Server) : Prop :=
  (s.emails ++ s.handlers.flatMap mailing).Nodup ∧
    ∀ id ∈ s.emails ++ s.handlers.flatMap mailing, id ∈ s.created.map Notification.uid

theorem Mailed.replace (h : s.Mailed) {i : ℕ} {old new : Handler} (hold : s.handlers[i]? = some old)
    (hhandlers : t.handlers = s.handlers.set i new) {e : List String}
    (hemails : t.emails = s.emails ++ e)
    (hcreated : ∀ id ∈ s.created.map Notification.uid, id ∈ t.created.map Notification.uid)
    (hnodup : (e ++ mailing new).Nodup)
    (hids : ∀ id ∈ e ++ mailing new, id ∈ mailing old ∨
      id ∉ s.created.map Notification.uid ∧ id ∈ t.created.map Notification.uid) : t.Mailed := by
  have hbefore := (OpenTransactions.keys_perm_eraseIdx mailing hold).append_left s.emails
  have hafter := (OpenTransactions.keys_set_perm mailing hold new).append_left (s.emails ++ e)
  have hmove : (t.emails ++ t.handlers.flatMap mailing).Perm
      ((e ++ mailing new) ++ (s.emails ++ (s.handlers.eraseIdx i).flatMap mailing)) := by
    rw [hemails, hhandlers]
    refine hafter.trans ?_
    rw [List.append_assoc, ← List.append_assoc e]
    exact List.perm_append_comm_assoc _ _ _
  have hsplit : (s.emails ++ s.handlers.flatMap mailing).Perm
      (mailing old ++ (s.emails ++ (s.handlers.eraseIdx i).flatMap mailing)) :=
    hbefore.trans (List.perm_append_comm_assoc _ _ _)
  have hdisjoint := (List.nodup_append.mp (hsplit.nodup_iff.mp h.1))
  have hlogged : ∀ id ∈ s.emails ++ (s.handlers.eraseIdx i).flatMap mailing,
      id ∈ s.created.map Notification.uid :=
    fun id hid => h.2 id (hsplit.mem_iff.mpr (List.mem_append_right _ hid))
  constructor
  · refine hmove.nodup_iff.mpr (List.nodup_append.mpr ⟨hnodup, hdisjoint.2.1, ?_⟩)
    intro id hid id' hid' heq
    rcases hids id hid with hmailing | ⟨hfresh, _⟩
    · exact hdisjoint.2.2 id hmailing id' hid' heq
    · exact hfresh (heq ▸ hlogged id' hid')
  · intro id hid
    rcases List.mem_append.mp (hmove.mem_iff.mp hid) with hid | hid
    · rcases hids id hid with hmailing | ⟨_, hmem⟩
      · exact hcreated id (h.2 id (hsplit.mem_iff.mpr (List.mem_append_left _ hmailing)))
      · exact hmem
    · exact hcreated id (hlogged id hid)

theorem Mailed.eraseIdx (h : s.Mailed) (i : ℕ) (hhandlers : t.handlers = s.handlers.eraseIdx i)
    (hemails : t.emails = s.emails) (hcreated : t.created = s.created) : t.Mailed := by
  have hsub : (t.emails ++ t.handlers.flatMap mailing).Sublist
      (s.emails ++ s.handlers.flatMap mailing) := by
    rw [hemails, hhandlers]
    exact OpenTransactions.keys_sublist_rollback mailing s.emails i
  exact ⟨h.1.sublist hsub, fun id hid => hcreated ▸ h.2 id (hsub.subset hid)⟩

/-- A handler that goes on has no mail to send. -/
theorem Mailed.goOn (h : s.Mailed) {i : ℕ} {old new : Handler} (hold : s.handlers[i]? = some old)
    (hhandlers : t.handlers = s.handlers.set i new) (hnew : mailing new = [])
    (hemails : t.emails = s.emails) (hcreated : t.created = s.created) : t.Mailed := by
  refine h.replace hold hhandlers (e := []) ?_ (fun _ hid => hcreated ▸ hid) ?_ ?_
  · rw [hemails, List.append_nil]
  · rw [hnew]
    exact .nil
  · rw [hnew]
    exact fun _ hid => absurd hid List.not_mem_nil

theorem Mailed.add (h : s.Mailed) {i : ℕ} {id : String} {message : Message} {work : Work}
    {rest : List Work} (hhandler : s.handlers[i]? = some ⟨message, work :: rest, .add⟩)
    (hfresh : id ∉ s.created.map Notification.uid) :
    (s.add i id message work rest).Mailed := by
  rw [Server.add]
  split
  · have hid : id ∈ (s.created ++ [work.notification message id]).map Notification.uid := by
      rw [List.map_append]
      exact List.mem_append_right _ List.mem_cons_self
    refine h.replace (e := []) hhandler rfl (List.append_nil _).symm ?_ ?_ ?_
    · intro _ hmem
      simp only [setHandler, List.map_append]
      exact List.mem_append_left _ hmem
    · split <;> simp [mailing]
    · split
      · simp [mailing]
      · intro id' hid'
        simp only [mailing, List.nil_append, List.mem_singleton] at hid'
        subst hid'
        exact .inr ⟨hfresh, hid⟩
  · exact h.goOn hhandler rfl rfl rfl rfl

theorem Mailed.mail (h : s.Mailed) {i : ℕ} {id : String} {messageId : Option String} {message : Message}
    {work : Work} {rest : List Work}
    (hhandler : s.handlers[i]? = some ⟨message, work :: rest, .mail id⟩) :
    (s.mail i id messageId message rest).Mailed := by
  rw [Server.mail]
  split
  · exact h.eraseIdx i rfl rfl rfl
  · refine h.replace (e := [id]) hhandler rfl rfl (fun _ hmem => hmem) ?_ ?_
    · simp [mailing]
    · intro id' hid'
      exact .inl hid'

theorem act_mailed (h : s.Mailed) (ha : act facts a s = some t) : t.Mailed := by
  cases a with
  | tick now =>
    rw [act] at ha
    split at ha
    · cases ha
      exact h
    · cases ha
  | start message =>
    rw [act] at ha
    split at ha
    · cases ha
      simpa [Mailed, mailing] using h
    · cases ha
  | examine i =>
    rw [act] at ha
    split at ha
    · next hhandler =>
      cases ha
      rw [examine]
      split
      · exact h.goOn hhandler rfl rfl rfl rfl
      · exact h.goOn hhandler rfl rfl rfl rfl
    · cases ha
  | add i id =>
    rw [act] at ha
    split at ha
    · next hhandler =>
      split at ha
      · cases ha
      · next hfresh =>
        cases ha
        exact h.add hhandler hfresh
    · cases ha
  | mail i messageId =>
    rw [act] at ha
    split at ha
    · next hhandler =>
      cases ha
      exact h.mail hhandler
    · cases ha
  | finish i =>
    rw [act] at ha
    split at ha
    · cases ha
      exact h.eraseIdx i rfl rfl rfl
    · cases ha
  | abort i =>
    cases ha
    exact h.eraseIdx i rfl rfl rfl
  | see _ | acknowledge _ | putSettings _ _ | touch _ | addMetric _ | monitor _ _ | deleteMetric _ =>
    cases ha
    exact h

/-- In every run in which a service is started only when the last one is down, and no metric or
device is removed, at most one notification is created for a row of data and a device, however often
its batch is delivered; and at most one mail is sent for each, for created ones only. -/
theorem rows_notified_once {tr : List (Server × Action)} (h : Run (system facts) tr s)
    (hundisturbed : ∀ p ∈ tr, Undisturbed p.1 p.2) :
    (s.created.map Notification.key).Nodup ∧ s.emails.Nodup ∧
      ∀ id ∈ s.emails, id ∈ s.created.map Notification.uid := by
  have hinit : ∀ s, (system facts).init s → s.Inv facts ∧ s.Mailed := by
    intro s ⟨hnots, hhandlers, hcreated, hemails⟩
    have hnone : ∀ {β : Type} {P : β → Prop}, ∀ x ∈ ([] : List β), P x :=
      fun _ hx => absurd hx List.not_mem_nil
    constructor
    · refine ⟨hhandlers ▸ hnone, ?_, hnots ▸ hnone, hcreated ▸ hnone, hcreated ▸ hnone, ?_, ?_⟩
      · rw [hhandlers]
        exact Nat.zero_le 1
      · rw [hhandlers]
        exact hnone
      · rw [hcreated]
        exact .nil
    · rw [Mailed, hemails, hhandlers]
      exact ⟨.nil, hnone⟩
  have hinv := h.invariant (I := fun s => s.Inv facts ∧ s.Mailed) hinit
    (fun a s t ⟨hI, hmailed⟩ hu ha => ⟨hI.act hu ha, act_mailed hmailed ha⟩) hundisturbed
  exact ⟨hinv.1.once, hinv.2.1.sublist (List.sublist_append_left _ _),
    fun id hid => hinv.2.2 id (List.mem_append_left _ hid)⟩

/-- A batch that is delivered again, five minutes after a service went down. -/
def redeliveredActions : List Action :=
  [.start exampleMessage, .examine 0, .add 0 "a", .abort 0, .tick 601200, .start exampleMessage,
    .examine 0, .add 0 "b", .examine 0, .add 0 "c", .finish 0]

/-- Decides the condition on the steps of a run. -/
def undisturbed (p : Server × Action) : Bool :=
  match p.2 with
  | .start _ => p.1.handlers.isEmpty
  | .examine _ => p.1.tables.settings.all fun setting =>
      !NotificationTables.isStale p.1.clock notificationDeviceStaleDays setting
  | .deleteMetric _ => false
  | _ => true

theorem undisturbed_of_eq_true {p : Server × Action} (h : undisturbed p = true) :
    Undisturbed p.1 p.2 := by
  obtain ⟨s, a⟩ := p
  cases a with
  | start message => exact List.isEmpty_iff.mp h
  | examine i =>
    intro setting hsetting
    have hall := List.all_eq_true.mp h setting hsetting
    exact Bool.not_eq_true' _ |>.mp hall
  | deleteMetric uid => cases h
  | _ => trivial

/-- The row is notified once. -/
theorem rows_notified_once_redelivered : ∃ tr s, Run (system exampleFacts) tr s ∧
    s.created.map Notification.rowid = [2001] ∧ (s.created.map Notification.key).Nodup ∧
      s.emails.Nodup ∧ ∀ id ∈ s.emails, id ∈ s.created.map Notification.uid := by
  have hexec : (((system exampleFacts).exec redeliveredActions exampleServer).map
      fun s => s.created.map Notification.rowid) = some [2001] ∧
        ((system exampleFacts).trace redeliveredActions exampleServer).all undisturbed = true := by
    decide +kernel
  obtain ⟨s, hexec', hrow⟩ := Option.map_eq_some_iff.mp hexec.1
  have hinit : (system exampleFacts).init exampleServer := ⟨rfl, rfl, rfl, rfl⟩
  have hrun := (Run.init hinit).exec_trace hexec'
  refine ⟨_, s, hrun, hrow, rows_notified_once hrun fun p hp => ?_⟩
  exact undisturbed_of_eq_true (List.all_eq_true.mp hexec.2 p hp)

end Server

end NumentaApps.Notifications
