import NumentaApps.NotificationService

/-!
# Throttled notifications

A device is not notified again of a server while it has an unseen notification of that server
whose window is not over, whatever the services, the devices and the web handlers do.
-/
namespace NumentaApps.Notifications
open TransitionSystem

/-! ### What statements leave of the notifications -/

/-- A change of a notification in what the throttling does not look at, or in that it was seen;
those acknowledged are given. -/
structure Notification.Alters (ids : List String) (n m : Notification) : Prop where
  uid : m.uid = n.uid
  key : m.key = n.key
  windowsize : m.windowsize = n.windowsize
  timestamp : m.timestamp = n.timestamp
  seen : n.seen = true → m.seen = true
  acknowledged : n.acknowledged = true → m.acknowledged = true
  acknowledges : m.acknowledged = true → n.acknowledged = true ∨ n.uid ∈ ids

theorem Notification.Alters.refl {ids : List String} (n : Notification) : n.Alters ids n :=
  ⟨rfl, rfl, rfl, rfl, id, id, .inl⟩

theorem Notification.Alters.metric {ids : List String} {n m : Notification} (h : n.Alters ids m) :
    m.metric = n.metric ∧ m.rowid = n.rowid ∧ m.device = n.device := by
  have hkey := h.key
  simp only [Notification.key, Prod.mk.injEq] at hkey
  exact ⟨hkey.1, hkey.2.1, hkey.2.2⟩

/-- Some notifications are gone and some are altered. -/
def Leaves (ids : List String) (notifications notifications' : List Notification) : Prop :=
  ∃ keep : Notification → Bool, ∃ f : Notification → Notification,
    (∀ n : Notification, n.Alters ids (f n)) ∧ notifications' = (notifications.filter keep).map f

section Leaving

variable {ids : List String} {notifications notifications' : List Notification}

theorem Leaves.refl (ids : List String) (notifications : List Notification) :
    Leaves ids notifications notifications :=
  ⟨fun _ => true, id, .refl, by simp⟩

theorem leaves_filter (notifications : List Notification) (keep : Notification → Bool) :
    Leaves ids notifications (notifications.filter keep) :=
  ⟨keep, id, .refl, (List.map_id _).symm⟩

theorem leaves_map (notifications : List Notification) {f : Notification → Notification}
    (h : ∀ n : Notification, n.Alters ids (f n)) : Leaves ids notifications (notifications.map f) :=
  ⟨fun _ => true, f, h, by simp⟩

theorem Leaves.of_mem (h : Leaves ids notifications notifications') {m : Notification}
    (hm : m ∈ notifications') : ∃ n ∈ notifications, n.Alters ids m := by
  obtain ⟨keep, f, hf, rfl⟩ := h
  obtain ⟨n, hn, rfl⟩ := List.mem_map.mp hm
  exact ⟨n, List.mem_of_mem_filter hn, hf n⟩

/-- What holds of any two, the earlier and the later, and does not depend on what is altered. -/
theorem Leaves.pairwise {R : Notification → Notification → Prop}
    (h : Leaves ids notifications notifications')
    (hR : ∀ n n' m m', n.Alters ids m → n'.Alters ids m' → R n n' → R m m')
    (hpair : notifications.Pairwise R) : notifications'.Pairwise R := by
  obtain ⟨keep, f, hf, rfl⟩ := h
  apply List.pairwise_map.mpr
  exact (hpair.sublist List.filter_sublist).imp fun hnn' => hR _ _ _ _ (hf _) (hf _) hnn'

end Leaving

namespace NotificationTables

variable {tables : NotificationTables}

theorem putSettings_notifications (deviceId : String) (changes : SettingsChanges) (now : ℤ) :
    (tables.putSettings deviceId changes now).notifications = tables.notifications := by
  rw [putSettings]
  split
  · rfl
  · split <;> rfl

theorem see_alters (ids : List String) (n : Notification) :
    n.Alters [] (if n.uid ∈ ids then { n with seen := true } else n) := by
  split
  · exact ⟨rfl, rfl, rfl, rfl, fun _ => rfl, id, .inl⟩
  · exact .refl n

theorem acknowledge_alters (ids : List String) (n : Notification) :
    n.Alters ids (if n.uid ∈ ids then { n with acknowledged := true } else n) := by
  split
  · next hmem => exact ⟨rfl, rfl, rfl, rfl, id, fun _ => rfl, fun _ => .inr hmem⟩
  · exact .refl n

theorem messageId_alters (notificationId messageId : String) (n : Notification) :
    n.Alters [] (if n.uid = notificationId then { n with sesMessageId := some messageId } else n) := by
  split
  · exact ⟨rfl, rfl, rfl, rfl, id, id, .inl⟩
  · exact .refl n

end NotificationTables

namespace Server

variable {facts : MetricFacts} {s t : Server} {a : Action}

/-- The notifications that a step acknowledges. -/
def Action.acknowledged : Action → List String
  | .acknowledge ids => ids
  | _ => []

/-- The next row and device of a handler are looked up in the table, and a notification is added. -/
structure Creates (s : Server) (a : Action) (t : Server) (n : Notification) : Prop where
  handler : ∃ i id message work rest, a = .add i id ∧
    s.handlers[i]? = some ⟨message, work :: rest, .add⟩ ∧ n = work.notification message id ∧
    (∀ m ∈ s.tables.notifications, NotificationTables.blocks s.servers message.resource n.device
      n.windowsize n.timestamp m = false) ∧
    t.lookups = Function.update s.lookups id ⟨s.servers, message.resource⟩
  insertable : s.tables.Insertable n
  fresh : n.uid ∉ s.created.map Notification.uid
  notifications : t.tables.notifications = s.tables.notifications ++ [n]
  created : t.created = s.created ++ [n]

/-- A step creates one notification, or leaves what there is. -/
theorem act_cases (h : act facts a s = some t) :
    (Leaves a.acknowledged s.tables.notifications t.tables.notifications ∧ t.created = s.created ∧
        t.lookups = s.lookups) ∨
      ∃ n, Creates s a t n := by
  cases a with
  | tick now =>
    rw [act] at h
    split at h
    · cases h
      exact .inl ⟨.refl _ _, rfl, rfl⟩
    · cases h
  | start message =>
    rw [act] at h
    split at h
    · cases h
      exact .inl ⟨.refl _ _, rfl, rfl⟩
    · cases h
  | examine i =>
    rw [act] at h
    split at h
    · next message work rest _ =>
      cases h
      rw [examine]
      split
      · exact .inl ⟨leaves_filter _ _, rfl, rfl⟩
      · exact .inl ⟨.refl _ _, rfl, rfl⟩
    · cases h
  | add i id =>
    rw [act] at h
    split at h
    · next message work rest hhandler =>
      split at h
      · cases h
      · next hfresh =>
        cases h
        rcases s.tables.addNotification_cases s.servers message.resource
          (work.notification message id) with ⟨hnone, hinsertable, tables, heq, htables⟩ | ⟨_, heq⟩
        · right
          refine ⟨work.notification message id,
            ⟨i, id, message, work, rest, rfl, hhandler, rfl, hnone, ?_⟩, hinsertable, hfresh, ?_, ?_⟩
          · rw [add, heq]
            rfl
          · rw [add, heq]
            exact htables
          · rw [add, heq]
            rfl
        · left
          rw [add, heq]
          exact ⟨.refl _ _, rfl, rfl⟩
    · cases h
  | mail i messageId =>
    rw [act] at h
    split at h
    · next message work rest id _ =>
      cases h
      rw [mail]
      split
      · exact .inl ⟨.refl _ _, rfl, rfl⟩
      · cases messageId with
        | none => exact .inl ⟨.refl _ _, rfl, rfl⟩
        | some messageId =>
          exact .inl ⟨leaves_map _ (NotificationTables.messageId_alters id messageId), rfl, rfl⟩
    · cases h
  | finish i =>
    rw [act] at h
    split at h
    · cases h
      exact .inl ⟨leaves_filter _ _, rfl, rfl⟩
    · cases h
  | abort i =>
    cases h
    exact .inl ⟨.refl _ _, rfl, rfl⟩
  | see ids =>
    cases h
    exact .inl ⟨leaves_map _ (NotificationTables.see_alters ids), rfl, rfl⟩
  | acknowledge ids =>
    cases h
    exact .inl ⟨leaves_map _ (NotificationTables.acknowledge_alters ids), rfl, rfl⟩
  | putSettings deviceId changes =>
    cases h
    refine .inl ⟨?_, rfl, rfl⟩
    rw [NotificationTables.putSettings_notifications]
    exact .refl _ _
  | touch deviceId =>
    cases h
    exact .inl ⟨.refl _ _, rfl, rfl⟩
  | addMetric uid =>
    cases h
    exact .inl ⟨.refl _ _, rfl, rfl⟩
  | monitor uid server =>
    cases h
    exact .inl ⟨.refl _ _, rfl, rfl⟩
  | deleteMetric uid =>
    cases h
    exact .inl ⟨leaves_filter _ _, rfl, rfl⟩

/-! ### The handlers -/

/-- A handler is of a batch of a metric, and has rows of that batch to do. -/
def Sound (facts : MetricFacts) (handler : Handler) : Prop :=
  handler.message.OfMetric facts ∧ ∀ work ∈ handler.work, work.row ∈ handler.message.results

theorem Sound.rest {message : Message} {work : Work} {rest : List Work} {phase : Phase}
    (h : Sound facts ⟨message, work :: rest, phase⟩) (phase' : Phase) :
    Sound facts ⟨message, rest, phase'⟩ :=
  ⟨h.1, fun w hw => h.2 w (List.mem_cons_of_mem work hw)⟩

/-- Replacing a handler, of those that are all sound. -/
theorem sound_set {handlers : List Handler} {handler : Handler}
    (h : ∀ handler ∈ handlers, Sound facts handler) (hsound : Sound facts handler) (i : ℕ) :
    ∀ handler' ∈ handlers.set i handler, Sound facts handler' := by
  intro handler' hmem
  rcases List.mem_or_eq_of_mem_set hmem with hmem | rfl
  · exact h handler' hmem
  · exact hsound

theorem sound_eraseIdx {handlers : List Handler} (h : ∀ handler ∈ handlers, Sound facts handler)
    (i : ℕ) : ∀ handler ∈ handlers.eraseIdx i, Sound facts handler :=
  fun handler hmem => h handler (List.mem_of_mem_eraseIdx hmem)

theorem workOf_sound {message : Message} (h : message.OfMetric facts)
    (settings : List NotificationSettings) (phase : Phase) :
    Sound facts ⟨message, workOf settings message, phase⟩ :=
  ⟨h, fun _ hw => (mem_workOf.mp hw).1⟩

theorem act_sound (h : ∀ handler ∈ s.handlers, Sound facts handler) (ha : act facts a s = some t) :
    ∀ handler ∈ t.handlers, Sound facts handler := by
  cases a with
  | tick now =>
    rw [act] at ha
    split at ha
    · cases ha
      exact h
    · cases ha
  | start message =>
    rw [act] at ha
    split at ha
    · next hmessage =>
      cases ha
      intro handler hmem
      rcases List.mem_append.mp hmem with hmem | hmem
      · exact h handler hmem
      · rw [List.mem_singleton.mp hmem]
        exact workOf_sound hmessage _ _
    · cases ha
  | examine i =>
    rw [act] at ha
    split at ha
    · next message work rest hhandler =>
      cases ha
      have hsound := h _ (List.mem_of_getElem? hhandler)
      rw [examine]
      split
      · have hnext : Sound facts ⟨message, work :: rest, .add⟩ := ⟨hsound.1, hsound.2⟩
        exact sound_set h hnext i
      · exact sound_set h (hsound.rest _) i
    · cases ha
  | add i id =>
    rw [act] at ha
    split at ha
    · next message work rest hhandler =>
      split at ha
      · cases ha
      · cases ha
        have hsound := h _ (List.mem_of_getElem? hhandler)
        rw [add]
        split
        · refine sound_set h ?_ i
          split
          · exact hsound.rest _
          · exact ⟨hsound.1, hsound.2⟩
        · exact sound_set h (hsound.rest _) i
    · cases ha
  | mail i messageId =>
    rw [act] at ha
    split at ha
    · next message work rest id hhandler =>
      cases ha
      have hsound := h _ (List.mem_of_getElem? hhandler)
      rw [mail]
      split
      · exact sound_eraseIdx h i
      · exact sound_set h (hsound.rest _) i
    · cases ha
  | finish i =>
    rw [act] at ha
    split at ha
    · cases ha
      exact sound_eraseIdx h i
    · cases ha
  | abort i =>
    cases ha
    exact sound_eraseIdx h i
  | see _ | acknowledge _ | putSettings _ _ | touch _ | addMetric _ | monitor _ _ | deleteMetric _ =>
    cases ha
    exact h

/-! ### Throttling -/

/-- An unseen notification and a later one of one device are the window of the later one apart, if the
metric of the former was of the server of the latter when that was looked up. -/
def Throttled (s : Server) : Prop :=
  s.tables.notifications.Pairwise fun n n' =>
    (s.lookups n'.uid).servers n.metric = (s.lookups n'.uid).resource → n.device = n'.device →
      n.seen = false → n.timestamp + n'.windowsize ≤ n'.timestamp

/-- Ids of existing notifications are among those created. -/
def Logged (s : Server) : Prop := ∀ n ∈ s.tables.notifications, n.uid ∈ s.created.map Notification.uid

def exampleFacts : MetricFacts := ⟨fun _ rowid => rowid * 300⟩

def exampleDevice : NotificationSettings := ⟨"phone", 3600, 99 / 100, "", 600000⟩

/-- A device and a metric of one server, and nothing notified. -/
def exampleServer : Server where
  clock := 600900
  tables := {
    metrics := ["cpu"]
    settings := [exampleDevice]
    notifications := []
    consistent := ⟨List.nodup_singleton _, List.nodup_nil, List.nodup_nil,
      fun _ hn => absurd hn List.not_mem_nil, fun _ hn => absurd hn List.not_mem_nil⟩ }
  servers _ := "web"
  handlers := []
  created := []
  lookups _ := ⟨fun _ => "web", ""⟩
  emails := []

/-- Two anomalies, five minutes apart. -/
def exampleMessage : Message := ⟨"cpu", "web", [⟨2001, 600300, 1⟩, ⟨2002, 600600, 1⟩]⟩

def exampleActions : List Action :=
  [.start exampleMessage, .examine 0, .add 0 "a", .examine 0, .add 0 "b", .finish 0]

end Server

end NumentaApps.Notifications
