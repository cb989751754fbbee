import NumentaApps.TaurusDataSync

/-!
# Which synchronisations leave a hole

A completed run has everything that is final if the database had everything that was final at some
time before, with a threshold that passes when the next hour becomes final, or if the run starts
from the oldest timestamp. A run that is cut short leaves a hole behind the newest record that it
saved.
-/
namespace NumentaApps.Taurus
open UtcCalendar TransitionSystem

variable {V : Type} {server : Server V}

/-! ## Times -/

/-- Before 1970 it is a ceiling. -/
theorem floorTo60minutes_eq (time : ℤ) : floorTo60minutes time =
    (time / 3600000 + if 0 ≤ time ∨ 3600000 ∣ time then 0 else 1) * 3600000 := by
  rw [floorTo60minutes, show millisPerHour = 3600000 from rfl, Int.tdiv_eq_ediv]
  rfl

theorem oldestTimestamp_mono {now now' : ℤ} (h : now ≤ now') :
    oldestTimestamp now ≤ oldestTimestamp now' := by
  simp only [oldestTimestamp, floorTo60minutes_eq, show (numberOfDaysToSync : ℤ) = 14 from rfl,
    show millisPerDay = 86400000 from rfl]
  split <;> split <;> omega

theorem oldestTimestamp_gt (now : ℤ) : now - 15 * millisPerDay < oldestTimestamp now := by
  simp only [oldestTimestamp, floorTo60minutes_eq, show (numberOfDaysToSync : ℤ) = 14 from rfl,
    show millisPerDay = 86400000 from rfl]
  split <;> omega

theorem isFinal_of_lt_nextFinal {hour now c : ℤ} (h : IsFinal hour now) (hlt : now < nextFinal c) :
    IsFinal hour c := by
  simp only [IsFinal, nextFinal, millisPerHour, millisPerMinute] at *
  omega

theorem IsFinal.mono {hour now now' : ℤ} (h : IsFinal hour now) (hle : now ≤ now') :
    IsFinal hour now' := by
  simp only [IsFinal] at *
  omega

/-- Two hours earlier than some time at the hour, or more. -/
theorem isFinal_of_lt {hour last c : ℤ} (hlast : ∃ k, last = k * millisPerHour) (hle : last ≤ c)
    (hlt : hour * millisPerHour < last - millisPerHour) : IsFinal hour c := by
  obtain ⟨k, rfl⟩ := hlast
  simp only [IsFinal, millisPerHour, millisPerMinute] at *
  omega

/-! ## What is received -/

namespace App

variable {run : SyncRun server} {app : App V}

theorem received_append_leftOut (run : SyncRun server) (app : App V) :
    app.received run ++ app.leftOut run = app.download run := by
  unfold received leftOut
  cases run.cutAfter with
  | none => exact List.append_nil _
  | some n => exact List.take_append_drop n _

theorem of_mem_download {data : InstanceData V} (h : data ∈ app.download run) :
    ∃ hour, hour * millisPerHour ≤ run.now ∧
      ∃ item ∈ run.answer.table hour, createInstanceData hour item = data := by
  obtain ⟨hour, item, hitem, heq⟩ := of_mem_getAllInstanceData h
  refine ⟨hour, ?_, item, hitem, heq⟩
  by_contra hlt
  rw [run.answer.begun hour (by omega)] at hitem
  cases hitem

theorem mem_download_of_received {data : InstanceData V} (h : data ∈ app.received run) :
    data ∈ app.download run := by
  rw [← received_append_leftOut]
  exact List.mem_append_left _ h

/-- Of an hour that is final only its values are received. -/
theorem value_of_final {hour : ℤ} {item : String × V} (hitem : item ∈ server.final hour)
    (hfinal : IsFinal hour run.now) {data : InstanceData V} (hdata : data ∈ app.download run)
    (hkey : data.key = (item.1, hour * millisPerHour)) : data.value = item.2 := by
  obtain ⟨hour', -, item', hitem', rfl⟩ := of_mem_download hdata
  obtain ⟨hid, htimestamp⟩ := Prod.mk.inj hkey
  have hhour : hour' = hour := by
    simp only [createInstanceData, millisPerHour, millisPerMinute] at htimestamp
    omega
  subst hhour
  have hsame := (run.answer.of_final hour' hfinal item').mp hitem'
  rw [List.inj_on_of_nodup_map (server.unique hour') hsame hitem hid]
  rfl

end App

theorem App.fromTimestamp_ge (now : ℤ) (app : App V) :
    oldestTimestamp now ≤ app.fromTimestamp now := by
  simp only [App.fromTimestamp]
  split <;> omega

/-- A run that does not start from the oldest timestamp resumes from the last one. -/
theorem App.fromTimestamp_le {now : ℤ} {app : App V}
    (h : app.fromTimestamp now ≠ oldestTimestamp now) :
    app.fromTimestamp now = if app.updatesPreviousHour now then
      app.database.lastTimestamp - millisPerHour else app.database.lastTimestamp := by
  simp only [fromTimestamp] at h ⊢
  by_cases hcatch : oldestTimestamp now < app.database.firstTimestamp
  · rw [if_pos hcatch, if_neg (Int.lt_irrefl _)] at h
    exact absurd rfl h
  · rw [if_neg hcatch] at h ⊢
    generalize (if app.updatesPreviousHour now then app.database.lastTimestamp - millisPerHour
      else app.database.lastTimestamp) = fromTime at h ⊢
    split at h
    · exact absurd rfl h
    · next hlt => rw [if_neg hlt]

/-! ## What is stored -/

variable [DecidableEq V]

theorem saveBatches_saves {db : Database V} (h : db.Coherent) (batchTimestamp : ℤ)
    (batch pending : List (InstanceData V)) :
    db.Saves (batch ++ pending) (saveBatches batchTimestamp batch pending db) := by
  induction pending generalizing db batchTimestamp batch with
  | nil =>
    rw [List.append_nil, saveBatches]
    split
    · next hempty =>
      rw [List.isEmpty_iff.mp hempty]
      exact .refl h
    · exact db.addInstanceDataBatch_saves h batch
  | cons data pending ih =>
    rw [List.append_cons]
    simp only [saveBatches]
    split
    · have hbatch := db.addInstanceDataBatch_saves h (batch ++ [data])
      exact hbatch.trans (ih hbatch.coherent _ [])
    · exact ih h batchTimestamp (batch ++ [data])

/-- What was final at a time, and is not older than what is downloaded later. -/
def Stored (server : Server V) (c now : ℤ) (db : Database V) : Prop :=
  ∀ hour, ∀ item ∈ server.final hour, IsFinal hour c → oldestTimestamp now ≤ hour * millisPerHour →
    get db.instanceData (item.1, hour * millisPerHour) = some item.2

/-- Between the oldest timestamp allowed and the time of the run no final record is missing. -/
def NoHole (server : Server V) (now : ℤ) (db : Database V) : Prop := Stored server now now db

/-- A timestamp of the hourly table. -/
def Hourly (timestamp now : ℤ) : Prop := timestamp ≤ now ∧ ∃ hour, timestamp = hour * millisPerHour

structure SyncedAt (server : Server V) (c : ℤ) (app : App V) : Prop where
  le_clock : 0 ≤ c ∧ c ≤ app.clock
  rows : ∀ row ∈ app.database.instanceData, row.timestamp ≤ c
  last : app.database.lastTimestamp ≤ c
  threshold : ∀ threshold, app.previousHourThreshold = some threshold → threshold ≤ nextFinal c
  stored : Stored server c app.clock app.database

structure Inv (server : Server V) (app : App V) : Prop where
  coherent : app.database.Coherent
  begun : 0 ≤ app.clock
  rows : ∀ row ∈ app.database.instanceData, Hourly row.timestamp app.clock
  last : Hourly app.database.lastTimestamp app.clock
  synced : ∀ c, app.syncedAt = some c → SyncedAt server c app

namespace App

variable {run : SyncRun server} {app : App V}

theorem saves_received (h : app.database.Coherent) (run : SyncRun server) :
    app.database.Saves (app.received run) (app.loadAllData run).database :=
  saveBatches_saves h _ [] _

/-- A final value stays, as no other is received. -/
theorem Stored.loadAllData {c : ℤ} (h : Inv server app) (hclock : app.clock ≤ run.now)
    (hc : c ≤ run.now) (hstored : Stored server c app.clock app.database) :
    Stored server c run.now (app.loadAllData run).database := by
  intro hour item hitem hfinal hold
  apply (saves_received h.coherent run).stored
  · intro data hdata hkey
    exact value_of_final hitem (hfinal.mono hc) (mem_download_of_received hdata) hkey
  · right
    exact hstored hour item hitem hfinal (Int.le_trans (oldestTimestamp_mono hclock) hold)

omit [DecidableEq V] in
/-- Everything final that is older than the start of a run has been stored when the database was
last complete. -/
theorem isFinal_of_lt_from {c hour : ℤ} (h : Inv server app) (hsynced : SyncedAt server c app)
    {now : ℤ} (hnow : app.fromTimestamp now ≠ oldestTimestamp now) (hfinal : IsFinal hour now)
    (hlt : hour * millisPerHour < app.fromTimestamp now) : IsFinal hour c := by
  rw [fromTimestamp_le hnow] at hlt
  split at hlt
  · exact isFinal_of_lt h.last.2 hsynced.last hlt
  · next hbelow =>
    -- the threshold has not passed, and no other hour has become final
    cases hthreshold : app.previousHourThreshold with
    | none => simp [updatesPreviousHour, hthreshold] at hbelow
    | some threshold =>
      have hle := hsynced.threshold threshold hthreshold
      simp only [updatesPreviousHour, hthreshold, Option.getD_some, decide_eq_true_eq] at hbelow
      exact isFinal_of_lt_nextFinal hfinal (by omega)

/-- The records that a run receives, and those that it leaves out, complete the database. -/
theorem noHole_loadAllData (h : Inv server app) (hclock : app.clock ≤ run.now)
    (hkeeps : app.KeepsUp run.now) (hleft : app.LeavesNothingOut run) :
    NoHole server run.now (app.loadAllData run).database := by
  intro hour item hitem hfinal hold
  obtain ⟨hstart, hcounted⟩ := hkeeps
  apply (saves_received h.coherent run).stored
  · intro data hdata hkey
    exact value_of_final hitem hfinal (mem_download_of_received hdata) hkey
  · by_cases hfrom : app.fromTimestamp run.now ≤ hour * millisPerHour
    · have hdownload : createInstanceData hour item ∈ app.download run := by
        apply mem_getAllInstanceData hfrom ?_ ?_ hcounted
        · exact (run.answer.of_final hour hfinal item).mpr hitem
        · simp only [IsFinal, millisPerHour, millisPerMinute] at hfinal ⊢
          omega
        · have hlow := oldestTimestamp_gt run.now
          have hge := fromTimestamp_ge run.now app
          simp only [millisPerDay, millisPerHour, millisPerMinute] at hlow ⊢
          omega
      rw [← received_append_leftOut] at hdownload
      rcases List.mem_append.mp hdownload with hreceived | hout
      · exact .inl ⟨_, hreceived, rfl⟩
      · right
        apply hleft _ hout
        have hhour : hourOf (createInstanceData hour item).timestamp = hour := by
          simp only [hourOf, createInstanceData, millisPerHour, millisPerMinute]
          omega
        rwa [hhour]
    · right
      have hresumes : app.fromTimestamp run.now ≠ oldestTimestamp run.now := by omega
      obtain ⟨c, hc⟩ := Option.isSome_iff_exists.mp (hstart.resolve_left hresumes)
      have hsynced := h.synced c hc
      apply hsynced.stored hour item hitem
      · exact isFinal_of_lt_from h hsynced hresumes hfinal (Int.not_le.mp hfrom)
      · exact Int.le_trans (oldestTimestamp_mono hclock) hold

end App

/-! ## The steps -/

open App

variable {run : SyncRun server} {app : App V}

omit [DecidableEq V] in
theorem inv_installed (hbegun : 0 ≤ app.clock) (h : app = installed app.clock) :
    Inv server app := by
  rw [h]
  refine ⟨Database.load_coherent _ List.nodup_nil, hbegun, fun row hrow => absurd hrow
    List.not_mem_nil, ?_, fun c hc => by cases hc⟩
  rcases Database.load_lastTimestamp (V := V) app.clock [] with hzero | ⟨row, hrow, -⟩
  · refine ⟨?_, 0, ?_⟩
    · exact hzero ▸ hbegun
    · rw [Int.zero_mul]
      exact hzero
  · cases hrow

omit [DecidableEq V] in
theorem Inv.restart (h : Inv server app) {now : ℤ} (hclock : app.clock ≤ now) :
    Inv server (app.restart now) := by
  have hlast : ∀ P : ℤ → Prop, P 0 → (∀ row ∈ app.database.instanceData, P row.timestamp) →
      P (Database.load now app.database.instanceData).lastTimestamp := by
    intro P hzero hrows
    rcases Database.load_lastTimestamp now app.database.instanceData with heq | ⟨row, hrow, heq⟩
    · rwa [heq]
    · rw [← heq]
      exact hrows row hrow
  have hbegun : 0 ≤ now := Int.le_trans h.begun hclock
  have hrows : ∀ row ∈ app.database.instanceData, Hourly row.timestamp now := fun row hrow =>
    ⟨Int.le_trans (h.rows row hrow).1 hclock, (h.rows row hrow).2⟩
  refine ⟨Database.load_coherent now h.coherent.nodup, hbegun, hrows, ?_, ?_⟩
  · exact hlast (Hourly · now) ⟨hbegun, 0, (Int.zero_mul _).symm⟩ hrows
  · intro c hc
    have hsynced := h.synced c hc
    refine ⟨⟨hsynced.le_clock.1, Int.le_trans hsynced.le_clock.2 hclock⟩, hsynced.rows,
      hlast (· ≤ c) hsynced.le_clock.1 hsynced.rows, hsynced.threshold, ?_⟩
    intro hour item hitem hfinal hold
    exact hsynced.stored hour item hitem hfinal (Int.le_trans (oldestTimestamp_mono hclock) hold)

omit [DecidableEq V] in
theorem hourly_of_received {data : InstanceData V} (h : data ∈ app.received run) :
    Hourly data.timestamp run.now := by
  obtain ⟨hour, hbegun, item, -, rfl⟩ := of_mem_download (mem_download_of_received h)
  exact ⟨hbegun, hour, rfl⟩

theorem Inv.loadAllData (h : Inv server app) (hclock : app.clock ≤ run.now) :
    Inv server (app.loadAllData run) := by
  have hsaves := saves_received h.coherent run
  have hbegun : 0 ≤ run.now := Int.le_trans h.begun hclock
  have hrows : ∀ row ∈ (app.loadAllData run).database.instanceData,
      Hourly row.timestamp run.now := by
    intro row hrow
    rcases hsaves.mem row hrow with hrow | hrow
    · exact ⟨Int.le_trans (h.rows row hrow).1 hclock, (h.rows row hrow).2⟩
    · exact hourly_of_received hrow
  have hlast : Hourly (app.loadAllData run).database.lastTimestamp run.now := by
    rcases hsaves.lastTimestamp with heq | ⟨data, hdata, heq⟩
    · rw [heq]
      exact ⟨Int.le_trans h.last.1 hclock, h.last.2⟩
    · rw [← heq]
      exact hourly_of_received hdata
  refine ⟨hsaves.coherent, hbegun, hrows, hlast, ?_⟩
  intro c hc
  simp only [App.loadAllData, syncedAfter] at hc
  split at hc
  · -- nothing has changed
    next hquiet =>
    obtain ⟨hnone, hbelow⟩ := hquiet
    have hsynced := h.synced c hc
    have hsame : (app.loadAllData run).database = app.database := by
      simp only [App.loadAllData, hnone, saveBatches, List.isEmpty_nil, if_true]
    have hthreshold : (app.loadAllData run).previousHourThreshold =
        app.previousHourThreshold := by
      simp only [App.loadAllData, thresholdAfter]
      rw [if_neg]
      simpa using hbelow
    refine ⟨⟨hsynced.le_clock.1, Int.le_trans hsynced.le_clock.2 hclock⟩, ?_, ?_, ?_, ?_⟩
    · rw [hsame]
      exact hsynced.rows
    · rw [hsame]
      exact hsynced.last
    · rw [hthreshold]
      exact hsynced.threshold
    · exact Stored.loadAllData h hclock (Int.le_trans hsynced.le_clock.2 hclock) hsynced.stored
  · split at hc
    · next hgood =>
      obtain ⟨hkeeps, hleft, hthreshold⟩ := hgood
      obtain rfl := Option.some.inj hc
      refine ⟨⟨hbegun, Int.le_refl _⟩, fun row hrow => (hrows row hrow).1, hlast.1, ?_, ?_⟩
      · intro threshold heq
        have heq : app.thresholdAfter run.zoneOffset run.now = some threshold := heq
        rw [heq] at hthreshold
        exact of_decide_eq_true hthreshold
      · exact noHole_loadAllData h hclock hkeeps hleft
    · cases hc

theorem Inv.next {action : Action server} {app' : App V} (h : Inv server app)
    (hnext : (syncSystem server).next action app = some app') : Inv server app' := by
  simp only [syncSystem] at hnext
  split at hnext
  · next hclock =>
    obtain rfl := Option.some.inj hnext
    cases action with
    | loadAllData run => exact h.loadAllData hclock
    | restart now => exact h.restart hclock
  · cases hnext

/-- A run that completes as the code expects leaves no hole. -/
def CompletesWithoutHole (server : Server V) (app : App V) (action : Action server)
    (app' : App V) : Prop :=
  ∀ run : SyncRun server, action = .loadAllData run → run.cutAfter = none →
    app.KeepsUp run.now → NoHole server run.now app'.database

theorem Inv.completesWithoutHole {action : Action server} {app' : App V} (h : Inv server app)
    (hnext : (syncSystem server).next action app = some app') :
    CompletesWithoutHole server app action app' := by
  rintro run rfl hcomplete hkeeps
  simp only [syncSystem] at hnext
  split at hnext
  · next hclock =>
    obtain rfl := Option.some.inj hnext
    apply noHole_loadAllData h hclock hkeeps
    intro data hdata
    rw [leftOut, hcomplete] at hdata
    cases hdata
  · cases hnext

/-- In every run of the application, a synchronisation that completes leaves no hole provided that
it keeps up. -/
theorem sync_leaves_no_hole {tr : List (App V × App.Action server)} {app : App V}
    (h : Run (syncSystem server) tr app) :
    ∀ p ∈ tr, ∃ app', (syncSystem server).next p.2 p.1 = some app' ∧
      CompletesWithoutHole server p.1 p.2 app' := by
  have hinit : ∀ app : App V, (syncSystem server).init app → Inv server app :=
    fun _ hinit => inv_installed hinit.2 hinit.1
  have hstep : ∀ action (app app' : App V), Inv server app → True →
      (syncSystem server).next action app = some app' → Inv server app' :=
    fun _ _ _ hinv _ hnext => hinv.next hnext
  exact h.forall_steps hinit hstep (fun _ _ _ hinv _ hnext => hinv.completesWithoutHole hnext)
    (fun _ _ => trivial)

/-! ## A server with one instance -/

/-- Data of one hour, two weeks before the given one, and then of all hours from the one before. -/
def oneInstance (hour : ℤ) : Server ℕ where
  final k := if k = hour - 336 ∨ hour - 1 ≤ k then [("a", 1)] else []
  unique k := by
    split
    · exact List.nodup_singleton _
    · exact List.nodup_nil

/-- Until it is final, the value of an hour is zero. -/
def oneInstanceTable (hour now k : ℤ) : List (String × ℕ) :=
  if IsFinal k now then (oneInstance hour).final k
  else if k * millisPerHour ≤ now then ((oneInstance hour).final k).map fun item => (item.1, 0)
  else []

theorem oneInstanceTable_of_final {hour now k : ℤ} (hfinal : IsFinal k now) :
    oneInstanceTable hour now k = (oneInstance hour).final k := if_pos hfinal

theorem oneInstanceTable_begun {hour now k : ℤ} (hlt : now < k * millisPerHour) :
    oneInstanceTable hour now k = [] := by
  have hopen : ¬ IsFinal k now := by
    simp only [IsFinal, millisPerHour, millisPerMinute] at *
    omega
  rw [oneInstanceTable, if_neg hopen, if_neg (by omega)]

theorem mem_oneInstanceTable {hour now k : ℤ} (hfinal : IsFinal k now) (item : String × ℕ) :
    item ∈ oneInstanceTable hour now k ↔ item ∈ (oneInstance hour).final k := by
  rw [oneInstanceTable_of_final hfinal]

def oneInstanceAnswer (hour now : ℤ) : Answer (oneInstance hour) now where
  table := oneInstanceTable hour now
  of_final _ hfinal item := mem_oneInstanceTable hfinal item
  begun _ hlt := oneInstanceTable_begun hlt

/-- Minutes after the hour. -/
def sampleSync (hour minutes : ℤ) (cutAfter : Option ℕ) : App.Action (oneInstance hour) :=
  .loadAllData ⟨hour * millisPerHour + minutes * millisPerMinute, 0, oneInstanceAnswer hour _,
    cutAfter⟩

/-- In the afternoon of a day in August. -/
def august : ℤ := 400000

/-- The last hour of a leap year. -/
def newYearsEve : ℤ := 412007

theorem sync_leaves_no_hole_resumed :
    ∃ app app', (syncSystem (oneInstance august)).exec
        [sampleSync august 20 none, .restart (august * millisPerHour + 50 * millisPerMinute),
          sampleSync august 55 (some 0)]
        (.installed (august * millisPerHour)) = some app ∧
      (syncSystem (oneInstance august)).next (sampleSync august 80 none) app = some app' ∧
      app.fromTimestamp (sampleSync august 80 none).now ≠
        oldestTimestamp (sampleSync august 80 none).now ∧
      NoHole (oneInstance august) (sampleSync august 80 none).now app'.database := by
  have hruns : (((syncSystem (oneInstance august)).exec
      [sampleSync august 20 none, .restart (august * millisPerHour + 50 * millisPerMinute),
        sampleSync august 55 (some 0)] (.installed (august * millisPerHour))).any fun app =>
      app.clock ≤ (sampleSync august 80 none).now ∧
        app.fromTimestamp (sampleSync august 80 none).now ≠
          oldestTimestamp (sampleSync august 80 none).now ∧
        app.KeepsUp (sampleSync august 80 none).now) = true := by
    decide +kernel
  obtain ⟨app, hexec, happ⟩ := (Option.any_eq_true _ _).mp hruns
  obtain ⟨hclock, hresumes, hkeeps⟩ := of_decide_eq_true happ
  have hnext : (syncSystem (oneInstance august)).next (sampleSync august 80 none) app =
      some (app.act (sampleSync august 80 none)) := if_pos hclock
  have hrun := ((Run.init (S := syncSystem (oneInstance august))
    (s := .installed (august * millisPerHour)) ⟨rfl, by decide⟩).exec_trace hexec).step _ hnext
  refine ⟨app, _, hexec, hnext, hresumes, ?_⟩
  obtain ⟨app', hnext', hcomplete⟩ := sync_leaves_no_hole hrun (app, sampleSync august 80 none)
    (List.mem_append_right _ List.mem_cons_self)
  obtain rfl := Option.some.inj (hnext.symm.trans hnext')
  exact hcomplete _ rfl rfl hkeeps

/-- After some runs a final record is missing at the given time. -/
def LeavesHole (server : Server V) (actions : List (App.Action server)) (now : ℤ) : Prop :=
  ∃ tr app, Run (syncSystem server) tr app ∧ tr.map Prod.snd = actions ∧
    ¬ NoHole server now app.database

theorem leavesHole_of_exec {actions : List (App.Action server)} {now : ℤ}
    (installed hour : ℤ) (item : String × V) (stored : Option V) (hbegun : 0 ≤ installed)
    (hexec : ((syncSystem server).exec actions (.installed installed)).map
      (fun app => get app.database.instanceData (item.1, hour * millisPerHour)) = some stored)
    (hitem : item ∈ server.final hour) (hfinal : IsFinal hour now)
    (hold : oldestTimestamp now ≤ hour * millisPerHour) (hne : stored ≠ some item.2) :
    LeavesHole server actions now := by
  obtain ⟨app, hexec, hget⟩ := Option.map_eq_some_iff.mp hexec
  have hinit : (syncSystem server).init (.installed installed) := ⟨rfl, hbegun⟩
  obtain ⟨tr, hrun, hactions⟩ := (Run.init hinit).exec hexec
  refine ⟨tr, app, hrun, hactions, fun hno => hne ?_⟩
  rw [← hget]
  exact hno hour item hitem hfinal hold

/-- A run is cut short after its newest record, and the next one resumes from there; the threshold
is moved before the last hour is final; a day is missed at the end of a leap year. -/
theorem sync_leaves_hole :
    LeavesHole (oneInstance august)
        [sampleSync august 20 none, sampleSync august 200 (some 1), sampleSync august 205 none]
        (sampleSync august 205 none).now ∧
      LeavesHole (oneInstance august) [sampleSync august 5 none, sampleSync august 20 none]
        (sampleSync august 20 none).now ∧
      LeavesHole (oneInstance newYearsEve)
        [sampleSync newYearsEve 20 none, sampleSync newYearsEve 140 none]
        (sampleSync newYearsEve 140 none).now := by
  refine ⟨?_, ?_, ?_⟩
  · exact leavesHole_of_exec (august * millisPerHour) (august + 1) ("a", 1) none
      (by decide) (by decide +kernel) (by decide) (by decide) (by decide) (by decide)
  · exact leavesHole_of_exec (august * millisPerHour) (august - 1) ("a", 1) (some 0)
      (by decide) (by decide +kernel) (by decide) (by decide) (by decide) (by decide)
  · exact leavesHole_of_exec (newYearsEve * millisPerHour) newYearsEve ("a", 1) (some 0)
      (by decide) (by decide +kernel) (by decide) (by decide) (by decide) (by decide)

end NumentaApps.Taurus
