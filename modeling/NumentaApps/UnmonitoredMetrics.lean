import NumentaApps.MetricTransactions

/-!
# Unmonitored metrics carry no results

Every session that has written has the lock of the metric row by the time it commits, and the
tables do not change while one has it. So its commit does what its transaction does alone.
-/
namespace NumentaApps.AnomalyService
open Repository AnomalyLikelihood TransitionSystem

variable {S P τ V : Type}

/-! ## Transactions alone -/

theorem MetricUpdate.write_eq {row row' : MetricRow S P} {w : Option StatusWrite}
    (hverdict : ∀ w', w = some w' → w'.IsVerdict) (h : write row w = .ok row') :
    row' = row ∨ row'.status ≠ .unmonitored := by
  cases w with
  | none =>
    cases h
    exact Or.inl rfl
  | some w =>
    rw [write, MetricRow.setMetricStatus, if_pos (Or.inl rfl)] at h
    cases h
    right
    rcases hverdict w rfl with hw | hw
    · simp [hw]
    · simp [hw]

/-- No update of the metric row leaves it unmonitored, unless it changes nothing. -/
theorem MetricUpdate.apply_eq {row row' : MetricRow S P} {update : MetricUpdate S P}
    (h : update.apply row = .ok row') : row' = row ∨ row'.status ≠ .unmonitored := by
  cases update with
  | monitorMetric created modelSpec swarmParams =>
    rw [apply] at h
    cases hstart : row.startMonitoringWithRetries created modelSpec swarmParams with
    | error e =>
      rw [hstart] at h
      cases h
    | ok result =>
      rw [hstart] at h
      cases h
      obtain ⟨-, hstatus⟩ := MetricRow.startMonitoringWithRetries_eq hstart
      right
      rcases hstatus with hstatus | hstatus
      · simp [hstatus]
      · simp [hstatus]
  | startModel created status swarmParams =>
    rw [apply] at h
    cases hstart : row.startModelHelper created status swarmParams with
    | error e =>
      rw [hstart] at h
      cases h
    | ok result =>
      rw [hstart] at h
      cases h
      rcases MetricRow.startModelHelper_eq hstart with hrow | ⟨-, hrow⟩
      · exact Or.inl hrow
      · right
        simp [hrow]
  | commandResult method failure metricObj =>
    exact write_eq (fun _ hw => commandResultWrite_verdict hw) h
  | failedResult failure metricObj =>
    exact write_eq (fun _ hw => inferenceResultsWrite_verdict hw) h

theorem clearedRow_clearedRow (r : AnomalyDataRow τ V) :
    clearedRow (clearedRow r) = clearedRow r := rfl

theorem MetricTables.Clean.run {db db' : MetricTables S P τ V} (h : db.Clean)
    {transaction : Transaction S P τ V} (hrun : db.run transaction = some db') : db'.Clean := by
  cases transaction with
  | deleteModel =>
    cases hrun
    intro _
    refine ⟨rfl, ?_⟩
    intro r hr
    obtain ⟨r', -, rfl⟩ := List.mem_map.mp hr
    exact clearedRow_clearedRow r'
  | storeResults batch =>
    rw [MetricTables.run] at hrun
    split at hrun
    · cases hrun
    · next hactive =>
      cases hrun
      intro hstatus
      exact absurd (hstatus.symm.trans (not_not.mp hactive)) (by simp)
  | updateMetric update =>
    rw [MetricTables.run] at hrun
    cases hupdate : update.apply db.metric with
    | error e =>
      rw [hupdate] at hrun
      cases hrun
    | ok row =>
      rw [hupdate] at hrun
      cases hrun
      rcases MetricUpdate.apply_eq hupdate with rfl | hstatus
      · exact h
      · exact fun hstatus' => absurd hstatus' hstatus
  | streamMetricData rows =>
    cases hrun
    intro hstatus
    obtain ⟨hparams, hrows⟩ := h hstatus
    refine ⟨hparams, ?_⟩
    intro r hr
    rcases List.mem_append.mp hr with hr | hr
    · exact hrows r hr
    · obtain ⟨r', -, rfl⟩ := List.mem_map.mp hr
      rfl

/-! ## Where a session stands -/

/-- Without the lock of the metric row: only results were written. -/
inductive Waiting : Session S P τ V → Prop
  | deleteModel : Waiting ⟨.deleteModel, [.resetMetric, .clearRows], none, [], []⟩
  | storeResults (updated rest : List (AnomalyDataRow τ V)) (modelParams : P) :
      Waiting ⟨.storeResults ⟨updated ++ rest, modelParams⟩,
        rest.map .updateRow ++ [.checkActive, .saveModelParams modelParams], none, updated, []⟩
  | updateMetric (update : MetricUpdate S P) :
      Waiting ⟨.updateMetric update, [.updateMetric update], none, [], []⟩
  | streamMetricData (rows : List (MetricDataRow τ V)) :
      Waiting ⟨.streamMetricData rows, [.lockMetric, .insertRows rows], none, [], []⟩

/-- With the lock of the metric row, over the tables as they were when it was taken. -/
inductive Holding (db : MetricTables S P τ V) : Session S P τ V → Prop
  | resetDone : Holding db ⟨.deleteModel, [.clearRows], some db.metric.deleteModel, [], []⟩
  | clearing (cleared rest : List (AnomalyDataRow τ V)) (hrows : db.rows = cleared ++ rest) :
      Holding db ⟨.deleteModel, rest.map .clearRow, some db.metric.deleteModel,
        cleared.map clearedRow, []⟩
  | activeChecked (batch : ResultBatch P τ V) (hactive : db.metric.status = .active) :
      Holding db ⟨.storeResults batch, [.saveModelParams batch.modelParams], none,
        batch.metricDataRows, []⟩
  | paramsSaved (batch : ResultBatch P τ V) (hactive : db.metric.status = .active) :
      Holding db ⟨.storeResults batch, [],
        some { db.metric with modelParams := some batch.modelParams }, batch.metricDataRows, []⟩
  | metricUpdated (update : MetricUpdate S P) (row : MetricRow S P)
      (happly : update.apply db.metric = .ok row) :
      Holding db ⟨.updateMetric update, [], some row, [], []⟩
  | metricLocked (rows : List (MetricDataRow τ V)) :
      Holding db ⟨.streamMetricData rows, [.insertRows rows], none, [], []⟩
  | rowsInserted (rows : List (MetricDataRow τ V)) :
      Holding db ⟨.streamMetricData rows, [], none, [], rows.map unscoredRow⟩

theorem waiting_start (transaction : Transaction S P τ V) : Waiting (.start transaction) := by
  cases transaction with
  | deleteModel => exact .deleteModel
  | storeResults batch => exact .storeResults [] batch.metricDataRows batch.modelParams
  | updateMetric update => exact .updateMetric update
  | streamMetricData rows => exact .streamMetricData rows

theorem Waiting.todo_ne_nil {session : Session S P τ V} (h : Waiting session) :
    session.todo ≠ [] := by
  cases h with
  | deleteModel => simp
  | storeResults updated rest modelParams => simp
  | updateMetric update => simp
  | streamMetricData rows => simp

section Steps

variable {db : MetricTables S P τ V} {session session' : Session S P τ V}
  {statement : Statement S P τ V} {todo : List (Statement S P τ V)}

/-- The first lock of the metric row is taken over the committed tables. -/
theorem Waiting.execute (h : Waiting session) (htodo : session.todo = statement :: todo)
    (hexec : session.execute db todo statement = .ok session') :
    if statement.locksMetric then Holding db session' else Waiting session' := by
  cases h with
  | deleteModel =>
    cases htodo
    cases hexec
    exact .resetDone
  | storeResults updated rest modelParams =>
    cases rest with
    | nil =>
      cases htodo
      rw [Session.execute] at hexec
      split at hexec
      · cases hexec
      · next hactive =>
        cases hexec
        have hchecked : Holding db _ :=
          .activeChecked ⟨updated ++ [], modelParams⟩ (not_not.mp hactive)
        rw [List.append_nil] at hchecked ⊢
        exact hchecked
    | cons metricData rest =>
      cases htodo
      cases hexec
      have hwaiting := Waiting.storeResults (S := S) (updated ++ [metricData]) rest modelParams
      rw [List.append_assoc] at hwaiting
      exact hwaiting
  | updateMetric update =>
    cases htodo
    rw [Session.execute] at hexec
    cases happly : update.apply db.metric with
    | error e =>
      simp only [Session.view, Option.getD_none, happly] at hexec
      cases hexec
    | ok row =>
      simp only [Session.view, Option.getD_none, happly] at hexec
      cases hexec
      exact .metricUpdated update row happly
  | streamMetricData rows =>
    cases htodo
    cases hexec
    exact .metricLocked rows

theorem Holding.execute (h : Holding db session) (htodo : session.todo = statement :: todo)
    (hexec : session.execute db todo statement = .ok session') : Holding db session' := by
  cases h with
  | resetDone =>
    cases htodo
    cases hexec
    have hclearing : Holding db _ := .clearing [] db.rows rfl
    simpa [Session.view] using hclearing
  | clearing cleared rest hrows =>
    cases rest with
    | nil => cases htodo
    | cons metricData rest =>
      cases htodo
      cases hexec
      have hclearing : Holding db _ := .clearing (cleared ++ [metricData]) rest (by simp [hrows])
      simpa using hclearing
  | activeChecked batch hactive =>
    cases htodo
    cases hexec
    exact .paramsSaved batch hactive
  | paramsSaved batch hactive => cases htodo
  | metricUpdated update row happly => cases htodo
  | metricLocked rows =>
    cases htodo
    cases hexec
    exact .rowsInserted rows
  | rowsInserted rows => cases htodo

/-- Rows that are all overwritten without results. -/
theorem foldl_clearedRow (rows : List (AnomalyDataRow τ V)) :
    (rows.map clearedRow).foldl updateMetricDataColumns rows = rows.map clearedRow := by
  have hclear : ∀ (written : List (AnomalyDataRow τ V)) (r : AnomalyDataRow τ V),
      (∀ w ∈ written, clearedRow w = w) → r.rowid ∈ written.map (·.rowid) ∨ clearedRow r = r →
        storedRow written r = clearedRow r := by
    intro written
    induction written with
    | nil =>
      intro r _ hr
      rcases hr with hr | hr
      · cases hr
      · exact hr.symm
    | cons w written ih =>
      intro r hwritten hr
      obtain ⟨hw, hwritten⟩ := List.forall_mem_cons.mp hwritten
      rw [storedRow, List.foldl_cons]
      by_cases hid : r.rowid = w.rowid
      · have hwith : withResult w r = clearedRow r := by
          rw [← hw]
          rfl
        rw [if_pos hid, hwith]
        exact ih (clearedRow r) hwritten (Or.inr (clearedRow_clearedRow r))
      · rw [if_neg hid]
        refine ih r hwritten (hr.imp_left fun hmem => ?_)
        exact (List.mem_cons.mp hmem).resolve_left hid
  rw [foldl_updateMetricDataColumns]
  apply List.map_congr_left
  intro r hr
  refine hclear _ r ?_ (Or.inl ?_)
  · intro w hw
    obtain ⟨r', -, rfl⟩ := List.mem_map.mp hw
    exact clearedRow_clearedRow r'
  · exact List.mem_map.mpr ⟨clearedRow r, List.mem_map_of_mem hr, rfl⟩

/-- What is committed is what the transaction does alone. -/
theorem Holding.run_eq (h : Holding db session) (htodo : session.todo = []) :
    db.run session.transaction = some (session.view db) := by
  cases h with
  | resetDone => cases htodo
  | clearing cleared rest hrows =>
    have hrest : rest = [] := List.map_eq_nil_iff.mp htodo
    rw [hrest, List.append_nil] at hrows
    simp [MetricTables.run, Session.view, ← hrows, foldl_clearedRow]
  | activeChecked batch hactive => cases htodo
  | paramsSaved batch hactive => simp [MetricTables.run, Session.view, hactive]
  | metricUpdated update row happly => simp [MetricTables.run, Session.view, happly]
  | metricLocked rows => cases htodo
  | rowsInserted rows => simp [MetricTables.run, Session.view]

end Steps

/-! ## The server -/

namespace Server

/-- Sessions in order, at most one of them with the lock of the metric row. -/
structure Inv (s : Server S P τ V) : Prop where
  clean : s.db.Clean
  sessions : ∀ i session, s.sessions i = some session →
    if s.metricLock = some i then Holding s.db session else Waiting session
  lock : ∀ i, s.metricLock = some i → s.sessions i ≠ none

/-- The tables are kept, or a session commits what its transaction does alone. -/
def AtomicStep (s : Server S P τ V) (a : Action S P τ V) (t : Server S P τ V) : Prop :=
  t.db = s.db ∨ ∃ i session, a = .commit i ∧ s.sessions i = some session ∧
    s.db.run session.transaction = some t.db

variable {s t : Server S P τ V} {i : ℕ}

theorem close_lock (h : ∀ j, s.metricLock = some j → s.sessions j ≠ none) (i : ℕ) :
    ∀ j, (s.close i).metricLock = some j → (s.close i).sessions j ≠ none := by
  intro j hj
  by_cases hlock : s.metricLock = some i
  · simp [Server.close, hlock] at hj
  · have hj' : s.metricLock = some j := by simpa [Server.close, hlock] using hj
    have hne : j ≠ i := by
      rintro rfl
      exact hlock hj'
    simpa [Server.close, Function.update_of_ne hne] using h j hj'

theorem Inv.close (h : s.Inv) (i : ℕ) : (s.close i).Inv := by
  refine ⟨h.clean, ?_, close_lock h.lock i⟩
  intro j session hj
  have hne : j ≠ i := by
    rintro rfl
    simp [Server.close] at hj
  have hj' : s.sessions j = some session := by
    simpa [Server.close, Function.update_of_ne hne] using hj
  have hsession := h.sessions j session hj'
  by_cases hlock : s.metricLock = some i
  · have hother : s.metricLock ≠ some j := by
      rw [hlock]
      exact fun heq => hne (Option.some.inj heq).symm
    rw [if_neg hother] at hsession
    simpa [Server.close, hlock] using hsession
  · simpa [Server.close, hlock] using hsession

/-- A session that has all its statements behind it has the lock. -/
theorem Inv.holding (h : s.Inv) {session : Session S P τ V} (hi : s.sessions i = some session)
    (htodo : session.todo = []) : s.metricLock = some i ∧ Holding s.db session := by
  have hsession := h.sessions i session hi
  by_cases hlock : s.metricLock = some i
  · rw [if_pos hlock] at hsession
    exact ⟨hlock, hsession⟩
  · rw [if_neg hlock] at hsession
    exact absurd htodo hsession.todo_ne_nil

theorem Inv.commit (h : s.Inv) {session : Session S P τ V} (hi : s.sessions i = some session)
    (htodo : session.todo = []) :
    Inv { s.close i with db := session.view s.db } ∧
      s.db.run session.transaction = some (session.view s.db) := by
  obtain ⟨hlock, hholding⟩ := h.holding hi htodo
  have hrun := hholding.run_eq htodo
  refine ⟨⟨h.clean.run hrun, ?_, close_lock h.lock i⟩, hrun⟩
  intro j session' hj
  have hclosed := (h.close i).sessions j session' hj
  -- the lock is free now, so no session that is left speaks of the tables
  have hfree : (s.close i).metricLock = none := by simp [Server.close, hlock]
  simpa [hfree] using hclosed

theorem Inv.execute (h : s.Inv) {session session' : Session S P τ V}
    {statement : Statement S P τ V} {todo : List (Statement S P τ V)}
    (hi : s.sessions i = some session) (htodo : session.todo = statement :: todo)
    (hmay : s.mayExecute i statement) (hexec : session.execute s.db todo statement = .ok session') :
    Inv { s.acquire i statement with
      sessions := Function.update s.sessions i (some session') } := by
  have hsession := h.sessions i session hi
  have hlock : statement.locksMetric → s.metricLock = none ∨ s.metricLock = some i := by
    intro hlocks
    have hfree := (Bool.and_eq_true_iff.mp hmay).1
    simpa [hlocks, isFree] using hfree
  refine ⟨h.clean, ?_, ?_⟩
  rotate_left
  · intro j hj
    by_cases hji : j = i
    · simp [hji]
    · have hj' : s.metricLock = some j := by
        cases hlocks : statement.locksMetric with
        | false => simpa [acquire, hlocks] using hj
        | true =>
          simp only [acquire, hlocks, if_true] at hj
          exact absurd (Option.some.inj hj).symm hji
      simpa [Function.update_of_ne hji] using h.lock j hj'
  intro j session'' hj
  by_cases hji : j = i
  · subst hji
    obtain rfl : session' = session'' := by simpa using hj
    by_cases hheld : s.metricLock = some j
    · rw [if_pos hheld] at hsession
      have hnext := hsession.execute htodo hexec
      simpa [acquire, hheld] using hnext
    · rw [if_neg hheld] at hsession
      have hnext := hsession.execute htodo hexec
      cases hlocks : statement.locksMetric with
      | true => simpa [acquire, hlocks] using hnext
      | false => simpa [acquire, hlocks, hheld] using hnext
  · have hj' : s.sessions j = some session'' := by
      simpa [Function.update_of_ne hji] using hj
    have hother := h.sessions j session'' hj'
    cases hlocks : statement.locksMetric with
    | false => simpa [acquire, hlocks] using hother
    | true =>
      have hnot : s.metricLock ≠ some j := by
        rcases hlock hlocks with hnone | hsome
        · simp [hnone]
        · rw [hsome]
          exact fun heq => hji (Option.some.inj heq).symm
      rw [if_neg hnot] at hother
      have hnew : some i ≠ some j := fun heq => hji (Option.some.inj heq).symm
      simpa [acquire, hlocks, hnew] using hother

theorem Inv.begin (h : s.Inv) (transaction : Transaction S P τ V) (hi : s.sessions i = none) :
    Inv { s with sessions := Function.update s.sessions i (some (.start transaction)) } := by
  have hfree : s.metricLock ≠ some i := fun hlock => h.lock i hlock hi
  refine ⟨h.clean, ?_, ?_⟩
  rotate_left
  · intro j hj
    have hji : j ≠ i := by
      rintro rfl
      exact hfree hj
    simpa [Function.update_of_ne hji] using h.lock j hj
  intro j session hj
  by_cases hji : j = i
  · subst hji
    obtain rfl : Session.start transaction = session := by simpa using hj
    simpa [hfree] using waiting_start transaction
  · exact h.sessions j session (by simpa [Function.update_of_ne hji] using hj)

/-- One step, whichever session takes it. -/
theorem Inv.act {a : Action S P τ V} (h : s.Inv) (hact : act a s = some t) :
    t.Inv ∧ AtomicStep s a t := by
  cases a with
  | begin i transaction =>
    rw [Server.act] at hact
    cases hi : s.sessions i with
    | some session => simp [hi] at hact
    | none =>
      obtain rfl : _ = t := by simpa [hi] using hact
      exact ⟨h.begin transaction hi, Or.inl rfl⟩
  | execute i =>
    obtain ⟨session, hi, hact⟩ := Option.bind_eq_some_iff.mp hact
    cases htodo : session.todo with
    | nil => simp [htodo] at hact
    | cons statement todo =>
      simp only [htodo] at hact
      split at hact
      · next hmay =>
        cases hexec : session.execute s.db todo statement with
        | ok session' =>
          obtain rfl : _ = t := by simpa [hexec] using hact
          exact ⟨h.execute hi htodo hmay hexec, Or.inl rfl⟩
        | error e =>
          obtain rfl : _ = t := by simpa [hexec] using hact
          exact ⟨h.close i, Or.inl rfl⟩
      · cases hact
  | commit i =>
    obtain ⟨session, hi, hact⟩ := Option.bind_eq_some_iff.mp hact
    split at hact
    · next htodo =>
      obtain ⟨hinv, hrun⟩ := h.commit hi (List.isEmpty_iff.mp htodo)
      cases hact
      exact ⟨hinv, Or.inr ⟨i, session, rfl, hi, hrun⟩⟩
    · cases hact
  | rollback i =>
    obtain ⟨session, -, rfl⟩ := Option.map_eq_some_iff.mp hact
    exact ⟨h.close i, Or.inl rfl⟩

theorem inv_init (h : (serverSystem S P τ V).init s) : s.Inv := by
  obtain ⟨hclean, hsessions, hlock, -⟩ := h
  refine ⟨hclean, ?_, ?_⟩
  · intro i session hi
    simp [hsessions] at hi
  · intro i hi
    simp [hlock] at hi

end Server

/-- In every committed state an unmonitored metric has no model params and no results, and the
committed tables only ever change by a whole transaction. -/
theorem unmonitored_metrics_clean {tr : List (Server S P τ V × Server.Action S P τ V)}
    {s : Server S P τ V} (h : Run (serverSystem S P τ V) tr s) :
    (∀ t ∈ statesOf tr s, t.db.Clean) ∧
      ∀ p ∈ tr, ∃ t, (serverSystem S P τ V).next p.2 p.1 = some t ∧
        Server.AtomicStep p.1 p.2 t := by
  have hinit : ∀ s, (serverSystem S P τ V).init s → s.Inv := fun _ hs => Server.inv_init hs
  have hstep : ∀ a s t, s.Inv → True → (serverSystem S P τ V).next a s = some t → t.Inv :=
    fun _ _ _ hI _ hn => (hI.act hn).1
  constructor
  · exact h.forall_states hinit hstep (fun _ hI => hI.clean) (fun _ _ => trivial)
  · exact h.forall_steps hinit hstep (fun _ _ _ hI _ hn => (hI.act hn).2) (fun _ _ => trivial)

/-- An active metric with one row. -/
def monitoredTables : MetricTables ℕ ℕ ℕ ℕ :=
  ⟨⟨.active, none, some 5, some 7⟩, [unscoredRow ⟨1, 10, 100⟩]⟩

def idleServer : Server ℕ ℕ ℕ ℕ := ⟨monitoredTables, fun _ => none, none, fun _ => none⟩

/-- A result batch is half written when the metric is unmonitored, and is rolled back when the two
transactions wait for each other. -/
def crossedActions : List (Server.Action ℕ ℕ ℕ ℕ) :=
  [.begin 0 (.storeResults ⟨[⟨⟨1, 10, 100⟩, some 1, some 1, some 3⟩], 8⟩), .execute 0,
    .begin 1 .deleteModel, .execute 1, .execute 1, .rollback 0, .execute 1, .commit 1]

theorem unmonitored_metrics_clean_crossed :
    ∃ s, (serverSystem ℕ ℕ ℕ ℕ).exec crossedActions idleServer = some s ∧
      (∀ t ∈ statesOf ((serverSystem ℕ ℕ ℕ ℕ).trace crossedActions idleServer) s, t.db.Clean) ∧
      ∀ p ∈ (serverSystem ℕ ℕ ℕ ℕ).trace crossedActions idleServer,
        ∃ t, (serverSystem ℕ ℕ ℕ ℕ).next p.2 p.1 = some t ∧ Server.AtomicStep p.1 p.2 t := by
  have hinit : (serverSystem ℕ ℕ ℕ ℕ).init idleServer :=
    ⟨fun h => MetricStatus.noConfusion h, rfl, rfl, rfl⟩
  have hexec : ∃ s, (serverSystem ℕ ℕ ℕ ℕ).exec crossedActions idleServer = some s := ⟨_, rfl⟩
  obtain ⟨s, hs⟩ := hexec
  have hrun := (Run.init hinit).exec_trace hs
  exact ⟨s, hs, unmonitored_metrics_clean hrun⟩

end NumentaApps.AnomalyService
