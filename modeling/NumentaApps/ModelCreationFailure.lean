import NumentaApps.ModelCreation

/-!
# A model that cannot be created

The status `ERROR` is written in the transaction that the exception of `createHTMModel` then rolls
back, whichever of the two call chains it takes.
-/
namespace NumentaApps.ScalarMetric
open Repository

variable {S P α : Type}

/-- The two call chains that reach `createHTMModel`. -/
inductive Call (S : Type) where
  | startModel
  | startMonitoringWithRetries (modelSpec : ModelSpec S)
  deriving DecidableEq, Repr

namespace Call

/-- What the call leaves, raised or not. -/
def run (metricId : String) (swarmParams : P) (attempt : Attempt) (later : List Attempt)
    (db : MetricTable S P) : Call S → Except PyException Unit × MetricTable S P
  | startModel =>
      let (result, db) := (ScalarMetric.startModel metricId (some swarmParams) attempt later).run db
      (result.map fun _ => (), db)
  | startMonitoringWithRetries modelSpec =>
      (ScalarMetric.startMonitoringWithRetries metricId modelSpec (some swarmParams)
        attempt later).run db

/-- The metric is one that the call starts the model of. -/
def Starts (row : MetricRow S P) : Call S → Prop
  | startModel => row.status = .unmonitored ∨ row.status = .pendingData
  | startMonitoringWithRetries _ =>
      row.datasource = customDatasource ∧ row.status = .unmonitored

/-- What the call asks to be saved. -/
def save (swarmParams : P) (row : MetricRow S P) : Call S → MetricRow S P
  | startModel => { row with modelParams := some swarmParams }
  | startMonitoringWithRetries modelSpec =>
      { modelSpec.save row with modelParams := some swarmParams }

end Call

/-- The metric is in `ERROR` with the exception's `repr`, and what was to be saved with it was
saved as a whole or not at all. -/
def FailureRecorded (call : Call S) (metricId : String) (swarmParams : P) (e : OtherException)
    (row : MetricRow S P) (db : MetricTable S P) : Prop :=
  db metricId = some { row with status := .error, message := some e.repr } ∨
    db metricId = some { call.save swarmParams row with status := .error, message := some e.repr }

/-- `createHTMModel` raises something that is not retried, after attempts that the database ended
with transient errors. -/
inductive CreationFails (e : OtherException) : Attempt → List Attempt → Prop
  | now {attempt : Attempt} {later : List Attempt} (hdb : attempt.databaseError = none)
      (hcreate : attempt.createHTMModel = .error e) : CreationFails e attempt later
  | retried {attempt next : Attempt} {later : List Attempt} {dbError : OtherException}
      (hdb : attempt.databaseError = some dbError) (htransient : dbError.transient = true)
      (hnext : CreationFails e next later) : CreationFails e attempt (next :: later)

section Statements

variable {db : MetricTable S P} {row : MetricRow S P} {metricId : String}

theorem run_getMetric (h : db metricId = some row) :
    (getMetric metricId : Connection S P _).run db = (Except.ok row, db) := by
  refine (run_bind_ok (rfl : (get : Connection S P _).run db = (Except.ok db, db))).trans ?_
  simp only [h]
  rfl

theorem updateWhere_of_true (condition : MetricRow S P → Bool)
    (fields : MetricRow S P → MetricRow S P) (h : db metricId = some row)
    (hrow : condition row = true) :
    updateWhere metricId condition fields db metricId = some (fields row) := by
  simp [updateWhere, h, hrow]

theorem run_setMetricStatus (h : db metricId = some row) (status : MetricStatus)
    (message : Option String) :
    ∃ db', (setMetricStatus metricId status message none : Connection S P _).run db =
      (Except.ok (), db') := by
  refine ⟨updateWhere metricId (fun _ => true) (fun row =>
    { row with status := status, message := message }) db, ?_⟩
  refine (run_bind_ok (rfl : (get : Connection S P _).run db = (Except.ok db, db))).trans ?_
  refine (run_bind_ok rfl).trans ?_
  simp only [h]
  rfl

/-- It has written the status by the time it raises. -/
theorem run_createModel (attempt : Attempt) (swarmParams : P) (h : db metricId = some row)
    {e : OtherException} (hcreate : attempt.createHTMModel = .error e) :
    ∃ db', (createModel attempt metricId row.status swarmParams).run db =
      (Except.error (.other e), db') := by
  have hupdated := updateWhere_of_true (fun r => r.status = row.status)
    (fun row => { row with status := .createPending, modelParams := some swarmParams }) h
    (decide_eq_true rfl)
  obtain ⟨db', hset⟩ := run_setMetricStatus hupdated .error (some e.repr)
  refine ⟨db', ?_⟩
  refine (run_bind_ok rfl).trans ((run_bind_ok (run_getMetric hupdated)).trans ?_)
  simp only [ne_eq, not_true_eq_false, if_false, hcreate]
  exact (run_bind_ok rfl).trans ((run_bind_ok hset).trans rfl)

theorem run_startModelHelper (attempt : Attempt) (swarmParams : P) (h : db metricId = some row)
    (hstatus : row.status = .unmonitored ∨ row.status = .pendingData) {e : OtherException}
    (hcreate : attempt.createHTMModel = .error e) :
    ∃ db', (startModelHelper attempt metricId row (some swarmParams)).run db =
      (Except.error (.other e), db') := by
  obtain ⟨db', hcreated⟩ := run_createModel attempt swarmParams h hcreate
  refine ⟨db', ?_⟩
  rcases hstatus with hs | hs
  · rw [hs] at hcreated
    simpa only [startModelHelper, hs] using hcreated
  · rw [hs] at hcreated
    simpa only [startModelHelper, hs] using hcreated

theorem run_startModelOnce {attempt : Attempt} (swarmParams : P) (h : db metricId = some row)
    (hstatus : row.status = .unmonitored ∨ row.status = .pendingData) {e : OtherException}
    (hdb : attempt.databaseError = none) (hcreate : attempt.createHTMModel = .error e) :
    (startModelOnce metricId (some swarmParams) attempt).run db =
      (Except.error (.other e), db) := by
  obtain ⟨db', hhelper⟩ := run_startModelHelper attempt swarmParams h hstatus hcreate
  simp only [startModelOnce, attempted, hdb]
  apply transaction_run_error
  exact (run_bind_ok (run_getMetric h)).trans (run_bind_error hhelper)

theorem run_startMonitoringOnce {attempt : Attempt} (modelSpec : ModelSpec S) (swarmParams : P)
    (h : db metricId = some row) (hdatasource : row.datasource = customDatasource)
    (hstatus : row.status = .unmonitored) {e : OtherException}
    (hdb : attempt.databaseError = none) (hcreate : attempt.createHTMModel = .error e) :
    (startMonitoringOnce metricId modelSpec (some swarmParams) attempt).run db =
      (Except.error (.other e), db) := by
  have hsaved := updateWhere_of_true (fun _ => true) modelSpec.save h rfl
  have hstatus' : (modelSpec.save row).status = .unmonitored := hstatus
  obtain ⟨db', hhelper⟩ :=
    run_startModelHelper attempt swarmParams hsaved (Or.inl hstatus') hcreate
  have hmonitoring : (startMonitoring attempt metricId (some swarmParams)).run
      (updateWhere metricId (fun _ => true) modelSpec.save db) =
        (Except.error (.other e), db') := by
    refine (run_bind_ok (run_getMetric hsaved)).trans ?_
    simpa only [hstatus', ne_eq, not_true_eq_false, if_false] using hhelper
  simp only [startMonitoringOnce, attempted, hdb]
  apply transaction_run_error
  refine (run_bind_ok (run_getMetric h)).trans ?_
  simp only [hdatasource, hstatus, ne_eq, not_true_eq_false, if_false]
  exact (run_bind_ok rfl).trans (run_bind_error hmonitoring)

theorem run_attempted_databaseError {attempt : Attempt} {e : OtherException}
    (body : Connection S P α) (hdb : attempt.databaseError = some e) :
    (attempted attempt body).run db = (Except.error (.other e), db) := by
  simp only [attempted, hdb]
  exact transaction_run_error rfl

/-- The exception comes out of the last attempt, over the tables of the first. -/
theorem CreationFails.run_retry {e : OtherException} {attempt : Attempt} {later : List Attempt}
    (h : CreationFails e attempt later) (db : MetricTable S P)
    {execute : Attempt → Connection S P α}
    (hcreate : ∀ attempt : Attempt, attempt.databaseError = none →
      attempt.createHTMModel = .error e →
        (execute attempt).run db = (Except.error (.other e), db))
    (hdb : ∀ (attempt : Attempt) (dbError : OtherException),
      attempt.databaseError = some dbError →
        (execute attempt).run db = (Except.error (.other dbError), db))
    (hfinal : e.transient = false) :
    (retryOnTransientErrors execute attempt later).run db = (Except.error (.other e), db) := by
  induction h with
  | @now attempt later hnone hfails =>
    have hrun := hcreate attempt hnone hfails
    cases later with
    | nil => exact hrun
    | cons next later =>
      simp only [ExceptT.run, retryOnTransientErrors] at hrun ⊢
      rw [hrun]
      simp [PyException.transient, hfinal]
  | @retried attempt next later dbError hsome htransient hnext ih =>
    have hrun := hdb attempt dbError hsome
    simp only [ExceptT.run, retryOnTransientErrors] at hrun ih ⊢
    rw [hrun]
    simpa [PyException.transient, htransient] using ih

end Statements

/-- The exception reaches the caller, the committed table is as before, and the failure is not in
it. -/
theorem creation_failure_not_recorded (call : Call S) (metricId : String) (swarmParams : P)
    (db : MetricTable S P) {row : MetricRow S P} (hrow : db metricId = some row)
    (hstarts : call.Starts row) {e : OtherException} (htransient : e.transient = false)
    {attempt : Attempt} {later : List Attempt} (hfails : CreationFails e attempt later) :
    call.run metricId swarmParams attempt later db = (.error (.other e), db) ∧
      ¬FailureRecorded call metricId swarmParams e row db := by
  have hstatus : row.status ≠ .error := by
    cases call with
    | startModel =>
      rcases hstarts with hs | hs
      · simp [hs]
      · simp [hs]
    | startMonitoringWithRetries modelSpec => simp [hstarts.2]
  constructor
  · cases call with
    | startModel =>
      have hrun := hfails.run_retry db
        (fun attempt hdb hcreate => run_startModelOnce swarmParams hrow hstarts hdb hcreate)
        (fun attempt dbError hdb => run_attempted_databaseError _ hdb) htransient
      simp only [Call.run, startModel, hrun]
      rfl
    | startMonitoringWithRetries modelSpec =>
      exact hfails.run_retry db
        (fun attempt hdb hcreate =>
          run_startMonitoringOnce modelSpec swarmParams hrow hstarts.1 hstarts.2 hdb hcreate)
        (fun attempt dbError hdb => run_attempted_databaseError _ hdb) htransient
  · intro hrecorded
    rcases hrecorded with hdb | hdb
    · exact hstatus (congrArg MetricRow.status (Option.some.inj (hrow.symm.trans hdb)))
    · exact hstatus (congrArg MetricRow.status (Option.some.inj (hrow.symm.trans hdb)))

/-! ### A message broker that cannot be reached -/

def connectionClosed : OtherException := ⟨false, "AMQPConnectionError()"⟩

/-- The database ends the first attempt, and the broker is not there in the second. -/
def unreachableBroker : Attempt × List Attempt :=
  (⟨some ⟨true, "OperationalError()"⟩, .ok (), .ok ()⟩,
    [⟨none, .error connectionClosed, .ok ()⟩])

def pendingRow : MetricRow ℕ ℕ := ⟨customDatasource, none, some 5, .pendingData, none, none⟩

def pendingTable : MetricTable ℕ ℕ := fun uid => if uid = "m1" then some pendingRow else none

theorem creation_failure_not_recorded_pending :
    Call.startModel.run "m1" 7 unreachableBroker.1 unreachableBroker.2 pendingTable =
        (.error (.other connectionClosed), pendingTable) ∧
      ¬FailureRecorded .startModel "m1" 7 connectionClosed pendingRow pendingTable :=
  creation_failure_not_recorded .startModel "m1" 7 pendingTable (if_pos rfl) (Or.inr rfl) rfl
    (.retried rfl rfl (.now rfl rfl))

/-- Monitoring of an unmonitored metric starts and fails, and the metric stays unmonitored. -/
theorem unmonitored_after_failure :
    ∃ db' : MetricTable ℕ ℕ,
      (Call.startMonitoringWithRetries ⟨5, none⟩).run "m1" 7 ⟨none, .error connectionClosed, .ok ()⟩
          [] (fun _ => some { pendingRow with status := .unmonitored }) =
        (.error (.other connectionClosed), db') ∧
      ( db' "m1").map (·.status) = some .unmonitored ∧
      ¬FailureRecorded (.startMonitoringWithRetries ⟨5, none⟩) "m1" 7 connectionClosed
        { pendingRow with status := .unmonitored } db' := by
  refine ⟨fun _ => some { pendingRow with status := .unmonitored }, rfl, rfl, ?_⟩
  intro hrecorded
  rcases hrecorded with hdb | hdb
  · exact MetricStatus.noConfusion (congrArg MetricRow.status (Option.some.inj hdb))
  · exact MetricStatus.noConfusion (congrArg MetricRow.status (Option.some.inj hdb))

end NumentaApps.ScalarMetric
