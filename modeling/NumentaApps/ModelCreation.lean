import NumentaApps.MetricRepository

/-!
# Starting the model of a metric

`startModel` and the custom adapter's `_startMonitoringWithRetries`, statement by statement. What a
transaction has written is seen by its own later statements, also once an exception is under way,
and is dropped where the exception leaves its `begin()` block.
-/
namespace NumentaApps.ScalarMetric
open Repository

/-- An exception that comes from the database or from a call to other code, by its `repr`;
`retryOnTransientErrors` tries again if it is transient. -/
structure OtherException where
  transient : Bool
  repr : String
  deriving DecidableEq, Repr

inductive PyException where
  | objectNotFound
  | metricAlreadyMonitored
  | metricStatusChanged
  | typeError
  | valueError
  | assertionError
  | other (e : OtherException)
  deriving DecidableEq, Repr

def PyException.transient : PyException → Bool
  | other e => e.transient
  | _ => false

/-- The columns of a metric that starting its model reads and writes. -/
structure MetricRow (S P : Type) where
  datasource : String
  server : Option String
  parameters : Option S
  status : MetricStatus
  message : Option String
  modelParams : Option P
  deriving DecidableEq, Repr

/-- The metric table, by uid. -/
abbrev MetricTable (S P : Type) := String → Option (MetricRow S P)

variable {S P α : Type}

/-- Statements on one connection. -/
abbrev Connection (S P α : Type) := ExceptT PyException (StateM (MetricTable S P)) α

/-- A `begin()` block: an exception that leaves it rolls the transaction back. -/
def transaction (body : Connection S P α) : Connection S P α :=
  fun db =>
    match body.run db with
    | (.ok a, db') => (.ok a, db')
    | (.error e, _) => (.error e, db)

/-! ## The repository -/

def getMetric (metricId : String) : Connection S P (MetricRow S P) := do
  match (← get) metricId with
  | some row => return row
  | none => throw .objectNotFound

def getMetricWithUpdateLock (metricId : String) : Connection S P (MetricRow S P) :=
  getMetric metricId

/-- The table after an update of the rows that meet a condition. -/
def updateWhere (metricId : String) (condition : MetricRow S P → Bool)
    (fields : MetricRow S P → MetricRow S P) (db : MetricTable S P) : MetricTable S P :=
  fun uid =>
    if uid = metricId then (db uid).map fun row => if condition row then fields row else row
    else db uid

def updateMetricColumns (metricId : String) (fields : MetricRow S P → MetricRow S P) :
    Connection S P Unit :=
  modify (updateWhere metricId (fun _ => true) fields)

def updateMetricColumnsForRefStatus (metricId : String) (refStatus : MetricStatus)
    (fields : MetricRow S P → MetricRow S P) : Connection S P Unit :=
  modify (updateWhere metricId (fun row => row.status = refStatus) fields)

/-- It raises if no row matches. -/
def setMetricStatus (metricId : String) (status : MetricStatus) (message : Option String)
    (refStatus : Option MetricStatus) : Connection S P Unit := do
  let isMatch : MetricRow S P → Bool := fun row => refStatus.all fun ref => row.status = ref
  let row := (← get) metricId
  modify (updateWhere metricId isMatch fun row => { row with status := status, message := message })
  if !row.any isMatch then throw .objectNotFound

/-! ## Starting the model -/

/-- What the calls to other code do during one attempt; the database may also raise at some
statement, which then ends the attempt. -/
structure Attempt where
  databaseError : Option OtherException
  createHTMModel : Except OtherException Unit
  sendBacklogDataToModel : Except OtherException Unit

def raised (result : Except OtherException Unit) : Connection S P Unit :=
  match result with
  | .ok () => pure ()
  | .error e => throw (.other e)

/-- The part of `_startModelHelper` for a metric that has no model yet. -/
def createModel (attempt : Attempt) (metricId : String) (refStatus : MetricStatus)
    (swarmParams : P) : Connection S P Bool := do
  updateMetricColumnsForRefStatus metricId refStatus fun row =>
    { row with status := .createPending, modelParams := some swarmParams }
  let metricObj ← getMetric metricId
  if metricObj.status ≠ .createPending then throw .metricStatusChanged
  match attempt.createHTMModel with
  | .ok () => return true
  | .error e =>
    setMetricStatus metricId .error (some e.repr) none
    throw (.other e)

/-- `_startModelHelper`, for a metric that was read on the same connection. -/
def startModelHelper (attempt : Attempt) (metricId : String) (metricObj : MetricRow S P)
    (swarmParams : Option P) : Connection S P Bool :=
  match swarmParams with
  | none => throw .valueError
  | some swarmParams =>
    match metricObj.status with
    | .createPending => return false
    | .active => return false
    | .error => throw .valueError
    | refStatus => createModel attempt metricId refStatus swarmParams

def startMonitoring (attempt : Attempt) (metricId : String) (swarmParams : Option P) :
    Connection S P Bool := do
  let metricObj ← getMetric metricId
  if metricObj.status ≠ .unmonitored then throw .assertionError
  match swarmParams with
  | some swarmParams => startModelHelper attempt metricId metricObj (some swarmParams)
  | none =>
    setMetricStatus metricId .pendingData none (some metricObj.status)
    let metricObj ← getMetric metricId
    if metricObj.status = .pendingData then return false
    else throw .metricStatusChanged

/-- One attempt in its `begin()` block. -/
def attempted (attempt : Attempt) (body : Connection S P α) : Connection S P α :=
  transaction (match attempt.databaseError with
    | none => body
    | some e => throw (.other e))

/-- The attempts that transient exceptions and the time-out leave room for. -/
def retryOnTransientErrors (execute : Attempt → Connection S P α) (attempt : Attempt) :
    List Attempt → Connection S P α
  | [] => execute attempt
  | next :: later => fun db =>
    match (execute attempt).run db with
    | (.ok a, db') => (.ok a, db')
    | (.error e, db') =>
      if e.transient then (retryOnTransientErrors execute next later).run db' else (.error e, db')

def startModelOnce (metricId : String) (swarmParams : Option P) (attempt : Attempt) :
    Connection S P Bool :=
  attempted attempt do
    let metricObj ← getMetric metricId
    let modelStarted ← startModelHelper attempt metricId metricObj swarmParams
    if modelStarted then raised attempt.sendBacklogDataToModel
    return modelStarted

def startModel (metricId : String) (swarmParams : Option P) :
    Attempt → List Attempt → Connection S P Bool :=
  retryOnTransientErrors (startModelOnce metricId swarmParams)

/-- A specification of the model, and the name of the instance that it has a resource for. -/
structure ModelSpec (S : Type) where
  encoded : S
  instanceName : Option String
  deriving DecidableEq, Repr

def customDatasource : String := "custom"

/-- What monitoring saves of the specification. -/
def ModelSpec.save (modelSpec : ModelSpec S) (row : MetricRow S P) : MetricRow S P :=
  { row with
    parameters := some modelSpec.encoded
    server := match modelSpec.instanceName with
      | some instanceName => some instanceName
      | none => row.server }

def startMonitoringOnce (metricId : String) (modelSpec : ModelSpec S) (swarmParams : Option P)
    (attempt : Attempt) : Connection S P Unit :=
  attempted attempt do
    let metricObj ← getMetricWithUpdateLock metricId
    if metricObj.datasource ≠ customDatasource then throw .typeError
    if metricObj.status ≠ .unmonitored then throw .metricAlreadyMonitored
    updateMetricColumns metricId modelSpec.save
    let modelStarted ← startMonitoring attempt metricId swarmParams
    if modelStarted then raised attempt.sendBacklogDataToModel

/-- `_startMonitoringWithRetries` -/
def startMonitoringWithRetries (metricId : String) (modelSpec : ModelSpec S)
    (swarmParams : Option P) : Attempt → List Attempt → Connection S P Unit :=
  retryOnTransientErrors (startMonitoringOnce metricId modelSpec swarmParams)

/-! ## Statements in sequence -/

section Sequence

variable {β : Type} {x : Connection S P α} {f : α → Connection S P β} {db db' : MetricTable S P}

theorem run_bind_ok {a : α} (h : x.run db = (Except.ok a, db')) :
    (x >>= f).run db = (f a).run db' := by
  refine (?_ : (match x.run db with | (result, db₁) => (ExceptT.bindCont f result) db₁) = _)
  rw [h]
  rfl

theorem run_bind_error {e : PyException} (h : x.run db = (Except.error e, db')) :
    (x >>= f).run db = (Except.error e, db') := by
  refine (?_ : (match x.run db with | (result, db₁) => (ExceptT.bindCont f result) db₁) = _)
  rw [h]
  rfl

end Sequence

/-! ## What a transaction that raises leaves -/

theorem transaction_run_error {body : Connection S P α} {db db' : MetricTable S P}
    {e : PyException} (h : body.run db = (Except.error e, db')) :
    (transaction body).run db = (Except.error e, db) := by
  simp only [ExceptT.run, transaction] at h ⊢
  rw [h]

theorem transaction_error {body : Connection S P α} {db db' : MetricTable S P} {e : PyException}
    (h : (transaction body).run db = (Except.error e, db')) : db' = db := by
  cases hbody : body.run db with
  | mk result db₁ =>
    cases result with
    | ok a =>
      simp only [ExceptT.run, transaction] at h hbody
      rw [hbody] at h
      cases h
    | error e₁ =>
      rw [transaction_run_error hbody] at h
      cases h
      rfl

theorem retryOnTransientErrors_error {execute : Attempt → Connection S P α}
    (hexecute : ∀ attempt db e db', (execute attempt).run db = (.error e, db') → db' = db)
    {attempt : Attempt} {later : List Attempt} {db db' : MetricTable S P} {e : PyException}
    (h : (retryOnTransientErrors execute attempt later).run db = (.error e, db')) : db' = db := by
  induction later generalizing attempt db with
  | nil => exact hexecute attempt db e db' h
  | cons next later ih =>
    cases hrun : (execute attempt).run db with
    | mk result db₁ =>
      simp only [ExceptT.run, retryOnTransientErrors] at h hrun
      rw [hrun] at h
      cases result with
      | ok a => cases h
      | error e₁ =>
        have hdb := hexecute attempt db e₁ db₁ hrun
        simp only at h
        split at h
        · exact (ih h).trans hdb
        · cases h
          exact hdb

end NumentaApps.ScalarMetric
