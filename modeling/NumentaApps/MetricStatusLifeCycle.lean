import NumentaApps.MetricRepository
import NumentaApps.TransitionSystem

/-!
# The life cycle of a metric's status

The status of a metric is written by the transactions that start, activate and
end its monitoring and by the anomaly service, which reads the status on one
connection and writes it later on another, whatever it has become.
-/
namespace NumentaApps.Repository
open TransitionSystem

/-- The columns of a metric row that monitoring reads and writes. -/
structure MetricRow (S P : Type) where
  status : MetricStatus
  message : Option String
  parameters : Option S
  modelParams : Option P
  deriving DecidableEq, Repr

/-- The moves of the life cycle. -/
inductive StatusMove : MetricStatus → MetricStatus → Prop where
  | monitor : StatusMove .unmonitored .pendingData
  | monitorAndStart : StatusMove .unmonitored .createPending
  | start : StatusMove .pendingData .createPending
  | created : StatusMove .createPending .active
  | createFailed : StatusMove .createPending .error
  | modelFailed : StatusMove .active .error
  | unmonitor (status : MetricStatus) : StatusMove status .unmonitored

/-- What makes a transaction on a metric row raise, and so roll back. -/
inductive MonitorError where
  | objectNotFound | metricAlreadyMonitored | metricStatusChanged | valueError | assertion
  | createHTMModelFailed | metricNotActive
  deriving DecidableEq, Repr

namespace MetricRow

variable {S P : Type}

def setMetricStatus (status : MetricStatus) (message : Option String)
    (refStatus : Option MetricStatus) (row : MetricRow S P) : Except MonitorError (MetricRow S P) :=
  if refStatus = none ∨ refStatus = some row.status then
    .ok { row with status := status, message := message }
  else .error .objectNotFound

/-- An update that touches the row only if it has the reference status. -/
def updateMetricColumnsForRefStatus (refStatus : MetricStatus)
    (fields : MetricRow S P → MetricRow S P) (row : MetricRow S P) : MetricRow S P :=
  if row.status = refStatus then fields row else row

/-- `_startModelHelper` up to its commit, given the status that was read before;
`created` tells whether `createHTMModel` returned. -/
def startModelHelper (created : Bool) (status : MetricStatus) (swarmParams : P)
    (row : MetricRow S P) : Except MonitorError (MetricRow S P × Bool) :=
  match status with
  | .createPending => .ok (row, false)
  | .active => .ok (row, false)
  | .error => .error .valueError
  | refStatus =>
    let row := row.updateMetricColumnsForRefStatus refStatus fun row =>
      { row with status := .createPending, modelParams := some swarmParams }
    if row.status ≠ .createPending then .error .metricStatusChanged
    else if created then .ok (row, true)
    else .error .createHTMModelFailed

def startMonitoring (created : Bool) (swarmParams : Option P) (row : MetricRow S P) :
    Except MonitorError (MetricRow S P × Bool) :=
  if row.status ≠ .unmonitored then .error .assertion
  else match swarmParams with
    | some swarmParams => row.startModelHelper created row.status swarmParams
    | none => do
      let row ← row.setMetricStatus .pendingData none (some row.status)
      if row.status = .pendingData then pure (row, false) else throw .metricStatusChanged

/-- The transaction of `_startMonitoringWithRetries`. -/
def startMonitoringWithRetries (created : Bool) (modelSpec : S) (swarmParams : Option P)
    (row : MetricRow S P) : Except MonitorError (MetricRow S P × Bool) :=
  if row.status ≠ .unmonitored then .error .metricAlreadyMonitored
  else startMonitoring created swarmParams { row with parameters := some modelSpec }

/-- The metric row after the `deleteModel` transaction. -/
def deleteModel (_ : MetricRow S P) : MetricRow S P :=
  ⟨.unmonitored, none, none, none⟩

/-- The locked check and update of `_updateAnomalyLikelihoodParams`, given the
model params that were read before. -/
def updateAnomalyLikelihoodParams (modelParams : P) (row : MetricRow S P) :
    Except MonitorError (MetricRow S P) :=
  if row.status ≠ .active then .error .metricNotActive
  else .ok { row with modelParams := some modelParams }

end MetricRow

inductive CommandMethod where
  | defineModel | cloneModel | deleteModel
  deriving DecidableEq, Repr

/-- A status write that the anomaly service has decided on. -/
structure StatusWrite where
  status : MetricStatus
  message : Option String
  deriving DecidableEq, Repr

/-- The write `_processModelCommandResult` decides on after reading the row. -/
def commandResultWrite {S P : Type} (method : CommandMethod) (failure : Option String)
    (row : MetricRow S P) : Option StatusWrite :=
  if method = .deleteModel then none
  else match failure with
    | some errorMessage =>
      if row.status ≠ .error then some ⟨.error, some errorMessage⟩ else none
    | none =>
      if method = .defineModel ∧ row.status = .createPending then some ⟨.active, none⟩ else none

/-- The write `_processModelInferenceResults` decides on for a batch with a failed
result, after reading the row. -/
def inferenceResultsWrite {S P : Type} (failure : Option String) (row : MetricRow S P) :
    Option StatusWrite :=
  if row.status ≠ .active then none
  else failure.map fun errorMessage => ⟨.error, some errorMessage⟩

/-- The committed metric row, the stream calls between their store transaction and
`startModel`, the statuses `startModel` has read and not acted on yet, and the
status writes decided on and not made yet. -/
structure Monitored (S P : Type) where
  row : MetricRow S P
  activations : ℕ
  starts : List MetricStatus
  writes : List StatusWrite
  deriving DecidableEq, Repr

namespace Monitored

inductive Action (S P : Type) where
  | monitorMetric (created : Bool) (modelSpec : S) (swarmParams : Option P)
  | streamMetricData (enoughRows : Bool)
  | activationFails
  | readForStartModel
  | startModel (start : ℕ) (created : Bool) (swarmParams : P)
  | unmonitorMetric
  | readForCommandResult (method : CommandMethod) (failure : Option String)
  | readForInferenceResults (failure : Option String)
  | writeStatus (write : ℕ)
  | updateAnomalyLikelihoodParams (modelParams : P)

variable {S P : Type}

/-- A transaction that raises is rolled back. -/
def transaction {α : Type} (s : Monitored S P) (r : Except MonitorError (MetricRow S P × α)) :
    Monitored S P :=
  match r with
  | .ok (row, _) => { s with row := row }
  | .error _ => s

def act : Action S P → Monitored S P → Option (Monitored S P)
  | .monitorMetric created modelSpec swarmParams, s =>
    some (s.transaction (s.row.startMonitoringWithRetries created modelSpec swarmParams))
  | .streamMetricData enoughRows, s =>
    some (if s.row.status = .pendingData ∧ enoughRows then
      { s with activations := s.activations + 1 } else s)
  | .activationFails, s =>
    if s.activations = 0 then none else some { s with activations := s.activations - 1 }
  | .readForStartModel, s =>
    if s.activations = 0 then none
    else some { s with activations := s.activations - 1, starts := s.starts ++ [s.row.status] }
  | .startModel i created swarmParams, s =>
    s.starts[i]?.map fun status =>
      { s.transaction (s.row.startModelHelper created status swarmParams) with
        starts := s.starts.eraseIdx i }
  | .unmonitorMetric, s => some { s with row := s.row.deleteModel }
  | .readForCommandResult method failure, s =>
    some { s with writes := s.writes ++ (commandResultWrite method failure s.row).toList }
  | .readForInferenceResults failure, s =>
    some { s with writes := s.writes ++ (inferenceResultsWrite failure s.row).toList }
  | .writeStatus i, s =>
    s.writes[i]?.map fun w =>
      { s.transaction ((s.row.setMetricStatus w.status w.message none).map (·, ())) with
        writes := s.writes.eraseIdx i }
  | .updateAnomalyLikelihoodParams modelParams, s =>
    some (s.transaction ((s.row.updateAnomalyLikelihoodParams modelParams).map (·, ())))

/-- The status writes of the anomaly service meet a status they may replace. -/
def WriteInTime (s : Monitored S P) : Action S P → Prop
  | .writeStatus i => ∀ w, s.writes[i]? = some w →
      s.row.status = w.status ∨ s.row.status = .createPending ∨
        (s.row.status = .active ∧ w.status = .error)
  | _ => True

end Monitored

/-- A new metric; nothing is known of it to the anomaly service. -/
def monitoredSystem (S P : Type) : System (Monitored S P) (Monitored.Action S P) where
  init s := s.row.status = .unmonitored ∧ s.row.modelParams = none ∧
    s.activations = 0 ∧ s.starts = [] ∧ s.writes = []
  next := Monitored.act

/-! ## What a transaction may do to the row -/

/-- The status is kept or moves along the life cycle, and a row that is left
unmonitored has no model params if it had none before. -/
structure MetricRow.MovesTo {S P : Type} (row row' : MetricRow S P) : Prop where
  status : row'.status = row.status ∨ StatusMove row.status row'.status
  modelParams : (row.status = .unmonitored → row.modelParams = none) →
    row'.status = .unmonitored → row'.modelParams = none

namespace MetricRow

variable {S P : Type} {row row' : MetricRow S P}

theorem MovesTo.refl (row : MetricRow S P) : MovesTo row row :=
  ⟨Or.inl rfl, fun h => h⟩

theorem startModelHelper_eq {created b : Bool} {status : MetricStatus} {swarmParams : P}
    (h : row.startModelHelper created status swarmParams = .ok (row', b)) :
    row' = row ∨ ((row.status = .unmonitored ∨ row.status = .pendingData) ∧
      row' = { row with status := .createPending, modelParams := some swarmParams }) := by
  have hupdate : ∀ refStatus : MetricStatus,
      refStatus = .unmonitored ∨ refStatus = .pendingData →
      ∀ r, r = row.updateMetricColumnsForRefStatus refStatus (fun row =>
        { row with status := .createPending, modelParams := some swarmParams }) →
      r = row ∨ ((row.status = .unmonitored ∨ row.status = .pendingData) ∧
        r = { row with status := .createPending, modelParams := some swarmParams }) := by
    intro refStatus href r hr
    rw [updateMetricColumnsForRefStatus] at hr
    split at hr
    · next hs => exact Or.inr ⟨hs ▸ href, hr⟩
    · exact Or.inl hr
  cases status with
  | createPending =>
    cases h
    exact Or.inl rfl
  | active =>
    cases h
    exact Or.inl rfl
  | error => cases h
  | unmonitored =>
    simp only [startModelHelper] at h
    split at h
    · cases h
    · split at h
      · cases h
        exact hupdate .unmonitored (Or.inl rfl) _ rfl
      · cases h
  | pendingData =>
    simp only [startModelHelper] at h
    split at h
    · cases h
    · split at h
      · cases h
        exact hupdate .pendingData (Or.inr rfl) _ rfl
      · cases h

theorem startModelHelper_movesTo {created b : Bool} {status : MetricStatus} {swarmParams : P}
    (h : row.startModelHelper created status swarmParams = .ok (row', b)) :
    MovesTo row row' := by
  rcases startModelHelper_eq h with rfl | ⟨hs, rfl⟩
  · exact MovesTo.refl _
  · refine ⟨Or.inr ?_, fun _ h => by cases h⟩
    rcases hs with hs | hs
    · rw [hs]
      exact StatusMove.monitorAndStart
    · rw [hs]
      exact StatusMove.start

/-- Monitoring starts on an unmonitored metric only, and either waits for data or
starts the model. -/
theorem startMonitoringWithRetries_eq {created b : Bool} {modelSpec : S}
    {swarmParams : Option P}
    (h : row.startMonitoringWithRetries created modelSpec swarmParams = .ok (row', b)) :
    row.status = .unmonitored ∧
      (row'.status = .pendingData ∨ row'.status = .createPending) := by
  rw [startMonitoringWithRetries] at h
  split at h
  · cases h
  · next hs =>
    have hs : row.status = .unmonitored := not_not.mp hs
    refine ⟨hs, ?_⟩
    simp only [startMonitoring, hs, ne_eq, not_true_eq_false, if_false] at h
    cases swarmParams with
    | none =>
      cases h
      exact Or.inl rfl
    | some params =>
      cases created with
      | false => cases h
      | true =>
        cases h
        exact Or.inr rfl

theorem startMonitoringWithRetries_movesTo {created b : Bool} {modelSpec : S}
    {swarmParams : Option P}
    (h : row.startMonitoringWithRetries created modelSpec swarmParams = .ok (row', b)) :
    MovesTo row row' := by
  obtain ⟨hs, hs'⟩ := startMonitoringWithRetries_eq h
  rcases hs' with hs' | hs'
  · exact ⟨Or.inr (by rw [hs, hs']; exact StatusMove.monitor), fun _ h => by simp [hs'] at h⟩
  · exact ⟨Or.inr (by rw [hs, hs']; exact StatusMove.monitorAndStart),
      fun _ h => by simp [hs'] at h⟩

theorem deleteModel_movesTo (row : MetricRow S P) : MovesTo row row.deleteModel :=
  ⟨Or.inr (StatusMove.unmonitor _), fun _ _ => rfl⟩

theorem updateAnomalyLikelihoodParams_movesTo {modelParams : P}
    (h : row.updateAnomalyLikelihoodParams modelParams = .ok row') : MovesTo row row' := by
  rw [updateAnomalyLikelihoodParams] at h
  split at h
  · cases h
  · next hs =>
    have hs : row.status = .active := not_not.mp hs
    cases h
    exact ⟨Or.inl rfl, fun _ h => by simp [hs] at h⟩

end MetricRow

/-! ## What the anomaly service decides on -/

/-- The anomaly service only ever makes a metric active or erroneous. -/
def StatusWrite.IsVerdict (w : StatusWrite) : Prop :=
  w.status = .active ∨ w.status = .error

theorem commandResultWrite_verdict {S P : Type} {method : CommandMethod}
    {failure : Option String} {row : MetricRow S P} {w : StatusWrite}
    (h : commandResultWrite method failure row = some w) : w.IsVerdict := by
  simp only [commandResultWrite] at h
  split at h
  · cases h
  · cases failure with
    | some errorMessage =>
      simp only at h
      split at h
      · cases h
        exact Or.inr rfl
      · cases h
    | none =>
      simp only at h
      split at h
      · cases h
        exact Or.inl rfl
      · cases h

theorem inferenceResultsWrite_verdict {S P : Type} {failure : Option String}
    {row : MetricRow S P} {w : StatusWrite}
    (h : inferenceResultsWrite failure row = some w) : w.IsVerdict := by
  rw [inferenceResultsWrite] at h
  split at h
  · cases h
  · cases failure with
    | none => cases h
    | some errorMessage =>
      cases h
      exact Or.inr rfl

/-- A verdict replaces a status along the life cycle exactly when it is in time. -/
theorem StatusWrite.IsVerdict.move_iff {w : StatusWrite} (h : w.IsVerdict)
    (status : MetricStatus) :
    (w.status = status ∨ StatusMove status w.status) ↔
      (status = w.status ∨ status = .createPending ∨
        (status = .active ∧ w.status = .error)) := by
  constructor
  · rintro (hw | hm)
    · exact Or.inl hw.symm
    · rcases h with hw | hw <;> rw [hw] at hm ⊢ <;> cases hm <;> simp
  · rintro (hs | hs | ⟨hs, hw⟩)
    · exact Or.inl hs.symm
    · rw [hs]
      rcases h with hw | hw <;> rw [hw]
      · exact Or.inr StatusMove.created
      · exact Or.inr StatusMove.createFailed
    · rw [hs, hw]
      exact Or.inr StatusMove.modelFailed

/-! ## Runs -/

namespace Monitored

variable {S P : Type} {s t : Monitored S P}

/-- An unmonitored metric has no model params and only verdicts are outstanding. -/
structure Inv (s : Monitored S P) : Prop where
  modelParams : s.row.status = .unmonitored → s.row.modelParams = none
  writes : ∀ w ∈ s.writes, w.IsVerdict

@[simp] theorem transaction_writes {α : Type}
    (r : Except MonitorError (MetricRow S P × α)) : (s.transaction r).writes = s.writes := by
  cases r <;> rfl

theorem transaction_movesTo {α : Type} {r : Except MonitorError (MetricRow S P × α)}
    (h : ∀ row' a, r = .ok (row', a) → s.row.MovesTo row') :
    s.row.MovesTo (s.transaction r).row := by
  cases r with
  | error e => exact .refl _
  | ok p => exact h p.1 p.2 rfl

@[simp] theorem transaction_setMetricStatus (status : MetricStatus) (message : Option String) :
    s.transaction ((s.row.setMetricStatus status message none).map (·, ())) =
      { s with row := { s.row with status := status, message := message } } := rfl

theorem act_writeStatus_eq {i : ℕ} (h : act (.writeStatus i) s = some t) :
    ∃ w, s.writes[i]? = some w ∧
      t = { s with
        row := { s.row with status := w.status, message := w.message }
        writes := s.writes.eraseIdx i } := by
  obtain ⟨w, hw, rfl⟩ := Option.map_eq_some_iff.mp h
  exact ⟨w, hw, by simp⟩

/-- Every step but a status write of the anomaly service respects the life cycle. -/
theorem act_movesTo {a : Action S P} (h : act a s = some t)
    (ha : ∀ i, a ≠ .writeStatus i) : s.row.MovesTo t.row := by
  cases a with
  | monitorMetric created modelSpec swarmParams =>
    cases h
    exact transaction_movesTo fun _ _ h => MetricRow.startMonitoringWithRetries_movesTo h
  | streamMetricData enoughRows =>
    cases h
    split <;> exact .refl _
  | activationFails =>
    simp only [act] at h
    split at h
    · cases h
    · cases h
      exact .refl _
  | readForStartModel =>
    simp only [act] at h
    split at h
    · cases h
    · cases h
      exact .refl _
  | startModel i created swarmParams =>
    obtain ⟨status, -, rfl⟩ := Option.map_eq_some_iff.mp h
    have hm := transaction_movesTo (s := s)
      (r := s.row.startModelHelper created status swarmParams)
      fun _ _ h => MetricRow.startModelHelper_movesTo h
    exact hm
  | unmonitorMetric =>
    cases h
    exact MetricRow.deleteModel_movesTo _
  | readForCommandResult method failure =>
    cases h
    exact .refl _
  | readForInferenceResults failure =>
    cases h
    exact .refl _
  | writeStatus i => exact absurd rfl (ha i)
  | updateAnomalyLikelihoodParams modelParams =>
    cases h
    apply transaction_movesTo
    intro row' _ hr
    cases hu : s.row.updateAnomalyLikelihoodParams modelParams with
    | error e =>
      rw [hu] at hr
      cases hr
    | ok r =>
      rw [hu] at hr
      cases hr
      exact MetricRow.updateAnomalyLikelihoodParams_movesTo hu

theorem act_writes {a : Action S P} (h : act a s = some t)
    (hI : ∀ w ∈ s.writes, w.IsVerdict) : ∀ w ∈ t.writes, w.IsVerdict := by
  cases a with
  | monitorMetric created modelSpec swarmParams =>
    cases h
    simpa using hI
  | streamMetricData enoughRows =>
    cases h
    split <;> exact hI
  | activationFails =>
    simp only [act] at h
    split at h
    · cases h
    · cases h
      exact hI
  | readForStartModel =>
    simp only [act] at h
    split at h
    · cases h
    · cases h
      exact hI
  | startModel i created swarmParams =>
    obtain ⟨status, -, rfl⟩ := Option.map_eq_some_iff.mp h
    simpa using hI
  | unmonitorMetric =>
    cases h
    exact hI
  | readForCommandResult method failure =>
    cases h
    intro w hw
    rcases List.mem_append.mp hw with hw | hw
    · exact hI w hw
    · exact commandResultWrite_verdict (Option.mem_toList.mp hw)
  | readForInferenceResults failure =>
    cases h
    intro w hw
    rcases List.mem_append.mp hw with hw | hw
    · exact hI w hw
    · exact inferenceResultsWrite_verdict (Option.mem_toList.mp hw)
  | writeStatus i =>
    obtain ⟨w, -, rfl⟩ := act_writeStatus_eq h
    exact fun w hw => hI w (List.mem_of_mem_eraseIdx hw)
  | updateAnomalyLikelihoodParams modelParams =>
    cases h
    simpa using hI

/-- The status of a step goes along the life cycle exactly when the step is no late
status write. -/
theorem act_status_iff {a : Action S P} (h : act a s = some t)
    (hI : ∀ w ∈ s.writes, w.IsVerdict) :
    (t.row.status = s.row.status ∨ StatusMove s.row.status t.row.status) ↔
      s.WriteInTime a := by
  by_cases ha : ∃ i, a = .writeStatus i
  · obtain ⟨i, rfl⟩ := ha
    obtain ⟨w, hw, rfl⟩ := act_writeStatus_eq h
    rw [(hI w (List.mem_of_getElem? hw)).move_iff, WriteInTime]
    constructor
    · intro hm w' hw'
      obtain rfl := Option.some.inj (hw.symm.trans hw')
      exact hm
    · intro hm
      exact hm w hw
  · have ha : ∀ i, a ≠ .writeStatus i := fun i hi => ha ⟨i, hi⟩
    refine ⟨fun _ => ?_, fun _ => (act_movesTo h ha).status⟩
    cases a <;> first | trivial | exact absurd rfl (ha _)

theorem inv_init (h : (monitoredSystem S P).init s) : s.Inv :=
  ⟨fun _ => h.2.1, fun w hw => by simp [h.2.2.2.2] at hw⟩

theorem Inv.act {a : Action S P} (hI : s.Inv) (h : act a s = some t) : t.Inv := by
  refine ⟨?_, act_writes h hI.writes⟩
  by_cases ha : ∃ i, a = .writeStatus i
  · obtain ⟨i, rfl⟩ := ha
    obtain ⟨w, hw, rfl⟩ := act_writeStatus_eq h
    intro (hs : w.status = .unmonitored)
    rcases hI.writes w (List.mem_of_getElem? hw) with hv | hv <;> cases hv.symm.trans hs
  · exact (act_movesTo h fun i hi => ha ⟨i, hi⟩).modelParams hI.modelParams

end Monitored

/-- The committed status moves along the life cycle, an unmonitored metric having no
model params, in exactly the runs in which every status write of the anomaly service
meets the status it writes or one that it may replace. -/
theorem status_life_cycle_iff {S P : Type} {tr : List (Monitored S P × Monitored.Action S P)}
    {s : Monitored S P} (h : Run (monitoredSystem S P) tr s) :
    ((∀ p ∈ tr, ∀ t, (monitoredSystem S P).next p.2 p.1 = some t →
        t.row.status = p.1.row.status ∨ StatusMove p.1.row.status t.row.status) ∧
      (s.row.status = .unmonitored → s.row.modelParams = none)) ↔
    ∀ p ∈ tr, p.1.WriteInTime p.2 := by
  have hinit : ∀ s, (monitoredSystem S P).init s → s.Inv := fun _ hs => Monitored.inv_init hs
  have hstep : ∀ a s t, s.Inv → True → (monitoredSystem S P).next a s = some t → t.Inv :=
    fun a s t hI _ hn => hI.act hn
  have hsteps := h.forall_steps hinit hstep
    (P := fun s a t => (t.row.status = s.row.status ∨ StatusMove s.row.status t.row.status) ↔
      s.WriteInTime a)
    (fun a s t hI _ hn => Monitored.act_status_iff hn hI.writes) (fun _ _ => trivial)
  have hI : s.Inv := h.invariant hinit hstep (fun _ _ => trivial)
  constructor
  · rintro ⟨hmove, -⟩ p hp
    obtain ⟨t, hn, hiff⟩ := hsteps p hp
    exact hiff.mp (hmove p hp t hn)
  · intro htime
    refine ⟨fun p hp t hn => ?_, hI.modelParams⟩
    obtain ⟨t', hn', hiff⟩ := hsteps p hp
    obtain rfl := Option.some.inj (hn'.symm.trans hn)
    exact hiff.mpr (htime p hp)

/-- A model that is created while its metric is monitored and still pending. -/
theorem status_life_cycle_iff_created :
    ∃ tr s, Run (monitoredSystem ℕ ℕ) tr s ∧ s.row.status = .active ∧
      ((∀ p ∈ tr, ∀ t, (monitoredSystem ℕ ℕ).next p.2 p.1 = some t →
          t.row.status = p.1.row.status ∨ StatusMove p.1.row.status t.row.status) ∧
        (s.row.status = .unmonitored → s.row.modelParams = none) ↔
      ∀ p ∈ tr, p.1.WriteInTime p.2) := by
  have hinit : (monitoredSystem ℕ ℕ).init ⟨⟨.unmonitored, none, none, none⟩, 0, [], []⟩ :=
    ⟨rfl, rfl, rfl, rfl, rfl⟩
  have hexec : (monitoredSystem ℕ ℕ).exec
      [.monitorMetric true 5 none, .streamMetricData true, .readForStartModel,
        .startModel 0 true 7, .readForCommandResult .defineModel none, .writeStatus 0]
      ⟨⟨.unmonitored, none, none, none⟩, 0, [], []⟩ =
      some ⟨⟨.active, none, some 5, some 7⟩, 0, [], []⟩ := rfl
  obtain ⟨tr, hr, -⟩ := (Run.init hinit).exec hexec
  exact ⟨_, _, hr, rfl, status_life_cycle_iff hr⟩

/-- The result of a model's creation is read before the metric is unmonitored and
written after it. -/
theorem unmonitored_turned_active :
    ∃ tr s, Run (monitoredSystem ℕ ℕ) tr s ∧
      ¬ ∀ p ∈ tr, ∀ t, (monitoredSystem ℕ ℕ).next p.2 p.1 = some t →
          t.row.status = p.1.row.status ∨ StatusMove p.1.row.status t.row.status := by
  have hinit : (monitoredSystem ℕ ℕ).init ⟨⟨.unmonitored, none, none, none⟩, 0, [], []⟩ :=
    ⟨rfl, rfl, rfl, rfl, rfl⟩
  have hexec : (monitoredSystem ℕ ℕ).exec
      [.monitorMetric true 5 (some 7), .readForCommandResult .defineModel none,
        .unmonitorMetric]
      ⟨⟨.unmonitored, none, none, none⟩, 0, [], []⟩ =
      some ⟨⟨.unmonitored, none, none, none⟩, 0, [], [⟨.active, none⟩]⟩ := rfl
  have hlate : (monitoredSystem ℕ ℕ).next (.writeStatus 0)
      ⟨⟨.unmonitored, none, none, none⟩, 0, [], [⟨.active, none⟩]⟩ =
      some ⟨⟨.active, none, none, none⟩, 0, [], []⟩ := rfl
  obtain ⟨tr, hr, -⟩ := (Run.init hinit).exec hexec
  refine ⟨_, _, Run.step _ hr hlate, fun hmove => ?_⟩
  rcases hmove _ (List.mem_append_right _ (List.mem_singleton_self _)) _ hlate with h | h
  · cases h
  · cases h

end NumentaApps.Repository
