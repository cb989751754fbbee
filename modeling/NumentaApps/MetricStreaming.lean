import NumentaApps.MetricStreamer
import NumentaApps.TransitionSystem
import Mathlib.Data.PNat.Basic

/-!
# From stored samples to the input of the model

One custom metric, the streamer process that stores and forwards its samples, and
the processes that start monitoring it. The row of the metric is locked by the
transactions that store samples or start the model; batches are published to the
input queue of the model inside such a transaction or after it.
-/
namespace NumentaApps.Runtime
open TransitionSystem Repository

inductive ModelRequest (T V : Type) where
  | defineModel
  | inputRow (row : MetricDataRow T V)
  deriving DecidableEq, Repr

/-- The batches `sendInputRowsToModel` submits. -/
def sendInputRowsToModel {α : Type} (batchSize : ℕ+) (inputRows : List α) : List (List α) :=
  (List.range' 0 ((inputRows.length + batchSize - 1) / batchSize) batchSize).map fun i =>
    (inputRows.drop i).take batchSize

theorem flatten_sendInputRowsToModel {α : Type} (batchSize : ℕ+) (inputRows : List α) :
    (sendInputRowsToModel batchSize inputRows).flatten = inputRows := by
  have htake : ∀ n : ℕ, ((List.range' 0 n batchSize).map fun i =>
      (inputRows.drop i).take batchSize).flatten = inputRows.take (batchSize * n) := by
    intro n
    induction n with
    | zero => simp
    | succ n ih =>
      rw [List.range'_concat, List.map_append, List.flatten_append, ih, Nat.mul_succ, List.take_add]
      simp
  have hlen : inputRows.length ≤ batchSize * ((inputRows.length + batchSize - 1) / batchSize) := by
    have hpos := batchSize.pos
    have hdiv := Nat.lt_mul_div_succ (inputRows.length + batchSize - 1) hpos
    rw [Nat.mul_add, Nat.mul_one] at hdiv
    omega
  rw [sendInputRowsToModel, htake, List.take_of_length_le hlen]

/-- `MODEL_CREATION_RECORD_THRESHOLD`. -/
def modelCreationRecordThreshold : ℕ := (60 / 5) * 24

/-- Where the `streamMetricData` call of the streamer is. -/
inductive StreamCall (T V : Type) where
  | idle
  | sending (batches : List (List (MetricDataRow T V)))
  | activatingModel
  | startingModel (refStatus : MetricStatus) (backlog : List (MetricDataRow T V))
  | inStartModel
  deriving DecidableEq, Repr

/-- A transaction that holds the lock of the metric row, with the batches it still
has to submit and the status it commits; `streamer` tells whose it is. -/
structure MonitorTransaction (T V : Type) where
  streamer : Bool
  status : MetricStatus
  toSubmit : List (List (ModelRequest T V))
  deriving DecidableEq, Repr

structure Streaming (T C V : Type) where
  metric : Metric C V
  streamer : MetricStreamer Unit T
  call : StreamCall T V
  transaction : Option (MonitorTransaction T V)
  modelQueue : List (List (ModelRequest T V))

namespace Streaming

inductive Action (T V : Type) where
  | storeData (now : ℤ) (data : List (T × V))
  | submitRows
  | metricStatisticsNotReady
  | readMetric
  | updateForRefStatus
  | monitorMetric (swarmParams : Bool)
  | submitInTransaction
  | commit
  | modelCreated
  | modelFailed

section

variable {T C V : Type} [LinearOrder T] [LinearOrder C]

/-- The rows read for the backlog of the model. -/
def backlog (col : DatetimeColumn T C) (m : Metric C V) : List (MetricDataRow T V) :=
  m.getMetricData.map fun r => ⟨r.rowid, col.read r.timestamp, r.metricValue⟩

/-- The batches of a transaction that starts the model: the command, then the
backlog, if any. -/
def startBatches (batchSize : ℕ+) (rows : List (MetricDataRow T V)) :
    List (List (ModelRequest T V)) :=
  [.defineModel] :: sendInputRowsToModel batchSize (rows.map .inputRow)

/-- How `streamMetricData` goes on after its store transaction. -/
def afterStore (batchSize : ℕ+) (r : StoreResult Unit T C V) : StreamCall T V :=
  match r.modelInputRows.getD [] with
  | [] => .idle
  | row :: rows =>
    match r.status with
    | .unmonitored => .idle
    | .pendingData =>
      if modelCreationRecordThreshold ≤ ((row :: rows).getLast?.map (·.rowid)).getD 0
      then .activatingModel else .idle
    | .createPending => .sending (sendInputRowsToModel batchSize (row :: rows))
    | .active => .sending (sendInputRowsToModel batchSize (row :: rows))
    | .error => .idle

def act (col : DatetimeColumn T C) (batchSize : ℕ+) :
    Action T V → Streaming T C V → Option (Streaming T C V)
  | .storeData now data, s =>
    match s.call, s.transaction with
    | .idle, none =>
      let r := s.streamer.storeData col now () data s.metric
      some { s with metric := r.metric, streamer := r.streamer, call := afterStore batchSize r }
    | _, _ => none
  | .submitRows, s =>
    match s.call with
    | .sending [] => some { s with call := .idle }
    | .sending (batch :: batches) => some { s with
        modelQueue := s.modelQueue ++ [batch.map .inputRow], call := .sending batches }
    | _ => none
  | .metricStatisticsNotReady, s =>
    match s.call with
    | .activatingModel => some { s with call := .idle }
    | _ => none
  | .readMetric, s =>
    match s.call with
    | .activatingModel =>
      match s.metric.status with
      | .unmonitored => some { s with call := .startingModel .unmonitored (backlog col s.metric) }
      | .pendingData => some { s with call := .startingModel .pendingData (backlog col s.metric) }
      | _ => some { s with call := .idle }
    | _ => none
  | .updateForRefStatus, s =>
    match s.call, s.transaction with
    | .startingModel refStatus rows, none =>
      if s.metric.status = refStatus then some { s with
        call := .inStartModel
        transaction := some ⟨true, .createPending, startBatches batchSize rows⟩ }
      else some { s with call := .idle }
    | _, _ => none
  | .monitorMetric swarmParams, s =>
    match s.transaction with
    | none =>
      if s.metric.status = .unmonitored then
        if swarmParams then some { s with
          transaction := some ⟨false, .createPending,
            startBatches batchSize (backlog col s.metric)⟩ }
        else some { s with transaction := some ⟨false, .pendingData, []⟩ }
      else some s
    | some _ => none
  | .submitInTransaction, s =>
    match s.transaction with
    | some ⟨streamer, status, batch :: batches⟩ => some { s with
        modelQueue := s.modelQueue ++ [batch]
        transaction := some ⟨streamer, status, batches⟩ }
    | _ => none
  | .commit, s =>
    match s.transaction with
    | some ⟨streamer, status, []⟩ => some { s with
        metric := { s.metric with status := status }
        transaction := none
        call := if streamer then .idle else s.call }
    | _ => none
  | .modelCreated, s =>
    if s.transaction = none ∧ s.metric.status = .createPending then
      some { s with metric := { s.metric with status := .active } }
    else none
  | .modelFailed, s =>
    if s.transaction = none ∧ (s.metric.status = .createPending ∨ s.metric.status = .active) then
      some { s with metric := { s.metric with status := .error } }
    else none

/-- The batches, those submitted and those to come, are the definition of the model
and then every row of the metric. -/
def Complete (col : DatetimeColumn T C) (m : Metric C V) (batches : List (List (ModelRequest T V))) :
    Prop :=
  ∃ rows : List (MetricDataRow T V),
    batches.flatten = .defineModel :: rows.map .inputRow ∧ rows.map col.keepRow = m.rows

/-- Every state the metric, its streamer and the model's queue can be in. -/
inductive Phase (col : DatetimeColumn T C) : Streaming T C V → Prop where
  | unmonitored (m st) (hm : m.status = .unmonitored) : Phase col ⟨m, st, .idle, none, []⟩
  | monitorPending (m st) (hm : m.status = .unmonitored) :
      Phase col ⟨m, st, .idle, some ⟨false, .pendingData, []⟩, []⟩
  | monitorStart (m st) (toSubmit queue : List (List (ModelRequest T V))) (hm : m.status = .unmonitored)
      (hq : Complete col m (queue ++ toSubmit)) :
      Phase col ⟨m, st, .idle, some ⟨false, .createPending, toSubmit⟩, queue⟩
  | pendingData (m st) (hm : m.status = .pendingData) : Phase col ⟨m, st, .idle, none, []⟩
  | activating (m st) (hm : m.status = .pendingData) :
      Phase col ⟨m, st, .activatingModel, none, []⟩
  | starting (m st) (rows : List (MetricDataRow T V)) (hm : m.status = .pendingData) (hr : rows.map col.keepRow = m.rows) :
      Phase col ⟨m, st, .startingModel .pendingData rows, none, []⟩
  | activation (m st) (toSubmit queue : List (List (ModelRequest T V))) (hm : m.status = .pendingData)
      (hq : Complete col m (queue ++ toSubmit)) :
      Phase col ⟨m, st, .inStartModel, some ⟨true, .createPending, toSubmit⟩, queue⟩
  | streamed (m st queue) (hm : m.status = .createPending ∨ m.status = .active)
      (hq : Complete col m queue) : Phase col ⟨m, st, .idle, none, queue⟩
  | sending (m st) (batches : List (List (MetricDataRow T V))) (queue)
      (hm : m.status = .createPending ∨ m.status = .active)
      (hq : Complete col m (queue ++ batches.map fun batch => batch.map .inputRow)) :
      Phase col ⟨m, st, .sending batches, none, queue⟩
  | failed (m st queue) (hm : m.status = .error) : Phase col ⟨m, st, .idle, none, queue⟩
  | failedSending (m st batches queue) (hm : m.status = .error) :
      Phase col ⟨m, st, .sending batches, none, queue⟩

theorem complete_startBatches (col : DatetimeColumn T C) (batchSize : ℕ+) {m : Metric C V}
    {rows : List (MetricDataRow T V)} (hr : rows.map col.keepRow = m.rows) :
    Complete col m ([] ++ startBatches batchSize rows) :=
  ⟨rows, by simp [startBatches, flatten_sendInputRowsToModel], hr⟩

/-- The backlog is the whole table, as the column keeps it. -/
theorem backlog_keepRow (col : DatetimeColumn T C) {m : Metric C V} (h : m.Contiguous) :
    (backlog col m).map col.keepRow = m.rows := by
  unfold backlog
  rw [h.getMetricData_eq, List.map_map]
  have hid : col.keepRow ∘ (fun r : MetricDataRow C V => ⟨r.rowid, col.read r.timestamp, r.metricValue⟩)
      = id := by
    funext r
    simp [DatetimeColumn.keepRow, col.keep_read]
  rw [hid, List.map_id]

/-- The rows of a store extend what is complete. -/
theorem Complete.append {col : DatetimeColumn T C} {m m' : Metric C V}
    {queue : List (List (ModelRequest T V))} (h : Complete col m queue)
    {rows : List (MetricDataRow T V)} (hm : m'.rows = m.rows ++ rows.map col.keepRow)
    {batches : List (List (MetricDataRow T V))} (hb : batches.flatten = rows) :
    Complete col m' (queue ++ batches.map fun batch => batch.map .inputRow) := by
  obtain ⟨old, hq, hold⟩ := h
  refine ⟨old ++ rows, ?_, by rw [List.map_append, hold, hm]⟩
  rw [List.flatten_append, hq, ← hb, List.map_append, List.map_flatten]
  rfl

theorem Complete.status {col : DatetimeColumn T C} {m : Metric C V}
    {queue : List (List (ModelRequest T V))} (h : Complete col m queue) (status : MetricStatus) :
    Complete col { m with status := status } queue := h

/-- How a call goes on after its store transaction. -/
theorem Phase.storeData {col : DatetimeColumn T C} {batchSize : ℕ+} {m : Metric C V}
    {queue : List (List (ModelRequest T V))} {r : StoreResult Unit T C V}
    (hstatus : r.status = m.status) (hmetric : r.metric.status = m.status)
    (hrows : r.metric.rows = m.rows ++ (r.modelInputRows.getD []).map col.keepRow)
    (hq : m.status = .createPending ∨ m.status = .active → Complete col m queue)
    (hnil : m.status = .unmonitored ∨ m.status = .pendingData → queue = []) :
    Phase col ⟨r.metric, r.streamer, afterStore batchSize r, none, queue⟩ := by
  cases hr : r.modelInputRows.getD [] with
  | nil =>
    have hsame : r.metric.rows = m.rows := by simpa [hr] using hrows
    have hcall : afterStore batchSize r = .idle := by simp [afterStore, hr]
    have hcomplete : m.status = .createPending ∨ m.status = .active → Complete col r.metric queue := by
      intro hs
      obtain ⟨rows, hb, hk⟩ := hq hs
      exact ⟨rows, hb, hk.trans hsame.symm⟩
    rw [hcall]
    cases hs : m.status with
    | unmonitored =>
      rw [hnil (.inl hs)]
      exact .unmonitored _ _ (hmetric.trans hs)
    | pendingData =>
      rw [hnil (.inr hs)]
      exact .pendingData _ _ (hmetric.trans hs)
    | createPending => exact .streamed _ _ _ (.inl (hmetric.trans hs)) (hcomplete (.inl hs))
    | active => exact .streamed _ _ _ (.inr (hmetric.trans hs)) (hcomplete (.inr hs))
    | error => exact .failed _ _ _ (hmetric.trans hs)
  | cons row rows =>
    rw [hr] at hrows
    have hcomplete : m.status = .createPending ∨ m.status = .active → Complete col r.metric
        (queue ++ (sendInputRowsToModel batchSize (row :: rows)).map fun batch => batch.map .inputRow) :=
      fun hs => (hq hs).append hrows (flatten_sendInputRowsToModel batchSize _)
    cases hs : m.status with
    | unmonitored =>
      have hcall : afterStore batchSize r = .idle := by simp [afterStore, hr, hstatus, hs]
      rw [hcall, hnil (.inl hs)]
      exact .unmonitored _ _ (hmetric.trans hs)
    | pendingData =>
      rw [hnil (.inr hs)]
      by_cases hmany : modelCreationRecordThreshold ≤ ((row :: rows).getLast?.map (·.rowid)).getD 0
      · have hcall : afterStore batchSize r = .activatingModel := by
          simp only [afterStore, hr, hstatus, hs, if_pos hmany]
        rw [hcall]
        exact .activating _ _ (hmetric.trans hs)
      · have hcall : afterStore batchSize r = .idle := by
          simp only [afterStore, hr, hstatus, hs, if_neg hmany]
        rw [hcall]
        exact .pendingData _ _ (hmetric.trans hs)
    | createPending =>
      have hcall : afterStore batchSize r = .sending (sendInputRowsToModel batchSize (row :: rows)) := by
        simp only [afterStore, hr, hstatus, hs]
      rw [hcall]
      exact .sending _ _ _ _ (.inl (hmetric.trans hs)) (hcomplete (.inl hs))
    | active =>
      have hcall : afterStore batchSize r = .sending (sendInputRowsToModel batchSize (row :: rows)) := by
        simp only [afterStore, hr, hstatus, hs]
      rw [hcall]
      exact .sending _ _ _ _ (.inr (hmetric.trans hs)) (hcomplete (.inr hs))
    | error =>
      have hcall : afterStore batchSize r = .idle := by simp [afterStore, hr, hstatus, hs]
      rw [hcall]
      exact .failed _ _ _ (hmetric.trans hs)

theorem act_contiguous {col : DatetimeColumn T C} {batchSize : ℕ+} {a : Action T V}
    {s t : Streaming T C V} (h : s.metric.Contiguous) (ht : act col batchSize a s = some t) :
    t.metric.Contiguous := by
  cases a with
  | storeData now data =>
    simp only [act] at ht
    split at ht
    · cases ht
      exact MetricStreamer.storeData_contiguous h
    · cases ht
  | _ =>
    simp only [act] at ht
    repeat' split at ht
    all_goals cases ht
    all_goals exact h

theorem Phase.stored {col : DatetimeColumn T C} {batchSize : ℕ+} {m : Metric C V}
    {queue : List (List (ModelRequest T V))} (st : MetricStreamer Unit T) (now : ℤ)
    (data : List (T × V))
    (hq : m.status = .createPending ∨ m.status = .active → Complete col m queue)
    (hnil : m.status = .unmonitored ∨ m.status = .pendingData → queue = []) :
    Phase col ⟨(st.storeData col now () data m).metric, (st.storeData col now () data m).streamer,
      afterStore batchSize (st.storeData col now () data m), none, queue⟩ := by
  obtain ⟨hstatus, hmetric, hrows⟩ := MetricStreamer.storeData_spec col now () data st m
  exact Phase.storeData hstatus hmetric hrows hq hnil

/-- Every step goes from phase to phase. -/
theorem Phase.act {col : DatetimeColumn T C} {batchSize : ℕ+} {a : Action T V}
    {s t : Streaming T C V} (h : Phase col s) (hc : s.metric.Contiguous)
    (ht : Streaming.act col batchSize a s = some t) : Phase col t := by
  cases h with
  | unmonitored m st hm =>
    cases a with
    | storeData now data =>
      cases ht
      exact .stored st now data (by simp [hm]) (fun _ => rfl)
    | monitorMetric swarmParams =>
      cases swarmParams with
      | false =>
        simp only [Streaming.act, hm, if_true] at ht
        cases ht
        exact .monitorPending m st hm
      | true =>
        simp only [Streaming.act, hm, if_true] at ht
        cases ht
        exact .monitorStart m st _ _ hm (complete_startBatches col batchSize (backlog_keepRow col hc))
    | modelCreated => simp [Streaming.act, hm] at ht
    | modelFailed => simp [Streaming.act, hm] at ht
    | _ => cases ht
  | monitorPending m st hm =>
    cases a with
    | commit =>
      cases ht
      exact .pendingData _ st rfl
    | modelCreated => simp [Streaming.act] at ht
    | modelFailed => simp [Streaming.act] at ht
    | _ => cases ht
  | monitorStart m st toSubmit queue hm hq =>
    cases a with
    | submitInTransaction =>
      cases toSubmit with
      | nil => cases ht
      | cons batch batches =>
        cases ht
        exact .monitorStart m st batches _ hm (by simpa using hq)
    | commit =>
      cases toSubmit with
      | nil =>
        cases ht
        exact .streamed _ st queue (.inl rfl) (by simpa using hq.status .createPending)
      | cons batch batches => cases ht
    | modelCreated => simp [Streaming.act] at ht
    | modelFailed => simp [Streaming.act] at ht
    | _ => cases ht
  | pendingData m st hm =>
    cases a with
    | storeData now data =>
      cases ht
      exact .stored st now data (by simp [hm]) (fun _ => rfl)
    | monitorMetric swarmParams =>
      simp only [Streaming.act, hm] at ht
      cases ht
      exact .pendingData m st hm
    | modelCreated => simp [Streaming.act, hm] at ht
    | modelFailed => simp [Streaming.act, hm] at ht
    | _ => cases ht
  | activating m st hm =>
    cases a with
    | metricStatisticsNotReady =>
      cases ht
      exact .pendingData m st hm
    | readMetric =>
      simp only [Streaming.act, hm] at ht
      cases ht
      exact .starting m st _ hm (backlog_keepRow col hc)
    | monitorMetric swarmParams =>
      simp only [Streaming.act, hm] at ht
      cases ht
      exact .activating m st hm
    | modelCreated => simp [Streaming.act, hm] at ht
    | modelFailed => simp [Streaming.act, hm] at ht
    | _ => cases ht
  | starting m st rows hm hr =>
    cases a with
    | updateForRefStatus =>
      simp only [Streaming.act, hm, if_true] at ht
      cases ht
      exact .activation m st _ _ hm (complete_startBatches col batchSize hr)
    | monitorMetric swarmParams =>
      simp only [Streaming.act, hm] at ht
      cases ht
      exact .starting m st rows hm hr
    | modelCreated => simp [Streaming.act, hm] at ht
    | modelFailed => simp [Streaming.act, hm] at ht
    | _ => cases ht
  | activation m st toSubmit queue hm hq =>
    cases a with
    | submitInTransaction =>
      cases toSubmit with
      | nil => cases ht
      | cons batch batches =>
        cases ht
        exact .activation m st batches _ hm (by simpa using hq)
    | commit =>
      cases toSubmit with
      | nil =>
        cases ht
        exact .streamed _ st queue (.inl rfl) (by simpa using hq.status .createPending)
      | cons batch batches => cases ht
    | modelCreated => simp [Streaming.act] at ht
    | modelFailed => simp [Streaming.act] at ht
    | _ => cases ht
  | streamed m st queue hm hq =>
    have hne : m.status ≠ .unmonitored ∧ m.status ≠ .pendingData := by
      rcases hm with hm | hm <;> simp [hm]
    cases a with
    | storeData now data =>
      cases ht
      exact .stored st now data (fun _ => hq) fun h => absurd h (by simp [hne])
    | monitorMetric swarmParams =>
      simp only [Streaming.act, hne, if_false] at ht
      cases ht
      exact .streamed m st queue hm hq
    | modelCreated =>
      simp only [Streaming.act] at ht
      split at ht
      · cases ht
        exact .streamed _ st queue (.inr rfl) (hq.status .active)
      · cases ht
    | modelFailed =>
      simp only [Streaming.act] at ht
      split at ht
      · cases ht
        exact .failed _ st queue rfl
      · cases ht
    | _ => cases ht
  | sending m st batches queue hm hq =>
    have hne : m.status ≠ .unmonitored := by
      rcases hm with hm | hm <;> simp [hm]
    cases a with
    | submitRows =>
      cases batches with
      | nil =>
        cases ht
        exact .streamed m st queue hm (by simpa using hq)
      | cons batch batches =>
        cases ht
        exact .sending m st batches _ hm (by simpa using hq)
    | monitorMetric swarmParams =>
      simp only [Streaming.act, hne, if_false] at ht
      cases ht
      exact .sending m st batches queue hm hq
    | modelCreated =>
      simp only [Streaming.act] at ht
      split at ht
      · cases ht
        exact .sending _ st batches queue (.inr rfl) (hq.status .active)
      · cases ht
    | modelFailed =>
      simp only [Streaming.act] at ht
      split at ht
      · cases ht
        exact .failedSending _ st batches queue rfl
      · cases ht
    | _ => cases ht
  | failed m st queue hm =>
    cases a with
    | storeData now data =>
      cases ht
      exact .stored st now data (by simp [hm]) (by simp [hm])
    | monitorMetric swarmParams =>
      simp only [Streaming.act, hm] at ht
      cases ht
      exact .failed m st queue hm
    | modelCreated => simp [Streaming.act, hm] at ht
    | modelFailed => simp [Streaming.act, hm] at ht
    | _ => cases ht
  | failedSending m st batches queue hm =>
    cases a with
    | submitRows =>
      cases batches with
      | nil =>
        cases ht
        exact .failed m st queue hm
      | cons batch batches =>
        cases ht
        exact .failedSending m st batches _ hm
    | monitorMetric swarmParams =>
      simp only [Streaming.act, hm] at ht
      cases ht
      exact .failedSending m st batches queue hm
    | modelCreated => simp [Streaming.act, hm] at ht
    | modelFailed => simp [Streaming.act, hm] at ht
    | _ => cases ht

end

end Streaming

section

variable {T C V : Type} [LinearOrder T] [LinearOrder C]

/-- An unmonitored metric with any rows, and a streamer with any cache. -/
def streamingSystem (V : Type) (col : DatetimeColumn T C) (batchSize : ℕ+) :
    System (Streaming T C V) (Streaming.Action T V) where
  init s := s.metric.Contiguous ∧ s.metric.status = .unmonitored ∧ s.call = .idle ∧
    s.transaction = none ∧ s.modelQueue = []
  next := Streaming.act col batchSize

/-- The input rows that come after the first definition of the model. -/
def inputRowsAfterDefineModel : List (ModelRequest T V) → List (MetricDataRow T V)
  | [] => []
  | .inputRow _ :: requests => inputRowsAfterDefineModel requests
  | .defineModel :: requests => requests.filterMap fun
    | .inputRow row => some row
    | .defineModel => none

theorem streaming_phase {col : DatetimeColumn T C} {batchSize : ℕ+} {s : Streaming T C V}
    (h : Reachable (streamingSystem V col batchSize) s) :
    s.metric.Contiguous ∧ Streaming.Phase col s := by
  refine Reachable.invariant (I := fun s => s.metric.Contiguous ∧ Streaming.Phase col s) ?_ ?_ h
  · rintro ⟨m, st, call, transaction, queue⟩ ⟨hc, hm, hcall, htx, hqueue⟩
    obtain rfl : call = .idle := hcall
    obtain rfl : transaction = none := htx
    obtain rfl : queue = [] := hqueue
    exact ⟨hc, .unmonitored m st hm⟩
  · rintro a s t - ⟨hc, hphase⟩ ht
    exact ⟨Streaming.act_contiguous hc ht, hphase.act hc ht⟩

/-- Once the model of a metric has been requested and nothing is in progress, the
rows submitted after the definition of the model are all the rows of the metric,
each once, in ascending order of rowid. -/
theorem streamed_rows_exact {col : DatetimeColumn T C} {batchSize : ℕ+} {s : Streaming T C V}
    (h : Reachable (streamingSystem V col batchSize) s)
    (hstatus : s.metric.status = .createPending ∨ s.metric.status = .active)
    (hcall : s.call = .idle) (htx : s.transaction = none) :
    (inputRowsAfterDefineModel s.modelQueue.flatten).map col.keepRow = s.metric.rows ∧
      s.metric.rows.map (·.rowid) = List.range' 1 s.metric.lastRowid ∧
      s.modelQueue.flatten =
        .defineModel :: (inputRowsAfterDefineModel s.modelQueue.flatten).map .inputRow := by
  obtain ⟨hc, hphase⟩ := streaming_phase h
  have hcomplete : Streaming.Complete col s.metric s.modelQueue := by
    cases hphase with
    | streamed m st queue hm hq => exact hq
    | unmonitored m st hm => simp [hm] at hstatus
    | pendingData m st hm => simp [hm] at hstatus
    | failed m st queue hm => simp [hm] at hstatus
    | monitorPending => cases htx
    | monitorStart => cases htx
    | activation => cases htx
    | activating => cases hcall
    | starting => cases hcall
    | sending => cases hcall
    | failedSending => cases hcall
  obtain ⟨rows, hq, hrows⟩ := hcomplete
  have hafter : inputRowsAfterDefineModel s.modelQueue.flatten = rows := by
    rw [hq, inputRowsAfterDefineModel, List.filterMap_map]
    exact List.filterMap_some
  exact ⟨hafter.symm ▸ hrows, hc, hafter.symm ▸ hq⟩

end

/-- Two samples stored before the metric is monitored and one after it. -/
def handOverRun : List (Streaming.Action ℤ ℤ) :=
  [.storeData 1443000000000000 [(10000000, 1), (20000000, 2)], .monitorMetric true,
    .submitInTransaction, .submitInTransaction, .submitInTransaction, .commit,
    .storeData 1443000001000000 [(30000000, 3)], .submitRows, .submitRows]

def unmonitoredMetric : Streaming ℤ ℤ ℤ :=
  ⟨⟨.unmonitored, 0, []⟩, .initial Unit ℤ, .idle, none, []⟩

theorem streamed_rows_exact_handOver : ∃ s,
    (streamingSystem ℤ DatetimeColumn.seconds 1).exec handOverRun unmonitoredMetric = some s ∧
      s.metric.rows = [⟨1, 10, 1⟩, ⟨2, 20, 2⟩, ⟨3, 30, 3⟩] ∧
      (inputRowsAfterDefineModel s.modelQueue.flatten).map DatetimeColumn.seconds.keepRow =
        s.metric.rows := by
  obtain ⟨s, hs, hrows, hstatus, hcall, htx⟩ : ∃ s,
      (streamingSystem ℤ DatetimeColumn.seconds 1).exec handOverRun unmonitoredMetric = some s ∧
        s.metric.rows = [⟨1, 10, 1⟩, ⟨2, 20, 2⟩, ⟨3, 30, 3⟩] ∧ s.metric.status = .createPending ∧
        s.call = .idle ∧ s.transaction = none := ⟨_, rfl, rfl, rfl, rfl, rfl⟩
  have hinit : (streamingSystem ℤ DatetimeColumn.seconds 1).init unmonitoredMetric :=
    ⟨rfl, rfl, rfl, rfl, rfl⟩
  have hreach := Reachable.exec (.init hinit) hs
  exact ⟨s, hs, hrows, (streamed_rows_exact hreach (.inl hstatus) hcall htx).1⟩

end NumentaApps.Runtime
