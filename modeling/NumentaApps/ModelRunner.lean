import Mathlib.Data.Int.Notation
import NumentaApps.MessageBroker
import NumentaApps.ModelArchiver

/-!
# The model runner

`ModelRunner.run` as a process that may die between any two of its steps: it takes
request batches from the model's input queue, runs them, checkpoints the model and
only then acks the batches of the run. Acks travel to the broker on the consumer's
channel and are lost with it.
-/
namespace NumentaApps.ModelSwapper
open MessageBroker ModelCheckpoint

/-- The model commands and input rows of a request batch. -/
inductive ModelRequest (D S : Type) where
  | defineModel (commandID : String) (definition : D)
  | cloneModel (commandID : String) (newModelID : String)
  | deleteModel (commandID : String)
  | unknownCommand (commandID : String) (method : String)
  | inputRow (rowID : ℕ) (data : S)
  deriving DecidableEq, Repr

structure RequestBatch (B D S : Type) where
  batchID : B
  objects : List (ModelRequest D S)
  deriving DecidableEq, Repr

/-- Results, with status `none` for success. -/
inductive ModelResult (V : Type) where
  | command (commandID : String) (method : String) (status : Option RunnerErrno)
  | inference (rowID : ℕ) (status : Option RunnerErrno) (anomalyScore : Option V)
  deriving DecidableEq, Repr

variable {B D S M V : Type}

/-- Where a runner is in `run`. A received batch comes with its delivery tag, as long
as the channel it came on is open. -/
inductive RunPhase (B D S V : Type) where
  | nextRun
  | consuming
  | received (tag : Option ℕ) (batch : RequestBatch B D S)
  | processing (batch : RequestBatch B D S) (pending : List (ModelRequest D S))
      (results : List (ModelResult V))
  | modelRemoved (batch : RequestBatch B D S) (commandID : String)
      (pending : List (ModelRequest D S)) (results : List (ModelResult V))
  | runEnded
  | acking
  | runDone
  deriving DecidableEq, Repr

/-- The batch that has come from the consumer and was not looked at yet. -/
def RunPhase.candidateBatch : RunPhase B D S V → Option (RequestBatch B D S)
  | .received _ batch => some batch
  | _ => none

/-- The memory of a runner process; of the last request batch it keeps what its ack
needs. -/
structure ModelRunner (B D S M V : Type) where
  archiver : ModelArchiver B D S M
  modelCheckpointBatchIDSet : List B
  done : Bool
  currentRunBatchIDSet : List B
  currentRunInputSamples : List S
  currentRunNumRequests : ℕ
  lastRequestBatch : Option (Option ℕ)
  channelOpen : Bool
  phase : RunPhase B D S V
  deriving DecidableEq, Repr

/-- One model: its archive entry, its input queue, the acks under way on the
consumer's channel, the runner process if one is up, the results published, and the
IDs of the batches whose results were published and of those whose ack has arrived. -/
structure ModelHost (B D S M V : Type) where
  entry : ModelEntry B D S M
  queueExists : Bool
  queue : AckedQueue (RequestBatch B D S)
  acks : List (ℕ × Bool)
  runner : Option (ModelRunner B D S M V)
  results : List (ModelResult V)
  processed : List B
  acked : List B
  deriving DecidableEq, Repr

namespace ModelRunner

def new (entry : ModelEntry B D S M) : ModelRunner B D S M V :=
  let (ids, archiver) := (ModelArchiver.new : ModelArchiver B D S M).modelCheckpointBatchIDSet entry
  { archiver := archiver
    modelCheckpointBatchIDSet := ids
    done := false
    currentRunBatchIDSet := []
    currentRunInputSamples := []
    currentRunNumRequests := 0
    lastRequestBatch := none
    channelOpen := false
    phase := .nextRun }

def beginRun (r : ModelRunner B D S M V) : ModelRunner B D S M V :=
  { r with
    currentRunBatchIDSet := []
    currentRunInputSamples := []
    currentRunNumRequests := 0
    lastRequestBatch := none
    channelOpen := true
    phase := .consuming }

/-- The delivery tags of a channel are void when it is gone. -/
def loseChannel (r : ModelRunner B D S M V) : ModelRunner B D S M V :=
  { r with
    lastRequestBatch := r.lastRequestBatch.map fun _ => none
    channelOpen := false
    phase := match r.phase with
      | .received _ batch => .received none batch
      | phase => phase }

variable [DecidableEq D]

/-- The entry after the "defineModel" command, and its status. -/
def defineModel (definition : D) (entry : ModelEntry B D S M) (r : ModelRunner B D S M V) :
    ModelEntry B D S M × Option RunnerErrno :=
  match entry.define definition with
  | .ok entry => (entry, if r.archiver.model.isSome then some .err else none)
  | .error _ =>
    (entry, if entry.loadModelDefinition.toOption = some definition then none
      else some .errModelAlreadyExists)

omit [DecidableEq D] in
def processInputRow (opf : Opf D S M V) (entry : ModelEntry B D S M) (rowID : ℕ) (data : S)
    (r : ModelRunner B D S M V) : ModelRunner B D S M V × ModelResult V :=
  let (loaded, archiver) := r.archiver.loadModel opf entry
  let r := { r with archiver := archiver }
  match loaded with
  | .error errno => (r, .inference rowID (some errno) none)
  | .ok _ =>
    match archiver.model, archiver.inputRowEncoder with
    | some model, some definition =>
      let (model, anomalyScore) := opf.run definition model data
      ({ r with
          archiver := { archiver with model := some model }
          currentRunInputSamples := r.currentRunInputSamples ++ [data] },
        .inference rowID none (some anomalyScore))
    | _, _ => (r, .inference rowID (some .err) none)

end ModelRunner

namespace ModelHost

/-- The consumer's channel is gone, and with it the acks under way. -/
def closeChannel (h : ModelHost B D S M V) : ModelHost B D S M V :=
  { h with queue := h.queue.requeue, acks := [] }

/-- The runner process is gone. -/
def exitRunner (h : ModelHost B D S M V) : ModelHost B D S M V :=
  { h.closeChannel with runner := none }

/-- An ack on a channel that is gone raises if the client has noticed, and then ends
the process; else it is lost. -/
def sendAck (tag : Option ℕ) (multiple noticed : Bool) (r : ModelRunner B D S M V)
    (h : ModelHost B D S M V) : ModelHost B D S M V :=
  match tag with
  | some tag => { h with acks := h.acks ++ [(tag, multiple)], runner := some r }
  | none => if noticed then h.exitRunner else { h with runner := some r }

/-- The next step of a non-blocking consumer, which reconnects if it has to. The
broker handles the methods of a channel in order, the acks sent before included. -/
def getOneMessage (r : ModelRunner B D S M V) (h : ModelHost B D S M V) :
    Option (ModelHost B D S M V) :=
  if ¬ r.channelOpen then some { h with runner := some { r with channelOpen := true } }
  else if h.acks ≠ [] then none
  else if ¬ h.queueExists then some h.exitRunner
  else match h.queue.deliver with
    | none => some { h with runner := some { r with done := true, phase := .runEnded } }
    | some (batch, queue) =>
      some { h with
        queue := queue
        runner := some { r with phase := .received (some h.queue.nextTag) batch } }

def takeBatch [DecidableEq B] (tag : Option ℕ) (candidateBatch : RequestBatch B D S)
    (noticed : Bool) (r : ModelRunner B D S M V) (h : ModelHost B D S M V) :
    ModelHost B D S M V :=
  if candidateBatch.batchID ∈ r.currentRunBatchIDSet ∨
      candidateBatch.batchID ∈ r.modelCheckpointBatchIDSet then
    h.sendAck tag false noticed { r with phase := .consuming }
  else
    { h with runner := some { r with
        lastRequestBatch := some tag
        currentRunBatchIDSet := r.currentRunBatchIDSet ++ [candidateBatch.batchID]
        currentRunNumRequests := r.currentRunNumRequests + candidateBatch.objects.length
        phase := .processing candidateBatch candidateBatch.objects [] } }

/-- One request of `_processInputBatch`; a command that fails has no effect. The
"deleteModel" command goes on with `cleanUpAfterModelDeletion`. -/
def processRequest [DecidableEq D] (opf : Opf D S M V) (batch : RequestBatch B D S)
    (request : ModelRequest D S) (pending : List (ModelRequest D S))
    (results : List (ModelResult V)) (fails : Bool) (r : ModelRunner B D S M V)
    (h : ModelHost B D S M V) : ModelHost B D S M V :=
  match request with
  | .defineModel commandID definition =>
    let (entry, status) := if fails then (h.entry, some .err) else r.defineModel definition h.entry
    { h with
      entry := entry
      runner := some { r with
        phase := .processing batch pending
          (results ++ [.command commandID "defineModel" status]) } }
  | .cloneModel commandID _ =>
    let status := if fails then some .err else if h.entry.isNone then some .errNoSuchModel else none
    { h with runner := some { r with
        phase := .processing batch pending
          (results ++ [.command commandID "cloneModel" status]) } }
  | .deleteModel commandID =>
    if fails then
      { h with runner := some { r with
          archiver := ModelArchiver.new
          done := true
          phase := .processing batch pending
            (results ++ [.command commandID "deleteModel" (some .err)]) } }
    else
      { h with
        entry := h.entry.remove.toOption.getD h.entry
        runner := some { r with phase := .modelRemoved batch commandID pending results } }
  | .unknownCommand commandID method =>
    { h with runner := some { r with
        phase := .processing batch pending
          (results ++ [.command commandID method (some .errInvalidArg)]) } }
  | .inputRow rowID data =>
    let (r, result) := r.processInputRow opf h.entry rowID data
    { h with runner := some { r with phase := .processing batch pending (results ++ [result]) } }

/-- The rest of `_deleteModel`, which deletes the model's input queue. -/
def cleanUpAfterModelDeletion (batch : RequestBatch B D S) (commandID : String)
    (pending : List (ModelRequest D S)) (results : List (ModelResult V)) (fails : Bool)
    (r : ModelRunner B D S M V) (h : ModelHost B D S M V) : ModelHost B D S M V :=
  { h with
    queueExists := if fails then h.queueExists else false
    queue := if fails then h.queue else h.queue.drop
    runner := some { r with
      archiver := ModelArchiver.new
      done := true
      phase := .processing batch pending
        (results ++ [.command commandID "deleteModel" (if fails then some .err else none)]) } }

def submitResults (targetMaxRequestsPerCheckpoint : ℤ) (batch : RequestBatch B D S)
    (results : List (ModelResult V)) (r : ModelRunner B D S M V) (h : ModelHost B D S M V) :
    ModelHost B D S M V :=
  { h with
    results := h.results ++ results
    processed := h.processed ++ [batch.batchID]
    runner := some { r with
      phase := if r.done ∨ (r.currentRunNumRequests : ℤ) ≥ targetMaxRequestsPerCheckpoint then
        .runEnded else .consuming } }

def checkpoint (r : ModelRunner B D S M V) (h : ModelHost B D S M V) : ModelHost B D S M V :=
  match r.lastRequestBatch with
  | none => { h with runner := some { r with phase := .runDone } }
  | some _ =>
    match r.archiver.saveModel h.entry r.currentRunBatchIDSet r.currentRunInputSamples with
    | .error _ => h.exitRunner
    | .ok (entry, archiver) =>
      { h with
        entry := entry
        runner := some { r with
          archiver := archiver
          modelCheckpointBatchIDSet := r.currentRunBatchIDSet
          phase := .acking } }

/-- The end of a run. The close of an open channel comes after the acks sent on it. -/
def endRun (preempted : Bool) (r : ModelRunner B D S M V) (h : ModelHost B D S M V) :
    Option (ModelHost B D S M V) :=
  if r.channelOpen ∧ h.acks ≠ [] then none
  else some { h.closeChannel with
    runner := some { r.loseChannel with
      done := r.done || preempted
      phase := .nextRun } }

/-- The broker receives the next ack. -/
def receiveAck (h : ModelHost B D S M V) : Option (ModelHost B D S M V) :=
  match h.acks with
  | [] => none
  | (tag, multiple) :: acks =>
    some { h with
      queue := h.queue.settle tag multiple
      acks := acks
      acked := h.acked ++ (h.queue.settled tag multiple).map fun p => p.2.batchID }

/-- The next step of the consumer: it reconnects, finds no queue or no message, or
receives a batch. -/
theorem getOneMessage_cases {h t : ModelHost B D S M V} {r : ModelRunner B D S M V}
    (ht : h.getOneMessage r = some t) :
    (r.channelOpen = false ∧ t = { h with runner := some { r with channelOpen := true } }) ∨
    (r.channelOpen = true ∧ h.acks = [] ∧
      ((h.queueExists = false ∧ t = h.exitRunner) ∨
      (h.queueExists = true ∧ h.queue.ready = [] ∧
        t = { h with runner := some { r with done := true, phase := .runEnded } }) ∨
      ∃ batch queue, h.queueExists = true ∧ h.queue.deliver = some (batch, queue) ∧
        t = { h with
          queue := queue
          runner := some { r with phase := .received (some h.queue.nextTag) batch } })) := by
  rw [getOneMessage] at ht
  split at ht
  · next ho => exact .inl ⟨by simpa using ho, (Option.some.inj ht).symm⟩
  · next ho =>
    have ho : r.channelOpen = true := by simpa using ho
    split at ht
    · cases ht
    · next ha =>
      have ha : h.acks = [] := not_not.mp ha
      refine .inr ⟨ho, ha, ?_⟩
      split at ht
      · next hq => exact .inl ⟨by simpa using hq, (Option.some.inj ht).symm⟩
      · next hq =>
        have hq : h.queueExists = true := by simpa using hq
        split at ht
        · next hd =>
          exact .inr (.inl ⟨hq, AckedQueue.deliver_eq_none.mp hd, (Option.some.inj ht).symm⟩)
        · next batch queue hd =>
          exact .inr (.inr ⟨batch, queue, hq, hd, (Option.some.inj ht).symm⟩)

inductive Action where
  | start
  | beginRun
  | getOneMessage
  | takeBatch (noticed : Bool)
  | processRequest (fails : Bool)
  | cleanUpAfterModelDeletion (fails : Bool)
  | submitResults
  | checkpoint
  | ackRun (noticed : Bool)
  | endRun (preempted : Bool)
  | receiveAck
  | channelDies
  | crash
  deriving DecidableEq, Repr

variable [DecidableEq B] [DecidableEq D]

def act (opf : Opf D S M V) (targetMaxRequestsPerCheckpoint : ℤ) (a : Action)
    (h : ModelHost B D S M V) : Option (ModelHost B D S M V) :=
  match a with
  | .start =>
    if h.runner.isNone then some { h with runner := some (ModelRunner.new h.entry) } else none
  | .beginRun => do
    let r ← h.runner
    let .nextRun := r.phase | none
    return if r.done then h.exitRunner else { h with runner := some r.beginRun }
  | .getOneMessage => do
    let r ← h.runner
    let .consuming := r.phase | none
    h.getOneMessage r
  | .takeBatch noticed => do
    let r ← h.runner
    let .received tag batch := r.phase | none
    return h.takeBatch tag batch noticed r
  | .processRequest fails => do
    let r ← h.runner
    let .processing batch (request :: pending) results := r.phase | none
    return h.processRequest opf batch request pending results fails r
  | .cleanUpAfterModelDeletion fails => do
    let r ← h.runner
    let .modelRemoved batch commandID pending results := r.phase | none
    return h.cleanUpAfterModelDeletion batch commandID pending results fails r
  | .submitResults => do
    let r ← h.runner
    let .processing batch [] results := r.phase | none
    return h.submitResults targetMaxRequestsPerCheckpoint batch results r
  | .checkpoint => do
    let r ← h.runner
    let .runEnded := r.phase | none
    return h.checkpoint r
  | .ackRun noticed => do
    let r ← h.runner
    let .acking := r.phase | none
    let tag ← r.lastRequestBatch
    return h.sendAck tag true noticed { r with phase := .runDone }
  | .endRun preempted => do
    let r ← h.runner
    let .runDone := r.phase | none
    h.endRun preempted r
  | .receiveAck => h.receiveAck
  | .channelDies => do
    let r ← h.runner
    if r.channelOpen then some { h.closeChannel with runner := some r.loseChannel } else none
  | .crash => do
    let _ ← h.runner
    return h.exitRunner

/-! ## Each action inverted -/

variable {opf : Opf D S M V} {target : ℤ} {h t : ModelHost B D S M V}

theorem act_start_eq (ht : act opf target .start h = some t) :
    h.runner = none ∧ t = { h with runner := some (ModelRunner.new h.entry) } := by
  simp only [act, Option.isNone_iff_eq_none] at ht
  split at ht
  · next hr => exact ⟨hr, (Option.some.inj ht).symm⟩
  · cases ht

theorem act_beginRun_eq (ht : act opf target .beginRun h = some t) :
    ∃ r, h.runner = some r ∧ r.phase = .nextRun ∧
      t = if r.done then h.exitRunner else { h with runner := some r.beginRun } := by
  obtain ⟨r, hr, ht⟩ := Option.bind_eq_some_iff.mp ht
  split at ht
  · next hp => exact ⟨r, hr, hp, (Option.some.inj ht).symm⟩
  · cases ht

theorem act_getOneMessage_eq (ht : act opf target .getOneMessage h = some t) :
    ∃ r, h.runner = some r ∧ r.phase = .consuming ∧ h.getOneMessage r = some t := by
  obtain ⟨r, hr, ht⟩ := Option.bind_eq_some_iff.mp ht
  split at ht
  · next hp => exact ⟨r, hr, hp, ht⟩
  · cases ht

theorem act_takeBatch_eq {noticed : Bool} (ht : act opf target (.takeBatch noticed) h = some t) :
    ∃ r tag batch, h.runner = some r ∧ r.phase = .received tag batch ∧
      t = h.takeBatch tag batch noticed r := by
  obtain ⟨r, hr, ht⟩ := Option.bind_eq_some_iff.mp ht
  split at ht
  · next tag batch hp => exact ⟨r, tag, batch, hr, hp, (Option.some.inj ht).symm⟩
  · cases ht

theorem act_processRequest_eq {fails : Bool}
    (ht : act opf target (.processRequest fails) h = some t) :
    ∃ r batch request pending results, h.runner = some r ∧
      r.phase = .processing batch (request :: pending) results ∧
      t = h.processRequest opf batch request pending results fails r := by
  obtain ⟨r, hr, ht⟩ := Option.bind_eq_some_iff.mp ht
  split at ht
  · next batch request pending results hp =>
    exact ⟨r, batch, request, pending, results, hr, hp, (Option.some.inj ht).symm⟩
  · cases ht

theorem act_cleanUpAfterModelDeletion_eq {fails : Bool}
    (ht : act opf target (.cleanUpAfterModelDeletion fails) h = some t) :
    ∃ r batch commandID pending results, h.runner = some r ∧
      r.phase = .modelRemoved batch commandID pending results ∧
      t = h.cleanUpAfterModelDeletion batch commandID pending results fails r := by
  obtain ⟨r, hr, ht⟩ := Option.bind_eq_some_iff.mp ht
  split at ht
  · next batch commandID pending results hp =>
    exact ⟨r, batch, commandID, pending, results, hr, hp, (Option.some.inj ht).symm⟩
  · cases ht

theorem act_submitResults_eq (ht : act opf target .submitResults h = some t) :
    ∃ r batch results, h.runner = some r ∧ r.phase = .processing batch [] results ∧
      t = h.submitResults target batch results r := by
  obtain ⟨r, hr, ht⟩ := Option.bind_eq_some_iff.mp ht
  split at ht
  · next batch results hp => exact ⟨r, batch, results, hr, hp, (Option.some.inj ht).symm⟩
  · cases ht

theorem act_checkpoint_eq (ht : act opf target .checkpoint h = some t) :
    ∃ r, h.runner = some r ∧ r.phase = .runEnded ∧ t = h.checkpoint r := by
  obtain ⟨r, hr, ht⟩ := Option.bind_eq_some_iff.mp ht
  split at ht
  · next hp => exact ⟨r, hr, hp, (Option.some.inj ht).symm⟩
  · cases ht

theorem act_ackRun_eq {noticed : Bool} (ht : act opf target (.ackRun noticed) h = some t) :
    ∃ r tag, h.runner = some r ∧ r.phase = .acking ∧ r.lastRequestBatch = some tag ∧
      t = h.sendAck tag true noticed { r with phase := .runDone } := by
  obtain ⟨r, hr, ht⟩ := Option.bind_eq_some_iff.mp ht
  split at ht
  · next hp =>
    obtain ⟨tag, hl, ht⟩ := Option.bind_eq_some_iff.mp ht
    exact ⟨r, tag, hr, hp, hl, (Option.some.inj ht).symm⟩
  · cases ht

theorem act_endRun_eq {preempted : Bool} (ht : act opf target (.endRun preempted) h = some t) :
    ∃ r, h.runner = some r ∧ r.phase = .runDone ∧ (r.channelOpen → h.acks = []) ∧
      t = { h.closeChannel with
        runner := some { r.loseChannel with
          done := r.done || preempted
          phase := .nextRun } } := by
  obtain ⟨r, hr, ht⟩ := Option.bind_eq_some_iff.mp ht
  split at ht
  · next hp =>
    rw [endRun] at ht
    split at ht
    · cases ht
    · next hc =>
      refine ⟨r, hr, hp, fun ho => ?_, (Option.some.inj ht).symm⟩
      exact not_not.mp fun ha => hc ⟨ho, ha⟩
  · cases ht

theorem act_receiveAck_eq (ht : act opf target .receiveAck h = some t) :
    ∃ tag multiple acks, h.acks = (tag, multiple) :: acks ∧
      t = { h with
        queue := h.queue.settle tag multiple
        acks := acks
        acked := h.acked ++ (h.queue.settled tag multiple).map fun p => p.2.batchID } := by
  simp only [act, receiveAck] at ht
  split at ht
  · cases ht
  · next tag multiple acks ha => exact ⟨tag, multiple, acks, ha, (Option.some.inj ht).symm⟩

theorem act_channelDies_eq (ht : act opf target .channelDies h = some t) :
    ∃ r, h.runner = some r ∧ r.channelOpen = true ∧
      t = { h.closeChannel with runner := some r.loseChannel } := by
  obtain ⟨r, hr, ht⟩ := Option.bind_eq_some_iff.mp ht
  split at ht
  · next ho => exact ⟨r, hr, ho, (Option.some.inj ht).symm⟩
  · cases ht

theorem act_crash_eq (ht : act opf target .crash h = some t) :
    (∃ r, h.runner = some r) ∧ t = h.exitRunner := by
  obtain ⟨r, hr, ht⟩ := Option.bind_eq_some_iff.mp ht
  exact ⟨⟨r, hr⟩, (Option.some.inj ht).symm⟩

end ModelHost

end NumentaApps.ModelSwapper
