import NumentaApps.MetricRepository
import NumentaApps.ModelRunner
import NumentaApps.TransitionSystem

/-!
# Deleting a model and defining it again

`unmonitorMetric` purges the model's input queue and submits "deleteModel", which a
runner ends by deleting the queue; `monitorMetric` submits "defineModel" and the data
backlog under the same queue name. Batches are lost when the second overtakes the
processing of the first, and only then.
-/
namespace NumentaApps.ModelSwapper
open MessageBroker ModelCheckpoint Repository TransitionSystem

variable {B D S M V : Type}

def ModelRequest.isDelete : ModelRequest D S → Bool
  | .deleteModel _ => true
  | _ => false

def RequestBatch.deletesModel (batch : RequestBatch B D S) : Bool :=
  batch.objects.any ModelRequest.isDelete

/-- The runner has a "deleteModel" command in hand that it is not through with. -/
def RunPhase.deletesModel : RunPhase B D S V → Bool
  | .received _ batch => batch.deletesModel
  | .processing _ pending _ => pending.any ModelRequest.isDelete
  | .modelRemoved .. => true
  | _ => false

/-- No "deleteModel" command is outstanding, in the queue or with the runner. -/
def ModelHost.NoDeletion (h : ModelHost B D S M V) : Prop :=
  (∀ batch ∈ h.queue.held, batch.deletesModel = false) ∧
    ∀ r ∈ h.runner, r.phase.deletesModel = false

instance (h : ModelHost B D S M V) : Decidable h.NoDeletion :=
  inferInstanceAs (Decidable ((∀ batch ∈ h.queue.held, batch.deletesModel = false) ∧
    ∀ r ∈ h.runner, r.phase.deletesModel = false))

/-- Where a call of the datasource adapter is: `monitorMetric` in its transaction,
`unmonitorMetric` after its own. -/
inductive MonitorCall (B D S : Type) where
  | creatingQueue (commandID : String) (definition : D) (backlog : List (List (ℕ × S)))
  | definingModel (commandID : String) (definition : D) (backlog : List (List (ℕ × S)))
  | sendingBacklog (submitted : List (RequestBatch B D S)) (backlog : List (List (ℕ × S)))
  | purging (commandID : String)
  | deletingModel (commandID : String)
  deriving DecidableEq, Repr

/-- A custom metric and its model: the call in progress, the batches that the last
completed call submitted if it was a `monitorMetric`, and the batch IDs used. -/
structure Monitoring (B D S M V : Type) where
  host : ModelHost B D S M V
  status : MetricStatus
  call : Option (MonitorCall B D S)
  completed : List (RequestBatch B D S)
  batchIDs : List B

namespace Monitoring

inductive Action (B D S : Type) where
  | monitorMetric (commandID : String) (definition : Option D) (backlog : List (List (ℕ × S)))
  | createMessageQueue
  | defineModel (batchID : B)
  | sendInputRows (batchID : B)
  | commit
  | abort
  | unmonitorMetric (commandID : String)
  | purge
  | deleteModel (batchID : B)
  | host (a : ModelHost.Action)
  deriving DecidableEq, Repr

def publish (batch : RequestBatch B D S) (call : Option (MonitorCall B D S))
    (s : Monitoring B D S M V) : Monitoring B D S M V :=
  { s with
    host := { s.host with queue := s.host.queue.publish batch }
    call := call
    batchIDs := s.batchIDs ++ [batch.batchID] }

/-- Calls start one after the other. A metric without statistics waits for data; a
publish to a queue that does not exist raises out of `defineModel`, ends the sending
of the backlog, and is ignored by `deleteModel`. -/
def act [DecidableEq B] [DecidableEq D] (opf : Opf D S M V) (targetMaxRequestsPerCheckpoint : ℤ)
    (a : Action B D S) (s : Monitoring B D S M V) : Option (Monitoring B D S M V) :=
  match a, s.call with
  | .host a, _ =>
    (s.host.act opf targetMaxRequestsPerCheckpoint a).map fun host => { s with host := host }
  | .monitorMetric commandID definition backlog, none =>
    if s.status ≠ .unmonitored then some s
    else match definition with
      | none => some { s with status := .pendingData, completed := [] }
      | some definition =>
        some { s with call := some (.creatingQueue commandID definition backlog) }
  | .createMessageQueue, some (.creatingQueue commandID definition backlog) =>
    some { s with
      host := { s.host with queueExists := true }
      call := some (.definingModel commandID definition backlog) }
  | .defineModel batchID, some (.definingModel commandID definition backlog) =>
    if batchID ∈ s.batchIDs then none
    else if ¬ s.host.queueExists then some { s with call := none }
    else
      let batch := ⟨batchID, [.defineModel commandID definition]⟩
      some (s.publish batch (some (.sendingBacklog [batch] backlog)))
  | .sendInputRows batchID, some (.sendingBacklog submitted (rows :: backlog)) =>
    if batchID ∈ s.batchIDs then none
    else if ¬ s.host.queueExists then some { s with call := some (.sendingBacklog submitted []) }
    else
      let batch := ⟨batchID, rows.map fun p => .inputRow p.1 p.2⟩
      some (s.publish batch (some (.sendingBacklog (submitted ++ [batch]) backlog)))
  | .commit, some (.sendingBacklog submitted []) =>
    some { s with status := .createPending, call := none, completed := submitted }
  | .abort, some (.creatingQueue ..) => some { s with call := none }
  | .abort, some (.definingModel ..) => some { s with call := none }
  | .abort, some (.sendingBacklog ..) => some { s with call := none }
  | .unmonitorMetric commandID, none =>
    some { s with status := .unmonitored, call := some (.purging commandID) }
  | .purge, some (.purging commandID) =>
    if ¬ s.host.queueExists then some { s with call := none, completed := [] }
    else some { s with
      host := { s.host with queue := s.host.queue.purge }
      call := some (.deletingModel commandID) }
  | .deleteModel batchID, some (.deletingModel commandID) =>
    if batchID ∈ s.batchIDs then none
    else if ¬ s.host.queueExists then some { s with call := none, completed := [] }
    else some { s.publish ⟨batchID, [.deleteModel commandID]⟩ none with completed := [] }
  | _, _ => none

/-- The metric is not monitored, and nothing was ever submitted for it. -/
def system [DecidableEq B] [DecidableEq D] (opf : Opf D S M V)
    (targetMaxRequestsPerCheckpoint : ℤ) :
    System (Monitoring B D S M V) (Action B D S) where
  init s := s = {
    host := {
      entry := none
      queueExists := false
      queue := .empty _
      acks := []
      runner := none
      results := []
      processed := []
      acked := [] }
    status := .unmonitored
    call := none
    completed := []
    batchIDs := [] }
  next := act opf targetMaxRequestsPerCheckpoint

def Action.definesModel : Action B D S → Bool
  | .defineModel _ => true
  | _ => false

/-- A "defineModel" command is submitted only when no "deleteModel" is outstanding. -/
def DefinesAfterDeletion (s : Monitoring B D S M V) (a : Action B D S) : Prop :=
  a.definesModel → s.host.NoDeletion

instance (s : Monitoring B D S M V) (a : Action B D S) : Decidable (s.DefinesAfterDeletion a) :=
  inferInstanceAs (Decidable (_ → s.host.NoDeletion))

/-- The call in progress has purged the queue. -/
def purged (s : Monitoring B D S M V) : Bool :=
  match s.call with
  | some (.deletingModel _) => true
  | _ => false

/-- The batches are in the model's queue, or were processed by a runner. -/
def Kept (batches : List (RequestBatch B D S)) (h : ModelHost B D S M V) : Prop :=
  ∀ batch ∈ batches, batch ∈ h.queue.held ∨ batch.batchID ∈ h.processed

end Monitoring

/-! ## What a runner acks, it has processed -/

/-- The batch whose requests are being processed. -/
def RunPhase.batchInHand : RunPhase B D S V → Option (RequestBatch B D S)
  | .processing batch _ _ => some batch
  | .modelRemoved batch _ _ _ => some batch
  | _ => none

namespace ModelHost

/-- Every unacked batch has been processed, but for the one that a runner has just
received or has in hand; then no ack is under way. -/
def Unacked (h : ModelHost B D S M V) : RunPhase B D S V → Prop
  | .received tag batch => h.acks = [] ∧ ∀ p ∈ h.queue.unacked,
      if some p.1 = tag then p.2 = batch else p.2.batchID ∈ h.processed
  | .processing batch _ _ => h.acks = [] ∧ ∀ p ∈ h.queue.unacked,
      p.2.batchID ∈ h.processed ∨ p.2 = batch
  | .modelRemoved batch _ _ _ => h.acks = [] ∧ ∀ p ∈ h.queue.unacked,
      p.2.batchID ∈ h.processed ∨ p.2 = batch
  | _ => ∀ p ∈ h.queue.unacked, p.2.batchID ∈ h.processed

structure RunnerAccounted (h : ModelHost B D S M V) (r : ModelRunner B D S M V) : Prop where
  known : ∀ id ∈ r.modelCheckpointBatchIDSet, id ∈ h.processed
  cached : ModelArchiver.CachedIDs (· ∈ h.processed) r.archiver
  current : ∀ id ∈ r.currentRunBatchIDSet,
    id ∈ h.processed ∨ ∃ batch ∈ r.phase.batchInHand, id = batch.batchID
  unacked : h.Unacked r.phase

/-- Every batch ID that marks a batch as done is one of a processed batch. -/
structure Accounted (h : ModelHost B D S M V) : Prop where
  stored : ModelArchiver.StoredIDs (· ∈ h.processed) h.entry
  tags : ∀ p ∈ h.queue.unacked, p.1 < h.queue.nextTag
  idle : h.runner = none → h.queue.unacked = []
  runner : ∀ r, h.runner = some r → h.RunnerAccounted r

variable {opf : Opf D S M V} {target : ℤ} {h t : ModelHost B D S M V}
  {r : ModelRunner B D S M V}

theorem Accounted.exitRunner (hA : h.Accounted) : h.exitRunner.Accounted :=
  ⟨hA.stored, fun p hp => (by cases hp), fun _ => rfl, fun r hr => (by cases hr)⟩

/-- A step of the runner that leaves the archive, the queue and the processed batches
alone. -/
theorem Accounted.setRunner {r' : ModelRunner B D S M V} {acks : List (ℕ × Bool)}
    (hA : h.Accounted) (hr' : RunnerAccounted { h with acks := acks, runner := some r' } r') :
    Accounted { h with acks := acks, runner := some r' } := by
  refine ⟨hA.stored, hA.tags, fun hr => (by cases hr), fun r'' hr'' => ?_⟩
  obtain rfl := Option.some.inj hr''
  exact hr'

/-- A queue from which deliveries were only taken away. -/
theorem Accounted.setQueue {queue : AckedQueue (RequestBatch B D S)} {queueExists : Bool}
    {acks : List (ℕ × Bool)} {acked : List B} (hA : h.Accounted)
    (hsub : ∀ p ∈ queue.unacked, p ∈ h.queue.unacked) (htag : queue.nextTag = h.queue.nextTag)
    (hacks : h.acks = [] → acks = []) :
    Accounted { h with
      queueExists := queueExists, queue := queue, acks := acks, acked := acked } := by
  refine ⟨hA.stored, fun p hp => htag ▸ hA.tags p (hsub p hp), fun hr => ?_, fun r hr => ?_⟩
  · have hnil := hA.idle hr
    exact List.eq_nil_iff_forall_not_mem.mpr fun p hp => by simpa [hnil] using hsub p hp
  · have hR := hA.runner r hr
    refine ⟨hR.known, hR.cached, hR.current, ?_⟩
    have hunacked := hR.unacked
    cases hp : r.phase <;> simp only [hp, Unacked] at hunacked ⊢
    case received => exact ⟨hacks hunacked.1, fun p hp => hunacked.2 p (hsub p hp)⟩
    case processing => exact ⟨hacks hunacked.1, fun p hp => hunacked.2 p (hsub p hp)⟩
    case modelRemoved => exact ⟨hacks hunacked.1, fun p hp => hunacked.2 p (hsub p hp)⟩
    all_goals exact fun p hp => hunacked p (hsub p hp)

theorem Accounted.start (hA : h.Accounted) (hr : h.runner = none) :
    Accounted { h with runner := some (ModelRunner.new h.entry) } := by
  have hloaded := hA.stored.loadCheckpointAttributes (a := ModelArchiver.new)
  refine hA.setRunner ⟨hloaded.getD, hloaded, fun id hid => (by cases hid), ?_⟩
  intro p hp
  rw [hA.idle hr] at hp
  cases hp

theorem Accounted.beginRun (hA : h.Accounted) (hr : h.runner = some r)
    (hp : r.phase = .nextRun) :
    Accounted (if r.done then h.exitRunner else { h with runner := some r.beginRun }) := by
  have hR := hA.runner r hr
  have hunacked := hR.unacked
  simp only [hp, Unacked] at hunacked
  split
  · exact hA.exitRunner
  · refine hA.setRunner ⟨hR.known, hR.cached, fun id hid => ?_, hunacked⟩
    cases hid

theorem Accounted.getOneMessage (hA : h.Accounted) (hr : h.runner = some r)
    (hp : r.phase = .consuming) (ht : h.getOneMessage r = some t) : t.Accounted := by
  have hR := hA.runner r hr
  have hunacked := hR.unacked
  have hcurrent := hR.current
  simp only [hp, Unacked, RunPhase.batchInHand] at hunacked hcurrent
  have hprocessed : ∀ id ∈ r.currentRunBatchIDSet, id ∈ h.processed := by
    intro id hid
    rcases hcurrent id hid with hid | ⟨batch, hbatch, -⟩
    · exact hid
    · cases hbatch
  rcases getOneMessage_cases ht with ⟨-, rfl⟩ | ⟨-, ha, ⟨-, rfl⟩ | ⟨-, -, rfl⟩ |
    ⟨batch, queue, -, hd, rfl⟩⟩
  · refine hA.setRunner ⟨hR.known, hR.cached, hR.current, ?_⟩
    rw [hp]
    exact hunacked
  · exact hA.exitRunner
  · exact hA.setRunner ⟨hR.known, hR.cached, fun id hid => .inl (hprocessed id hid), hunacked⟩
  · obtain ⟨-, -, hdelivered, htag⟩ := AckedQueue.held_deliver hd
    refine ⟨hA.stored, ?_, fun hr => (by cases hr), fun r' hr' => ?_⟩
    · intro p hp
      rw [hdelivered, List.mem_append, List.mem_singleton] at hp
      rw [htag]
      rcases hp with hp | rfl
      · exact Nat.lt_succ_of_lt (hA.tags p hp)
      · exact Nat.lt_succ_self _
    · obtain rfl := Option.some.inj hr'
      refine ⟨hR.known, hR.cached, fun id hid => .inl (hprocessed id hid), ha, ?_⟩
      intro p hp
      rw [hdelivered, List.mem_append, List.mem_singleton] at hp
      rcases hp with hp | rfl
      · have hlt := hA.tags p hp
        rw [if_neg (by simp; omega)]
        exact hunacked p hp
      · rw [if_pos rfl]

theorem Accounted.sendAck {tag : Option ℕ} {multiple noticed : Bool}
    {phase : RunPhase B D S V} (hA : h.Accounted) (hr : h.runner = some r)
    (hcurrent : ∀ id ∈ r.currentRunBatchIDSet, id ∈ h.processed)
    (hphase : ∀ acks, Unacked { h with acks := acks } phase) :
    (h.sendAck tag multiple noticed { r with phase := phase }).Accounted := by
  have hR := hA.runner r hr
  have hset : ∀ acks, RunnerAccounted { h with acks := acks, runner := some { r with phase := phase } }
      { r with phase := phase } :=
    fun acks => ⟨hR.known, hR.cached, fun id hid => .inl (hcurrent id hid), hphase acks⟩
  cases tag with
  | some tag => exact hA.setRunner (hset _)
  | none =>
    rw [ModelHost.sendAck]
    split
    · exact hA.exitRunner
    · exact hA.setRunner (hset _)

theorem Accounted.takeBatch [DecidableEq B] {tag : Option ℕ} {batch : RequestBatch B D S}
    {noticed : Bool} (hA : h.Accounted) (hr : h.runner = some r)
    (hp : r.phase = .received tag batch) : (h.takeBatch tag batch noticed r).Accounted := by
  have hR := hA.runner r hr
  obtain ⟨hacks, hunacked⟩ : h.acks = [] ∧ ∀ p ∈ h.queue.unacked,
      if some p.1 = tag then p.2 = batch else p.2.batchID ∈ h.processed := by
    simpa only [hp, Unacked] using hR.unacked
  have hcurrent : ∀ id ∈ r.currentRunBatchIDSet, id ∈ h.processed := by
    intro id hid
    rcases hR.current id hid with hid | ⟨b, hb, -⟩
    · exact hid
    · simp [hp, RunPhase.batchInHand] at hb
  have hcases : ∀ p ∈ h.queue.unacked, p.2 = batch ∨ p.2.batchID ∈ h.processed := by
    intro p hp
    have hp := hunacked p hp
    split at hp
    · exact .inl hp
    · exact .inr hp
  rw [ModelHost.takeBatch]
  split
  · next hdup =>
    have hdone : batch.batchID ∈ h.processed := hdup.elim (hcurrent _) (hR.known _)
    have hall : ∀ p ∈ h.queue.unacked, p.2.batchID ∈ h.processed := by
      intro p hp
      rcases hcases p hp with rfl | hp
      · exact hdone
      · exact hp
    exact hA.sendAck hr hcurrent fun _ => hall
  · refine hA.setRunner ⟨hR.known, hR.cached, ?_, hacks, fun p hp => (hcases p hp).symm⟩
    intro id hid
    rcases List.mem_append.mp hid with hid | hid
    · exact .inl (hcurrent id hid)
    · exact .inr ⟨batch, rfl, List.mem_singleton.mp hid⟩

theorem processInputRow_eq (opf : Opf D S M V) {P : B → Prop} (hs : ModelArchiver.StoredIDs P h.entry)
    (ha : ModelArchiver.CachedIDs P r.archiver) (rowID : ℕ) (data : S) :
    ∃ archiver samples, (r.processInputRow opf h.entry rowID data).1 =
        { r with archiver := archiver, currentRunInputSamples := samples } ∧
      ModelArchiver.CachedIDs P archiver := by
  have hload : ModelArchiver.CachedIDs P (r.archiver.loadModel opf h.entry).2 := ha.loadModel hs
  rcases hl : r.archiver.loadModel opf h.entry with ⟨loaded, archiver⟩
  rw [hl] at hload
  simp only [ModelRunner.processInputRow, hl]
  cases loaded with
  | error errno => exact ⟨archiver, _, rfl, hload⟩
  | ok _ =>
    dsimp only
    split
    · exact ⟨_, _, rfl, hload⟩
    · exact ⟨archiver, _, rfl, hload⟩

/-- A step of the processing of a batch. -/
theorem Accounted.process {batch : RequestBatch B D S} {entry : ModelEntry B D S M}
    {r' : ModelRunner B D S M V} (hA : h.Accounted) (hr : h.runner = some r)
    (hbatch : r.phase.batchInHand = some batch) (hbatch' : r'.phase.batchInHand = some batch)
    (hs : ModelArchiver.StoredIDs (· ∈ h.processed) entry)
    (ha : ModelArchiver.CachedIDs (· ∈ h.processed) r'.archiver)
    (hknown : r'.modelCheckpointBatchIDSet = r.modelCheckpointBatchIDSet)
    (hcurrent : r'.currentRunBatchIDSet = r.currentRunBatchIDSet) :
    Accounted { h with entry := entry, runner := some r' } := by
  have hR := hA.runner r hr
  refine ⟨hs, hA.tags, fun hr => (by cases hr), fun r'' hr'' => ?_⟩
  obtain rfl := Option.some.inj hr''
  have hinHand : ∀ phase : RunPhase B D S V, phase.batchInHand = some batch →
      (h.Unacked phase ↔ h.acks = [] ∧ ∀ p ∈ h.queue.unacked,
        p.2.batchID ∈ h.processed ∨ p.2 = batch) := by
    intro phase hphase
    cases phase <;> cases hphase <;> exact Iff.rfl
  refine ⟨hknown ▸ hR.known, ha, ?_, ?_⟩
  · rw [hcurrent, hbatch', ← hbatch]
    exact hR.current
  · exact (hinHand _ hbatch').mpr ((hinHand _ hbatch).mp hR.unacked)

theorem storedIDs_none (P : B → Prop) : ModelArchiver.StoredIDs P (none : ModelEntry B D S M) := by
  intro stored hstored
  cases hstored

theorem storedIDs_defineModel [DecidableEq D] {P : B → Prop} (definition : D)
    (hs : ModelArchiver.StoredIDs P h.entry) :
    ModelArchiver.StoredIDs P (r.defineModel definition h.entry).1 := by
  cases hentry : h.entry with
  | none =>
    intro stored hstored id hid
    obtain rfl := Option.mem_some_iff.mp hstored
    cases hid
  | some stored =>
    rw [hentry] at hs
    exact hs

theorem Accounted.processRequest [DecidableEq D] {batch : RequestBatch B D S}
    {request : ModelRequest D S} {pending : List (ModelRequest D S)}
    {results : List (ModelResult V)} {fails : Bool} (hA : h.Accounted) (hr : h.runner = some r)
    (hp : r.phase = .processing batch (request :: pending) results) :
    (h.processRequest opf batch request pending results fails r).Accounted := by
  have hR := hA.runner r hr
  have hbatch : r.phase.batchInHand = some batch := by rw [hp]; rfl
  have hnew : ModelArchiver.CachedIDs (· ∈ h.processed)
      (ModelArchiver.new : ModelArchiver B D S M) := by
    intro ids hids
    cases hids
  cases request with
  | defineModel commandID definition =>
    rw [ModelHost.processRequest]
    cases fails with
    | true => exact hA.process hr hbatch rfl hA.stored hR.cached rfl rfl
    | false =>
      exact hA.process hr hbatch rfl (storedIDs_defineModel definition hA.stored) hR.cached rfl rfl
  | cloneModel commandID newModelID =>
    exact hA.process hr hbatch rfl hA.stored hR.cached rfl rfl
  | deleteModel commandID =>
    rw [ModelHost.processRequest]
    cases fails with
    | true => exact hA.process hr hbatch rfl hA.stored hnew rfl rfl
    | false =>
      refine hA.process hr hbatch rfl ?_ hR.cached rfl rfl
      cases hentry : h.entry with
      | none => exact storedIDs_none _
      | some stored => exact storedIDs_none _
  | unknownCommand commandID method =>
    exact hA.process hr hbatch rfl hA.stored hR.cached rfl rfl
  | inputRow rowID data =>
    obtain ⟨archiver, samples, hrun, hcached⟩ :=
      processInputRow_eq opf hA.stored hR.cached rowID data
    rw [ModelHost.processRequest]
    simp only [hrun]
    exact hA.process hr hbatch rfl hA.stored hcached rfl rfl

theorem Accounted.cleanUpAfterModelDeletion {batch : RequestBatch B D S} {commandID : String}
    {pending : List (ModelRequest D S)} {results : List (ModelResult V)} {fails : Bool}
    (hA : h.Accounted) (hr : h.runner = some r)
    (hp : r.phase = .modelRemoved batch commandID pending results) :
    (h.cleanUpAfterModelDeletion batch commandID pending results fails r).Accounted := by
  have hbatch : r.phase.batchInHand = some batch := by rw [hp]; rfl
  have hnew : ModelArchiver.CachedIDs (· ∈ h.processed)
      (ModelArchiver.new : ModelArchiver B D S M) := by
    intro ids hids
    cases hids
  cases fails with
  | true => exact hA.process hr hbatch rfl hA.stored hnew rfl rfl
  | false =>
    have hdrop : Accounted { h with queueExists := false, queue := h.queue.drop } :=
      hA.setQueue (fun p hp => by cases hp) rfl id
    exact hdrop.process hr hbatch rfl hA.stored hnew rfl rfl

theorem Accounted.submitResults {batch : RequestBatch B D S} {results : List (ModelResult V)}
    (hA : h.Accounted) (hr : h.runner = some r) (hp : r.phase = .processing batch [] results) :
    (h.submitResults target batch results r).Accounted := by
  have hR := hA.runner r hr
  have hgrow : ∀ id ∈ h.processed, id ∈ h.processed ++ [batch.batchID] :=
    fun id hid => List.mem_append_left _ hid
  have hlast : batch.batchID ∈ h.processed ++ [batch.batchID] := by simp
  obtain ⟨-, hunacked⟩ : h.acks = [] ∧ ∀ p ∈ h.queue.unacked,
      p.2.batchID ∈ h.processed ∨ p.2 = batch := by
    simpa only [hp, Unacked] using hR.unacked
  have hall : ∀ p ∈ h.queue.unacked, p.2.batchID ∈ h.processed ++ [batch.batchID] := by
    intro p hp
    rcases hunacked p hp with hp | rfl
    · exact hgrow _ hp
    · exact hlast
  refine ⟨fun stored hs id hid => hgrow id (hA.stored stored hs id hid), hA.tags,
    fun hr => (by cases hr), fun r' hr' => ?_⟩
  obtain rfl := Option.some.inj hr'
  refine ⟨fun id hid => hgrow id (hR.known id hid),
    fun ids hids id hid => hgrow id (hR.cached ids hids id hid), fun id hid => ?_, ?_⟩
  · rcases hR.current id hid with hid | ⟨b, hb, rfl⟩
    · exact .inl (hgrow id hid)
    · rw [hp] at hb
      obtain rfl := Option.mem_some_iff.mp hb
      exact .inl hlast
  · dsimp only
    split <;> exact hall

theorem Accounted.checkpoint (hA : h.Accounted) (hr : h.runner = some r)
    (hp : r.phase = .runEnded) : (h.checkpoint r).Accounted := by
  have hR := hA.runner r hr
  have hunacked := hR.unacked
  have hcurrent : ∀ id ∈ r.currentRunBatchIDSet, id ∈ h.processed := by
    intro id hid
    rcases hR.current id hid with hid | ⟨b, hb, -⟩
    · exact hid
    · simp [hp, RunPhase.batchInHand] at hb
  simp only [hp, Unacked] at hunacked
  rw [ModelHost.checkpoint]
  split
  · exact hA.setRunner ⟨hR.known, hR.cached, fun id hid => .inl (hcurrent id hid), hunacked⟩
  · split
    · exact hA.exitRunner
    · next hsave =>
      obtain ⟨hstored, hcached⟩ := hR.cached.saveModel hA.stored hcurrent hsave
      refine ⟨hstored, hA.tags, fun hr => (by cases hr), fun r' hr' => ?_⟩
      obtain rfl := Option.some.inj hr'
      exact ⟨hcurrent, hcached, fun id hid => .inl (hcurrent id hid), hunacked⟩

theorem Accounted.ackRun {tag : Option ℕ} {noticed : Bool} (hA : h.Accounted)
    (hr : h.runner = some r) (hp : r.phase = .acking) :
    (h.sendAck tag true noticed { r with phase := .runDone }).Accounted := by
  have hR := hA.runner r hr
  have hunacked := hR.unacked
  simp only [hp, Unacked] at hunacked
  refine hA.sendAck hr (fun id hid => ?_) fun _ => hunacked
  rcases hR.current id hid with hid | ⟨b, hb, -⟩
  · exact hid
  · simp [hp, RunPhase.batchInHand] at hb

/-- The channel is gone, and the runner is in a phase that has no delivery tag. -/
theorem Accounted.loseChannel (hA : h.Accounted) (hr : h.runner = some r) (done : Bool)
    (phase : RunPhase B D S V)
    (hphase : ∀ batch ∈ r.phase.batchInHand, phase.batchInHand = some batch) :
    Accounted { h.closeChannel with
      runner := some { r.loseChannel with done := done, phase := phase } } := by
  have hR := hA.runner r hr
  refine ⟨hA.stored, fun p hp => (by cases hp), fun hr => (by cases hr), fun r' hr' => ?_⟩
  obtain rfl := Option.some.inj hr'
  refine ⟨hR.known, hR.cached, fun id hid => ?_, ?_⟩
  · rcases hR.current id hid with hid | ⟨batch, hbatch, hid⟩
    · exact .inl hid
    · exact .inr ⟨batch, hphase batch hbatch, hid⟩
  · have hnone : ∀ Q : ℕ × RequestBatch B D S → Prop, ∀ p ∈ h.queue.requeue.unacked, Q p := by
      intro Q p hp
      cases hp
    cases phase
    case received => exact ⟨rfl, hnone _⟩
    case processing => exact ⟨rfl, hnone _⟩
    case modelRemoved => exact ⟨rfl, hnone _⟩
    all_goals exact hnone _

theorem Accounted.act [DecidableEq B] [DecidableEq D] {a : Action} (hA : h.Accounted)
    (ht : h.act opf target a = some t) : t.Accounted := by
  cases a with
  | start =>
    obtain ⟨hr, rfl⟩ := act_start_eq ht
    exact hA.start hr
  | beginRun =>
    obtain ⟨r, hr, hp, rfl⟩ := act_beginRun_eq ht
    exact hA.beginRun hr hp
  | getOneMessage =>
    obtain ⟨r, hr, hp, ht⟩ := act_getOneMessage_eq ht
    exact hA.getOneMessage hr hp ht
  | takeBatch noticed =>
    obtain ⟨r, tag, batch, hr, hp, rfl⟩ := act_takeBatch_eq ht
    exact hA.takeBatch hr hp
  | processRequest fails =>
    obtain ⟨r, batch, request, pending, results, hr, hp, rfl⟩ := act_processRequest_eq ht
    exact hA.processRequest hr hp
  | cleanUpAfterModelDeletion fails =>
    obtain ⟨r, batch, commandID, pending, results, hr, hp, rfl⟩ :=
      act_cleanUpAfterModelDeletion_eq ht
    exact hA.cleanUpAfterModelDeletion hr hp
  | submitResults =>
    obtain ⟨r, batch, results, hr, hp, rfl⟩ := act_submitResults_eq ht
    exact hA.submitResults hr hp
  | checkpoint =>
    obtain ⟨r, hr, hp, rfl⟩ := act_checkpoint_eq ht
    exact hA.checkpoint hr hp
  | ackRun noticed =>
    obtain ⟨r, tag, hr, hp, hl, rfl⟩ := act_ackRun_eq ht
    exact hA.ackRun hr hp
  | endRun preempted =>
    obtain ⟨r, hr, hp, -, rfl⟩ := act_endRun_eq ht
    apply hA.loseChannel hr
    intro batch hbatch
    simp [hp, RunPhase.batchInHand] at hbatch
  | receiveAck =>
    obtain ⟨tag, multiple, acks, ha, rfl⟩ := act_receiveAck_eq ht
    refine hA.setQueue (fun p hp => List.mem_of_mem_filter hp) rfl fun hnil => ?_
    rw [ha] at hnil
    cases hnil
  | channelDies =>
    obtain ⟨r, hr, -, rfl⟩ := act_channelDies_eq ht
    refine hA.loseChannel hr r.done r.loseChannel.phase fun batch hbatch => ?_
    rw [← Option.mem_def.mp hbatch, ModelRunner.loseChannel]
    cases r.phase <;> rfl
  | crash =>
    obtain ⟨-, rfl⟩ := act_crash_eq ht
    exact hA.exitRunner

/-! ## What a step takes off the queue -/

/-- While an ack is under way, everything unacked has been processed. -/
theorem Accounted.processed_of_acks (hA : h.Accounted) (hacks : h.acks ≠ []) :
    ∀ p ∈ h.queue.unacked, p.2.batchID ∈ h.processed := by
  cases hr : h.runner with
  | none =>
    rw [hA.idle hr]
    intro p hp
    cases hp
  | some r =>
    have hunacked := (hA.runner r hr).unacked
    cases hp : r.phase <;> simp only [hp, Unacked] at hunacked
    case received => exact absurd hunacked.1 hacks
    case processing => exact absurd hunacked.1 hacks
    case modelRemoved => exact absurd hunacked.1 hacks
    all_goals exact hunacked

theorem sendAck_held (tag : Option ℕ) (multiple noticed : Bool) (r : ModelRunner B D S M V) :
    (h.sendAck tag multiple noticed r).queue.held = h.queue.held := by
  cases tag with
  | some tag => rfl
  | none =>
    cases noticed with
    | true => exact AckedQueue.held_requeue _
    | false => rfl

theorem sendAck_processed (tag : Option ℕ) (multiple noticed : Bool)
    (r : ModelRunner B D S M V) :
    (h.sendAck tag multiple noticed r).processed = h.processed := by
  cases tag <;> cases noticed <;> rfl

theorem getOneMessage_held (ht : h.getOneMessage r = some t) : t.queue.held = h.queue.held := by
  rcases getOneMessage_cases ht with ⟨-, rfl⟩ | ⟨-, -, ⟨-, rfl⟩ | ⟨-, -, rfl⟩ |
    ⟨batch, queue, -, hd, rfl⟩⟩
  · rfl
  · exact AckedQueue.held_requeue _
  · rfl
  · exact (AckedQueue.held_deliver hd).1

theorem processRequest_queue [DecidableEq D] (batch : RequestBatch B D S)
    (request : ModelRequest D S) (pending : List (ModelRequest D S))
    (results : List (ModelResult V)) (fails : Bool) :
    (h.processRequest opf batch request pending results fails r).queue = h.queue ∧
      (h.processRequest opf batch request pending results fails r).processed = h.processed := by
  cases request <;> cases fails <;> exact ⟨rfl, rfl⟩

/-- A step takes batches off the queue by an ack, or by deleting the queue. -/
theorem act_held [DecidableEq B] [DecidableEq D] {a : Action}
    (ht : h.act opf target a = some t) :
    t.queue.held = h.queue.held ∨
    (h.acks ≠ [] ∧ ∃ tag multiple, t.queue = h.queue.settle tag multiple) ∨
    ∃ r ∈ h.runner, r.phase.deletesModel = true := by
  cases a with
  | start =>
    obtain ⟨hr, rfl⟩ := act_start_eq ht
    exact .inl rfl
  | beginRun =>
    obtain ⟨r, hr, hp, rfl⟩ := act_beginRun_eq ht
    split
    · exact .inl (AckedQueue.held_requeue _)
    · exact .inl rfl
  | getOneMessage =>
    obtain ⟨r, hr, hp, ht⟩ := act_getOneMessage_eq ht
    exact .inl (getOneMessage_held ht)
  | takeBatch noticed =>
    obtain ⟨r, tag, batch, hr, hp, rfl⟩ := act_takeBatch_eq ht
    rw [takeBatch]
    split
    · exact .inl (sendAck_held ..)
    · exact .inl rfl
  | processRequest fails =>
    obtain ⟨r, batch, request, pending, results, hr, hp, rfl⟩ := act_processRequest_eq ht
    rw [(processRequest_queue ..).1]
    exact .inl rfl
  | cleanUpAfterModelDeletion fails =>
    obtain ⟨r, batch, commandID, pending, results, hr, hp, rfl⟩ :=
      act_cleanUpAfterModelDeletion_eq ht
    exact .inr (.inr ⟨r, hr, by rw [hp]; rfl⟩)
  | submitResults =>
    obtain ⟨r, batch, results, hr, hp, rfl⟩ := act_submitResults_eq ht
    exact .inl rfl
  | checkpoint =>
    obtain ⟨r, hr, hp, rfl⟩ := act_checkpoint_eq ht
    rw [checkpoint]
    split
    · exact .inl rfl
    · split
      · exact .inl (AckedQueue.held_requeue _)
      · exact .inl rfl
  | ackRun noticed =>
    obtain ⟨r, tag, hr, hp, hl, rfl⟩ := act_ackRun_eq ht
    exact .inl (sendAck_held ..)
  | endRun preempted =>
    obtain ⟨r, hr, hp, -, rfl⟩ := act_endRun_eq ht
    exact .inl (AckedQueue.held_requeue _)
  | receiveAck =>
    obtain ⟨tag, multiple, acks, ha, rfl⟩ := act_receiveAck_eq ht
    exact .inr (.inl ⟨by simp [ha], tag, multiple, rfl⟩)
  | channelDies =>
    obtain ⟨r, hr, -, rfl⟩ := act_channelDies_eq ht
    exact .inl (AckedQueue.held_requeue _)
  | crash =>
    obtain ⟨-, rfl⟩ := act_crash_eq ht
    exact .inl (AckedQueue.held_requeue _)

theorem act_processed [DecidableEq B] [DecidableEq D] {a : Action}
    (ht : h.act opf target a = some t) : ∀ id ∈ h.processed, id ∈ t.processed := by
  have hsame : t.processed = h.processed → ∀ id ∈ h.processed, id ∈ t.processed :=
    fun heq id hid => heq ▸ hid
  cases a with
  | start =>
    obtain ⟨hr, rfl⟩ := act_start_eq ht
    exact hsame rfl
  | beginRun =>
    obtain ⟨r, hr, hp, rfl⟩ := act_beginRun_eq ht
    split <;> exact fun id hid => hid
  | getOneMessage =>
    obtain ⟨r, hr, hp, ht⟩ := act_getOneMessage_eq ht
    rcases getOneMessage_cases ht with ⟨-, rfl⟩ | ⟨-, -, ⟨-, rfl⟩ | ⟨-, -, rfl⟩ |
      ⟨batch, queue, -, hd, rfl⟩⟩ <;> exact hsame rfl
  | takeBatch noticed =>
    obtain ⟨r, tag, batch, hr, hp, rfl⟩ := act_takeBatch_eq ht
    apply hsame
    rw [takeBatch]
    split
    · exact sendAck_processed ..
    · rfl
  | processRequest fails =>
    obtain ⟨r, batch, request, pending, results, hr, hp, rfl⟩ := act_processRequest_eq ht
    exact hsame (processRequest_queue ..).2
  | cleanUpAfterModelDeletion fails =>
    obtain ⟨r, batch, commandID, pending, results, hr, hp, rfl⟩ :=
      act_cleanUpAfterModelDeletion_eq ht
    exact hsame rfl
  | submitResults =>
    obtain ⟨r, batch, results, hr, hp, rfl⟩ := act_submitResults_eq ht
    exact fun id hid => List.mem_append_left _ hid
  | checkpoint =>
    obtain ⟨r, hr, hp, rfl⟩ := act_checkpoint_eq ht
    apply hsame
    rw [checkpoint]
    split
    · rfl
    · split <;> rfl
  | ackRun noticed =>
    obtain ⟨r, tag, hr, hp, hl, rfl⟩ := act_ackRun_eq ht
    exact hsame (sendAck_processed ..)
  | endRun preempted =>
    obtain ⟨r, hr, hp, -, rfl⟩ := act_endRun_eq ht
    exact hsame rfl
  | receiveAck =>
    obtain ⟨tag, multiple, acks, ha, rfl⟩ := act_receiveAck_eq ht
    exact hsame rfl
  | channelDies =>
    obtain ⟨r, hr, -, rfl⟩ := act_channelDies_eq ht
    exact hsame rfl
  | crash =>
    obtain ⟨-, rfl⟩ := act_crash_eq ht
    exact hsame rfl

/-- Without a deletion outstanding, what leaves the queue has been processed. -/
theorem Accounted.held_act [DecidableEq B] [DecidableEq D] {a : Action} (hA : h.Accounted)
    (hn : h.NoDeletion) (ht : h.act opf target a = some t) :
    ∀ batch ∈ h.queue.held, batch ∈ t.queue.held ∨ batch.batchID ∈ t.processed := by
  intro batch hb
  rcases act_held ht with hheld | ⟨hacks, tag, multiple, hqueue⟩ | ⟨r, hr, hdel⟩
  · exact .inl (hheld ▸ hb)
  · rw [hqueue]
    rcases AckedQueue.mem_held_settle_or hb tag multiple with hb | ⟨p, hp, rfl⟩
    · exact .inl hb
    · exact .inr (act_processed ht _ (hA.processed_of_acks hacks p hp))
  · rw [hn.2 r hr] at hdel
    cases hdel

theorem sendAck_noDeletion {tag : Option ℕ} {multiple noticed : Bool}
    {r' : ModelRunner B D S M V} (hn : h.NoDeletion) (hp : r'.phase.deletesModel = false) :
    (h.sendAck tag multiple noticed r').NoDeletion := by
  refine ⟨by rw [sendAck_held]; exact hn.1, ?_⟩
  intro r'' hr''
  cases tag with
  | some tag =>
    obtain rfl := Option.mem_some_iff.mp hr''
    exact hp
  | none =>
    cases noticed with
    | true => cases hr''
    | false =>
      obtain rfl := Option.mem_some_iff.mp hr''
      exact hp

/-- The held batches are those there were, and what the runner has in hand came from
them. -/
theorem NoDeletion.act [DecidableEq B] [DecidableEq D] {a : Action} (hn : h.NoDeletion)
    (ht : h.act opf target a = some t) : t.NoDeletion := by
  have hheld : ∀ batch ∈ t.queue.held, batch.deletesModel = false := by
    intro batch hb
    rcases act_held ht with hheld | ⟨-, tag, multiple, hqueue⟩ | ⟨r, hr, hdel⟩
    · exact hn.1 batch (hheld ▸ hb)
    · rw [hqueue] at hb
      exact hn.1 batch (AckedQueue.mem_held_settle hb)
    · rw [hn.2 r hr] at hdel
      cases hdel
  refine ⟨hheld, ?_⟩
  have hnone : t.runner = none → ∀ r ∈ t.runner, r.phase.deletesModel = false := by
    intro hnone r hr
    rw [hnone] at hr
    cases hr
  have hsome : ∀ r, t.runner = some r → r.phase.deletesModel = false →
      ∀ r ∈ t.runner, r.phase.deletesModel = false := by
    intro r hr hp r' hr'
    obtain rfl := Option.some.inj (hr.symm.trans hr')
    exact hp
  cases a with
  | start =>
    obtain ⟨hr, rfl⟩ := act_start_eq ht
    exact hsome _ rfl rfl
  | beginRun =>
    obtain ⟨r, hr, hp, rfl⟩ := act_beginRun_eq ht
    split
    · intro r' hr'
      cases hr'
    · intro r' hr'
      obtain rfl := Option.mem_some_iff.mp hr'
      rfl
  | getOneMessage =>
    obtain ⟨r, hr, hp, ht⟩ := act_getOneMessage_eq ht
    rcases getOneMessage_cases ht with ⟨-, rfl⟩ | ⟨-, -, ⟨-, rfl⟩ | ⟨-, -, rfl⟩ |
      ⟨batch, queue, -, hd, rfl⟩⟩
    · exact hsome _ rfl (hn.2 r hr)
    · exact hnone rfl
    · exact hsome _ rfl rfl
    · refine hsome _ rfl (hn.1 batch ?_)
      rw [AckedQueue.held, (AckedQueue.held_deliver hd).2.1]
      simp
  | takeBatch noticed =>
    obtain ⟨r, tag, batch, hr, hp, rfl⟩ := act_takeBatch_eq ht
    have hbatch := hn.2 r hr
    rw [hp] at hbatch
    rw [takeBatch]
    split
    · exact (sendAck_noDeletion hn rfl).2
    · intro r' hr'
      obtain rfl := Option.mem_some_iff.mp hr'
      exact hbatch
  | processRequest fails =>
    obtain ⟨r, batch, request, pending, results, hr, hp, rfl⟩ := act_processRequest_eq ht
    have hpending := hn.2 r hr
    rw [hp] at hpending
    obtain ⟨hrequest, hpending⟩ : request.isDelete = false ∧
        pending.any ModelRequest.isDelete = false := by
      simpa [RunPhase.deletesModel] using hpending
    cases request with
    | deleteModel commandID => cases hrequest
    | defineModel commandID definition => exact hsome _ rfl hpending
    | cloneModel commandID newModelID => exact hsome _ rfl hpending
    | unknownCommand commandID method => exact hsome _ rfl hpending
    | inputRow rowID data => exact hsome _ rfl hpending
  | cleanUpAfterModelDeletion fails =>
    obtain ⟨r, batch, commandID, pending, results, hr, hp, rfl⟩ :=
      act_cleanUpAfterModelDeletion_eq ht
    have hdel := hn.2 r hr
    rw [hp] at hdel
    cases hdel
  | submitResults =>
    obtain ⟨r, batch, results, hr, hp, rfl⟩ := act_submitResults_eq ht
    refine hsome _ rfl ?_
    dsimp only
    split <;> rfl
  | checkpoint =>
    obtain ⟨r, hr, hp, rfl⟩ := act_checkpoint_eq ht
    rw [checkpoint]
    split
    · intro r' hr'
      obtain rfl := Option.mem_some_iff.mp hr'
      rfl
    · split
      · intro r' hr'
        cases hr'
      · intro r' hr'
        obtain rfl := Option.mem_some_iff.mp hr'
        rfl
  | ackRun noticed =>
    obtain ⟨r, tag, hr, hp, hl, rfl⟩ := act_ackRun_eq ht
    exact (sendAck_noDeletion hn rfl).2
  | endRun preempted =>
    obtain ⟨r, hr, hp, -, rfl⟩ := act_endRun_eq ht
    exact hsome _ rfl rfl
  | receiveAck =>
    obtain ⟨tag, multiple, acks, ha, rfl⟩ := act_receiveAck_eq ht
    exact hn.2
  | channelDies =>
    obtain ⟨r, hr, -, rfl⟩ := act_channelDies_eq ht
    refine hsome _ rfl ?_
    have hp := hn.2 r hr
    rw [ModelRunner.loseChannel]
    cases hphase : r.phase <;> rw [hphase] at hp <;> exact hp
  | crash =>
    obtain ⟨-, rfl⟩ := act_crash_eq ht
    exact hnone rfl

end ModelHost

/-! ## Every run -/

namespace Monitoring

variable {opf : Opf D S M V} {target : ℤ} {s t : Monitoring B D S M V}

/-- The batches of the call in progress and of the last completed one are safe, and
no deletion that could remove them is outstanding. -/
structure Inv (s : Monitoring B D S M V) : Prop where
  accounted : s.host.Accounted
  sending : ∀ submitted backlog, s.call = some (.sendingBacklog submitted backlog) →
    Kept submitted s.host ∧ s.host.NoDeletion
  completed : s.purged = false → s.completed ≠ [] → Kept s.completed s.host ∧ s.host.NoDeletion

theorem Kept.host {batches : List (RequestBatch B D S)} {h t : ModelHost B D S M V}
    (hk : Kept batches h)
    (hheld : ∀ batch ∈ h.queue.held, batch ∈ t.queue.held ∨ batch.batchID ∈ t.processed)
    (hprocessed : ∀ id ∈ h.processed, id ∈ t.processed) : Kept batches t := by
  intro batch hbatch
  rcases hk batch hbatch with hb | hb
  · exact hheld batch hb
  · exact .inr (hprocessed _ hb)

/-- Publishing a batch that deletes nothing removes nothing. -/
theorem Kept.publish {batches : List (RequestBatch B D S)} {batch : RequestBatch B D S}
    {call : Option (MonitorCall B D S)} (hk : Kept batches s.host) :
    Kept batches (s.publish batch call).host := by
  refine hk.host (fun b hb => .inl ?_) fun _ hid => hid
  rw [Monitoring.publish, AckedQueue.held_publish]
  exact List.mem_append_left _ hb

theorem kept_publish_self {batch : RequestBatch B D S} {call : Option (MonitorCall B D S)} :
    Kept [batch] (s.publish batch call).host := by
  intro b hb
  obtain rfl := List.mem_singleton.mp hb
  refine .inl ?_
  rw [Monitoring.publish, AckedQueue.held_publish]
  simp

theorem noDeletion_publish {batch : RequestBatch B D S} {call : Option (MonitorCall B D S)}
    (hn : s.host.NoDeletion) (hb : batch.deletesModel = false) :
    (s.publish batch call).host.NoDeletion := by
  refine ⟨fun b hmem => ?_, hn.2⟩
  rw [Monitoring.publish, AckedQueue.held_publish, List.mem_append, List.mem_singleton] at hmem
  rcases hmem with hmem | rfl
  · exact hn.1 b hmem
  · exact hb

theorem accounted_publish (hA : s.host.Accounted) (batch : RequestBatch B D S)
    (call : Option (MonitorCall B D S)) : (s.publish batch call).host.Accounted :=
  hA.setQueue (fun _ hp => hp) rfl id

theorem Inv.host [DecidableEq B] [DecidableEq D] {a : ModelHost.Action}
    {host : ModelHost B D S M V} (hI : Inv s) (ht : s.host.act opf target a = some host) :
    Inv { s with host := host } := by
  have hkept : ∀ batches, Kept batches s.host ∧ s.host.NoDeletion →
      Kept batches host ∧ host.NoDeletion := by
    rintro batches ⟨hk, hn⟩
    exact ⟨hk.host (hI.accounted.held_act hn ht) (ModelHost.act_processed ht), hn.act ht⟩
  exact ⟨hI.accounted.act ht, fun submitted backlog hc => hkept _ (hI.sending submitted backlog hc),
    fun hp hne => hkept _ (hI.completed hp hne)⟩

theorem Inv.act [DecidableEq B] [DecidableEq D] {a : Action B D S} (hI : Inv s)
    (hcond : s.DefinesAfterDeletion a) (h : act opf target a s = some t) : Inv t := by
  -- A step that leaves the host alone keeps what it says of the batches.
  have hidle : ∀ t : Monitoring B D S M V, t.host = s.host → t.completed = s.completed →
      (t.purged = false → s.purged = false) →
      (∀ submitted backlog, t.call ≠ some (.sendingBacklog submitted backlog)) → Inv t := by
    intro t hhost hcompleted hpurged hcall
    refine ⟨hhost ▸ hI.accounted, fun submitted backlog hc => absurd hc (hcall _ _), ?_⟩
    intro hp hne
    rw [hhost, hcompleted]
    exact hI.completed (hpurged hp) (hcompleted ▸ hne)
  have hdone : ∀ t : Monitoring B D S M V, t.host.Accounted → t.completed = [] →
      (∀ submitted backlog, t.call ≠ some (.sendingBacklog submitted backlog)) → Inv t :=
    fun t hA hnil hcall => ⟨hA, fun submitted backlog hc => absurd hc (hcall _ _),
      fun _ hne => absurd hnil hne⟩
  unfold Monitoring.act at h
  split at h
  case h_1 =>
    obtain ⟨host, hhost, rfl⟩ := Option.map_eq_some_iff.mp h
    exact hI.host hhost
  case h_2 hc =>
    split at h
    · cases h
      exact hI
    · split at h
      · cases h
        exact hdone _ hI.accounted rfl (by simp [hc])
      · cases h
        exact hidle _ rfl rfl (by simp [purged, hc]) (by simp)
  case h_3 hc =>
    cases h
    have hpurged : s.purged = false := by simp [purged, hc]
    exact ⟨hI.accounted.setQueue (fun _ hp => hp) rfl id, fun _ _ hc => (by cases hc),
      fun _ hne => hI.completed hpurged hne⟩
  case h_4 hc =>
    -- The command joins a queue from which nothing is going to be removed.
    have hn : s.host.NoDeletion := hcond rfl
    have hpurged : s.purged = false := by simp [purged, hc]
    split at h
    · cases h
    · split at h
      · cases h
        exact hidle _ rfl rfl (fun _ => hpurged) (by simp)
      · cases h
        refine ⟨accounted_publish hI.accounted _ _, fun submitted backlog hc => ?_, fun _ hne => ?_⟩
        · cases hc
          exact ⟨kept_publish_self, noDeletion_publish hn rfl⟩
        · exact ⟨(hI.completed hpurged hne).1.publish, noDeletion_publish hn rfl⟩
  case h_5 batchID submitted rows backlog hc =>
    obtain ⟨hk, hn⟩ := hI.sending _ _ hc
    have hpurged : s.purged = false := by simp [purged, hc]
    have hrows : RequestBatch.deletesModel
        (⟨batchID, rows.map fun p => .inputRow p.1 p.2⟩ : RequestBatch B D S) = false := by
      simp [RequestBatch.deletesModel, ModelRequest.isDelete]
    split at h
    · cases h
    · split at h
      · cases h
        refine ⟨hI.accounted, fun _ _ hc => ?_, fun _ hne => hI.completed hpurged hne⟩
        cases hc
        exact ⟨hk, hn⟩
      · cases h
        refine ⟨accounted_publish hI.accounted _ _, fun _ _ hc => ?_, fun _ hne => ?_⟩
        · cases hc
          refine ⟨fun batch hbatch => ?_, noDeletion_publish hn hrows⟩
          rcases List.mem_append.mp hbatch with hbatch | hbatch
          · exact hk.publish batch hbatch
          · exact kept_publish_self batch hbatch
        · exact ⟨(hI.completed hpurged hne).1.publish, noDeletion_publish hn hrows⟩
  case h_6 submitted hc =>
    cases h
    exact ⟨hI.accounted, fun _ _ hc => (by cases hc), fun _ _ => hI.sending _ _ hc⟩
  case h_7 hc =>
    cases h
    exact hidle _ rfl rfl (by simp [purged, hc]) (by simp)
  case h_8 hc =>
    cases h
    exact hidle _ rfl rfl (by simp [purged, hc]) (by simp)
  case h_9 hc =>
    cases h
    exact hidle _ rfl rfl (by simp [purged, hc]) (by simp)
  case h_10 hc =>
    cases h
    exact hidle _ rfl rfl (by simp [purged, hc]) (by simp)
  case h_11 hc =>
    split at h
    · cases h
      exact hdone _ hI.accounted rfl (by simp)
    · cases h
      exact ⟨hI.accounted.setQueue (fun _ hp => hp) rfl id, fun _ _ hc => (by cases hc),
        fun hp => (by cases hp)⟩
  case h_12 hc =>
    split at h
    · cases h
    · split at h
      · cases h
        exact hdone _ hI.accounted rfl (by simp)
      · cases h
        exact hdone _ (accounted_publish hI.accounted _ none) rfl (by simp [Monitoring.publish])
  case h_13 => cases h

theorem inv_init [DecidableEq B] [DecidableEq D] (h : (system opf target).init s) : Inv s := by
  obtain rfl := h
  refine ⟨⟨?_, ?_, fun _ => rfl, fun r hr => (by cases hr)⟩, fun _ _ hc => (by cases hc),
    fun _ hne => absurd rfl hne⟩
  · exact ModelHost.storedIDs_none _
  · intro p hp
    cases hp

end Monitoring

/-- What the last completed `monitorMetric` submitted is in the model's queue or was
processed by a runner, in every state before the next purge, if every "defineModel"
command was submitted with no "deleteModel" command outstanding. -/
theorem defined_model_kept {opf : Opf D S M V} {target : ℤ} [DecidableEq B] [DecidableEq D]
    {tr : List (Monitoring B D S M V × Monitoring.Action B D S)} {s : Monitoring B D S M V}
    (h : Run (Monitoring.system opf target) tr s)
    (hcond : ∀ p ∈ tr, p.1.DefinesAfterDeletion p.2) (hp : s.purged = false) :
    ∀ batch ∈ s.completed,
      batch ∈ s.host.queue.held ∨ batch.batchID ∈ s.host.processed := by
  have hI : Monitoring.Inv s := by
    apply h.invariant (G := Monitoring.DefinesAfterDeletion) _ _ hcond
    · exact fun s hs => Monitoring.inv_init hs
    · exact fun a s t hI hcond ht => hI.act hcond ht
  intro batch hbatch
  exact (hI.completed hp (List.ne_nil_of_mem hbatch)).1 batch hbatch

def unmonitored : Monitoring ℕ ℕ ℕ (List ℕ) ℕ where
  host := ⟨none, false, .empty _, [], none, [], [], []⟩
  status := .unmonitored
  call := none
  completed := []
  batchIDs := []

/-- A model that remembers its definition and the rows it was run on. -/
def rowRecorder : Opf ℕ ℕ (List ℕ) ℕ := ⟨fun d => [d], fun _ model row => (model ++ [row], 0)⟩

def monitorCall (batchIDs : ℕ × ℕ) : List (Monitoring.Action ℕ ℕ ℕ) :=
  [.monitorMetric "define" (some 5) [[(1, 7)]], .createMessageQueue, .defineModel batchIDs.1,
    .sendInputRows batchIDs.2, .commit]

def unmonitorCall (batchID : ℕ) : List (Monitoring.Action ℕ ℕ ℕ) :=
  [.unmonitorMetric "delete", .purge, .deleteModel batchID]

/-- A runner takes the next batch, with one request, and ends its run. -/
def runOne : List (Monitoring.Action ℕ ℕ ℕ) :=
  [.host .start, .host .beginRun, .host .getOneMessage, .host (.takeBatch true),
    .host (.processRequest false)]

def deleteOne : List (Monitoring.Action ℕ ℕ ℕ) :=
  runOne ++ [.host (.cleanUpAfterModelDeletion false), .host .submitResults]

/-- The model is deleted before the metric is monitored again. -/
def remonitored : List (Monitoring.Action ℕ ℕ ℕ) :=
  monitorCall (1, 2) ++ unmonitorCall 3 ++ deleteOne ++
    [.host .checkpoint, .host (.ackRun true), .host .receiveAck, .host (.endRun false),
      .host .beginRun] ++
    monitorCall (4, 5) ++ runOne ++ [.host .submitResults]

theorem defined_model_kept_remonitored :
    ∃ s : Monitoring ℕ ℕ ℕ (List ℕ) ℕ, s.completed.map RequestBatch.batchID = [4, 5] ∧
      s.host.processed = [3, 4] ∧
      ∀ batch ∈ s.completed,
        batch ∈ s.host.queue.held ∨ batch.batchID ∈ s.host.processed := by
  have hinit : (Monitoring.system rowRecorder 10).init unmonitored := rfl
  obtain ⟨s, hexec, hcompleted, hprocessed, hpurged, htrace⟩ : ∃ s,
      (Monitoring.system rowRecorder 10).exec remonitored unmonitored = some s ∧
      s.completed.map RequestBatch.batchID = [4, 5] ∧ s.host.processed = [3, 4] ∧
      s.purged = false ∧
      ∀ p ∈ (Monitoring.system rowRecorder 10).trace remonitored unmonitored,
        p.1.DefinesAfterDeletion p.2 := ⟨_, rfl, rfl, rfl, rfl, by decide⟩
  exact ⟨s, hcompleted, hprocessed,
    defined_model_kept ((Run.init hinit).exec_trace hexec) htrace hpurged⟩

/-- The metric is monitored again before a runner gets to the "deleteModel" command,
which removes the new definition and backlog with the queue. -/
theorem defined_model_lost :
    ∃ s, Reachable (Monitoring.system rowRecorder 10) s ∧ s.call = none ∧
      s.status = .createPending ∧ s.completed.map RequestBatch.batchID = [4, 5] ∧
      ∀ batch ∈ s.completed,
        ¬ (batch ∈ s.host.queue.held ∨ batch.batchID ∈ s.host.processed) := by
  have hinit : (Monitoring.system rowRecorder 10).init unmonitored := rfl
  obtain ⟨s, hexec, hcall, hstatus, hcompleted, hlost⟩ : ∃ s,
      (Monitoring.system rowRecorder 10).exec
        (monitorCall (1, 2) ++ unmonitorCall 3 ++ monitorCall (4, 5) ++ deleteOne)
        unmonitored = some s ∧
      s.call = none ∧ s.status = .createPending ∧
      s.completed.map RequestBatch.batchID = [4, 5] ∧
      ∀ batch ∈ s.completed,
        ¬ (batch ∈ s.host.queue.held ∨ batch.batchID ∈ s.host.processed) :=
    ⟨_, rfl, rfl, rfl, rfl, by decide⟩
  exact ⟨s, (Reachable.init hinit).exec hexec, hcall, hstatus, hcompleted, hlost⟩

end NumentaApps.ModelSwapper
