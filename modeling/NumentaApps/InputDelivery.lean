import Mathlib.Data.List.Nodup
import NumentaApps.ModelRunner
import NumentaApps.TransitionSystem

/-!
# Which input rows a checkpoint stands for

Batches of input rows are submitted to a model that has been defined; its runner
and the channel to it may die at any step, any number of times. The checkpoint
always represents the model that was fed the first batches submitted, each once.
-/
namespace NumentaApps.ModelSwapper
open MessageBroker ModelCheckpoint TransitionSystem

variable {B D S M V : Type}

def ModelRequest.rowData : ModelRequest D S → Option S
  | .inputRow _ data => some data
  | _ => none

def RequestBatch.ofRows (batchID : B) (rows : List (ℕ × S)) : RequestBatch B D S :=
  ⟨batchID, rows.map fun p => .inputRow p.1 p.2⟩

/-- The data of the input rows of some requests. -/
def rowsOf (requests : List (ModelRequest D S)) : List S := requests.filterMap ModelRequest.rowData

def batchRows (batches : List (RequestBatch B D S)) : List S :=
  batches.flatMap fun batch => rowsOf batch.objects

/-- A model's host and the batches that were ever submitted to the model. -/
structure InputDelivery (B D S M V : Type) where
  host : ModelHost B D S M V
  submitted : List (RequestBatch B D S)
  deriving DecidableEq, Repr

namespace InputDelivery

inductive Action (B S : Type) where
  | submit (batchID : B) (rows : List (ℕ × S))
  | host (a : ModelHost.Action)
  deriving DecidableEq, Repr

/-- A batch is published at the end of the queue. -/
def submit (batch : RequestBatch B D S) (s : InputDelivery B D S M V) :
    InputDelivery B D S M V where
  host := { s.host with queue := s.host.queue.publish batch }
  submitted := s.submitted ++ [batch]

def Action.takesBatch : Action B S → Bool
  | .host (.takeBatch _) => true
  | _ => false

/-- No batch is taken that was accepted earlier in the same run and is not
checkpointed yet. -/
def NotOfCurrentRun (s : InputDelivery B D S M V) (a : Action B S) : Prop :=
  a.takesBatch → ∀ r ∈ s.host.runner, ∀ batch ∈ r.phase.candidateBatch,
    batch.batchID ∉ r.currentRunBatchIDSet

instance [DecidableEq B] (s : InputDelivery B D S M V) (a : Action B S) :
    Decidable (s.NotOfCurrentRun a) :=
  inferInstanceAs (Decidable (_ → ∀ r ∈ s.host.runner, ∀ batch ∈ r.phase.candidateBatch,
    batch.batchID ∉ r.currentRunBatchIDSet))

variable [DecidableEq B] [DecidableEq D]

/-- Batch IDs are distinct. -/
def act (opf : Opf D S M V) (targetMaxRequestsPerCheckpoint : ℤ) (a : Action B S)
    (s : InputDelivery B D S M V) : Option (InputDelivery B D S M V) :=
  match a with
  | .submit batchID rows =>
    if batchID ∈ s.submitted.map RequestBatch.batchID then none
    else some (s.submit (RequestBatch.ofRows batchID rows))
  | .host a => (s.host.act opf targetMaxRequestsPerCheckpoint a).map fun host => { s with host := host }

/-- The model is defined, and nothing has been submitted to it. -/
def system (opf : Opf D S M V) (targetMaxRequestsPerCheckpoint : ℤ) (definition : D) :
    System (InputDelivery B D S M V) (Action B S) where
  init s := s = {
    host := {
      entry := some ⟨definition, none⟩
      queueExists := true
      queue := .empty _
      acks := []
      runner := none
      results := []
      processed := []
      acked := [] }
    submitted := [] }
  next := act opf targetMaxRequestsPerCheckpoint

end InputDelivery

/-! ## Positions among the submitted batches -/

section Positions

variable {batches : List (RequestBatch B D S)}

@[simp] theorem rowsOf_ofRows (batchID : B) (rows : List (ℕ × S)) :
    rowsOf (RequestBatch.ofRows batchID rows : RequestBatch B D S).objects = rows.map Prod.snd := by
  induction rows with
  | nil => rfl
  | cons p rows ih => simpa [RequestBatch.ofRows, rowsOf, ModelRequest.rowData] using ih

theorem batchRows_append (batches batches' : List (RequestBatch B D S)) :
    batchRows (batches ++ batches') = batchRows batches ++ batchRows batches' :=
  List.flatMap_append

/-- The IDs are those of the batches from one position up to another. -/
def Covers (batches : List (RequestBatch B D S)) (ids : List B) (i j : ℕ) : Prop :=
  ∀ id, id ∈ ids ↔ ∃ n batch, i ≤ n ∧ n < j ∧ batches[n]? = some batch ∧ batch.batchID = id

theorem Covers.nil (batches : List (RequestBatch B D S)) (i : ℕ) : Covers batches [] i i := by
  intro id
  constructor
  · intro h
    cases h
  · rintro ⟨n, batch, hi, hj, -⟩
    omega

theorem position_unique (hnd : (batches.map RequestBatch.batchID).Nodup) {i j : ℕ}
    {b c : RequestBatch B D S} (hi : batches[i]? = some b) (hj : batches[j]? = some c)
    (h : b.batchID = c.batchID) : i = j := by
  have hlt : i < (batches.map RequestBatch.batchID).length := by
    simpa using (List.getElem?_eq_some_iff.mp hi).1
  apply (List.getElem?_inj hlt hnd).mp
  simp [hi, hj, h]

theorem Covers.mem_iff {ids : List B} {i j n : ℕ} {batch : RequestBatch B D S}
    (h : Covers batches ids i j) (hnd : (batches.map RequestBatch.batchID).Nodup)
    (hn : batches[n]? = some batch) : batch.batchID ∈ ids ↔ i ≤ n ∧ n < j := by
  rw [h]
  constructor
  · rintro ⟨n', batch', hi, hj, hn', hid⟩
    obtain rfl := position_unique hnd hn' hn hid
    exact ⟨hi, hj⟩
  · rintro ⟨hi, hj⟩
    exact ⟨n, batch, hi, hj, hn, rfl⟩

theorem Covers.snoc {ids : List B} {i j : ℕ} {batch : RequestBatch B D S}
    (h : Covers batches ids i j) (hij : i ≤ j) (hj : batches[j]? = some batch) :
    Covers batches (ids ++ [batch.batchID]) i (j + 1) := by
  intro id
  rw [List.mem_append, List.mem_singleton, h]
  constructor
  · rintro (⟨n, b, hi, hn, hb, hid⟩ | rfl)
    · exact ⟨n, b, hi, by omega, hb, hid⟩
    · exact ⟨j, batch, hij, by omega, hj, rfl⟩
  · rintro ⟨n, b, hi, hn, hb, hid⟩
    rcases Nat.lt_succ_iff_lt_or_eq.mp hn with hn | rfl
    · exact .inl ⟨n, b, hi, hn, hb, hid⟩
    · obtain rfl := Option.some.inj (hb.symm.trans hj)
      exact .inr hid.symm

theorem Covers.submit {ids : List B} {i j : ℕ} (h : Covers batches ids i j)
    (hj : j ≤ batches.length) (batch : RequestBatch B D S) :
    Covers (batches ++ [batch]) ids i j := by
  intro id
  rw [h]
  have hget : ∀ n, n < j → (batches ++ [batch])[n]? = batches[n]? :=
    fun n hn => List.getElem?_append_left (by omega)
  constructor
  · rintro ⟨n, b, hi, hn, hb, hid⟩
    exact ⟨n, b, hi, hn, (hget n hn).trans hb, hid⟩
  · rintro ⟨n, b, hi, hn, hb, hid⟩
    exact ⟨n, b, hi, hn, (hget n hn).symm.trans hb, hid⟩

/-- Between two positions with the same rows before them there are no rows. -/
theorem batchRows_take_squeeze {i j k : ℕ} (hij : i ≤ j) (hjk : j ≤ k)
    (h : batchRows (batches.take k) = batchRows (batches.take i)) :
    batchRows (batches.take j) = batchRows (batches.take i) := by
  have hsplit : ∀ m n : ℕ, m ≤ n →
      batchRows (batches.take n) = batchRows (batches.take m) ++
        batchRows ((batches.drop m).take (n - m)) := by
    intro m n hmn
    rw [← batchRows_append, ← List.take_add]
    congr 2
    omega
  have hki := hsplit j k hjk
  have hji := hsplit i j hij
  rw [h, hji, List.append_assoc] at hki
  have hlen := congrArg List.length hki
  simp only [List.length_append] at hlen
  have hnil : batchRows ((batches.drop i).take (j - i)) = [] :=
    List.eq_nil_of_length_eq_zero (by omega)
  rw [hji, hnil, List.append_nil]

end Positions

/-! ## The invariant -/

/-- Where the delivery of the submitted batches has got to: the batches from
`oldest` up to `saved` are those of the stored checkpoint, from there up to `applied`
there are only empty ones, the first `gone` are off the queue, and the runner, if
there is one, knows those from `knownFrom` up to `knownTo` as checkpointed. -/
structure Marks (B D S M : Type) where
  stored : StoredModel D M (CheckpointAttributes B S)
  oldest : ℕ
  saved : ℕ
  applied : ℕ
  gone : ℕ
  knownFrom : ℕ
  knownTo : ℕ

/-- The loaded model is the stored one, fed with some rows; none if it is not loaded. -/
structure FedWith (opf : Opf D S M V) (stored : StoredModel D M (CheckpointAttributes B S))
    (a : ModelArchiver B D S M) (rows : List S) : Prop where
  synced : a.Synced stored
  model : ∀ model ∈ a.model, model = opf.feed stored.definition (restored opf stored) rows
  notLoaded : a.model = none → rows = []

section FedWith

variable {opf : Opf D S M V} {stored : StoredModel D M (CheckpointAttributes B S)}
  {a : ModelArchiver B D S M} {rows : List S}

/-- Loading the model, if it is not loaded, gives the one fed with the rows so far. -/
theorem FedWith.loadModel (h : FedWith opf stored a rows) :
    ∃ a', a.loadModel opf (some stored) = (.ok (), a') ∧ a'.Synced stored ∧
      a'.model = some (opf.feed stored.definition (restored opf stored) rows) := by
  cases hm : a.model with
  | none =>
    obtain ⟨a', hload, hmodel, hsynced⟩ := h.synced.loadModel opf hm
    obtain rfl := h.notLoaded hm
    exact ⟨a', hload, hsynced, hmodel⟩
  | some model =>
    refine ⟨a, ?_, h.synced, ?_⟩
    · simp [ModelArchiver.loadModel, hm]
    · rw [hm, h.model model hm]

theorem FedWith.processInputRow {r : ModelRunner B D S M V}
    (h : FedWith opf stored r.archiver rows) (rowID : ℕ) (data : S) :
    ∃ archiver anomalyScore, r.processInputRow opf (some stored) rowID data =
        ({ r with
          archiver := archiver
          currentRunInputSamples := r.currentRunInputSamples ++ [data] },
          .inference rowID none (some anomalyScore)) ∧
      FedWith opf stored archiver (rows ++ [data]) ∧ archiver.model.isSome := by
  obtain ⟨a, hload, hsynced, hmodel⟩ := h.loadModel
  have hencoder := hsynced.encoder (by simp [hmodel])
  have hfeed := opf.feed_append stored.definition (restored opf stored) rows [data]
  refine ⟨{ a with model := some (opf.feed stored.definition (restored opf stored)
    (rows ++ [data])) }, (opf.run stored.definition
      (opf.feed stored.definition (restored opf stored) rows) data).2, ?_, ?_, rfl⟩
  · simp only [ModelRunner.processInputRow, hload, hmodel, hencoder, hfeed]
    rfl
  · refine ⟨⟨hsynced.samples, ?_, ?_, ?_⟩, fun _ hmem => (Option.mem_some_iff.mp hmem).symm, ?_⟩
    · exact fun _ => hsynced.hasCheckpoint (by simp [hmodel])
    · exact fun _ => hsynced.loaded (by simp [hmodel])
    · exact fun _ => hencoder
    · intro hnone
      cases hnone

/-- A checkpoint stands for the stored model fed with the rows since. -/
theorem FedWith.saveModel (h : FedWith opf stored a rows) (ids : List B) :
    ∃ stored' a', a.saveModel (some stored) ids rows = .ok (some stored', a') ∧
      stored'.definition = stored.definition ∧
      restored opf stored' = opf.feed stored.definition (restored opf stored) rows ∧
      FedWith opf stored' a' [] ∧
      (storedBatchIDs stored' = ids ∨ rows = [] ∧ stored' = stored) := by
  cases hm : a.model with
  | none =>
    obtain rfl := h.notLoaded hm
    refine ⟨stored, a, ?_, rfl, rfl, h, .inr ⟨rfl, rfl⟩⟩
    simp [ModelArchiver.saveModel, hm]
  | some model =>
    have hfed := h.model model hm
    obtain ⟨stored', a', hsave, hdefinition, hids, hrestored, hmodel, hsynced⟩ :=
      h.synced.saveModel hm hfed
    refine ⟨stored', a', hsave, hdefinition, hrestored.trans hfed, ⟨hsynced, ?_, ?_⟩, .inl hids⟩
    · intro model' hmem
      rw [hmodel] at hmem
      exact (Option.mem_some_iff.mp hmem).symm.trans hrestored.symm
    · exact fun _ => rfl

end FedWith

namespace InputDelivery

/-- What holds of the archive and the queue, whatever the runner does. -/
structure Kept (opf : Opf D S M V) (d : D) (m : Marks B D S M)
    (s : InputDelivery B D S M V) : Prop where
  entry : s.host.entry = some m.stored
  definition : m.stored.definition = d
  restored : restored opf m.stored =
    opf.feed d (opf.create d) (batchRows (s.submitted.take m.saved))
  batchIDs : Covers s.submitted (storedBatchIDs m.stored) m.oldest m.saved
  applied : batchRows (s.submitted.take m.applied) = batchRows (s.submitted.take m.saved)
  acked : ∀ id ∈ s.host.acked, ∃ n batch, n < m.applied ∧ s.submitted[n]? = some batch ∧
    batch.batchID = id
  rows : ∀ batch ∈ s.submitted, ∀ request ∈ batch.objects,
    ∃ rowID data, request = .inputRow rowID data
  nodup : (s.submitted.map RequestBatch.batchID).Nodup
  queueExists : s.host.queueExists = true
  held : s.host.queue.held = s.submitted.drop m.gone
  tags : ∀ p ∈ s.host.queue.unacked, p.1 < s.host.queue.nextTag
  oldest_le : m.oldest ≤ m.saved ∧ m.oldest ≤ m.gone
  saved_le : m.saved ≤ m.applied
  gone_le : m.gone ≤ m.applied
  applied_le : m.applied ≤ s.submitted.length

/-- The only ack under way, if any, settles everything unacked, all of it applied. -/
def AcksDue (m : Marks B D S M) (s : InputDelivery B D S M V) : Prop :=
  s.host.acks = [] ∨ ∃ tag multiple, s.host.acks = [(tag, multiple)] ∧
    (s.host.queue.settle tag multiple).unacked = [] ∧
    m.gone + s.host.queue.unacked.length ≤ m.applied

/-- Nothing is on the way to the runner or from it. -/
def Quiet (s : InputDelivery B D S M V) : Prop :=
  s.host.acks = [] ∧ s.host.queue.unacked = []

/-- The tag for an ack settles everything unacked, unless the channel is gone. -/
def Settles (s : InputDelivery B D S M V) : Option ℕ → Prop
  | some tag => ∀ p ∈ s.host.queue.unacked, p.1 ≤ tag
  | none => s.host.queue.unacked = []

/-- A run that has not accepted a batch yet. -/
structure RunEmpty (opf : Opf D S M V) (m : Marks B D S M) (r : ModelRunner B D S M V) : Prop where
  batchIDs : r.currentRunBatchIDSet = []
  samples : r.currentRunInputSamples = []
  last : r.lastRequestBatch = none
  model : FedWith opf m.stored r.archiver []

/-- A run that has accepted `count` batches, the rows `pending` not run yet. -/
structure RunOf (opf : Opf D S M V) (m : Marks B D S M) (s : InputDelivery B D S M V) (count : ℕ)
    (pending : List S) (r : ModelRunner B D S M V) : Prop where
  count_pos : 0 < count
  batchIDs : Covers s.submitted r.currentRunBatchIDSet m.gone (m.gone + count)
  count_le : m.gone + count ≤ s.submitted.length
  saved_le : m.saved ≤ m.gone
  known_le : m.knownTo ≤ m.gone
  model : FedWith opf m.stored r.archiver r.currentRunInputSamples
  samples : r.currentRunInputSamples ++ pending =
    batchRows ((s.submitted.drop m.gone).take count)
  acks : s.host.acks = []

/-- Every batch of the run is unacked, unless the channel is gone. -/
def RunHeld (s : InputDelivery B D S M V) (count : ℕ) (r : ModelRunner B D S M V) : Prop :=
  ∃ tag, r.lastRequestBatch = some tag ∧ s.Settles tag ∧
    (tag.isSome → s.host.queue.unacked.length = count)

/-- What the phase of the runner says about the queue and the model. -/
def InPhase (opf : Opf D S M V) (m : Marks B D S M) (s : InputDelivery B D S M V)
    (r : ModelRunner B D S M V) : Prop :=
  match r.phase with
  | .nextRun => s.Quiet ∧ FedWith opf m.stored r.archiver []
  | .consuming =>
    RunEmpty opf m r ∧ (s.host.acks = [] → s.host.queue.unacked = []) ∨
    ∃ count, RunOf opf m s count [] r ∧
      (RunHeld s count r ∨ s.host.queue.unacked = [])
  | .received tag batch =>
    RunEmpty opf m r ∧ s.host.acks = [] ∧ s.submitted[m.gone]? = some batch ∧
      s.host.queue.unacked = tag.toList.map (·, batch) ∨
    ∃ count, RunOf opf m s count [] r ∧
      (s.submitted[m.gone + count]? = some batch ∧ s.Settles tag ∧
        (tag.isSome → s.host.queue.unacked.length = count + 1) ∨
      batch.batchID ∈ r.currentRunBatchIDSet)
  | .processing _ pending _ =>
    (∀ request ∈ pending, ∃ rowID data, request = .inputRow rowID data) ∧
    ∃ count, RunOf opf m s count (rowsOf pending) r ∧ RunHeld s count r
  | .modelRemoved .. => False
  | .runEnded =>
    RunEmpty opf m r ∧ s.Quiet ∨ ∃ count, RunOf opf m s count [] r ∧ RunHeld s count r
  | .acking =>
    FedWith opf m.stored r.archiver [] ∧ s.host.acks = [] ∧
      m.gone + s.host.queue.unacked.length ≤ m.applied ∧
      ∃ tag, r.lastRequestBatch = some tag ∧ s.Settles tag ∧ (tag.isSome → r.channelOpen = true)
  | .runDone =>
    FedWith opf m.stored r.archiver [] ∧ (s.host.acks = [] → s.host.queue.unacked = [])

structure RunnerInv (opf : Opf D S M V) (m : Marks B D S M) (s : InputDelivery B D S M V)
    (r : ModelRunner B D S M V) : Prop where
  closed : r.channelOpen = false → s.Quiet
  known : Covers s.submitted r.modelCheckpointBatchIDSet m.knownFrom m.knownTo
  knownFrom_le : m.knownFrom ≤ m.gone
  knownTo_le : m.knownTo ≤ m.applied
  saved_le : m.saved ≤ m.knownTo ∨ m.saved ≤ m.gone
  phase : InPhase opf m s r

structure Inv (opf : Opf D S M V) (d : D) (m : Marks B D S M)
    (s : InputDelivery B D S M V) : Prop where
  kept : Kept opf d m s
  acksDue : AcksDue m s
  idle : s.host.runner = none → s.Quiet
  runner : ∀ r, s.host.runner = some r → RunnerInv opf m s r

/-! ## The steps that move no batch -/

variable {opf : Opf D S M V} {d : D} {m : Marks B D S M} {s : InputDelivery B D S M V}

theorem Kept.host (hk : Kept opf d m s) (host : ModelHost B D S M V)
    (hentry : host.entry = s.host.entry) (hexists : host.queueExists = s.host.queueExists)
    (hheld : host.queue.held = s.host.queue.held)
    (htags : ∀ p ∈ host.queue.unacked, p.1 < host.queue.nextTag)
    (hacked : host.acked = s.host.acked) : Kept opf d m { s with host := host } where
  entry := hentry.trans hk.entry
  definition := hk.definition
  restored := hk.restored
  batchIDs := hk.batchIDs
  applied := hk.applied
  acked := hacked ▸ hk.acked
  rows := hk.rows
  nodup := hk.nodup
  queueExists := hexists.trans hk.queueExists
  held := hheld.trans hk.held
  tags := htags
  oldest_le := hk.oldest_le
  saved_le := hk.saved_le
  gone_le := hk.gone_le
  applied_le := hk.applied_le

theorem Kept.setRunner (hk : Kept opf d m s) (acks : List (ℕ × Bool))
    (runner : Option (ModelRunner B D S M V)) :
    Kept opf d m { s with host := { s.host with acks := acks, runner := runner } } :=
  hk.host _ rfl rfl rfl hk.tags rfl

theorem Kept.closeChannel (hk : Kept opf d m s) (runner : Option (ModelRunner B D S M V)) :
    Kept opf d m { s with host := { s.host.closeChannel with runner := runner } } := by
  apply hk.host { s.host.closeChannel with runner := runner } rfl rfl
    (AckedQueue.held_requeue _) _ rfl
  intro p hp
  cases hp

theorem Kept.known (hk : Kept opf d m s) (i j : ℕ) :
    Kept opf d { m with knownFrom := i, knownTo := j } s where
  __ := hk

/-- A step of the runner that touches neither its channel nor what it knows. -/
theorem Inv.runnerStep {host : ModelHost B D S M V} {r r' : ModelRunner B D S M V}
    (hI : Inv opf d m s) (hr : s.host.runner = some r)
    (hkept : Kept opf d m { s with host := host }) (hqueue : host.queue = s.host.queue)
    (hacks : host.acks = s.host.acks) (hr' : host.runner = some r')
    (hopen : r'.channelOpen = r.channelOpen)
    (hids : r'.modelCheckpointBatchIDSet = r.modelCheckpointBatchIDSet)
    (hphase : InPhase opf m { s with host := host } r') :
    Inv opf d m { s with host := host } := by
  have hR := hI.runner r hr
  refine ⟨hkept, ?_, fun h => ?_, fun r'' h => ?_⟩
  · have hdue := hI.acksDue
    simp only [AcksDue, hacks, hqueue] at hdue ⊢
    exact hdue
  · rw [hr'] at h
    cases h
  · obtain rfl := Option.some.inj (hr'.symm.trans h)
    refine ⟨fun h => ?_, hids ▸ hR.known, hR.knownFrom_le, hR.knownTo_le, hR.saved_le, hphase⟩
    have hquiet := hR.closed (hopen.symm.trans h)
    exact ⟨hacks.trans hquiet.1, (congrArg _ hqueue).trans hquiet.2⟩

/-- A process that dies leaves an archive and a queue that the next one can start from. -/
theorem Kept.exitRunner (hk : Kept opf d m s) :
    Inv opf d m { s with host := s.host.exitRunner } :=
  ⟨hk.closeChannel none, .inl rfl, fun _ => ⟨rfl, rfl⟩, fun r hr => by cases hr⟩

theorem Inv.start (hI : Inv opf d m s) (hr : s.host.runner = none) :
    Inv opf d { m with knownFrom := m.oldest, knownTo := m.saved }
      { s with host := { s.host with runner := some (ModelRunner.new s.host.entry) } } := by
  have hk := hI.kept
  have hnew : ModelArchiver.new.modelCheckpointBatchIDSet s.host.entry =
      (ModelArchiver.new : ModelArchiver B D S M).modelCheckpointBatchIDSet (some m.stored) := by
    rw [hk.entry]
  refine ⟨(hk.known _ _).setRunner _ _, hI.acksDue, fun h => (by cases h), fun r h => ?_⟩
  obtain rfl := Option.some.inj h
  refine ⟨fun _ => hI.idle hr, ?_, hk.oldest_le.2, hk.saved_le, .inl (Nat.le_refl _), hI.idle hr, ?_⟩
  · have hids : (ModelRunner.new s.host.entry : ModelRunner B D S M V).modelCheckpointBatchIDSet =
        storedBatchIDs m.stored := by
      rw [ModelRunner.new, hnew, ModelArchiver.modelCheckpointBatchIDSet_new]
    rw [hids]
    exact hk.batchIDs
  · rw [ModelRunner.new, hnew]
    refine ⟨ModelArchiver.synced_modelCheckpointBatchIDSet_new, ?_, fun _ => rfl⟩
    intro model hmodel
    rw [ModelArchiver.modelCheckpointBatchIDSet_new] at hmodel
    cases hmodel

theorem Inv.beginRun {r : ModelRunner B D S M V} (hI : Inv opf d m s)
    (hr : s.host.runner = some r) (hp : r.phase = .nextRun) :
    Inv opf d m { s with host :=
      if r.done then s.host.exitRunner else { s.host with runner := some r.beginRun } } := by
  have hk := hI.kept
  have hR := hI.runner r hr
  obtain ⟨hquiet, hmodel⟩ : s.Quiet ∧ FedWith opf m.stored r.archiver [] := by
    simpa only [InPhase, hp] using hR.phase
  split
  · exact hk.exitRunner
  · refine ⟨hk.setRunner _ _, hI.acksDue, fun h => (by cases h), fun r' h => ?_⟩
    obtain rfl := Option.some.inj h
    refine ⟨fun h => (by cases h), hR.known, hR.knownFrom_le, hR.knownTo_le, hR.saved_le, ?_⟩
    exact .inl ⟨⟨rfl, rfl, rfl, hmodel⟩, fun _ => hquiet.2⟩

/-! ## Receiving a batch -/

/-- The batch at the head of the queue is the one after those delivered. -/
theorem Kept.next (hk : Kept opf d m s) {batch : RequestBatch B D S}
    {ready : List (RequestBatch B D S)} (h : s.host.queue.ready = batch :: ready) :
    s.submitted[m.gone + s.host.queue.unacked.length]? = some batch := by
  have hheld := congrArg (fun l => l[s.host.queue.unacked.length]?) hk.held
  simpa [AckedQueue.held, h, List.getElem?_drop] using hheld.symm

/-- Every unacked batch was submitted, at or after the first one on the queue. -/
theorem Kept.unacked (hk : Kept opf d m s) {p : ℕ × RequestBatch B D S}
    (hp : p ∈ s.host.queue.unacked) :
    ∃ n, n < m.gone + s.host.queue.unacked.length ∧ s.submitted[n]? = some p.2 := by
  obtain ⟨i, hi, rfl⟩ := List.mem_iff_getElem.mp hp
  refine ⟨m.gone + i, by omega, ?_⟩
  have hheld := congrArg (fun l => l[i]?) hk.held
  have hlt : i < (s.host.queue.unacked.map Prod.snd).length := by simpa using hi
  simpa [AckedQueue.held, List.getElem?_append_left hlt, List.getElem?_drop, hi] using hheld.symm

theorem Kept.deliver (hk : Kept opf d m s) {batch : RequestBatch B D S}
    {queue : AckedQueue (RequestBatch B D S)} (h : s.host.queue.deliver = some (batch, queue))
    (runner : Option (ModelRunner B D S M V)) :
    Kept opf d m { s with host := { s.host with queue := queue, runner := runner } } := by
  obtain ⟨hheld, -, hunacked, htag⟩ := AckedQueue.held_deliver h
  apply hk.host { s.host with queue := queue, runner := runner } rfl rfl hheld _ rfl
  intro p hp
  rw [hunacked, List.mem_append, List.mem_singleton] at hp
  rw [htag]
  rcases hp with hp | rfl
  · exact Nat.lt_succ_of_lt (hk.tags p hp)
  · exact Nat.lt_succ_self _

theorem RunHeld.length_cases {count : ℕ} {r : ModelRunner B D S M V} (h : RunHeld s count r) :
    s.host.queue.unacked.length = count ∨ s.host.queue.unacked = [] := by
  obtain ⟨tag, -, hsettles, hcount⟩ := h
  cases tag with
  | none => exact .inr hsettles
  | some tag => exact .inl (hcount rfl)

theorem Inv.getOneMessage {r : ModelRunner B D S M V} {host : ModelHost B D S M V}
    (hI : Inv opf d m s) (hr : s.host.runner = some r) (hp : r.phase = .consuming)
    (ht : s.host.getOneMessage r = some host) : Inv opf d m { s with host := host } := by
  have hk := hI.kept
  have hR := hI.runner r hr
  have hphase : RunEmpty opf m r ∧ (s.host.acks = [] → s.host.queue.unacked = []) ∨
      ∃ count, RunOf opf m s count [] r ∧ (RunHeld s count r ∨ s.host.queue.unacked = []) := by
    simpa only [InPhase, hp] using hR.phase
  rcases ModelHost.getOneMessage_cases ht with ⟨-, rfl⟩ | ⟨ho, ha, hcases⟩
  · -- The consumer reconnects; what it will receive is not known yet.
    refine ⟨hk.setRunner _ _, hI.acksDue, fun h => (by cases h), fun r' h => ?_⟩
    obtain rfl := Option.some.inj h
    refine ⟨fun h => (by cases h), hR.known, hR.knownFrom_le, hR.knownTo_le, hR.saved_le, ?_⟩
    simp only [InPhase, hp]
    rcases hphase with ⟨hE, hu⟩ | ⟨count, hO, hH⟩
    · exact .inl ⟨{ __ := hE }, hu⟩
    · exact .inr ⟨count, { __ := hO }, hH⟩
  rcases hcases with ⟨hq, -⟩ | ⟨-, hready, rfl⟩ | ⟨batch, queue, -, hd, rfl⟩
  · rw [hk.queueExists] at hq
    cases hq
  · -- No message is left, so all those of the run have been delivered and are held.
    refine hI.runnerStep hr (hk.setRunner _ _) rfl rfl rfl rfl rfl ?_
    rcases hphase with ⟨hE, hu⟩ | ⟨count, hO, hH⟩
    · exact .inl ⟨{ __ := hE }, ha, hu ha⟩
    · refine .inr ⟨count, { __ := hO }, hH.resolve_right fun hu => ?_⟩
      have hlen := congrArg List.length hk.held
      simp only [AckedQueue.held, hu, hready, List.map_nil, List.append_nil, List.length_nil,
        List.length_drop] at hlen
      have hpos := hO.count_pos
      have hle := hO.count_le
      omega
  · obtain ⟨hheld, hready, hunacked, htag⟩ := AckedQueue.held_deliver hd
    have hnext := hk.next hready
    have hkept := hk.deliver hd (some { r with
      phase := .received (some s.host.queue.nextTag) batch })
    refine ⟨hkept, .inl ha, fun h => (by cases h), fun r' h => ?_⟩
    obtain rfl := Option.some.inj h
    refine ⟨fun h => (by rw [ho] at h; cases h), hR.known, hR.knownFrom_le, hR.knownTo_le,
      hR.saved_le, ?_⟩
    have hlen : queue.unacked.length = s.host.queue.unacked.length + 1 := by simp [hunacked]
    have hsettles : ∀ p ∈ queue.unacked, p.1 ≤ s.host.queue.nextTag := by
      intro p hp
      have := hkept.tags p hp
      simp only [htag] at this
      exact Nat.le_of_lt_succ this
    rcases hphase with ⟨hE, hu⟩ | ⟨count, hO, hH⟩
    · rw [hu ha, List.length_nil, Nat.add_zero] at hnext
      refine .inl ⟨{ __ := hE }, ha, hnext, ?_⟩
      simp [hunacked, hu ha]
    · rcases hH.elim RunHeld.length_cases .inr with hcount | hu
      · rw [hcount] at hnext hlen
        exact .inr ⟨count, { __ := hO }, .inl ⟨hnext, hsettles, fun _ => hlen⟩⟩
      · -- The channel was lost in mid-run: the first batch of the run comes again.
        rw [hu, List.length_nil, Nat.add_zero] at hnext
        refine .inr ⟨count, { __ := hO }, .inr ?_⟩
        have hpos := hO.count_pos
        exact (hO.batchIDs _).mpr ⟨m.gone, batch, Nat.le_refl _, by omega, hnext, rfl⟩

/-! ## Taking a batch -/

theorem Inv.sendAck {r : ModelRunner B D S M V} {phase : RunPhase B D S V} {tag : Option ℕ}
    {multiple noticed : Bool} (hI : Inv opf d m s) (hr : s.host.runner = some r)
    (hacks : s.host.acks = [])
    (hsettle : ∀ t ∈ tag, (s.host.queue.settle t multiple).unacked = [])
    (hle : m.gone + s.host.queue.unacked.length ≤ m.applied)
    (hgone : tag = none → s.host.queue.unacked = []) (hopen : tag.isSome → r.channelOpen = true)
    (hphase : ∀ host : ModelHost B D S M V,
      (host.acks = [] → host.queue.unacked = []) →
      InPhase opf m { s with host := host } { r with phase := phase }) :
    Inv opf d m
      { s with host := s.host.sendAck tag multiple noticed { r with phase := phase } } := by
  have hk := hI.kept
  have hR := hI.runner r hr
  cases tag with
  | some t =>
    refine ⟨hk.setRunner _ _, .inr ⟨t, multiple, ?_, hsettle t rfl, hle⟩, fun h => (by cases h),
      fun r' h => ?_⟩
    · rw [ModelHost.sendAck, hacks]
      rfl
    · obtain rfl := Option.some.inj h
      refine ⟨fun h => ?_, hR.known, hR.knownFrom_le, hR.knownTo_le, hR.saved_le, hphase _ ?_⟩
      · rw [hopen rfl] at h
        cases h
      · intro h
        simp [ModelHost.sendAck] at h
  | none =>
    rw [ModelHost.sendAck]
    split
    · exact hk.exitRunner
    · refine ⟨hk.setRunner _ _, .inl hacks, fun h => (by cases h), fun r' h => ?_⟩
      obtain rfl := Option.some.inj h
      exact ⟨fun h => hR.closed h, hR.known, hR.knownFrom_le, hR.knownTo_le, hR.saved_le,
        hphase _ fun _ => hgone rfl⟩

/-- The first batch of a run: it is skipped if it is known to be checkpointed. -/
theorem Inv.takeFirst {r : ModelRunner B D S M V} {tag : Option ℕ} {batch : RequestBatch B D S}
    {noticed : Bool} [DecidableEq B] (hI : Inv opf d m s) (hr : s.host.runner = some r)
    (hE : RunEmpty opf m r) (hacks : s.host.acks = []) (hb : s.submitted[m.gone]? = some batch)
    (hu : s.host.queue.unacked = tag.toList.map (·, batch))
    (hopen : tag.isSome → r.channelOpen = true) :
    Inv opf d m { s with host := s.host.takeBatch tag batch noticed r } := by
  have hk := hI.kept
  have hR := hI.runner r hr
  have hmem := hR.known.mem_iff hk.nodup hb
  have hfrom := hR.knownFrom_le
  have hto := hR.knownTo_le
  have hgone : tag = none → s.host.queue.unacked = [] := fun ht => by simp [hu, ht]
  rw [ModelHost.takeBatch]
  split
  · next hdup =>
    have hknown : m.gone < m.knownTo := by
      rcases hdup with hdup | hdup
      · simp [hE.batchIDs] at hdup
      · exact (hmem.mp hdup).2
    apply hI.sendAck hr hacks _ _ hgone hopen
    · intro host hquiet
      exact .inl ⟨{ __ := hE }, hquiet⟩
    · intro t ht
      simp [AckedQueue.settle, hu, Option.mem_def.mp ht]
    · have hlen : s.host.queue.unacked.length ≤ 1 := by
        rw [hu]
        cases tag <;> simp
      omega
  · next hnew =>
    have hnot : ¬ (m.knownFrom ≤ m.gone ∧ m.gone < m.knownTo) := fun h => hnew (.inr (hmem.mpr h))
    have hlt := (List.getElem?_eq_some_iff.mp hb).1
    have hsaved := hR.saved_le
    refine hI.runnerStep hr (hk.setRunner _ _) rfl rfl rfl rfl rfl ?_
    refine ⟨hk.rows batch (List.mem_of_getElem? hb), 1, ?_, tag, rfl, ?_, ?_⟩
    · refine ⟨Nat.one_pos, ?_, hlt, by omega, by omega, ?_, ?_, hacks⟩
      · rw [hE.batchIDs]
        exact (Covers.nil _ _).snoc (Nat.le_refl _) hb
      · exact hE.samples ▸ hE.model
      · rw [hE.samples, List.drop_eq_getElem_cons hlt]
        simp [batchRows, (List.getElem?_eq_some_iff.mp hb).2]
    · cases tag with
      | none => exact hgone rfl
      | some t => simp [Settles, hu]
    · intro ht
      obtain ⟨t, rfl⟩ := Option.isSome_iff_exists.mp ht
      simp [hu]

/-- A further batch of a run is new. -/
theorem Inv.takeNext {r : ModelRunner B D S M V} {tag : Option ℕ} {batch : RequestBatch B D S}
    {noticed : Bool} {count : ℕ} [DecidableEq B] (hI : Inv opf d m s)
    (hr : s.host.runner = some r) (hO : RunOf opf m s count [] r)
    (hb : s.submitted[m.gone + count]? = some batch) (hsettles : s.Settles tag)
    (hlen : tag.isSome → s.host.queue.unacked.length = count + 1) :
    Inv opf d m { s with host := s.host.takeBatch tag batch noticed r } := by
  have hk := hI.kept
  have hR := hI.runner r hr
  have hknown := hO.known_le
  have hnew : ¬ (batch.batchID ∈ r.currentRunBatchIDSet ∨
      batch.batchID ∈ r.modelCheckpointBatchIDSet) := by
    rw [hO.batchIDs.mem_iff hk.nodup hb, hR.known.mem_iff hk.nodup hb]
    omega
  have hlt := (List.getElem?_eq_some_iff.mp hb).1
  rw [ModelHost.takeBatch, if_neg hnew]
  refine hI.runnerStep hr (hk.setRunner _ _) rfl rfl rfl rfl rfl ?_
  refine ⟨hk.rows batch (List.mem_of_getElem? hb), count + 1, ?_, tag, rfl, hsettles, hlen⟩
  refine ⟨Nat.succ_pos _, hO.batchIDs.snoc (by omega) hb, hlt, hO.saved_le, hO.known_le,
    hO.model, ?_, hO.acks⟩
  have hsamples := hO.samples
  rw [List.append_nil] at hsamples
  rw [List.take_add_one, batchRows_append, ← hsamples]
  simp [batchRows, List.getElem?_drop, hb]

theorem Inv.takeBatch {r : ModelRunner B D S M V} {tag : Option ℕ} {batch : RequestBatch B D S}
    {noticed : Bool} [DecidableEq B] (hI : Inv opf d m s) (hr : s.host.runner = some r)
    (hp : r.phase = .received tag batch) (hnot : batch.batchID ∉ r.currentRunBatchIDSet) :
    Inv opf d m { s with host := s.host.takeBatch tag batch noticed r } := by
  have hR := hI.runner r hr
  have hphase := hR.phase
  simp only [InPhase, hp] at hphase
  rcases hphase with ⟨hE, hacks, hb, hu⟩ | ⟨count, hO, ⟨hb, hsettles, hlen⟩ | hdup⟩
  · apply hI.takeFirst hr hE hacks hb hu
    intro ht
    obtain ⟨t, rfl⟩ := Option.isSome_iff_exists.mp ht
    by_contra hopen
    have hnil := (hR.closed (by simpa using hopen)).2
    simp [hu] at hnil
  · exact hI.takeNext hr hO hb hsettles hlen
  · exact absurd hdup hnot

/-! ## The rest of a run -/

theorem Inv.processRequest {r : ModelRunner B D S M V} {batch : RequestBatch B D S}
    {request : ModelRequest D S} {pending : List (ModelRequest D S)}
    {results : List (ModelResult V)} {fails : Bool} [DecidableEq D] (hI : Inv opf d m s)
    (hr : s.host.runner = some r) (hp : r.phase = .processing batch (request :: pending) results) :
    Inv opf d m
      { s with host := s.host.processRequest opf batch request pending results fails r } := by
  have hk := hI.kept
  have hR := hI.runner r hr
  obtain ⟨hrows, count, hO, hheld⟩ : (∀ q ∈ request :: pending,
      ∃ rowID data, q = .inputRow rowID data) ∧ ∃ count,
        RunOf opf m s count (rowsOf (request :: pending)) r ∧ RunHeld s count r := by
    simpa only [InPhase, hp] using hR.phase
  obtain ⟨rowID, data, rfl⟩ := hrows _ List.mem_cons_self
  obtain ⟨archiver, anomalyScore, hrun, hmodel, -⟩ := hO.model.processInputRow rowID data
  rw [← hk.entry] at hrun
  simp only [ModelHost.processRequest, hrun]
  refine hI.runnerStep hr (hk.setRunner _ _) rfl rfl rfl rfl rfl ?_
  refine ⟨fun q hq => hrows q (List.mem_cons_of_mem _ hq), count, ?_, hheld⟩
  refine ⟨hO.count_pos, hO.batchIDs, hO.count_le, hO.saved_le, hO.known_le, hmodel, ?_, hO.acks⟩
  rw [← hO.samples, List.append_assoc]
  rfl

theorem Inv.submitResults {r : ModelRunner B D S M V} {batch : RequestBatch B D S}
    {results : List (ModelResult V)} {target : ℤ} (hI : Inv opf d m s)
    (hr : s.host.runner = some r) (hp : r.phase = .processing batch [] results) :
    Inv opf d m { s with host := s.host.submitResults target batch results r } := by
  have hk := hI.kept
  have hR := hI.runner r hr
  obtain ⟨-, count, hO, hheld⟩ : (∀ q ∈ ([] : List (ModelRequest D S)),
      ∃ rowID data, q = .inputRow rowID data) ∧ ∃ count,
        RunOf opf m s count (rowsOf []) r ∧ RunHeld s count r := by
    simpa only [InPhase, hp] using hR.phase
  rw [ModelHost.submitResults]
  split
  · refine hI.runnerStep hr (hk.host _ rfl rfl rfl hk.tags rfl) rfl rfl rfl rfl rfl ?_
    exact .inr ⟨count, { __ := hO }, hheld⟩
  · refine hI.runnerStep hr (hk.host _ rfl rfl rfl hk.tags rfl) rfl rfl rfl rfl rfl ?_
    exact .inr ⟨count, { __ := hO }, .inl hheld⟩

/-- What is before the first batch on the queue, and applied, is stored. -/
theorem Kept.rows_gone (hk : Kept opf d m s) (hle : m.saved ≤ m.gone) :
    batchRows (s.submitted.take m.gone) = batchRows (s.submitted.take m.saved) :=
  batchRows_take_squeeze hle hk.gone_le hk.applied

/-- The rows of the run are those between what is stored and its last batch. -/
theorem RunOf.rows {count : ℕ} {r : ModelRunner B D S M V} (hk : Kept opf d m s)
    (hO : RunOf opf m s count [] r) :
    batchRows (s.submitted.take (m.gone + count)) =
      batchRows (s.submitted.take m.saved) ++ r.currentRunInputSamples := by
  rw [List.take_add, batchRows_append, hk.rows_gone hO.saved_le, ← hO.samples, List.append_nil]

/-- Batches applied beyond the run have no rows. -/
theorem RunOf.rows_max {count : ℕ} {r : ModelRunner B D S M V} (hk : Kept opf d m s)
    (hO : RunOf opf m s count [] r) :
    batchRows (s.submitted.take (max m.applied (m.gone + count))) =
      batchRows (s.submitted.take (m.gone + count)) := by
  rcases Nat.le_total m.applied (m.gone + count) with hle | hle
  · rw [Nat.max_eq_right hle]
  · rw [Nat.max_eq_left hle]
    have hgone := hk.applied.trans (hk.rows_gone hO.saved_le).symm
    exact hgone.trans (batchRows_take_squeeze (Nat.le_add_right _ _) hle hgone).symm

/-- A checkpoint stands for everything up to the end of the run. Where no model was
loaded the run had no rows and nothing is saved. -/
theorem RunOf.saved {count : ℕ} {r : ModelRunner B D S M V} (hk : Kept opf d m s)
    (hO : RunOf opf m s count [] r) :
    ∃ stored archiver oldest saved,
      r.archiver.saveModel s.host.entry r.currentRunBatchIDSet r.currentRunInputSamples =
        .ok (some stored, archiver) ∧
      FedWith opf stored archiver [] ∧ stored.definition = d ∧
      ModelSwapper.restored opf stored =
        opf.feed d (opf.create d) (batchRows (s.submitted.take saved)) ∧
      Covers s.submitted (storedBatchIDs stored) oldest saved ∧
      batchRows (s.submitted.take (m.gone + count)) = batchRows (s.submitted.take saved) ∧
      oldest ≤ saved ∧ oldest ≤ m.gone ∧ saved ≤ m.gone + count := by
  obtain ⟨stored, archiver, hsave, hdefinition, hrestored, hmodel, hids⟩ :=
    hO.model.saveModel r.currentRunBatchIDSet
  rw [← hk.entry] at hsave
  have hrows := hO.rows hk
  rcases hids with hids | ⟨hnone, rfl⟩
  · refine ⟨stored, archiver, m.gone, m.gone + count, hsave, hmodel,
      hdefinition.trans hk.definition, ?_, hids ▸ hO.batchIDs, rfl, Nat.le_add_right _ _,
      Nat.le_refl _, Nat.le_refl _⟩
    rw [hrestored, hk.definition, hk.restored, hrows, opf.feed_append]
  · rw [hnone, List.append_nil] at hrows
    exact ⟨m.stored, archiver, m.oldest, m.saved, hsave, hmodel, hk.definition, hk.restored,
      hk.batchIDs, hrows, hk.oldest_le.1, hk.oldest_le.2,
      Nat.le_trans hO.saved_le (Nat.le_add_right _ _)⟩

theorem Inv.checkpoint {r : ModelRunner B D S M V} (hI : Inv opf d m s)
    (hr : s.host.runner = some r) (hp : r.phase = .runEnded) :
    ∃ m', Inv opf d m' { s with host := s.host.checkpoint r } := by
  have hk := hI.kept
  have hR := hI.runner r hr
  have hphase : RunEmpty opf m r ∧ s.Quiet ∨ ∃ count, RunOf opf m s count [] r ∧ RunHeld s count r := by
    simpa only [InPhase, hp] using hR.phase
  rw [ModelHost.checkpoint]
  rcases hphase with ⟨hE, hquiet⟩ | ⟨count, hO, hheld⟩
  · rw [hE.last]
    refine ⟨m, hI.runnerStep hr (hk.setRunner _ _) rfl rfl rfl rfl rfl ?_⟩
    exact ⟨hE.model, fun _ => hquiet.2⟩
  · obtain ⟨stored, archiver, oldest, saved, hsave, hmodel, hdefinition, hrestored, hids, hrows,
      holdest, hgone, hsaved⟩ := hO.saved hk
    obtain ⟨tag, hlast, hsettles, hcount⟩ := hheld
    have happlied := hk.applied_le
    have hgone_le := hk.gone_le
    have hcount_le := hO.count_le
    have hpos := hO.count_pos
    rw [hlast]
    simp only [hsave]
    refine ⟨{
      stored := stored
      oldest := oldest
      saved := saved
      applied := max m.applied (m.gone + count)
      gone := m.gone
      knownFrom := m.gone
      knownTo := m.gone + count }, ?_, .inl hO.acks, fun h => (by cases h), fun r' h => ?_⟩
    · refine ⟨rfl, hdefinition, hrestored, hids, (hO.rows_max hk).trans hrows, ?_, hk.rows,
        hk.nodup, hk.queueExists, hk.held, hk.tags, ⟨holdest, hgone⟩, ?_, ?_, ?_⟩
      · intro id hid
        obtain ⟨n, batch, hn, hbatch⟩ := hk.acked id hid
        exact ⟨n, batch, Nat.lt_of_lt_of_le hn (Nat.le_max_left _ _), hbatch⟩
      · exact Nat.le_trans hsaved (Nat.le_max_right _ _)
      · exact Nat.le_trans hgone_le (Nat.le_max_left _ _)
      · exact Nat.max_le.mpr ⟨happlied, hcount_le⟩
    · obtain rfl := Option.some.inj h
      refine ⟨fun h => hR.closed h, hO.batchIDs, Nat.le_refl _, Nat.le_max_right _ _,
        .inl hsaved, hmodel, hO.acks, ?_, tag, rfl, hsettles, ?_⟩
      · show m.gone + s.host.queue.unacked.length ≤ max m.applied (m.gone + count)
        rcases RunHeld.length_cases ⟨tag, hlast, hsettles, hcount⟩ with hlen | hnil
        · rw [hlen]
          exact Nat.le_max_right _ _
        · rw [hnil]
          exact Nat.le_trans hgone_le (Nat.le_max_left _ _)
      · intro htag
        by_contra hopen
        have hnil := (hR.closed (by simpa using hopen)).2
        have hlen := hcount htag
        rw [hnil, List.length_nil] at hlen
        omega

theorem Inv.ackRun {r : ModelRunner B D S M V} {tag : Option ℕ} {noticed : Bool}
    (hI : Inv opf d m s) (hr : s.host.runner = some r) (hp : r.phase = .acking)
    (hl : r.lastRequestBatch = some tag) :
    Inv opf d m
      { s with host := s.host.sendAck tag true noticed { r with phase := .runDone } } := by
  have hR := hI.runner r hr
  have hphase := hR.phase
  simp only [InPhase, hp] at hphase
  obtain ⟨hmodel, hacks, hle, tag', hlast, hsettles, hopen⟩ := hphase
  obtain rfl := Option.some.inj (hlast.symm.trans hl)
  apply hI.sendAck hr hacks _ hle _ hopen
  · intro host hquiet
    exact ⟨hmodel, hquiet⟩
  · intro t ht
    obtain rfl := Option.mem_def.mp ht
    apply List.filter_eq_nil_iff.mpr
    intro p hp
    have hpt := hsettles p hp
    simpa using hpt
  · rintro rfl
    exact hsettles

theorem Inv.endRun {r : ModelRunner B D S M V} {preempted : Bool} (hI : Inv opf d m s)
    (hr : s.host.runner = some r) (hp : r.phase = .runDone) :
    Inv opf d m { s with host := { s.host.closeChannel with
      runner := some { r.loseChannel with
        done := r.done || preempted
        phase := .nextRun } } } := by
  have hk := hI.kept
  have hR := hI.runner r hr
  have hphase := hR.phase
  simp only [InPhase, hp] at hphase
  refine ⟨hk.closeChannel _, .inl rfl, fun h => (by cases h), fun r' h => ?_⟩
  obtain rfl := Option.some.inj h
  exact ⟨fun _ => ⟨rfl, rfl⟩, hR.known, hR.knownFrom_le, hR.knownTo_le, hR.saved_le,
    ⟨rfl, rfl⟩, hphase.1⟩

/-! ## The broker and the channel -/

/-- The broker receives an ack of what is applied, and nothing is unacked then. -/
theorem Inv.receiveAck {tag : ℕ} {multiple : Bool} {acks : List (ℕ × Bool)}
    (hI : Inv opf d m s) (ha : s.host.acks = (tag, multiple) :: acks) :
    Inv opf d { m with gone := m.gone + s.host.queue.unacked.length }
      { s with host := { s.host with
        queue := s.host.queue.settle tag multiple
        acks := acks
        acked := s.host.acked ++ (s.host.queue.settled tag multiple).map fun p => p.2.batchID } } := by
  have hk := hI.kept
  have hne : s.host.acks ≠ [] := by simp [ha]
  obtain ⟨hsettle, rfl, hle⟩ : (s.host.queue.settle tag multiple).unacked = [] ∧ acks = [] ∧
      m.gone + s.host.queue.unacked.length ≤ m.applied := by
    rcases hI.acksDue with hnil | ⟨tag', multiple', hsome, hsettle, hle⟩
    · exact absurd hnil hne
    · rw [ha] at hsome
      cases hsome
      exact ⟨hsettle, rfl, hle⟩
  refine ⟨⟨hk.entry, hk.definition, hk.restored, hk.batchIDs, hk.applied, ?_, hk.rows, hk.nodup,
    hk.queueExists, ?_, ?_, ⟨hk.oldest_le.1, ?_⟩, hk.saved_le, hle, hk.applied_le⟩, .inl rfl,
    fun h => ?_, fun r h => ?_⟩
  · intro id hid
    rcases List.mem_append.mp hid with hid | hid
    · exact hk.acked id hid
    · obtain ⟨p, hp, rfl⟩ := List.mem_map.mp hid
      obtain ⟨n, hn, hbatch⟩ := hk.unacked (List.mem_of_mem_filter hp)
      exact ⟨n, p.2, Nat.lt_of_lt_of_le hn hle, hbatch, rfl⟩
  · have hdrop := congrArg (List.drop s.host.queue.unacked.length) hk.held
    rw [List.drop_drop] at hdrop
    rw [← hdrop]
    simp [AckedQueue.held, hsettle]
  · simp [hsettle]
  · exact Nat.le_trans hk.oldest_le.2 (Nat.le_add_right _ _)
  · exact absurd (hI.idle h).1 hne
  · have hR := hI.runner r h
    refine ⟨fun ho => absurd (hR.closed ho).1 hne, hR.known,
      Nat.le_trans hR.knownFrom_le (Nat.le_add_right _ _), hR.knownTo_le,
      hR.saved_le.imp_right fun hle => Nat.le_trans hle (Nat.le_add_right _ _), ?_⟩
    -- An ack is under way only before the next batch is asked for and at a run's end.
    have hphase := hR.phase
    unfold InPhase at hphase ⊢
    cases hp : r.phase <;> simp only [hp] at hphase ⊢
    case nextRun => exact absurd hphase.1.1 hne
    case consuming =>
      rcases hphase with ⟨hE, -⟩ | ⟨count, hO, -⟩
      · exact .inl ⟨{ __ := hE }, fun _ => hsettle⟩
      · exact absurd hO.acks hne
    case received =>
      rcases hphase with ⟨-, hacks, -⟩ | ⟨count, hO, -⟩
      · exact absurd hacks hne
      · exact absurd hO.acks hne
    case processing =>
      obtain ⟨-, count, hO, -⟩ := hphase
      exact absurd hO.acks hne
    case runEnded =>
      rcases hphase with ⟨-, hquiet⟩ | ⟨count, hO, -⟩
      · exact absurd hquiet.1 hne
      · exact absurd hO.acks hne
    case acking => exact absurd hphase.2.1 hne
    case runDone => exact ⟨hphase.1, fun _ => hsettle⟩

theorem Inv.channelDies {r : ModelRunner B D S M V} (hI : Inv opf d m s)
    (hr : s.host.runner = some r) :
    Inv opf d m
      { s with host := { s.host.closeChannel with runner := some r.loseChannel } } := by
  have hk := hI.kept
  have hR := hI.runner r hr
  refine ⟨hk.closeChannel _, .inl rfl, fun h => (by cases h), fun r' h => ?_⟩
  obtain rfl := Option.some.inj h
  refine ⟨fun _ => ⟨rfl, rfl⟩, hR.known, hR.knownFrom_le, hR.knownTo_le, hR.saved_le, ?_⟩
  have hphase := hR.phase
  have hheld : ∀ count, RunHeld s count r →
      RunHeld { s with host := { s.host.closeChannel with runner := some r.loseChannel } }
        count r.loseChannel := by
    rintro count ⟨tag, hlast, -, -⟩
    exact ⟨none, by simp [ModelRunner.loseChannel, hlast], rfl, fun h => by cases h⟩
  have hrun : ∀ count pending, RunOf opf m s count pending r →
      RunOf opf m { s with host := { s.host.closeChannel with runner := some r.loseChannel } }
        count pending r.loseChannel :=
    fun count pending hO => ⟨hO.count_pos, hO.batchIDs, hO.count_le, hO.saved_le, hO.known_le,
      hO.model, hO.samples, rfl⟩
  have hempty : RunEmpty opf m r → RunEmpty opf m r.loseChannel :=
    fun hE => ⟨hE.batchIDs, hE.samples, by simp [ModelRunner.loseChannel, hE.last], hE.model⟩
  unfold InPhase at hphase ⊢
  cases hp : r.phase <;> simp only [hp, ModelRunner.loseChannel] at hphase hheld hrun hempty ⊢
  case nextRun => exact ⟨⟨rfl, rfl⟩, hphase.2⟩
  case consuming =>
    rcases hphase with ⟨hE, -⟩ | ⟨count, hO, -⟩
    · exact .inl ⟨hempty hE, fun _ => rfl⟩
    · exact .inr ⟨count, hrun _ _ hO, .inr rfl⟩
  case received =>
    rcases hphase with ⟨hE, -, hb, -⟩ | ⟨count, hO, ⟨hb, -⟩ | hdup⟩
    · exact .inl ⟨hempty hE, rfl, hb, rfl⟩
    · exact .inr ⟨count, hrun _ _ hO, .inl ⟨hb, rfl, fun h => by cases h⟩⟩
    · exact .inr ⟨count, hrun _ _ hO, .inr hdup⟩
  case processing =>
    obtain ⟨hrows, count, hO, hH⟩ := hphase
    exact ⟨hrows, count, hrun _ _ hO, hheld _ hH⟩
  case runEnded =>
    rcases hphase with ⟨hE, -⟩ | ⟨count, hO, hH⟩
    · exact .inl ⟨hempty hE, rfl, rfl⟩
    · exact .inr ⟨count, hrun _ _ hO, hheld _ hH⟩
  case acking =>
    obtain ⟨hmodel, -, -, tag, hlast, -, -⟩ := hphase
    refine ⟨hmodel, rfl, hk.gone_le, none, ?_, rfl, fun h => by cases h⟩
    rw [hlast]
    rfl
  case runDone => exact ⟨hphase.1, fun _ => rfl⟩

/-! ## Submitting a batch -/

variable {batch : RequestBatch B D S}

theorem take_submit {n : ℕ} (h : n ≤ s.submitted.length) :
    (s.submit batch).submitted.take n = s.submitted.take n :=
  List.take_append_of_le_length h

theorem getElem?_submit {n : ℕ} {b : RequestBatch B D S} (h : s.submitted[n]? = some b) :
    (s.submit batch).submitted[n]? = some b := by
  rw [← h]
  exact List.getElem?_append_left (List.getElem?_eq_some_iff.mp h).1

theorem Kept.submit (hk : Kept opf d m s)
    (hrows : ∀ request ∈ batch.objects, ∃ rowID data, request = .inputRow rowID data)
    (hnew : batch.batchID ∉ s.submitted.map RequestBatch.batchID) :
    Kept opf d m (s.submit batch) := by
  have hlen := hk.applied_le
  have hsaved := Nat.le_trans hk.saved_le hlen
  refine ⟨hk.entry, hk.definition, ?_, hk.batchIDs.submit hsaved batch, ?_, ?_, ?_, ?_,
    hk.queueExists, ?_, hk.tags, hk.oldest_le, hk.saved_le, hk.gone_le, ?_⟩
  · rw [take_submit hsaved, hk.restored]
  · rw [take_submit hlen, take_submit hsaved, hk.applied]
  · intro id hid
    obtain ⟨n, b, hn, hb, hid⟩ := hk.acked id hid
    exact ⟨n, b, hn, getElem?_submit hb, hid⟩
  · intro b hb
    rcases List.mem_append.mp hb with hb | hb
    · exact hk.rows b hb
    · obtain rfl := List.mem_singleton.mp hb
      exact hrows
  · show ((s.submitted ++ [batch]).map RequestBatch.batchID).Nodup
    rw [List.map_append]
    refine List.nodup_append.mpr ⟨hk.nodup, List.nodup_singleton _, ?_⟩
    rintro id hid id' hid' rfl
    obtain rfl := List.mem_singleton.mp hid'
    exact hnew hid
  · show (s.host.queue.publish batch).held = (s.submitted ++ [batch]).drop m.gone
    rw [AckedQueue.held_publish, hk.held,
      List.drop_append_of_le_length (Nat.le_trans hk.gone_le hlen)]
  · exact Nat.le_trans hlen (by simp [InputDelivery.submit])

theorem RunOf.submit {count : ℕ} {pending : List S} {r : ModelRunner B D S M V}
    (hO : RunOf opf m s count pending r) : RunOf opf m (s.submit batch) count pending r := by
  have hle := hO.count_le
  refine ⟨hO.count_pos, hO.batchIDs.submit hle batch, ?_, hO.saved_le, hO.known_le, hO.model, ?_,
    hO.acks⟩
  · exact Nat.le_trans hle (by simp [InputDelivery.submit])
  · rw [hO.samples]
    congr 1
    show _ = ((s.submitted ++ [batch]).drop m.gone).take count
    rw [List.drop_append_of_le_length (by omega), List.take_append_of_le_length]
    rw [List.length_drop]
    omega

theorem Inv.submit (hI : Inv opf d m s)
    (hrows : ∀ request ∈ batch.objects, ∃ rowID data, request = .inputRow rowID data)
    (hnew : batch.batchID ∉ s.submitted.map RequestBatch.batchID) :
    Inv opf d m (s.submit batch) := by
  have hk := hI.kept
  refine ⟨hk.submit hrows hnew, hI.acksDue, hI.idle, fun r h => ?_⟩
  have hR := hI.runner r h
  refine ⟨hR.closed, hR.known.submit (Nat.le_trans hR.knownTo_le hk.applied_le) batch,
    hR.knownFrom_le, hR.knownTo_le, hR.saved_le, ?_⟩
  have hphase := hR.phase
  unfold InPhase at hphase ⊢
  cases hp : r.phase <;> simp only [hp] at hphase ⊢
  case nextRun => exact hphase
  case consuming =>
    exact hphase.imp_right fun ⟨count, hO, hH⟩ => ⟨count, hO.submit, hH⟩
  case received =>
    rcases hphase with ⟨hE, hacks, hb, hu⟩ | ⟨count, hO, ⟨hb, hH⟩ | hdup⟩
    · exact .inl ⟨hE, hacks, getElem?_submit hb, hu⟩
    · exact .inr ⟨count, hO.submit, .inl ⟨getElem?_submit hb, hH⟩⟩
    · exact .inr ⟨count, hO.submit, .inr hdup⟩
  case processing =>
    obtain ⟨hpending, count, hO, hH⟩ := hphase
    exact ⟨hpending, count, hO.submit, hH⟩
  case runEnded =>
    exact hphase.imp_right fun ⟨count, hO, hH⟩ => ⟨count, hO.submit, hH⟩
  case acking => exact hphase
  case runDone => exact hphase

/-! ## Every step, and every run -/

/-- The archive and the acks once the first batches have been applied. -/
theorem Inv.exactlyOnce (hI : Inv opf d m s) :
    ∃ k ≤ s.submitted.length,
      (∃ stored, s.host.entry = some stored ∧
        restored opf stored =
          opf.feed d (opf.create d) (batchRows (s.submitted.take k))) ∧
      ∀ id ∈ s.host.acked, id ∈ (s.submitted.take k).map RequestBatch.batchID := by
  have hk := hI.kept
  refine ⟨m.applied, hk.applied_le, ⟨m.stored, hk.entry, ?_⟩, ?_⟩
  · rw [hk.applied, hk.restored]
  · intro id hid
    obtain ⟨n, batch, hn, hbatch, rfl⟩ := hk.acked id hid
    apply List.mem_map_of_mem
    apply List.mem_of_getElem?
    rw [List.getElem?_take_of_lt hn]
    exact hbatch

section Steps

variable [DecidableEq B] [DecidableEq D] {target : ℤ}

theorem Inv.hostAct {a : ModelHost.Action} {host : ModelHost B D S M V} (hI : Inv opf d m s)
    (hnot : s.NotOfCurrentRun (.host a)) (h : s.host.act opf target a = some host) :
    ∃ m', Inv opf d m' { s with host := host } := by
  cases a with
  | start =>
    obtain ⟨hr, rfl⟩ := ModelHost.act_start_eq h
    exact ⟨_, hI.start hr⟩
  | beginRun =>
    obtain ⟨r, hr, hp, rfl⟩ := ModelHost.act_beginRun_eq h
    exact ⟨_, hI.beginRun hr hp⟩
  | getOneMessage =>
    obtain ⟨r, hr, hp, ht⟩ := ModelHost.act_getOneMessage_eq h
    exact ⟨_, hI.getOneMessage hr hp ht⟩
  | takeBatch noticed =>
    obtain ⟨r, tag, batch, hr, hp, rfl⟩ := ModelHost.act_takeBatch_eq h
    have hnew := hnot rfl r hr batch (by simp [hp, RunPhase.candidateBatch])
    exact ⟨_, hI.takeBatch hr hp hnew⟩
  | processRequest fails =>
    obtain ⟨r, batch, request, pending, results, hr, hp, rfl⟩ := ModelHost.act_processRequest_eq h
    exact ⟨_, hI.processRequest hr hp⟩
  | cleanUpAfterModelDeletion fails =>
    -- No model is deleted here.
    obtain ⟨r, batch, commandID, pending, results, hr, hp, -⟩ :=
      ModelHost.act_cleanUpAfterModelDeletion_eq h
    have hphase := (hI.runner r hr).phase
    simp only [InPhase, hp] at hphase
  | submitResults =>
    obtain ⟨r, batch, results, hr, hp, rfl⟩ := ModelHost.act_submitResults_eq h
    exact ⟨_, hI.submitResults hr hp⟩
  | checkpoint =>
    obtain ⟨r, hr, hp, rfl⟩ := ModelHost.act_checkpoint_eq h
    exact hI.checkpoint hr hp
  | ackRun noticed =>
    obtain ⟨r, tag, hr, hp, hl, rfl⟩ := ModelHost.act_ackRun_eq h
    exact ⟨_, hI.ackRun hr hp hl⟩
  | endRun preempted =>
    obtain ⟨r, hr, hp, -, rfl⟩ := ModelHost.act_endRun_eq h
    exact ⟨_, hI.endRun hr hp⟩
  | receiveAck =>
    obtain ⟨tag, multiple, acks, ha, rfl⟩ := ModelHost.act_receiveAck_eq h
    exact ⟨_, hI.receiveAck ha⟩
  | channelDies =>
    obtain ⟨r, hr, -, rfl⟩ := ModelHost.act_channelDies_eq h
    exact ⟨_, hI.channelDies hr⟩
  | crash =>
    obtain ⟨-, rfl⟩ := ModelHost.act_crash_eq h
    exact ⟨_, hI.kept.exitRunner⟩

theorem Inv.act {a : Action B S} {t : InputDelivery B D S M V} (hI : Inv opf d m s)
    (hnot : s.NotOfCurrentRun a) (h : act opf target a s = some t) :
    ∃ m', Inv opf d m' t := by
  cases a with
  | submit batchID rows =>
    simp only [InputDelivery.act] at h
    split at h
    · cases h
    · next hnew =>
      obtain rfl := Option.some.inj h
      refine ⟨m, hI.submit ?_ hnew⟩
      intro request hrequest
      obtain ⟨p, -, rfl⟩ := List.mem_map.mp hrequest
      exact ⟨p.1, p.2, rfl⟩
  | host a =>
    obtain ⟨host, hhost, rfl⟩ := Option.map_eq_some_iff.mp h
    exact hI.hostAct hnot hhost

theorem inv_init (h : (system opf target d).init s) : ∃ m, Inv opf d m s := by
  obtain rfl := h
  refine ⟨⟨⟨d, none⟩, 0, 0, 0, 0, 0, 0⟩, ?_, .inl rfl, fun _ => ⟨rfl, rfl⟩,
    fun r hr => by cases hr⟩
  exact {
    entry := rfl
    definition := rfl
    restored := rfl
    batchIDs := Covers.nil _ _
    applied := rfl
    acked := fun id hid => by cases hid
    rows := fun batch hbatch => by cases hbatch
    nodup := List.nodup_nil
    queueExists := rfl
    held := rfl
    tags := fun p hp => by cases hp
    oldest_le := ⟨Nat.le_refl _, Nat.le_refl _⟩
    saved_le := Nat.le_refl _
    gone_le := Nat.le_refl _
    applied_le := Nat.le_refl _ }

end Steps

end InputDelivery

/-- The rows of each batch are applied exactly once to what the checkpoint stands
for, and no batch is acked before, in every run in which no batch is delivered again
to the run of the process that has accepted it. -/
theorem input_rows_exactly_once {opf : Opf D S M V} {target : ℤ} {d : D} [DecidableEq B]
    [DecidableEq D] {tr : List (InputDelivery B D S M V × InputDelivery.Action B S)}
    {s : InputDelivery B D S M V} (h : Run (InputDelivery.system opf target d) tr s)
    (hnot : ∀ p ∈ tr, p.1.NotOfCurrentRun p.2) :
    ∃ k ≤ s.submitted.length,
      (∃ stored, s.host.entry = some stored ∧
        restored opf stored =
          opf.feed d (opf.create d) (batchRows (s.submitted.take k))) ∧
      ∀ id ∈ s.host.acked, id ∈ (s.submitted.take k).map RequestBatch.batchID := by
  have hI : ∃ m, InputDelivery.Inv opf d m s := by
    apply h.invariant (G := InputDelivery.NotOfCurrentRun) _ _ hnot
    · exact fun s hs => InputDelivery.inv_init hs
    · rintro a s t ⟨m, hI⟩ hnot ht
      exact hI.act hnot ht
  obtain ⟨m, hI⟩ := hI
  exact hI.exactlyOnce

/-- A model that remembers the rows it was run on. -/
def recorder : Opf Unit ℕ (List ℕ) ℕ := ⟨fun _ => [], fun _ model row => (model ++ [row], 0)⟩

def twoBatches : List (InputDelivery.Action ℕ ℕ) :=
  [.submit 1 [(1, 7)], .submit 2 [(2, 8), (3, 9)], .host .start, .host .beginRun,
    .host .getOneMessage, .host (.takeBatch true), .host (.processRequest false),
    .host .submitResults, .host .getOneMessage, .host (.takeBatch true),
    .host (.processRequest false), .host (.processRequest false), .host .submitResults,
    .host .getOneMessage, .host .checkpoint, .host (.ackRun true), .host .crash,
    .host .start, .host .beginRun, .host .getOneMessage, .host (.takeBatch true),
    .host .receiveAck, .host .getOneMessage, .host (.takeBatch true), .host .receiveAck]

/-- Two batches, the process dying between the checkpoint and the ack: the next
process skips both. -/
theorem input_rows_exactly_once_crash :
    ∃ s : InputDelivery ℕ Unit ℕ (List ℕ) ℕ, s.host.acked = [1, 2] ∧ ∃ k ≤ s.submitted.length,
      (∃ stored, s.host.entry = some stored ∧
        restored recorder stored =
          recorder.feed () (recorder.create ()) (batchRows (s.submitted.take k))) ∧
      ∀ id ∈ s.host.acked, id ∈ (s.submitted.take k).map RequestBatch.batchID := by
  have hinit : (InputDelivery.system (B := ℕ) recorder 10 ()).init
      ⟨⟨some ⟨(), none⟩, true, .empty _, [], none, [], [], []⟩, []⟩ := rfl
  obtain ⟨s, hexec, hacked, htrace⟩ : ∃ s,
      (InputDelivery.system (B := ℕ) recorder 10 ()).exec twoBatches
        ⟨⟨some ⟨(), none⟩, true, .empty _, [], none, [], [], []⟩, []⟩ = some s ∧
      s.host.acked = [1, 2] ∧
      ∀ p ∈ (InputDelivery.system recorder 10 ()).trace twoBatches
        ⟨⟨some ⟨(), none⟩, true, .empty _, [], none, [], [], []⟩, []⟩,
        p.1.NotOfCurrentRun p.2 := ⟨_, rfl, rfl, by decide⟩
  exact ⟨s, hacked, input_rows_exactly_once ((Run.init hinit).exec_trace hexec) htrace⟩

/-- The channel is lost after the only batch was run. It comes again, is acked as a
duplicate of the current run, and the process dies before the checkpoint. -/
theorem input_rows_lost :
    ∃ s, Reachable (InputDelivery.system (B := ℕ) recorder 10 ()) s ∧
      ¬ ∃ k ≤ s.submitted.length,
        ∃ stored, s.host.entry = some stored ∧
          restored recorder stored =
            recorder.feed () (recorder.create ()) (batchRows (s.submitted.take k)) := by
  have hinit : (InputDelivery.system (B := ℕ) recorder 10 ()).init
      ⟨⟨some ⟨(), none⟩, true, .empty _, [], none, [], [], []⟩, []⟩ := rfl
  obtain ⟨s, hexec, hsubmitted, hentry⟩ : ∃ s,
      (InputDelivery.system (B := ℕ) recorder 10 ()).exec
        [.submit 1 [(1, 7)], .host .start, .host .beginRun, .host .getOneMessage,
          .host (.takeBatch true), .host (.processRequest false), .host .submitResults,
          .host .channelDies, .host .getOneMessage, .host .getOneMessage,
          .host (.takeBatch true), .host .receiveAck, .host .crash, .submit 2 [(2, 8)],
          .host .start, .host .beginRun, .host .getOneMessage, .host (.takeBatch true),
          .host (.processRequest false), .host .submitResults, .host .getOneMessage,
          .host .checkpoint]
        ⟨⟨some ⟨(), none⟩, true, .empty _, [], none, [], [], []⟩, []⟩ = some s ∧
      s.submitted = [RequestBatch.ofRows 1 [(1, 7)], RequestBatch.ofRows 2 [(2, 8)]] ∧
      s.host.entry = some ⟨(), some ([8], ⟨[2], none⟩)⟩ := ⟨_, rfl, rfl, rfl⟩
  refine ⟨s, (Reachable.init hinit).exec hexec, ?_⟩
  rintro ⟨k, hk, stored, hstored, hrestored⟩
  obtain rfl := Option.some.inj (hentry.symm.trans hstored)
  rw [hsubmitted] at hk hrestored
  have hnone : ∀ k ≤ 2, [8] ≠ batchRows
      ([RequestBatch.ofRows 1 [(1, 7)], RequestBatch.ofRows 2 [(2, 8)]].take k :
        List (RequestBatch ℕ Unit ℕ)) := by decide
  have hfeed : ∀ rows model, recorder.feed () model rows = model ++ rows := by
    intro rows
    induction rows with
    | nil => simp
    | cons row rows ih =>
      intro model
      simpa [Opf.feed, recorder] using ih (model ++ [row])
  rw [hfeed] at hrestored
  exact hnone k hk hrestored

end NumentaApps.ModelSwapper
