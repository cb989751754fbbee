import Mathlib.Data.List.Basic
import NumentaApps.ModelArchive

/-!
# Loading and checkpointing the model of a runner

`_ModelArchiver` keeps a loaded model and what it knows of the archive. A
checkpoint is full, or incremental: the rows run since the last full one are then
kept in the attributes and run again when the model is loaded.
-/
namespace NumentaApps.ModelSwapper
open ModelCheckpoint

/-- The OPF as far as a runner uses it: a model is created from a definition, and
run on a row that is encoded by the schema of its definition. -/
structure Opf (D S M V : Type) where
  create : D → M
  run : D → M → S → M × V

variable {B D S M V : Type}

namespace Opf

/-- The model after it was run on a sequence of rows. -/
def feed (opf : Opf D S M V) (definition : D) (model : M) (rows : List S) : M :=
  rows.foldl (fun model row => (opf.run definition model row).1) model

@[simp] theorem feed_nil (opf : Opf D S M V) (definition : D) (model : M) :
    opf.feed definition model [] = model := rfl

theorem feed_append (opf : Opf D S M V) (definition : D) (model : M) (rows rows' : List S) :
    opf.feed definition model (rows ++ rows') =
      opf.feed definition (opf.feed definition model rows) rows' :=
  List.foldl_append ..

end Opf

/-- The attributes that are saved with a checkpoint; the samples are there after an
incremental checkpoint only. -/
structure CheckpointAttributes (B S : Type) where
  batchIDs : List B
  incrementalInputSamples : Option (List S)
  deriving DecidableEq, Repr

/-- The archive entry of the model that a runner serves. -/
abbrev ModelEntry (B D S M : Type) := Entry D M (CheckpointAttributes B S)

structure ModelArchiver (B D S M : Type) where
  model : Option M
  inputRowEncoder : Option D
  hasCheckpoint : Bool
  modelCheckpointBatchIDSetCache : Option (List B)
  inputSamplesSinceLastFullCheckpointCache : Option (List S)
  deriving DecidableEq, Repr

/-- The error numbers with which a runner answers a request. -/
inductive RunnerErrno where
  | err | errInvalidArg | errNoSuchModel | errModelAlreadyExists
  deriving DecidableEq, Repr

namespace ModelArchiver

def maxIncrementalCheckpointDataRows : ℕ := 100

def new : ModelArchiver B D S M := ⟨none, none, false, none, none⟩

def loadCheckpointAttributes (entry : ModelEntry B D S M) (a : ModelArchiver B D S M) :
    ModelArchiver B D S M :=
  match entry.loadCheckpointAttributes with
  | .error _ =>
    { a with
      modelCheckpointBatchIDSetCache := some []
      inputSamplesSinceLastFullCheckpointCache := some [] }
  | .ok attributes =>
    { a with
      modelCheckpointBatchIDSetCache := some attributes.batchIDs
      inputSamplesSinceLastFullCheckpointCache :=
        some (attributes.incrementalInputSamples.getD []) }

def modelCheckpointBatchIDSet (entry : ModelEntry B D S M) (a : ModelArchiver B D S M) :
    List B × ModelArchiver B D S M :=
  match a.modelCheckpointBatchIDSetCache with
  | some ids => (ids, a)
  | none =>
    let a := a.loadCheckpointAttributes entry
    (a.modelCheckpointBatchIDSetCache.getD [], a)

def inputSamplesSinceLastFullCheckpoint (entry : ModelEntry B D S M)
    (a : ModelArchiver B D S M) : List S × ModelArchiver B D S M :=
  match a.inputSamplesSinceLastFullCheckpointCache with
  | some samples => (samples, a)
  | none =>
    let a := a.loadCheckpointAttributes entry
    (a.inputSamplesSinceLastFullCheckpointCache.getD [], a)

/-- The end of `loadModel`: the encoder is made and the rows of the incremental
checkpoint are run. -/
def replay (opf : Opf D S M V) (entry : ModelEntry B D S M) (definition : D) (model : M)
    (a : ModelArchiver B D S M) : ModelArchiver B D S M :=
  let (samples, a) := a.inputSamplesSinceLastFullCheckpoint entry
  { a with
    model := some (opf.feed definition model samples)
    inputRowEncoder := some definition }

def loadModel (opf : Opf D S M V) (entry : ModelEntry B D S M) (a : ModelArchiver B D S M) :
    Except RunnerErrno Unit × ModelArchiver B D S M :=
  if a.model.isSome then (.ok (), a)
  else match entry.load, entry.loadModelDefinition with
    | .ok model, .ok definition =>
      (.ok (), { a with hasCheckpoint := true }.replay opf entry definition model)
    | .ok model, .error _ =>
      (.error .errNoSuchModel, { a with model := some model, hasCheckpoint := true })
    | .error _, .ok definition =>
      (.ok (), { a with hasCheckpoint := false }.replay opf entry definition
        (opf.create definition))
    | .error _, .error _ => (.error .errNoSuchModel, { a with hasCheckpoint := false })

/-- The full checkpoint of `saveModel`. -/
def saveFull (entry : ModelEntry B D S M) (model : M) (a : ModelArchiver B D S M) :
    Except CheckpointError (ModelEntry B D S M × ModelArchiver B D S M) :=
  (entry.save model ⟨a.modelCheckpointBatchIDSetCache.getD [], none⟩).map fun entry =>
    (entry, { a with
      inputSamplesSinceLastFullCheckpointCache := some []
      hasCheckpoint := true })

/-- The incremental checkpoint of `saveModel`. -/
def saveIncremental (entry : ModelEntry B D S M) (samples : List S) (a : ModelArchiver B D S M) :
    Except CheckpointError (ModelEntry B D S M × ModelArchiver B D S M) :=
  (entry.updateCheckpointAttributes
      ⟨a.modelCheckpointBatchIDSetCache.getD [], some samples⟩).map fun entry =>
    (entry, { a with inputSamplesSinceLastFullCheckpointCache := some samples })

def saveModel (entry : ModelEntry B D S M) (currentRunBatchIDSet : List B)
    (currentRunInputSamples : List S) (a : ModelArchiver B D S M) :
    Except CheckpointError (ModelEntry B D S M × ModelArchiver B D S M) :=
  match a.model with
  | none => .ok (entry, a)
  | some model =>
    let a := { a with modelCheckpointBatchIDSetCache := some currentRunBatchIDSet }
    if a.hasCheckpoint then
      let (samples, a) := a.inputSamplesSinceLastFullCheckpoint entry
      if samples.length + currentRunInputSamples.length > maxIncrementalCheckpointDataRows then
        a.saveFull entry model
      else a.saveIncremental entry (samples ++ currentRunInputSamples)
    else a.saveFull entry model

end ModelArchiver

/-! ## What a checkpoint stands for -/

section Stored

variable (opf : Opf D S M V) (stored : StoredModel D M (CheckpointAttributes B S))

/-- The rows to be run again on the saved model. -/
def storedSamples : List S :=
  (stored.checkpoint.bind fun c => c.2.incrementalInputSamples).getD []

def storedBatchIDs : List B :=
  (stored.checkpoint.map fun c => c.2.batchIDs).getD []

/-- The saved model, or a new one. -/
def checkpointModel : M :=
  (stored.checkpoint.map Prod.fst).getD (opf.create stored.definition)

/-- The model state that the entry represents. -/
def restored : M :=
  opf.feed stored.definition
    ((stored.checkpoint.map Prod.fst).getD (opf.create stored.definition))
    (storedSamples stored)

theorem restored_eq :
    restored opf stored =
      opf.feed stored.definition (checkpointModel opf stored) (storedSamples stored) := rfl

end Stored

namespace ModelArchiver

variable {opf : Opf D S M V} {stored : StoredModel D M (CheckpointAttributes B S)}
  {a : ModelArchiver B D S M}

/-- What a process knows of the archive agrees with it. -/
structure Synced (stored : StoredModel D M (CheckpointAttributes B S))
    (a : ModelArchiver B D S M) : Prop where
  samples : ∀ samples ∈ a.inputSamplesSinceLastFullCheckpointCache, samples = storedSamples stored
  hasCheckpoint : a.model.isSome → a.hasCheckpoint = stored.checkpoint.isSome
  loaded : a.model.isSome → a.inputSamplesSinceLastFullCheckpointCache.isSome
  encoder : a.model.isSome → a.inputRowEncoder = some stored.definition

theorem loadCheckpointAttributes_some :
    a.loadCheckpointAttributes (some stored) = { a with
      modelCheckpointBatchIDSetCache := some (storedBatchIDs stored)
      inputSamplesSinceLastFullCheckpointCache := some (storedSamples stored) } := by
  obtain ⟨definition, checkpoint⟩ := stored
  cases checkpoint <;> rfl

theorem modelCheckpointBatchIDSet_new :
    (new : ModelArchiver B D S M).modelCheckpointBatchIDSet (some stored) =
      (storedBatchIDs stored, { (new : ModelArchiver B D S M) with
        modelCheckpointBatchIDSetCache := some (storedBatchIDs stored)
        inputSamplesSinceLastFullCheckpointCache := some (storedSamples stored) }) := by
  simp only [modelCheckpointBatchIDSet, new, loadCheckpointAttributes_some, Option.getD_some]

theorem synced_modelCheckpointBatchIDSet_new :
    Synced stored
      ((new : ModelArchiver B D S M).modelCheckpointBatchIDSet (some stored)).2 := by
  rw [modelCheckpointBatchIDSet_new]
  refine ⟨fun samples h => ?_, fun h => ?_, fun h => ?_, fun h => ?_⟩
  · exact (Option.mem_some_iff.mp h).symm
  · cases h
  · cases h
  · cases h

/-- Without a model only the samples have to agree. -/
theorem Synced.of_unloaded (hm : a.model = none)
    (hs : ∀ samples ∈ a.inputSamplesSinceLastFullCheckpointCache,
      samples = storedSamples stored) : a.Synced stored := by
  have hnone : ¬ a.model.isSome := by simp [hm]
  exact ⟨hs, fun h => absurd h hnone, fun h => absurd h hnone, fun h => absurd h hnone⟩

/-- The samples are the stored ones; the batch IDs may be read again with them. -/
theorem Synced.inputSamples (h : a.Synced stored) :
    ∃ ids, a.inputSamplesSinceLastFullCheckpoint (some stored) =
        (storedSamples stored, { a with
          modelCheckpointBatchIDSetCache := ids
          inputSamplesSinceLastFullCheckpointCache := some (storedSamples stored) }) ∧
      (a.inputSamplesSinceLastFullCheckpointCache.isSome →
        ids = a.modelCheckpointBatchIDSetCache) := by
  rw [inputSamplesSinceLastFullCheckpoint]
  cases hs : a.inputSamplesSinceLastFullCheckpointCache with
  | some samples =>
    obtain rfl := h.samples samples hs
    refine ⟨a.modelCheckpointBatchIDSetCache, ?_, fun _ => rfl⟩
    simp only [← hs]
  | none =>
    refine ⟨some (storedBatchIDs stored), ?_, fun h => by cases h⟩
    simp only [loadCheckpointAttributes_some, Option.getD_some]

/-! ### Where batch IDs come from -/

/-- Every batch ID stored with the checkpoint has the property. -/
def StoredIDs (P : B → Prop) (entry : ModelEntry B D S M) : Prop :=
  ∀ stored ∈ entry, ∀ id ∈ storedBatchIDs stored, P id

/-- Every batch ID cached in the process has the property. -/
def CachedIDs (P : B → Prop) (a : ModelArchiver B D S M) : Prop :=
  ∀ ids ∈ a.modelCheckpointBatchIDSetCache, ∀ id ∈ ids, P id

section BatchIDs

variable {P : B → Prop} {entry : ModelEntry B D S M}

theorem StoredIDs.loadCheckpointAttributes (h : StoredIDs P entry) :
    CachedIDs P (a.loadCheckpointAttributes entry) := by
  cases entry with
  | none =>
    intro ids hids
    obtain rfl := Option.mem_some_iff.mp hids
    simp
  | some stored =>
    rw [loadCheckpointAttributes_some]
    intro ids hids
    obtain rfl := Option.mem_some_iff.mp hids
    exact h stored rfl

theorem CachedIDs.inputSamples (ha : CachedIDs P a) (h : StoredIDs P entry) :
    CachedIDs P (a.inputSamplesSinceLastFullCheckpoint entry).2 := by
  rw [inputSamplesSinceLastFullCheckpoint]
  split
  · exact ha
  · exact h.loadCheckpointAttributes

theorem CachedIDs.loadModel (ha : CachedIDs P a) (h : StoredIDs P entry) :
    CachedIDs P (a.loadModel opf entry).2 := by
  have hreplay : ∀ hasCheckpoint definition model,
      CachedIDs P ({ a with hasCheckpoint := hasCheckpoint }.replay opf entry definition model) := by
    intro hasCheckpoint definition model
    have hcached : CachedIDs P { a with hasCheckpoint := hasCheckpoint } := ha
    exact hcached.inputSamples h
  rw [ModelArchiver.loadModel]
  split
  · exact ha
  · split
    · exact hreplay _ _ _
    · exact ha
    · exact hreplay _ _ _
    · exact ha

theorem CachedIDs.getD (ha : CachedIDs P a) : ∀ id ∈ a.modelCheckpointBatchIDSetCache.getD [], P id := by
  intro id hid
  cases hc : a.modelCheckpointBatchIDSetCache with
  | none => simp [hc] at hid
  | some ids => exact ha ids hc id (by simpa [hc] using hid)

theorem CachedIDs.saveFull {model : M} {entry' : ModelEntry B D S M}
    {a' : ModelArchiver B D S M} (ha : CachedIDs P a)
    (hs : a.saveFull entry model = .ok (entry', a')) : StoredIDs P entry' ∧ CachedIDs P a' := by
  cases entry with
  | none => cases hs
  | some stored =>
    cases hs
    refine ⟨fun stored' hstored => ?_, ha⟩
    obtain rfl := Option.mem_some_iff.mp hstored
    exact ha.getD

theorem CachedIDs.saveIncremental {samples : List S} {entry' : ModelEntry B D S M}
    {a' : ModelArchiver B D S M} (ha : CachedIDs P a)
    (hs : a.saveIncremental entry samples = .ok (entry', a')) :
    StoredIDs P entry' ∧ CachedIDs P a' := by
  match entry, hs with
  | none, hs => cases hs
  | some ⟨_, none⟩, hs => cases hs
  | some ⟨_, some c⟩, hs =>
    cases hs
    refine ⟨fun stored' hstored => ?_, ha⟩
    obtain rfl := Option.mem_some_iff.mp hstored
    exact ha.getD

/-- A checkpoint stores no batch ID but those of the run and those known before. -/
theorem CachedIDs.saveModel {ids : List B} {rows : List S} {entry' : ModelEntry B D S M}
    {a' : ModelArchiver B D S M} (ha : CachedIDs P a) (h : StoredIDs P entry)
    (hids : ∀ id ∈ ids, P id) (hs : a.saveModel entry ids rows = .ok (entry', a')) :
    StoredIDs P entry' ∧ CachedIDs P a' := by
  have hset : CachedIDs P { a with modelCheckpointBatchIDSetCache := some ids } := by
    intro ids' hids'
    obtain rfl := Option.mem_some_iff.mp hids'
    exact hids
  rw [ModelArchiver.saveModel] at hs
  split at hs
  · cases hs
    exact ⟨h, ha⟩
  · dsimp only at hs
    split at hs
    · split at hs
      · exact (hset.inputSamples h).saveFull hs
      · exact (hset.inputSamples h).saveIncremental hs
    · exact hset.saveFull hs

end BatchIDs

/-- Once loaded, the model is the one that the entry represents. -/
theorem Synced.loadModel (opf : Opf D S M V) (h : a.Synced stored) (hm : a.model = none) :
    ∃ a', a.loadModel opf (some stored) = (.ok (), a') ∧
      a'.model = some (restored opf stored) ∧ a'.Synced stored := by
  have hsync : ∀ hasCheckpoint, Synced stored { a with hasCheckpoint := hasCheckpoint } :=
    fun _ => .of_unloaded hm h.samples
  have hsome : ¬ a.model.isSome := by simp [hm]
  -- With a checkpoint its model is loaded, without one the model is created.
  obtain ⟨model, hasCheckpoint, hload, hmodel, hstored⟩ : ∃ model hasCheckpoint,
      a.loadModel opf (some stored) =
        (.ok (), { a with hasCheckpoint := hasCheckpoint }.replay opf (some stored)
          stored.definition model) ∧
      (stored.checkpoint.map Prod.fst).getD (opf.create stored.definition) = model ∧
      hasCheckpoint = stored.checkpoint.isSome := by
    obtain ⟨definition, checkpoint⟩ := stored
    rw [ModelArchiver.loadModel, if_neg hsome]
    cases checkpoint <;> exact ⟨_, _, rfl, rfl, rfl⟩
  obtain ⟨ids, hids, -⟩ := (hsync hasCheckpoint).inputSamples
  rw [replay, hids] at hload
  refine ⟨_, hload, by rw [restored, hmodel], ?_⟩
  exact ⟨fun samples hs => (Option.mem_some_iff.mp hs).symm, fun _ => hstored, fun _ => rfl,
    fun _ => rfl⟩

theorem saveFull_spec (opf : Opf D S M V) {model : M} (hm : a.model = some model)
    (he : a.inputRowEncoder = some stored.definition) :
    ∃ stored' a', a.saveFull (some stored) model = .ok (some stored', a') ∧
      stored'.definition = stored.definition ∧
      storedBatchIDs stored' = a.modelCheckpointBatchIDSetCache.getD [] ∧
      a'.model = some model ∧ a'.Synced stored' ∧
      checkpointModel opf stored' = model ∧ storedSamples stored' = [] := by
  refine ⟨_, _, rfl, rfl, rfl, hm, ?_, rfl, rfl⟩
  exact ⟨fun samples hs => (Option.mem_some_iff.mp hs).symm, fun _ => rfl, fun _ => rfl,
    fun _ => he⟩

theorem saveIncremental_spec (opf : Opf D S M V) {model : M} {samples : List S}
    (h : a.Synced stored) (hm : a.model = some model) (hc : a.hasCheckpoint = true) :
    ∃ stored' a', a.saveIncremental (some stored) samples = .ok (some stored', a') ∧
      stored'.definition = stored.definition ∧
      storedBatchIDs stored' = a.modelCheckpointBatchIDSetCache.getD [] ∧
      a'.model = some model ∧ a'.Synced stored' ∧
      checkpointModel opf stored' = checkpointModel opf stored ∧
      storedSamples stored' = samples := by
  have hstored := h.hasCheckpoint (by simp [hm])
  have he := h.encoder (by simp [hm])
  obtain ⟨definition, checkpoint⟩ := stored
  cases checkpoint with
  | none => simp [hc] at hstored
  | some c =>
    refine ⟨_, _, rfl, rfl, rfl, hm, ?_, rfl, rfl⟩
    exact ⟨fun samples hs => (Option.mem_some_iff.mp hs).symm, fun _ => hc, fun _ => rfl,
      fun _ => he⟩

/-- A checkpoint holds the model of the process with no samples, or the model and the samples
of the checkpoint before it and the rows of the run. -/
theorem Synced.saveModel_cases (opf : Opf D S M V) {model : M} {ids : List B} {rows : List S}
    (h : a.Synced stored) (hm : a.model = some model) :
    ∃ stored' a', a.saveModel (some stored) ids rows = .ok (some stored', a') ∧
      stored'.definition = stored.definition ∧ storedBatchIDs stored' = ids ∧
      a'.model = some model ∧ a'.Synced stored' ∧
      ((checkpointModel opf stored' = model ∧ storedSamples stored' = []) ∨
        (checkpointModel opf stored' = checkpointModel opf stored ∧
          storedSamples stored' = storedSamples stored ++ rows)) := by
  obtain ⟨_, encoder, hasCheckpoint, _, samplesCache⟩ := a
  obtain rfl : _ = some model := hm
  have hids : Synced stored ⟨some model, encoder, hasCheckpoint, some ids, samplesCache⟩ :=
    ⟨h.samples, h.hasCheckpoint, h.loaded, h.encoder⟩
  have he : encoder = some stored.definition := h.encoder rfl
  simp only [ModelArchiver.saveModel]
  split
  · next hc =>
    obtain ⟨ids', hsamples, hkept⟩ := hids.inputSamples
    obtain rfl : ids' = some ids := hkept (h.loaded rfl)
    rw [hsamples]
    dsimp only
    split
    · obtain ⟨stored', a', heq, hd, hi, hm', hs', hcheckpoint⟩ := saveFull_spec
        (a := ⟨some model, encoder, hasCheckpoint, some ids, some (storedSamples stored)⟩)
        opf rfl he
      exact ⟨stored', a', heq, hd, hi, hm', hs', .inl hcheckpoint⟩
    · have hsynced : Synced stored
          ⟨some model, encoder, hasCheckpoint, some ids, some (storedSamples stored)⟩ :=
        ⟨fun samples hs => (Option.mem_some_iff.mp hs).symm, fun _ => h.hasCheckpoint rfl,
          fun _ => rfl, fun _ => he⟩
      obtain ⟨stored', a', heq, hd, hi, hm', hs', hcheckpoint⟩ :=
        saveIncremental_spec opf hsynced rfl hc
      exact ⟨stored', a', heq, hd, hi, hm', hs', .inr hcheckpoint⟩
  · obtain ⟨stored', a', heq, hd, hi, hm', hs', hcheckpoint⟩ := saveFull_spec
      (a := ⟨some model, encoder, hasCheckpoint, some ids, samplesCache⟩) opf rfl he
    exact ⟨stored', a', heq, hd, hi, hm', hs', .inl hcheckpoint⟩

/-- A checkpoint of the model that was fed the given rows since it was restored
represents that model. -/
theorem Synced.saveModel {model : M} {ids : List B} {rows : List S} (h : a.Synced stored)
    (hm : a.model = some model)
    (hfed : model = opf.feed stored.definition (restored opf stored) rows) :
    ∃ stored' a', a.saveModel (some stored) ids rows = .ok (some stored', a') ∧
      stored'.definition = stored.definition ∧ storedBatchIDs stored' = ids ∧
      restored opf stored' = model ∧ a'.model = some model ∧ a'.Synced stored' := by
  obtain ⟨stored', a', heq, hd, hi, hm', hs', hcases⟩ := h.saveModel_cases opf hm
  refine ⟨stored', a', heq, hd, hi, ?_, hm', hs'⟩
  rw [restored_eq]
  rcases hcases with ⟨hmodel, hsamples⟩ | ⟨hmodel, hsamples⟩
  · rw [hmodel, hsamples]
    rfl
  · rw [hd, hmodel, hsamples, opf.feed_append, hfed, restored_eq]

end ModelArchiver

end NumentaApps.ModelSwapper
