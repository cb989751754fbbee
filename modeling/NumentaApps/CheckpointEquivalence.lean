import NumentaApps.InputDelivery
import NumentaApps.TransitionSystem

/-!
# Incremental and full checkpoints

The runs of one model's runner, from the point of view of its checkpoints: each run
processes its rows and saves the model, in the process of the run before or in a new
one.
-/
namespace NumentaApps.ModelSwapper
open TransitionSystem ModelCheckpoint

variable {B D S M V : Type}

/-- The archive entry, the runner process, and the model and the batch IDs of the last
`saveModel`. -/
structure CheckpointedRuns (B D S M V : Type) where
  entry : ModelEntry B D S M
  runner : ModelRunner B D S M V
  lastSave : Option (M × List B)

namespace CheckpointedRuns

/-- A row that is not processed successfully is not one of the run's. -/
def processRows (opf : Opf D S M V) (entry : ModelEntry B D S M) :
    List (ℕ × S) → ModelRunner B D S M V → Option (ModelRunner B D S M V)
  | [], r => some r
  | (rowID, data) :: rows, r =>
    match r.processInputRow opf entry rowID data with
    | (r, .inference _ none _) => processRows opf entry rows r
    | _ => none

/-- A run. Its end saves the model if it is loaded. -/
def run (opf : Opf D S M V) (batchIDs : List B) (rows : List (ℕ × S))
    (s : CheckpointedRuns B D S M V) : Option (CheckpointedRuns B D S M V) :=
  (processRows opf s.entry rows { s.runner with
      currentRunBatchIDSet := batchIDs, currentRunInputSamples := [] }).bind fun r =>
    match r.archiver.model with
    | none => some { s with runner := { r with modelCheckpointBatchIDSet := batchIDs } }
    | some model =>
      match r.archiver.saveModel s.entry r.currentRunBatchIDSet r.currentRunInputSamples with
      | .error _ => none
      | .ok (entry, archiver) => some {
          entry := entry
          runner := { r with archiver := archiver, modelCheckpointBatchIDSet := batchIDs }
          lastSave := some (model, batchIDs) }

inductive Action (B S : Type) where
  | run (batchIDs : List B) (rows : List (ℕ × S))
  | restart

def act (opf : Opf D S M V) (a : Action B S) (s : CheckpointedRuns B D S M V) :
    Option (CheckpointedRuns B D S M V) :=
  match a with
  | .run batchIDs rows => s.run opf batchIDs rows
  | .restart => some { s with runner := .new s.entry }

/-- The model is defined, and no run has saved it. -/
def initial (definition : D) : CheckpointedRuns B D S M V where
  entry := some ⟨definition, none⟩
  runner := .new (some ⟨definition, none⟩)
  lastSave := none

def system (opf : Opf D S M V) (definition : D) :
    System (CheckpointedRuns B D S M V) (Action B S) where
  init s := s = initial definition
  next := act opf

end CheckpointedRuns

/-! ## The samples of an incremental checkpoint -/

namespace ModelArchiver

variable {opf : Opf D S M V} {stored stored' : StoredModel D M (CheckpointAttributes B S)}
  {a a' : ModelArchiver B D S M}

theorem saveFull_samples {model : M} (h : a.saveFull (some stored) model = .ok (some stored', a')) :
    storedSamples stored' = [] := by
  cases h
  rfl

theorem saveIncremental_samples {samples : List S}
    (h : a.saveIncremental (some stored) samples = .ok (some stored', a')) :
    storedSamples stored' = samples := by
  obtain ⟨definition, checkpoint⟩ := stored
  cases checkpoint with
  | none => cases h
  | some c =>
    cases h
    rfl

/-- A list that would grow beyond the limit is dropped with a full checkpoint. -/
theorem saveModel_samples_le {ids : List B} {rows : List S}
    (h : a.saveModel (some stored) ids rows = .ok (some stored', a'))
    (hle : (storedSamples stored).length ≤ maxIncrementalCheckpointDataRows) :
    (storedSamples stored').length ≤ maxIncrementalCheckpointDataRows := by
  rw [saveModel] at h
  split at h
  · cases h
    exact hle
  · dsimp only at h
    split at h
    · split at h
      · simp [saveFull_samples h]
      · rename_i hlen
        rw [saveIncremental_samples h, List.length_append]
        omega
    · simp [saveFull_samples h]

theorem synced_new : Synced stored (new : ModelArchiver B D S M) := by
  constructor
  · intro samples h
    cases h
  · intro h
    cases h
  · intro h
    cases h
  · intro h
    cases h

end ModelArchiver

/-! ## Runs -/

section Rows

variable {opf : Opf D S M V} {stored : StoredModel D M (CheckpointAttributes B S)}

/-- Every row of a run is processed, on the model fed with the rows before it. -/
theorem FedWith.processRows {rows : List S} {r : ModelRunner B D S M V}
    (h : FedWith opf stored r.archiver rows) (input : List (ℕ × S)) :
    ∃ archiver, CheckpointedRuns.processRows opf (some stored) input r = some { r with
        archiver := archiver
        currentRunInputSamples := r.currentRunInputSamples ++ input.map Prod.snd } ∧
      FedWith opf stored archiver (rows ++ input.map Prod.snd) := by
  induction input generalizing r rows with
  | nil =>
    refine ⟨r.archiver, ?_, ?_⟩
    · simp [CheckpointedRuns.processRows]
    · simpa using h
  | cons p input ih =>
    obtain ⟨rowID, data⟩ := p
    obtain ⟨archiver, anomalyScore, hrow, hfed, -⟩ := h.processInputRow rowID data
    obtain ⟨archiver', hrest, hfed'⟩ := ih (r := { r with
      archiver := archiver
      currentRunInputSamples := r.currentRunInputSamples ++ [data] }) hfed
    refine ⟨archiver', ?_, ?_⟩
    · simpa [CheckpointedRuns.processRows, hrow] using hrest
    · simpa using hfed'

end Rows

namespace CheckpointedRuns

variable {opf : Opf D S M V} {definition : D} {s t : CheckpointedRuns B D S M V}

/-- The stored checkpoint stands for the last save, and the model in memory, if one is
loaded, is the one it stands for. -/
structure Stored (opf : Opf D S M V) (s : CheckpointedRuns B D S M V)
    (stored : StoredModel D M (CheckpointAttributes B S)) : Prop where
  entry : s.entry = some stored
  fed : FedWith opf stored s.runner.archiver []
  samples : (storedSamples stored).length ≤ ModelArchiver.maxIncrementalCheckpointDataRows
  lastSave : ∀ model ids, s.lastSave = some (model, ids) →
    restored opf stored = model ∧ storedBatchIDs stored = ids

theorem fedWith_new (stored : StoredModel D M (CheckpointAttributes B S)) :
    FedWith opf stored (ModelRunner.new (V := V) (some stored)).archiver [] := by
  rw [ModelRunner.new, ModelArchiver.modelCheckpointBatchIDSet_new]
  refine ⟨?_, ?_, fun _ => rfl⟩
  · have hsynced : ModelArchiver.Synced stored _ :=
      ModelArchiver.synced_modelCheckpointBatchIDSet_new
    rwa [ModelArchiver.modelCheckpointBatchIDSet_new] at hsynced
  · intro model hmodel
    cases hmodel

theorem stored_initial (opf : Opf D S M V) (definition : D) :
    Stored opf (initial definition : CheckpointedRuns B D S M V) ⟨definition, none⟩ := by
  refine ⟨rfl, fedWith_new _, ?_, ?_⟩
  · exact Nat.zero_le _
  · intro model ids h
    cases h

theorem Stored.restart {stored : StoredModel D M (CheckpointAttributes B S)}
    (h : Stored opf s stored) : Stored opf { s with runner := .new s.entry } stored := by
  refine ⟨h.entry, ?_, h.samples, h.lastSave⟩
  simp only [h.entry]
  exact fedWith_new stored

/-- A run goes through; what it leaves in the archive stands for its own save. -/
theorem Stored.run {stored : StoredModel D M (CheckpointAttributes B S)}
    (h : Stored opf s stored) (batchIDs : List B) (rows : List (ℕ × S)) :
    ∃ t stored', s.run opf batchIDs rows = some t ∧ Stored opf t stored' := by
  have hfed : FedWith opf stored ({ s.runner with
      currentRunBatchIDSet := batchIDs, currentRunInputSamples := []
    } : ModelRunner B D S M V).archiver [] := h.fed
  obtain ⟨a, hrows, ha⟩ := hfed.processRows rows
  rw [← h.entry] at hrows
  simp only [CheckpointedRuns.run, hrows, Option.bind_some]
  cases hm : a.model with
  | none =>
    have hnil := ha.notLoaded hm
    rw [hnil] at ha
    exact ⟨_, stored, rfl, h.entry, ha, h.samples, h.lastSave⟩
  | some model =>
    obtain ⟨stored', a', hsave, -, hids, hrestored, hmodel, hsynced⟩ :
        ∃ stored' a', a.saveModel (some stored) batchIDs ([] ++ rows.map Prod.snd) =
            .ok (some stored', a') ∧ stored'.definition = stored.definition ∧
          storedBatchIDs stored' = batchIDs ∧ restored opf stored' = model ∧
          a'.model = some model ∧ a'.Synced stored' := ha.synced.saveModel hm (ha.model model hm)
    simp only [List.nil_append] at hsave ⊢
    rw [← h.entry] at hsave
    rw [hsave]
    refine ⟨_, stored', rfl, rfl, ⟨hsynced, ?_, fun _ => rfl⟩, ?_, ?_⟩
    · intro model' hmem
      rw [hmodel] at hmem
      exact (Option.mem_some_iff.mp hmem).symm.trans hrestored.symm
    · rw [h.entry] at hsave
      exact ModelArchiver.saveModel_samples_le hsave h.samples
    · intro model' ids' heq
      cases heq
      exact ⟨hrestored, hids⟩

/-- Every action can be taken, and keeps the archive and the memory in step. -/
theorem Stored.act {stored : StoredModel D M (CheckpointAttributes B S)}
    (h : Stored opf s stored) (a : Action B S) :
    ∃ t stored', act opf a s = some t ∧ Stored opf t stored' := by
  cases a with
  | run batchIDs rows => exact h.run batchIDs rows
  | restart => exact ⟨_, stored, rfl, h.restart⟩

theorem reachable_stored (h : Reachable (system opf definition) s) :
    ∃ stored, Stored opf s stored := by
  refine h.invariant (I := fun s => ∃ stored, Stored opf s stored) ?_ ?_
  · rintro s rfl
    exact ⟨_, stored_initial opf definition⟩
  · rintro a s t - ⟨stored, hs⟩ hn
    obtain ⟨u, stored', hu, ht⟩ := hs.act a
    obtain rfl := Option.some.inj (hu.symm.trans hn)
    exact ⟨stored', ht⟩

/-- A fresh archiver restores what the checkpoint stands for. -/
theorem Stored.restores {stored : StoredModel D M (CheckpointAttributes B S)}
    (h : Stored opf s stored) :
    ((ModelArchiver.new : ModelArchiver B D S M).modelCheckpointBatchIDSet s.entry).1 =
        storedBatchIDs stored ∧
      ∃ a, (ModelArchiver.new : ModelArchiver B D S M).loadModel opf s.entry = (.ok (), a) ∧
        a.model = some (restored opf stored) := by
  rw [h.entry]
  obtain ⟨a, hload, hmodel, -⟩ := ModelArchiver.synced_new.loadModel opf rfl
  refine ⟨?_, a, hload, hmodel⟩
  rw [ModelArchiver.modelCheckpointBatchIDSet_new]

end CheckpointedRuns

/-- Incremental and full checkpoints are equivalent: after any sequence of runs and
restarts, every further run goes through, a fresh archiver loads the model that was in
memory at the last save together with the batch IDs passed to it, and no more than the
allowed number of samples is kept with the checkpoint. -/
theorem checkpoints_equivalent (opf : Opf D S M V) (definition : D)
    {s : CheckpointedRuns B D S M V}
    (h : Reachable (CheckpointedRuns.system opf definition) s) :
    (∀ a, ∃ t, CheckpointedRuns.act opf a s = some t) ∧
      (∀ model ids, s.lastSave = some (model, ids) →
        ((ModelArchiver.new : ModelArchiver B D S M).modelCheckpointBatchIDSet s.entry).1 = ids ∧
        ∃ a, (ModelArchiver.new : ModelArchiver B D S M).loadModel opf s.entry = (.ok (), a) ∧
          a.model = some model) ∧
      ∀ stored ∈ s.entry, (storedSamples stored).length ≤
        ModelArchiver.maxIncrementalCheckpointDataRows := by
  obtain ⟨stored, hs⟩ := CheckpointedRuns.reachable_stored h
  refine ⟨?_, ?_, ?_⟩
  · intro a
    obtain ⟨t, -, ht, -⟩ := hs.act a
    exact ⟨t, ht⟩
  · intro model ids hlast
    obtain ⟨rfl, rfl⟩ := hs.lastSave model ids hlast
    exact hs.restores
  · intro stored' hstored
    rw [hs.entry] at hstored
    obtain rfl := Option.mem_some_iff.mp hstored
    exact hs.samples

/-- A full checkpoint, an incremental one in a new process, and a third run there. -/
def incrementalRuns : List (CheckpointedRuns.Action String ℕ) :=
  [.run ["a"] [(1, 10), (2, 20)], .restart, .run ["b"] [(3, 30)], .run ["c"] [(4, 40)]]

theorem checkpoints_equivalent_incremental :
    ∃ s, (CheckpointedRuns.system recorder ()).exec incrementalRuns
        (CheckpointedRuns.initial ()) = some s ∧
      s.lastSave = some ([10, 20, 30, 40], ["c"]) ∧
      s.entry = some ⟨(), some ([10, 20], ⟨["c"], some [30, 40]⟩)⟩ ∧
      ∃ a, (ModelArchiver.new : ModelArchiver String Unit ℕ (List ℕ)).loadModel recorder
        s.entry = (.ok (), a) ∧ a.model = some [10, 20, 30, 40] := by
  refine ⟨_, rfl, rfl, rfl, ?_⟩
  have hexec : (CheckpointedRuns.system recorder ()).exec incrementalRuns
      (CheckpointedRuns.initial ()) = some _ := rfl
  have hreach := Reachable.exec (.init rfl) hexec
  exact ((checkpoints_equivalent recorder () hreach).2.1 _ _ rfl).2

end NumentaApps.ModelSwapper
