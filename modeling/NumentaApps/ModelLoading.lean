import NumentaApps.ModelArchiver
import NumentaApps.TransitionSystem

/-!
# Loading a model when a step raises

`loadModel` assigns the model before it has enabled it, read its definition, made the row
encoder and run the samples of an incremental checkpoint again. Here each of its steps may
raise, and so may the rows that are run later in the same process.
-/
namespace NumentaApps.ModelSwapper
open ModelCheckpoint TransitionSystem

variable {B D S M V : Type}

/-- The OPF with the models that it leaves behind: the one that was created and not enabled,
and the one whose run on a row has raised. -/
structure InterruptibleOpf (D S M V : Type) extends Opf D S M V where
  created : D → M
  interrupted : D → M → S → M

/-- The step of `loadModel` at which something raises. The model is removed by another
process if its definition is not found after its checkpoint was. -/
inductive LoadFault where
  | load
  | loadModelDefinition
  | create
  | enable
  | readDefinition (removed : Bool)
  | encoder
  | attributes
  | encode (sample : ℕ)
  | run (sample : ℕ)
  deriving DecidableEq, Repr

/-- The step at which a row raises once the model is loaded. -/
inductive RowFault where
  | encode | run
  deriving DecidableEq, Repr

namespace ModelArchiver

/-! ## The steps -/

namespace Faulty

variable (opf : InterruptibleOpf D S M V) (fault : Option LoadFault)

/-- Runs the samples from the one with index `k` on again. -/
def replay (definition : D) : ℕ → List S → M → Except RunnerErrno Unit × M
  | _, [], model => (.ok (), model)
  | k, inputSample :: rest, model =>
    if fault = some (.encode k) then (.error .err, model)
    else if fault = some (.run k) then (.error .err, opf.interrupted definition model inputSample)
    else replay definition (k + 1) rest (opf.run definition model inputSample).1

/-- The end of `loadModel`, from the construction of the row encoder on. -/
def loadSamples (entry : ModelEntry B D S M) (definition : D) (model : M)
    (a : ModelArchiver B D S M) : Except RunnerErrno Unit × ModelArchiver B D S M :=
  if fault = some .encoder then (.error .err, { a with model := some model })
  else if fault = some .attributes ∧ a.inputSamplesSinceLastFullCheckpointCache = none then
    (.error .err, { a with model := some model, inputRowEncoder := some definition })
  else
    let (samples, a) := a.inputSamplesSinceLastFullCheckpoint entry
    let (loaded, model) := replay opf fault definition 0 samples model
    (loaded, { a with model := some model, inputRowEncoder := some definition })

def loadModel (entry : ModelEntry B D S M) (a : ModelArchiver B D S M) :
    Except RunnerErrno Unit × ModelArchiver B D S M :=
  if a.model.isSome then (.ok (), a)
  else if fault = some .load then (.error .err, a)
  else match entry.load with
  | .ok model =>
    let a := { a with hasCheckpoint := true }
    if fault = some (.readDefinition true) then
      (.error .errNoSuchModel, { a with model := some model })
    else if fault = some (.readDefinition false) then (.error .err, { a with model := some model })
    else match entry.loadModelDefinition with
    | .error _ => (.error .errNoSuchModel, { a with model := some model })
    | .ok definition => loadSamples opf fault entry definition model a
  | .error _ =>
    let a := { a with hasCheckpoint := false }
    if fault = some .loadModelDefinition then (.error .err, a)
    else match entry.loadModelDefinition with
    | .error _ => (.error .errNoSuchModel, a)
    | .ok definition =>
      if fault = some .create then (.error .err, a)
      else if fault = some .enable then
        (.error .err, { a with model := some (opf.created definition) })
      else loadSamples opf fault entry definition (opf.create definition) a

end Faulty

/-- The fault is met by the end of `loadModel`, whose replay has the samples to go through. -/
def MeetsReplaying (entry : ModelEntry B D S M) (a : ModelArchiver B D S M)
    (fault : Option LoadFault) : Prop :=
  fault = some .encoder ∨
    (fault = some .attributes ∧ a.inputSamplesSinceLastFullCheckpointCache = none) ∨
    ∃ k < (a.inputSamplesSinceLastFullCheckpoint entry).1.length,
      fault = some (.encode k) ∨ fault = some (.run k)

/-- The fault is met after the model was assigned: by a new model when it is enabled, by one
with a checkpoint when its definition is read, by either afterwards. -/
def MeetsLate (entry : ModelEntry B D S M) (a : ModelArchiver B D S M)
    (fault : Option LoadFault) : Prop :=
  ∃ stored, entry = some stored ∧
    ((fault = some .enable ∧ stored.checkpoint = none) ∨
      ((∃ removed, fault = some (.readDefinition removed)) ∧ stored.checkpoint ≠ none) ∨
      a.MeetsReplaying entry fault)

variable (opf : InterruptibleOpf D S M V) {fault : Option LoadFault}

theorem Faulty.replay_cases (fault : Option LoadFault) (definition : D) (k : ℕ) (rows : List S) (model : M) :
    ((∃ j < rows.length, fault = some (.encode (k + j)) ∨ fault = some (.run (k + j))) ∧
      (Faulty.replay opf fault definition k rows model).1 = .error .err) ∨
    ((∀ j < rows.length, fault ≠ some (.encode (k + j)) ∧ fault ≠ some (.run (k + j))) ∧
      Faulty.replay opf fault definition k rows model =
        (.ok (), opf.feed definition model rows)) := by
  induction rows generalizing k model with
  | nil => exact .inr ⟨fun j hj => absurd hj (Nat.not_lt_zero j), rfl⟩
  | cons row rest ih =>
    unfold Faulty.replay
    by_cases he : fault = some (.encode k)
    · exact .inl ⟨⟨0, by simp, .inl he⟩, by rw [if_pos he]⟩
    by_cases hr : fault = some (.run k)
    · exact .inl ⟨⟨0, by simp, .inr hr⟩, by rw [if_neg he, if_pos hr]⟩
    rw [if_neg he, if_neg hr]
    rcases ih (k + 1) (opf.run definition model row).1 with ⟨⟨j, hj, hfault⟩, h⟩ | ⟨hnone, h⟩
    · refine .inl ⟨⟨j + 1, by simpa using hj, ?_⟩, h⟩
      rwa [Nat.add_right_comm] at hfault
    · refine .inr ⟨fun j hj => ?_, h⟩
      cases j with
      | zero => exact ⟨he, hr⟩
      | succ j =>
        have hlater := hnone j (by simpa using hj)
        rwa [Nat.add_right_comm] at hlater

theorem inputSamples_setHasCheckpoint (entry : ModelEntry B D S M) (a : ModelArchiver B D S M)
    (b : Bool) :
    ({ a with hasCheckpoint := b }.inputSamplesSinceLastFullCheckpoint entry).1 =
      (a.inputSamplesSinceLastFullCheckpoint entry).1 := by
  simp only [inputSamplesSinceLastFullCheckpoint]
  cases a.inputSamplesSinceLastFullCheckpointCache with
  | some samples => rfl
  | none =>
    simp only [loadCheckpointAttributes]
    cases entry.loadCheckpointAttributes <;> rfl

theorem meetsReplaying_setHasCheckpoint {entry : ModelEntry B D S M} {a : ModelArchiver B D S M}
    {b : Bool} :
    { a with hasCheckpoint := b }.MeetsReplaying entry fault ↔ a.MeetsReplaying entry fault := by
  unfold MeetsReplaying
  rw [inputSamples_setHasCheckpoint]

/-- After the model is there the load goes through, or it raises and leaves it there. -/
theorem Faulty.loadSamples_cases (fault : Option LoadFault) (entry : ModelEntry B D S M)
    (definition : D) (model : M) (a : ModelArchiver B D S M) :
    (a.MeetsReplaying entry fault ∧
      (Faulty.loadSamples opf fault entry definition model a).1 = .error .err ∧
      (Faulty.loadSamples opf fault entry definition model a).2.model.isSome) ∨
    (¬ a.MeetsReplaying entry fault ∧
      Faulty.loadSamples opf fault entry definition model a =
        (.ok (), a.replay opf.toOpf entry definition model)) := by
  unfold Faulty.loadSamples
  by_cases he : fault = some .encoder
  · exact .inl ⟨.inl he, by simp [he]⟩
  by_cases ha : fault = some .attributes ∧ a.inputSamplesSinceLastFullCheckpointCache = none
  · exact .inl ⟨.inr (.inl ha), by simp [ha]⟩
  rw [if_neg he, if_neg ha]
  have hreplay := Faulty.replay_cases opf fault definition 0
    (a.inputSamplesSinceLastFullCheckpoint entry).1 model
  simp only [Nat.zero_add] at hreplay
  rcases hreplay with ⟨hfault, h⟩ | ⟨hnone, h⟩
  · exact .inl ⟨.inr (.inr hfault), h, rfl⟩
  · refine .inr ⟨?_, by simp only [h, ModelArchiver.replay]⟩
    rintro (hfault | hfault | ⟨k, hk, hfault⟩)
    · exact he hfault
    · exact ha hfault
    · exact hfault.elim (hnone k hk).1 (hnone k hk).2

/-- A load that raises with the model in place has met a fault late; one that raises
otherwise has learnt at most whether there is a checkpoint. -/
theorem Faulty.loadModel_cases {entry : ModelEntry B D S M} {a : ModelArchiver B D S M}
    (hm : a.model = none) :
    (a.MeetsLate entry fault ∧ ∃ errno, (Faulty.loadModel opf fault entry a).1 = .error errno ∧
      (Faulty.loadModel opf fault entry a).2.model.isSome) ∨
    (¬ a.MeetsLate entry fault ∧ ∃ errno hasCheckpoint,
      Faulty.loadModel opf fault entry a =
        (.error errno, { a with hasCheckpoint := hasCheckpoint })) ∨
    (¬ a.MeetsLate entry fault ∧ ∃ stored, entry = some stored ∧
      Faulty.loadModel opf fault entry a = a.loadModel opf.toOpf entry) := by
  have hsome : ¬ a.model.isSome := by simp [hm]
  -- The faults before the assignment are none of the late ones.
  have hearly : fault = some .load ∨ fault = some .loadModelDefinition ∨ fault = some .create →
      ¬ a.MeetsLate entry fault := by
    rintro (rfl | rfl | rfl) <;> simp [MeetsLate, MeetsReplaying]
  unfold Faulty.loadModel ModelArchiver.loadModel
  rw [if_neg hsome, if_neg hsome]
  by_cases hload : fault = some .load
  · rw [if_pos hload]
    exact .inr (.inl ⟨hearly (.inl hload), _, a.hasCheckpoint, rfl⟩)
  rw [if_neg hload]
  match entry with
  | none =>
    refine .inr (.inl ⟨by simp [MeetsLate], ?_⟩)
    dsimp only [Entry.load, Entry.loadModelDefinition]
    split
    · exact ⟨_, _, rfl⟩
    · exact ⟨_, _, rfl⟩
  | some ⟨definition, some (model, attributes)⟩ =>
    dsimp only [Entry.load, Entry.loadModelDefinition]
    by_cases hr : ∃ removed, fault = some (.readDefinition removed)
    · refine .inl ⟨⟨_, rfl, .inr (.inl ⟨hr, by simp⟩)⟩, ?_⟩
      obtain ⟨removed, rfl⟩ := hr
      cases removed with
      | true => exact ⟨_, rfl, rfl⟩
      | false => exact ⟨_, rfl, rfl⟩
    rw [if_neg (fun h => hr ⟨_, h⟩), if_neg (fun h => hr ⟨_, h⟩)]
    rcases Faulty.loadSamples_cases opf fault
      (some ⟨definition, some (model, attributes)⟩) definition model
      { a with hasCheckpoint := true } with ⟨hlate, herr, hmodel⟩ | ⟨hnone, h⟩
    · have hlate' := meetsReplaying_setHasCheckpoint.mp hlate
      exact .inl ⟨⟨_, rfl, .inr (.inr hlate')⟩, _, herr, hmodel⟩
    · refine .inr (.inr ⟨?_, _, rfl, h⟩)
      rintro ⟨stored, hstored, ⟨-, hc⟩ | ⟨hread, -⟩ | hlate⟩
      · cases hstored
        cases hc
      · exact hr hread
      · exact hnone (meetsReplaying_setHasCheckpoint.mpr hlate)
  | some ⟨definition, none⟩ =>
    dsimp only [Entry.load, Entry.loadModelDefinition]
    by_cases hd : fault = some .loadModelDefinition
    · rw [if_pos hd]
      exact .inr (.inl ⟨hearly (.inr (.inl hd)), _, _, rfl⟩)
    rw [if_neg hd]
    by_cases hcreate : fault = some .create
    · rw [if_pos hcreate]
      exact .inr (.inl ⟨hearly (.inr (.inr hcreate)), _, _, rfl⟩)
    rw [if_neg hcreate]
    by_cases henable : fault = some .enable
    · rw [if_pos henable]
      exact .inl ⟨⟨_, rfl, .inl ⟨henable, rfl⟩⟩, _, rfl, rfl⟩
    rw [if_neg henable]
    rcases Faulty.loadSamples_cases opf fault (some ⟨definition, none⟩) definition
      (opf.create definition)
      { a with hasCheckpoint := false } with ⟨hlate, herr, hmodel⟩ | ⟨hnone, h⟩
    · have hlate' := meetsReplaying_setHasCheckpoint.mp hlate
      exact .inl ⟨⟨_, rfl, .inr (.inr hlate')⟩, _, herr, hmodel⟩
    · refine .inr (.inr ⟨?_, _, rfl, h⟩)
      rintro ⟨stored, hstored, ⟨hen, -⟩ | ⟨-, hc⟩ | hlate⟩
      · exact henable hen
      · cases hstored
        exact hc rfl
      · exact hnone (meetsReplaying_setHasCheckpoint.mpr hlate)

end ModelArchiver

end NumentaApps.ModelSwapper
