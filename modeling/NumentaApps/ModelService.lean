import NumentaApps.TransitionSystem
import Mathlib.Data.Rat.Floor

/-!
# The model processes of the desktop application

The model service spawns a Python process for each model and keeps a table of them by
model ID. The window's commands come over IPC; the events of a process come when they
come, those of a killed one until it closes.
-/
namespace NumentaApps.Unicorn
open TransitionSystem

inductive ModelServiceError where
  | maximumConcurrency
  | duplicateId
  | modelNotFound
  | spawn
  deriving DecidableEq, Repr

/-- A spawned process, with the index of its next result. -/
structure ModelProcess where
  pid : ℕ
  modelId : String
  index : ℕ
  removed : Bool
  closed : Bool
  deriving DecidableEq, Repr

structure ModelEntry where
  modelId : String
  child : ℕ
  deriving DecidableEq, Repr

/-- What the service emits under a model's ID. -/
inductive ModelEvent (D : Type) where
  | data (index : ℕ) (modelData : D)
  | error
  | close (code : Option ℤ)
  deriving DecidableEq, Repr

/-- An event with the process it is of and what came of it: whether the process had been
removed, the latest process of its model, whether a listener was reached, and the process
whose table entry it deleted. -/
structure Emission (D : Type) where
  child : ℕ
  event : ModelEvent D
  removed : Bool
  latest : Option ℕ
  reached : Bool
  deletedEntry : Option ℕ
  deriving DecidableEq, Repr

/-- The service and the listeners that its IPC interface keeps on it. The processes are
those spawned so far, the latest first; the events those emitted so far. -/
structure ModelService (D : Type) where
  maxConcurrency : ℚ
  models : List ModelEntry
  listeners : List String
  attached : List String
  children : List ModelProcess
  emissions : List (Emission D)

variable {D : Type}

def calculateMaxConcurrency (cpus totalmem : ℕ) : ℚ := max (min (cpus - 1) (totalmem / 1073741824)) 2

namespace ModelProcess

def live (child : ModelProcess) : Bool := !child.removed && !child.closed

end ModelProcess

namespace ModelService

def availableSlots (s : ModelService D) : ℚ := s.maxConcurrency - s.models.length

def has (s : ModelService D) (modelId : String) : Bool :=
  s.models.any fun entry => entry.modelId = modelId

def get (s : ModelService D) (modelId : String) : Option ModelEntry :=
  s.models.find? fun entry => entry.modelId = modelId

/-- The process of the latest model created with the ID. -/
def latest (s : ModelService D) (modelId : String) : Option ModelProcess :=
  s.children.find? fun child => child.modelId = modelId

def child (s : ModelService D) (pid : ℕ) : Option ModelProcess :=
  s.children.find? fun child => child.pid = pid

def updateChild (pid : ℕ) (f : ModelProcess → ModelProcess) (s : ModelService D) :
    ModelService D :=
  { s with children := s.children.map fun child => if child.pid = pid then f child else child }

def delete (modelId : String) (s : ModelService D) : ModelService D :=
  { s with models := s.models.filter fun entry => entry.modelId ≠ modelId }

/-- Spawning may fail at once, as for any other reason than the ID or the slots. -/
def createModel (modelId : String) (spawns : Bool) (s : ModelService D) :
    Except ModelServiceError (ModelService D) :=
  if s.availableSlots ≤ 0 then .error .maximumConcurrency
  else if s.has modelId then .error .duplicateId
  else if !spawns then .error .spawn
  else .ok { s with
    models := s.models ++ [⟨modelId, s.children.length⟩]
    children := ⟨s.children.length, modelId, 0, false, false⟩ :: s.children }

def removeAllListeners (modelId : String) (s : ModelService D) : ModelService D :=
  { s with listeners := s.listeners.filter fun other => other ≠ modelId }

/-- The process is killed, which it will notice later. -/
def removeModel (modelId : String) (s : ModelService D) :
    Except ModelServiceError (ModelService D) :=
  match s.get modelId with
  | none => .error .modelNotFound
  | some entry =>
    .ok (((s.delete modelId).updateChild entry.child fun child => { child with removed := true
      }).removeAllListeners modelId)

def attach (modelId : String) (s : ModelService D) : ModelService D :=
  if modelId ∈ s.attached then s
  else { s with
    attached := s.attached ++ [modelId]
    listeners := s.listeners ++ [modelId] }

def detach (modelId : String) (s : ModelService D) : ModelService D :=
  if modelId ∈ s.attached then
    { s with attached := s.attached.filter fun other => other ≠ modelId }.removeAllListeners modelId
  else s

/-- An error is forwarded to the window; the listener stays. -/
def onCreate (modelId : String) (spawns : Bool) (s : ModelService D) : ModelService D :=
  let s := s.attach modelId
  match s.createModel modelId spawns with
  | .ok s => s
  | .error _ => s

def onRemove (modelId : String) (s : ModelService D) : ModelService D :=
  let s := s.detach modelId
  match s.removeModel modelId with
  | .ok s => s
  | .error _ => s

def emission (s : ModelService D) (child : ModelProcess) (event : ModelEvent D)
    (deletedEntry : Option ℕ) : Emission D where
  child := child.pid
  event := event
  removed := child.removed
  latest := (s.latest child.modelId).map ModelProcess.pid
  reached := child.modelId ∈ s.listeners
  deletedEntry := deletedEntry

/-- The results on the lines of a chunk, up to one that is not parsed. -/
def parsed (lines : List (Option D)) : List D := (lines.takeWhile Option.isSome).filterMap id

/-- Each line of a chunk is parsed and emitted with its index, until one that is not
parsed throws. -/
def onStdout (child : ModelProcess) (lines : List (Option D)) (s : ModelService D) :
    ModelService D :=
  { s.updateChild child.pid fun child => { child with index := child.index + (parsed lines).length } with
    emissions := s.emissions ++ ((parsed lines).zipIdx child.index).map fun d =>
      s.emission child (.data d.2 d.1) none }

/-- Both an error of the process and what it writes to stderr. -/
def onError (child : ModelProcess) (s : ModelService D) : ModelService D :=
  { s with emissions := s.emissions ++ [s.emission child .error none] }

/-- The entry under the ID is deleted. -/
def onClose (child : ModelProcess) (code : Option ℤ) (s : ModelService D) : ModelService D :=
  { (s.updateChild child.pid fun child => { child with closed := true }).delete child.modelId with
    emissions := s.emissions ++
      [s.emission child (.close code) ((s.get child.modelId).map ModelEntry.child)] }

inductive Action (D : Type) where
  | create (modelId : String) (spawns : Bool)
  | remove (modelId : String)
  | stdout (pid : ℕ) (lines : List (Option D))
  | error (pid : ℕ)
  | close (pid : ℕ) (code : Option ℤ)

/-- A process that has closed has no more events. -/
def openChild (s : ModelService D) (pid : ℕ) : Option ModelProcess :=
  (s.child pid).filter fun child => !child.closed

def act (a : Action D) (s : ModelService D) : Option (ModelService D) :=
  match a with
  | .create modelId spawns => some (s.onCreate modelId spawns)
  | .remove modelId => some (s.onRemove modelId)
  | .stdout pid lines => (s.openChild pid).map fun child => s.onStdout child lines
  | .error pid => (s.openChild pid).map fun child => s.onError child
  | .close pid code => (s.openChild pid).map fun child => s.onClose child code

def initial (cpus totalmem : ℕ) : ModelService D where
  maxConcurrency := calculateMaxConcurrency cpus totalmem
  models := []
  listeners := []
  attached := []
  children := []
  emissions := []

def system (D : Type) : System (ModelService D) (Action D) where
  init s := ∃ cpus totalmem, s = initial cpus totalmem
  next := act

/-- The table has a model exactly if the latest process of its ID is live, no more processes
are live than may be, and an event of a removed process neither reaches the listeners of a
later model nor changes its entry. -/
structure Faithful (s : ModelService D) : Prop where
  table : ∀ modelId, s.has modelId ↔ ∃ child, s.latest modelId = some child ∧ child.live
  concurrency : ((s.children.filter ModelProcess.live).length : ℚ) ≤ s.maxConcurrency
  emissions : ∀ e ∈ s.emissions, e.removed → e.latest ≠ some e.child →
    e.reached = false ∧ e.deletedEntry = none

/-- The process was removed, another model was created with its ID since, and listeners are
attached for that. -/
def Stale (s : ModelService D) (child : ModelProcess) : Prop :=
  child.removed ∧ (s.latest child.modelId).map ModelProcess.pid ≠ some child.pid ∧
    child.modelId ∈ s.listeners

/-- A model is created only with a whole slot left, and no event of a removed process comes
after another model was created with its ID. -/
def Undisturbed (s : ModelService D) : Action D → Prop
  | .create modelId spawns => spawns → ¬ s.has modelId → 0 < s.availableSlots →
      1 ≤ s.availableSlots
  | .remove _ => True
  | .stdout pid lines => ∀ child ∈ s.openChild pid, parsed lines ≠ [] → ¬ s.Stale child
  | .error pid | .close pid _ => ∀ child ∈ s.openChild pid, ¬ s.Stale child

end ModelService
end NumentaApps.Unicorn
