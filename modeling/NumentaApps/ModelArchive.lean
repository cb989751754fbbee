import Mathlib.Logic.Function.Basic

/-!
# The model checkpoint archive as an atomic map

What the archive is for: under each model ID a definition and, once the model has
been checkpointed, a model together with the attributes saved with it. Every
operation takes effect at once or raises and leaves the archive alone.
-/
namespace NumentaApps.ModelCheckpoint

inductive CheckpointError where
  | modelNotFound | modelAlreadyExists
  deriving DecidableEq, Repr

/-- The entry of a model that is defined. -/
structure StoredModel (D M A : Type) where
  definition : D
  checkpoint : Option (M × A)
  deriving DecidableEq, Repr

/-- The entry under one model ID, if there is one. -/
abbrev Entry (D M A : Type) := Option (StoredModel D M A)

namespace Entry

variable {D M A : Type}

def define (definition : D) : Entry D M A → Except CheckpointError (Entry D M A)
  | none => .ok (some ⟨definition, none⟩)
  | some _ => .error .modelAlreadyExists

def loadModelDefinition : Entry D M A → Except CheckpointError D
  | none => .error .modelNotFound
  | some stored => .ok stored.definition

def load : Entry D M A → Except CheckpointError M
  | some ⟨_, some (model, _)⟩ => .ok model
  | _ => .error .modelNotFound

def loadCheckpointAttributes : Entry D M A → Except CheckpointError A
  | some ⟨_, some (_, attributes)⟩ => .ok attributes
  | _ => .error .modelNotFound

def save (model : M) (attributes : A) : Entry D M A → Except CheckpointError (Entry D M A)
  | none => .error .modelNotFound
  | some stored => .ok (some { stored with checkpoint := some (model, attributes) })

def updateCheckpointAttributes (attributes : A) :
    Entry D M A → Except CheckpointError (Entry D M A)
  | some ⟨definition, some (model, _)⟩ => .ok (some ⟨definition, some (model, attributes)⟩)
  | _ => .error .modelNotFound

def remove : Entry D M A → Except CheckpointError (Entry D M A)
  | none => .error .modelNotFound
  | some _ => .ok none

end Entry

/-- The entries of all models. -/
abbrev Archive (I D M A : Type) := I → Entry D M A

inductive Operation (I D M A : Type) where
  | define (modelID : I) (definition : D)
  | save (modelID : I) (model : M) (attributes : A)
  | updateCheckpointAttributes (modelID : I) (attributes : A)
  | clone (modelID destModelID : I)
  | remove (modelID : I)

section Archive
variable {I D M A : Type} [DecidableEq I] (archive : Archive I D M A)

/-- One entry is changed, or the archive is left alone. -/
def Archive.change (modelID : I) (f : Entry D M A → Except CheckpointError (Entry D M A)) :
    Except CheckpointError (Archive I D M A) :=
  (f (archive modelID)).map (Function.update archive modelID)

def Operation.apply : Operation I D M A → Except CheckpointError (Archive I D M A)
  | .define modelID definition => archive.change modelID (Entry.define definition)
  | .save modelID model attributes => archive.change modelID (Entry.save model attributes)
  | .updateCheckpointAttributes modelID attributes =>
    archive.change modelID (Entry.updateCheckpointAttributes attributes)
  | .clone modelID destModelID =>
    match archive modelID, archive destModelID with
    | none, _ => .error .modelNotFound
    | some _, some _ => .error .modelAlreadyExists
    | some stored, none => .ok (Function.update archive destModelID (some stored))
  | .remove modelID => archive.change modelID Entry.remove

end Archive
end NumentaApps.ModelCheckpoint
