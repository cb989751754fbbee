import NumentaApps.FileSystem
import NumentaApps.ModelArchive

/-!
# The model checkpoint manager

The calls of the manager as scripts of system calls on the storage root, and what it reads
from there. All paths begin at the storage root, those of links too. What is forced to disk is
left out: a crash leaves what the system calls before it have made.
-/
namespace NumentaApps.ModelCheckpoint
open CrashScript FileSystem

structure ModelID where
  name : String
  isHex : name ≠ "" ∧ ∀ c ∈ name.toList, c.isDigit ∨ ('a' ≤ c ∧ c ≤ 'f') ∨ ('A' ≤ c ∧ c ≤ 'F')
  deriving DecidableEq

/-- The content of a file: a version, a JSON object, or what a model has written for itself. -/
inductive Content (D A B : Type) where
  | version (text : String)
  | definition (definition : D)
  | attributes (attributes : A)
  | instanceData (bytes : B)
  deriving DecidableEq

/-- What a call raises, or a read that finds a file missing or incomplete. -/
inductive Raised where
  | checkpoint (e : CheckpointError)
  | assertion
  | unreadable
  deriving DecidableEq, Repr

variable {D M A B : Type}

abbrev Storage (D A B : Type) := FileTree String (Content D A B)

/-- The files of a directory, by their paths from there. -/
abbrev Directory (D A B : Type) := Path String → Option (Node String (Content D A B))

abbrev Call (D A B : Type) := FileScript String (Content D A B) (Except Raised Unit)

/-- Models write themselves to a directory of their own, and are loaded from what is there. -/
structure ModelFactory (D M A B : Type) where
  Saves : M → Directory D A B → Prop
  loadFromCheckpoint : Directory D A B → Option M
  load_of_saves : ∀ {model : M} {files : Directory D A B}, Saves model files →
    loadFromCheckpoint files = some model

/-! ## The layout of the archive -/

def modelEntryVersion : String := "2.0"

def scratchDir : Path String := [".scratch"]

def modelEntryVersionFileName : String := "version.txt"

def modelDefinitionFileName : String := "definition.data"

def checkpointLinkName : String := "current_checkpoint"

def checkpointStoreDirNameBase : String := "checkpoint_store_"

def checkpointAttributesFileName : String := "attributes.data"

def checkpointInstanceDirName : String := "model_instance"

def modelDir (modelID : ModelID) : Path String := [modelID.name]

/-- The name of a store is made of the time. -/
def checkpointStoreName (now : String) : String := checkpointStoreDirNameBase ++ now

def checkpointLink (modelID : ModelID) : Path String := modelDir modelID ++ [checkpointLinkName]

/-! ## Reading -/

section Reading
variable (fs : Storage D A B) (modelID : ModelID)

def filesOf (dir : Path String) : Directory D A B := fun p => fs.lookup (dir ++ p)

def getCurrentCheckpointRealPath : Except Raised (Path String) :=
  if fs.exists? (modelDir modelID) then
    let store := fs.realpath (checkpointLink modelID)
    if fs.exists? store then
      if store = checkpointLink modelID then .error .assertion else .ok store
    else .error (.checkpoint .modelNotFound)
  else .error (.checkpoint .modelNotFound)

def loadModelDefinition : Except Raised D :=
  if fs.exists? (modelDir modelID) then
    match fs.lookup (modelDir modelID ++ [modelDefinitionFileName]) with
    | some (.file (some (.definition definition))) => .ok definition
    | _ => .error .unreadable
  else .error (.checkpoint .modelNotFound)

def load (factory : ModelFactory D M A B) : Except Raised M :=
  match getCurrentCheckpointRealPath fs modelID with
  | .error e => .error e
  | .ok store =>
    match factory.loadFromCheckpoint (filesOf fs (store ++ [checkpointInstanceDirName])) with
    | some model => .ok model
    | none => .error .unreadable

def loadCheckpointAttributes : Except Raised A :=
  match getCurrentCheckpointRealPath fs modelID with
  | .error e => .error e
  | .ok store =>
    match fs.lookup (store ++ [checkpointAttributesFileName]) with
    | some (.file (some (.attributes attributes))) => .ok attributes
    | _ => .error .unreadable

def getModelIDs : List String := (fs.listdir []).filter fun x => x.toList.head? ≠ some '.'

end Reading

/-! ## Calls -/

/-- The constructor. -/
def init : FileScript String (Content D A B) Unit :=
  makeDirectory [] <| makeDirectory scratchDir <| .done ()

section Calls
variable (tmp : String) (modelID : ModelID)

/-- A temporary directory or file has a new name in the scratch directory. -/
def tempRoot : Path String := scratchDir ++ [tmp]

def define (definition : D) : Call D A B :=
  .read fun fs =>
    if fs.exists? (modelDir modelID) then .done (.error (.checkpoint .modelAlreadyExists))
    else
      let tempModelEntryDir := tempRoot tmp ++ [modelID.name]
      .step (.mkdir (tempRoot tmp)) <|
      makeDirectory tempModelEntryDir <|
      writeFile (tempModelEntryDir ++ [modelEntryVersionFileName]) (.version modelEntryVersion) <|
      writeFile (tempModelEntryDir ++ [modelDefinitionFileName]) (.definition definition) <|
      .step (.rename tempModelEntryDir (modelDir modelID)) <|
      rmtree (tempRoot tmp) <|
      .done (.ok ())

/-- `model.save`. -/
def saveModel (factory : ModelFactory D M A B) (model : M) (saveModelDir : Path String)
    (rest : Call D A B) : Call D A B :=
  .job (fun step => step.Within saveModelDir)
    (fun _ fs => factory.Saves model (filesOf fs saveModelDir)) rest

/-- The old store is deleted last, if there is one. -/
def rmtreeOld : Option (Path String) → Call D A B → Call D A B
  | some oldCheckpointStoreDir, rest => rmtree oldCheckpointStoreDir rest
  | none, rest => rest

def save (factory : ModelFactory D M A B) (now : String) (model : M) (attributes : A) : Call D A B :=
  .read fun fs =>
    if fs.exists? (modelDir modelID) then
      let tempCheckpointStoreDir := tempRoot tmp ++ [checkpointStoreDirNameBase]
      let newCheckpointStoreDir := modelDir modelID ++ [checkpointStoreName now]
      let tempCurrentStoreSymlink := tempRoot tmp ++ [checkpointLinkName]
      .step (.mkdir (tempRoot tmp)) <|
      makeDirectory tempCheckpointStoreDir <|
      writeFile (tempCheckpointStoreDir ++ [checkpointAttributesFileName]) (.attributes attributes) <|
      saveModel factory model (tempCheckpointStoreDir ++ [checkpointInstanceDirName]) <|
      .read fun fs =>
        if fs.exists? newCheckpointStoreDir then rmtree (tempRoot tmp) <| .done (.error .assertion)
        else
          .step (.rename tempCheckpointStoreDir newCheckpointStoreDir) <|
          .read fun fs =>
            let oldCheckpointStoreDir :=
              if fs.exists? (checkpointLink modelID) then some (fs.realpath (checkpointLink modelID))
              else none
            if oldCheckpointStoreDir = some (checkpointLink modelID) then
              rmtree (tempRoot tmp) <| .done (.error .assertion)
            else
              .step (.symlink newCheckpointStoreDir tempCurrentStoreSymlink) <|
              .step (.rename tempCurrentStoreSymlink (checkpointLink modelID)) <|
              rmtreeOld oldCheckpointStoreDir <|
              rmtree (tempRoot tmp) <|
              .done (.ok ())
    else .done (.error (.checkpoint .modelNotFound))

def updateCheckpointAttributes (attributes : A) : Call D A B :=
  .read fun fs =>
    match getCurrentCheckpointRealPath fs modelID with
    | .error e => .done (.error e)
    | .ok checkpointDir =>
      writeFile (tempRoot tmp) (.attributes attributes) <|
      .step (.rename (tempRoot tmp) (checkpointDir ++ [checkpointAttributesFileName])) <|
      .done (.ok ())

def clone (destModelID : ModelID) : Call D A B :=
  .read fun fs =>
    if fs.exists? (modelDir modelID) then
      if fs.exists? (modelDir destModelID) then .done (.error (.checkpoint .modelAlreadyExists))
      else
        let tempModelEntryDir := tempRoot tmp ++ [destModelID.name]
        let tempStoreSymlink := tempModelEntryDir ++ [checkpointLinkName]
        let publish : Call D A B :=
          .step (.rename tempModelEntryDir (modelDir destModelID)) <|
          rmtree (tempRoot tmp) <|
          .done (.ok ())
        .step (.mkdir (tempRoot tmp)) <|
        copytree (modelDir modelID) tempModelEntryDir <|
        .read fun fs =>
          if fs.exists? tempStoreSymlink then
            let srcCheckpointStoreDir := fs.realpath tempStoreSymlink
            .step (.unlink tempStoreSymlink) <|
            .step (.symlink (modelDir destModelID ++ srcCheckpointStoreDir.getLast?.toList)
              tempStoreSymlink) <|
            publish
          else publish
    else .done (.error (.checkpoint .modelNotFound))

def remove : Call D A B :=
  .step (.mkdir (tempRoot tmp)) <|
  .read fun fs =>
    if fs.exists? (modelDir modelID) then
      .step (.rename (modelDir modelID) (tempRoot tmp ++ ["deleteMe"])) <|
      rmtree (tempRoot tmp) <|
      .done (.ok ())
    else
      rmtree (tempRoot tmp) <|
      .done (.error (.checkpoint .modelNotFound))

end Calls

/-! ## Runs -/

def Operation.call (factory : ModelFactory D M A B) (tmp now : String) :
    Operation ModelID D M A → Call D A B
  | .define modelID definition => ModelCheckpoint.define tmp modelID definition
  | .save modelID model attributes =>
    ModelCheckpoint.save tmp modelID factory now model attributes
  | .updateCheckpointAttributes modelID attributes =>
    ModelCheckpoint.updateCheckpointAttributes tmp modelID attributes
  | .clone modelID destModelID => ModelCheckpoint.clone tmp modelID destModelID
  | .remove modelID => ModelCheckpoint.remove tmp modelID

/-- How a call has ended: with its result or an exception, or in a crash. -/
inductive Outcome where
  | returned (result : Except Raised Unit)
  | crashed

/-- Temporary names are new in the scratch directory, and times have not been used for a store. -/
structure Fresh (fs : Storage D A B) (tmp now : String) : Prop where
  tmp : fs.lookup (tempRoot tmp) = none
  now : ∀ modelID, fs.lookup (modelDir modelID ++ [checkpointStoreName now]) = none

/-- The runs on an empty storage, with the calls made and how they have ended. There is a manager
or there is none; a crash may come at any time, and a new manager is made after it. -/
inductive Run (factory : ModelFactory D M A B) :
    List (Operation ModelID D M A × Outcome) → Storage D A B → Bool → Prop where
  | empty : Run factory [] .empty false
  | start {history fs fs' up} (h : Run factory history fs up)
      (hinit : init.Returns Step.apply fs () fs') : Run factory history fs' true
  | startCrashed {history fs fs' up} (h : Run factory history fs up)
      (hinit : (init : FileScript String (Content D A B) Unit).Passes Step.apply fs fs') :
      Run factory history fs' false
  | returned {history fs fs' tmp now op result} (h : Run factory history fs true)
      (hfresh : Fresh fs tmp now)
      (hcall : (op.call factory tmp now).Returns Step.apply fs result fs') :
      Run factory (history ++ [(op, .returned result)]) fs' true
  | crashed {history fs fs' tmp now op} (h : Run factory history fs true)
      (hfresh : Fresh fs tmp now) (hcall : (op.call factory tmp now).Passes Step.apply fs fs') :
      Run factory (history ++ [(op, .crashed)]) fs' false

end NumentaApps.ModelCheckpoint
