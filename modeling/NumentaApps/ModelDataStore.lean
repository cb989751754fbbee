import Mathlib.Data.Int.Notation
import Mathlib.Data.List.Infix
import Mathlib.Logic.Function.Basic
import NumentaApps.TransitionSystem

/-!
# The store of the model results on display

`ModelDataStore.js` with the actions that feed it. Requests to the database and timers are
under way while the store handles other events: every order of their ends is a run.
-/
namespace NumentaApps.Unicorn.ModelDataStore

open TransitionSystem

abbrev ModelId := String

/-- An entry of `_models`. The object is the one that the callbacks of its requests hold: a
model that is loaded again gets another one. -/
structure Model (Record : Type) where
  object : ℕ
  modelId : ModelId
  data : List Record
  modified : ℤ
  lastFetchTime : ℤ
  fetchTimeoutId : Option ℕ

structure PendingModel where
  shouldFetch : Bool

/-- What is done with the response to `getModelData`. -/
inductive Callback where
  | loadModelData
  | splice (object : ℕ)
deriving DecidableEq

/-- A request under way, with what the database has answered. -/
structure Request (Record : Type) where
  modelId : ModelId
  offset : ℕ
  callback : Callback
  answer : Option (List Record)

/-- The store with its timers, its requests, the database and, to speak of them, the results
that the store has been notified of. -/
structure State (Record : Type) where
  models : ModelId → Option (Model Record)
  pendingModels : ModelId → Option PendingModel
  timers : List (ℕ × ModelId)
  requests : List (Request Record)
  database : ModelId → List Record
  created : ℕ
  notified : List (ModelId × ℕ)

variable {Record : Type}

def init (Record : Type) : State Record where
  models := fun _ => none
  pendingModels := fun _ => none
  timers := []
  requests := []
  database := fun _ => []
  created := 0
  notified := []

/-! ## The handlers -/

def timeBuffer : ℤ := 400

def State.setModel (s : State Record) (modelId : ModelId) (model : Model Record) : State Record :=
  { s with models := Function.update s.models modelId (some model) }

def handlePrepareForResults (modelId : ModelId) (s : State Record) : State Record :=
  { s with pendingModels := Function.update s.pendingModels modelId (some ⟨false⟩) }

/-- The model may have been hidden during the delay. -/
def fetchNewResults (now : ℤ) (modelId : ModelId) (s : State Record) : State Record :=
  match s.models modelId with
  | none => s
  | some model =>
    { s.setModel modelId { model with fetchTimeoutId := none, lastFetchTime := now } with
      requests := s.requests ++
        [{ modelId := modelId
           offset := model.data.length
           callback := .splice model.object
           answer := none }] }

def fetchNewResultsSoon (now : ℤ) (modelId : ModelId) (s : State Record) : State Record :=
  match s.models modelId with
  | none => s
  | some model =>
    if model.fetchTimeoutId = none then
      let delay := timeBuffer - (now - model.lastFetchTime)
      if 0 < delay then
        { s.setModel modelId { model with fetchTimeoutId := some s.created } with
          timers := s.timers ++ [(s.created, modelId)]
          created := s.created + 1 }
      else fetchNewResults now modelId s
    else s

def handleNewModelResults (now : ℤ) (modelId : ModelId) (s : State Record) : State Record :=
  match s.models modelId with
  | some _ => fetchNewResultsSoon now modelId s
  | none =>
    match s.pendingModels modelId with
    | some _ => { s with pendingModels := Function.update s.pendingModels modelId (some ⟨true⟩) }
    | none => s

/-- The model is stored with the data loaded, and is not pending any more. -/
def storeModel (now : ℤ) (modelId : ModelId) (data : List Record) (s : State Record) :
    State Record :=
  let model : Model Record :=
    { object := s.created
      modelId := modelId
      data := data
      modified := now
      lastFetchTime := 0
      fetchTimeoutId := none }
  { s.setModel modelId model with
    pendingModels := Function.update s.pendingModels modelId none
    created := s.created + 1 }

def handleLoadModelData (now : ℤ) (modelId : ModelId) (data : List Record) (s : State Record) :
    State Record :=
  match s.pendingModels modelId with
  | some pendingModel =>
    if pendingModel.shouldFetch then fetchNewResultsSoon now modelId (storeModel now modelId data s)
    else storeModel now modelId data s
  | none =>
    match s.models modelId with
    | some _ => fetchNewResultsSoon now modelId s
    | none => s

def handleHideModel (modelId : ModelId) (s : State Record) : State Record :=
  { s with models := Function.update s.models modelId none }

/-- JavaScript's `splice`. -/
def splice (data : List Record) (offset deleteCount : ℕ) (items : List Record) : List Record :=
  data.take offset ++ items ++ data.drop (offset + deleteCount)

/-- The callback of a fetch, which changes the model object that it was made for. -/
def handleFetched (now : ℤ) (modelId : ModelId) (object offset : ℕ) (records : List Record)
    (s : State Record) : State Record :=
  match s.models modelId with
  | none => s
  | some model =>
    if model.object = object then
      s.setModel modelId
        { model with data := splice model.data offset records.length records, modified := now }
    else s

/-! ## Runs -/

/-- What can happen next. `Date.now()` is any number. -/
inductive Action (Record : Type) where
  | showModel (modelId : ModelId)
  | hideModel (modelId : ModelId)
  | write (modelId : ModelId) (record : Record)
  | notify (modelId : ModelId) (index : ℕ) (now : ℤ)
  | timer (i : ℕ) (now : ℤ)
  | answer (i : ℕ)
  | respond (i : ℕ) (now : ℤ)
deriving DecidableEq

/-- `ShowModelAction` as far as the store is concerned. -/
def showModel (modelId : ModelId) (s : State Record) : State Record :=
  { handlePrepareForResults modelId s with
    requests := s.requests ++
      [{ modelId := modelId, offset := 0, callback := .loadModelData, answer := none }] }

/-- A result is in the database before the store is notified of it. -/
def notify (modelId : ModelId) (index : ℕ) (now : ℤ) (s : State Record) : Option (State Record) :=
  if index < (s.database modelId).length then
    some { handleNewModelResults now modelId s with
      notified := s.notified ++ [(modelId, index)] }
  else none

def timer (i : ℕ) (now : ℤ) (s : State Record) : Option (State Record) :=
  match s.timers[i]? with
  | none => none
  | some (_, modelId) => some (fetchNewResults now modelId { s with timers := s.timers.eraseIdx i })

/-- The database answers with what it holds from the offset on. -/
def Request.answered (request : Request Record) (database : ModelId → List Record) :
    Request Record :=
  { request with answer := some ((database request.modelId).drop request.offset) }

def answer (i : ℕ) (s : State Record) : Option (State Record) :=
  match s.requests[i]? with
  | none => none
  | some request =>
    if request.answer.isSome then none
    else some { s with requests := s.requests.set i (request.answered s.database) }

def respond (i : ℕ) (now : ℤ) (s : State Record) : Option (State Record) :=
  match s.requests[i]? with
  | none => none
  | some request =>
    match request.answer with
    | none => none
    | some records =>
      let rest : State Record := { s with requests := s.requests.eraseIdx i }
      match request.callback with
      | .loadModelData => some (handleLoadModelData now request.modelId records rest)
      | .splice object =>
        some (handleFetched now request.modelId object request.offset records rest)

def next : Action Record → State Record → Option (State Record)
  | .showModel modelId, s => some (showModel modelId s)
  | .hideModel modelId, s => some (handleHideModel modelId s)
  | .write modelId record, s => some { s with
      database := Function.update s.database modelId (s.database modelId ++ [record]) }
  | .notify modelId index now, s => notify modelId index now s
  | .timer i now, s => timer i now s
  | .answer i, s => answer i s
  | .respond i now, s => respond i now s

def system (Record : Type) : System (State Record) (Action Record) where
  init := fun s => s = init Record
  next := next

end NumentaApps.Unicorn.ModelDataStore
