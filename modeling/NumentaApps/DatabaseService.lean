import NumentaApps.DatabaseKeys
import NumentaApps.KeyRange
import NumentaApps.TransitionSystem

/-!
# The database of Unicorn

`DatabaseService.js`: the sublevels of the database, the calls that put records, the range
reads of the data of a metric, and the nested deletions of `deleteFile`, which run at the same
time for all metrics of the file.
-/
namespace NumentaApps.Unicorn.DatabaseService

open KeyRange TransitionSystem

inductive Sublevel where
  | file | metric | metricData | model | modelData
deriving DecidableEq

/-- The properties of a stored object. -/
abbrev Document (V : Type) := String → Option V

abbrev Database (V : Type) := Sublevel → OrderedMap Key (Document V)

def Database.empty (V : Type) : Database V := fun _ => .empty

/-- What the records of a sublevel are known by. A model has the identifier of its metric. -/
def Id : Sublevel → Type
  | .file => HashId
  | .metric | .model => MetricId
  | .metricData | .modelData => MetricId × ℕ

instance : (l : Sublevel) → DecidableEq (Id l)
  | .file => inferInstanceAs (DecidableEq HashId)
  | .metric | .model => inferInstanceAs (DecidableEq MetricId)
  | .metricData | .modelData => inferInstanceAs (DecidableEq (MetricId × ℕ))

def dataKey (x : MetricId × ℕ) : Key := generateMetricDataId x.1.text x.2

def keyOf : (l : Sublevel) → Id l → Key
  | .file => HashId.text
  | .metric | .model => MetricId.text
  | .metricData | .modelData => dataKey

variable {V : Type}

/-! ## Puts and reads -/

/-- Nothing is put unless every record passes the check against its schema. -/
def putBatch (valid : Sublevel → Document V → Bool) (l : Sublevel)
    (records : List (Id l × Document V)) (db : Database V) : Database V :=
  if records.all fun r => valid l r.2 then
    Function.update db l
      (records.foldl (fun map r => map.put (keyOf l r.1) r.2) (db l))
  else db

/-- The calls that put one record or several, with the identifiers in the records. -/
inductive Put (V : Type) where
  | putFile (uid : HashId) (file : Document V)
  | putFileBatch (files : List (HashId × Document V))
  | putMetric (uid : MetricId) (metric : Document V)
  | putMetricBatch (metrics : List (MetricId × Document V))
  | putModel (modelId : MetricId) (model : Document V)
  | putModelBatch (models : List (MetricId × Document V))
  | putModelData (modelId : MetricId) (recordIndex : ℕ) (modelData : Document V)
  | putModelDataBatch (modelId : MetricId) (firstRecordIndex : ℕ) (data : List (Document V))
  | putMetricData (metricId : MetricId) (recordIndex : ℕ) (metricData : Document V)
  | putMetricDataBatch (metricId : MetricId) (firstRecordIndex : ℕ) (data : List (Document V))

/-- Consecutive indices from the first one on. -/
def numbered (metricId : MetricId) (firstRecordIndex : ℕ) (data : List (Document V)) :
    List ((MetricId × ℕ) × Document V) :=
  data.zipIdx.map fun p => ((metricId, firstRecordIndex + p.2), p.1)

def Put.records : Put V → (l : Sublevel) × List (Id l × Document V)
  | .putFile uid file => ⟨.file, [(uid, file)]⟩
  | .putFileBatch files => ⟨.file, files⟩
  | .putMetric uid metric => ⟨.metric, [(uid, metric)]⟩
  | .putMetricBatch metrics => ⟨.metric, metrics⟩
  | .putModel modelId model => ⟨.model, [(modelId, model)]⟩
  | .putModelBatch models => ⟨.model, models⟩
  | .putModelData modelId recordIndex modelData =>
    ⟨.modelData, [((modelId, recordIndex), modelData)]⟩
  | .putModelDataBatch modelId firstRecordIndex data =>
    ⟨.modelData, numbered modelId firstRecordIndex data⟩
  | .putMetricData metricId recordIndex metricData =>
    ⟨.metricData, [((metricId, recordIndex), metricData)]⟩
  | .putMetricDataBatch metricId firstRecordIndex data =>
    ⟨.metricData, numbered metricId firstRecordIndex data⟩

def Put.apply (valid : Sublevel → Document V → Bool) (op : Put V) (db : Database V) :
    Database V :=
  putBatch valid op.records.1 op.records.2 db

def getModelData (metricId : MetricId) (offset : Option ℕ) (db : Database V) :
    List (List (Option V)) :=
  ((db .modelData).range (generateMetricDataId metricId.text (offset.getD 0))
    (endOf metricId.text)).map fun e => ["naive_time", "metric_value", "anomaly_score"].map e.2

def getMetricData (metricId : MetricId) (db : Database V) : List (List (Option V)) :=
  ((db .metricData).range metricId.text (endOf metricId.text)).map fun e =>
    ["naive_time", "metric_value"].map e.2

/-! ## Deleting a file -/

/-- The operations of `deleteMetric` one after another: `deleteMetricData` and
`deleteModelData` first read the keys and then delete them in one batch. -/
inductive Stage where
  | metric | metricDataKeys | metricData | model | modelDataKeys | modelData | deleted
deriving DecidableEq

/-- The operations of `deleteFile`, each of which may fail. -/
inductive Step where
  | file
  | metricKeys
  | chain (metricId : Key) (stage : Stage)
deriving DecidableEq

/-- How far the deletion of one metric has come, with the keys that it has read. -/
structure Chain where
  metricId : Key
  stage : Stage
  uids : List Key
  failed : Bool

inductive Phase where
  | file | metricKeys | metrics | failed
deriving DecidableEq

/-- A call of `deleteFile` with the calls of its callback: an error is that of a step. -/
structure Deletion (V : Type) where
  db : Database V
  phase : Phase
  chains : List Chain
  metricsDeleted : ℕ
  calls : List (Option Step)

def keysWithin (id : Key) (map : OrderedMap Key (Document V)) : List Key :=
  (map.range id (endOf id)).map Prod.fst

def Database.change (db : Database V) (l : Sublevel)
    (f : OrderedMap Key (Document V) → OrderedMap Key (Document V)) : Database V :=
  Function.update db l (f (db l))

/-- The operation of a chain succeeds, and the next one starts. -/
def Chain.succeed (chain : Chain) (db : Database V) : Database V × Chain :=
  match chain.stage with
  | .metric =>
    (db.change .metric fun map => map.del chain.metricId, { chain with stage := .metricDataKeys })
  | .metricDataKeys =>
    (db, { chain with stage := .metricData, uids := keysWithin chain.metricId (db .metricData) })
  | .metricData =>
    (db.change .metricData fun map => map.delAll chain.uids, { chain with stage := .model })
  | .model =>
    (db.change .model fun map => map.del chain.metricId, { chain with stage := .modelDataKeys })
  | .modelDataKeys =>
    (db, { chain with stage := .modelData, uids := keysWithin chain.metricId (db .modelData) })
  | .modelData =>
    (db.change .modelData fun map => map.delAll chain.uids, { chain with stage := .deleted })
  | .deleted => (db, chain)

/-- The operation of a chain fails, and no other one starts. -/
def Chain.fail (chain : Chain) : Chain := { chain with failed := true }

def Chain.ended (chain : Chain) : Bool := chain.failed || chain.stage = .deleted

namespace Deletion

def start (db : Database V) : Deletion V where
  db := db
  phase := .file
  chains := []
  metricsDeleted := 0
  calls := []

def callback (error : Option Step) (s : Deletion V) : Deletion V :=
  { s with calls := s.calls ++ [error] }

/-- The end of one operation on the file or on the metric at an index. -/
inductive Action where
  | file
  | metricKeys
  | chain (i : ℕ)
deriving DecidableEq

variable (fileId : HashId) (fails : Step → Bool)

def deleteFile (s : Deletion V) : Option (Deletion V) :=
  if s.phase ≠ .file then none
  else if fails .file then some { s.callback (some .file) with phase := .failed }
  else some { s with
    db := s.db.change .file fun map => map.del fileId.text
    phase := .metricKeys }

/-- The deletions of all metrics found start together. -/
def deleteMetricsByFile (s : Deletion V) : Option (Deletion V) :=
  if s.phase ≠ .metricKeys then none
  else if fails .metricKeys then some { s.callback (some .metricKeys) with phase := .failed }
  else some { s with
    phase := .metrics
    chains := (keysWithin fileId.text (s.db .metric)).map fun metricId =>
      { metricId := metricId, stage := .metric, uids := [], failed := false } }

/-- A deletion that is through counts, and the last one calls back. -/
def count (chain : Chain) (s : Deletion V) : Deletion V :=
  if chain.stage = .deleted then
    let counted := { s with metricsDeleted := s.metricsDeleted + 1 }
    if counted.metricsDeleted = counted.chains.length then counted.callback none else counted
  else s

def deleteMetric (i : ℕ) (s : Deletion V) : Option (Deletion V) :=
  match s.chains[i]? with
  | none => none
  | some chain =>
    if chain.ended then none
    else if fails (.chain chain.metricId chain.stage) then
      some (callback (some (.chain chain.metricId chain.stage))
        { s with chains := s.chains.set i chain.fail })
    else
      let result := chain.succeed s.db
      some (count result.2 { s with db := result.1, chains := s.chains.set i result.2 })

def next : Action → Deletion V → Option (Deletion V)
  | .file, s => deleteFile fileId fails s
  | .metricKeys, s => deleteMetricsByFile fileId fails s
  | .chain i, s => deleteMetric fails i s

def system (db : Database V) : System (Deletion V) Action where
  init := fun s => s = start db
  next := next fileId fails

/-- Nothing is under way any more. -/
def ended (s : Deletion V) : Bool :=
  s.phase = .failed || (s.phase = .metrics && s.chains.all Chain.ended)

end Deletion

end NumentaApps.Unicorn.DatabaseService
