import NumentaApps.GroupedByKey

/-!
# The metric storer

A batch of messages from the queue is decoded, the samples are grouped by metric, and each metric
is created if it is not known and has its samples handed to the metric streamer. All messages of
the batch are acknowledged afterwards.
-/
namespace NumentaApps.Runtime

/-- What `json.loads` makes of a text. The keys of an object are as a loop over it gives them. -/
inductive Value where
  | null
  | bool (b : Bool)
  | number (literal : String)
  | string (text : String)
  | array (items : List Value)
  | object (fields : List (String × Value))

/-- A row that could be parsed. -/
structure Sample (F T : Type) where
  metricName : String
  value : F
  timestamp : T
  deriving DecidableEq, Repr

namespace MetricStorer

/-- The white space of a Unicode string. -/
def isSpace (c : Char) : Bool :=
  c.toNat ∈ [9, 10, 11, 12, 13, 28, 29, 30, 31, 32, 0x85, 0xA0, 0x1680, 0x180E, 0x2028, 0x2029,
    0x202F, 0x205F, 0x3000] || (0x2000 ≤ c.toNat && c.toNat ≤ 0x200A)

/-- `split` without a separator. -/
def words (text : String) : List String :=
  ((text.toList.splitBy fun c d => isSpace c = isSpace d).filter
    fun word => !word.any isSpace).map String.ofList

variable {F T : Type} (float : String → Option F) (utcfromtimestamp : F → Option T)

/-- None where `parsePlaintext` raises a `ValueError`. -/
def parsePlaintext : Value → Option (Sample F T)
  | .string data =>
    match words data with
    | [metricName, value, timestamp] => do
      let value ← float value
      let timestamp ← (float timestamp).bind utcfromtimestamp
      return ⟨metricName, value, timestamp⟩
    | _ => none
  | _ => none

/-! ## Decoding a batch -/

/-- How `_handleBatch` ends before it has gone through the batch. -/
inductive Stop where
  | returns
  | raises
  deriving DecidableEq, Repr

/-- The rows of a message, one by one. What is logged of a row that cannot be parsed is its text,
stripped: `row.strip()` raises where it has none. -/
def parseRows : List Value → Except Stop (List (Sample F T))
  | [] => .ok []
  | row :: rows =>
    match parsePlaintext float utcfromtimestamp row with
    | some sample => (parseRows rows).map (sample :: ·)
    | none =>
      match row with
      | .string _ => parseRows rows
      | _ => .error .raises

/-- What a loop over a value goes through. -/
def iterate : Value → Option (List Value)
  | .array items => some items
  | .string text => some (text.toList.map fun c => .string (String.singleton c))
  | .object fields => some (fields.map fun field => .string field.1)
  | _ => none

/-- A message by what `json.loads` makes of its body; none where it raises a `ValueError`. -/
def decode : Option Value → Except Stop (List (Sample F T))
  | none => .error .returns
  | some (.object message) =>
    match message.lookup "protocol", message.lookup "data" with
    | some (.string protocol), some rawData =>
      if protocol = "plain" then
        match iterate rawData with
        | some rows => parseRows float utcfromtimestamp rows
        | none => .error .raises
      else .error .returns
    | some _, some _ => .error .returns
    | _, _ => .error .raises
  | some _ => .error .raises

def decodeAll : List (Option Value) → Except Stop (List (Sample F T))
  | [] => .ok []
  | message :: messages => do
    let data ← decode float utcfromtimestamp message
    let rest ← decodeAll messages
    return data ++ rest

/-! ## Handing the samples over -/

/-- What becomes of a metric that is added to the cache: it may be trimmed out of it at once. -/
inductive Added where
  | cached
  | evicted
  | raised
  deriving DecidableEq, Repr

inductive Streamed where
  | returned
  | notFound
  | raised
  deriving DecidableEq, Repr

/-- What a metric meets with when its turn comes: whether it is cached, and how the calls to add it
and to stream its data end. -/
structure MetricOutcome where
  isCached : Bool
  added : Added
  streamed : Streamed
  readded : Added
  restreamed : Streamed
  deriving DecidableEq, Repr

/-- A call of `streamMetricData`. -/
structure Call (F T : Type) where
  metricName : String
  metricData : List (T × F)
  outcome : Streamed
  deriving DecidableEq, Repr

/-- The calls for a metric, and whether an exception leaves the loop over the metrics. The handler
of `ObjectNotFoundError` is not covered by the handler of all others. -/
def streamMetric (outcome : MetricOutcome) (metricName : String) (metricData : List (T × F)) :
    List (Call F T) × Bool :=
  match if outcome.isCached then .cached else outcome.added with
  | .raised => ([], true)
  | .evicted => ([], false)
  | .cached =>
    match outcome.streamed with
    | .returned => ([⟨metricName, metricData, .returned⟩], false)
    | .raised => ([⟨metricName, metricData, .raised⟩], false)
    | .notFound =>
      match outcome.readded with
      | .raised | .evicted => ([⟨metricName, metricData, .notFound⟩], true)
      | .cached => ([⟨metricName, metricData, .notFound⟩,
          ⟨metricName, metricData, outcome.restreamed⟩], outcome.restreamed = .raised)

def metricDataOf (samples : List (Sample F T)) : List (T × F) :=
  samples.map fun sample => (sample.timestamp, sample.value)

def addMetricData (outcomes : String → MetricOutcome) :
    List (String × List (Sample F T)) → List (Call F T)
  | [] => []
  | (metricName, samples) :: dataDict =>
    let result := streamMetric (outcomes metricName) metricName (metricDataOf samples)
    if result.2 then result.1 else result.1 ++ addMetricData outcomes dataDict

/-- The calls that a batch leads to. The dictionary may give its items in any order. -/
def handleBatch (outcomes : String → MetricOutcome)
    (iteritems : List (String × List (Sample F T)) → List (String × List (Sample F T)))
    (messages : List (Option Value)) : List (Call F T) :=
  match decodeAll float utcfromtimestamp messages with
  | .error _ => []
  | .ok data =>
    if data = [] then []
    else addMetricData outcomes (iteritems (GroupedByKey.group Sample.metricName data))

end MetricStorer

end NumentaApps.Runtime
