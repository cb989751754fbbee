import NumentaApps.JsonReader
import NumentaApps.Strptime

/-!
# The metric data handler of the server

The answer to a request for metric data: a stream of packed tuples, or a JSON document of one of
two shapes, one for a metric and one for all.
-/
namespace NumentaApps.HTMIT
open JsonReader (Json)
open Unicorn (DateTime dayNumber epochDay)

/-- A scored row of the result of the query. -/
structure MetricDataRow (Double : Type) where
  uid : String
  timestamp : DateTime
  metricValue : Double
  anomalyScore : Double
  rowid : ℕ
  isDate : timestamp.IsDate
  wholeSecond : timestamp.microsecond = 0
  rowid_lt : rowid < 2 ^ 31

/-- How `json.dumps` writes a number and how the reader of the client takes it. -/
structure Scalars (Double : Type) where
  repr : Double → String
  parseDouble : String → Option Double
  parseLong : String → Option ℤ
  parseDouble_repr : ∀ d, parseDouble (repr d) = some d
  parseLong_repr : ∀ n : ℕ, n < 2 ^ 63 → parseLong n.repr = some (n : ℤ)

inductive PythonException where
  | valueError
  | typeError
  deriving DecidableEq, Repr

namespace MetricDataHandler

variable {Double : Type}

/-- The rows of `repository.getMetricData`, in the order of the query. -/
def getMetricData (metricId : Option String) (scored : List (MetricDataRow Double)) :
    List (MetricDataRow Double) :=
  scored.filter fun row => metricId.all fun id => id = row.uid

def fields : List String := ["uid", "timestamp", "metric_value", "anomaly_score", "rowid"]

def names : List String :=
  "names" :: fields.map fun name => if name = "metric_value" then "value" else name

/-- A metric gets no more rows than the limit, if there is one. -/
def UnderLimit (limit count : ℕ) : Prop := limit = 0 ∨ count < limit

instance (limit count : ℕ) : Decidable (UnderLimit limit count) :=
  inferInstanceAs (Decidable (_ ∨ _))

/-! ## The stream of tuples -/

/-- An element of a packed tuple. -/
inductive Packed (Double : Type) where
  | raw (text : String)
  | integer (n : ℤ)
  | double (d : Double)
  deriving DecidableEq, Repr

def timegm (t : DateTime) : ℤ :=
  ((((dayNumber t.year t.month 1 : ℤ) - epochDay + t.day - 1) * 24 + t.hour) * 60 + t.minute) * 60 +
    t.second

def resultTuple (row : MetricDataRow Double) : List (Packed Double) :=
  [.raw row.uid, .integer (timegm row.timestamp), .double row.metricValue,
    .double row.anomalyScore, .integer row.rowid]

/-- `len` of an integer. -/
def lenOfInt (_ : ℕ) : Except PythonException ℕ := .error .typeError

/-- The condition of the loop; the results of a metric are counted by an integer. -/
def underCounter (limit count : ℕ) : Except PythonException Bool :=
  if limit = 0 then .ok true
  else (lenOfInt count).map fun length => length < limit

/-- The tuples packed, and what ends the loop early. -/
def resultTuples (limit : ℕ) (resultsPerUid : String → ℕ) :
    List (MetricDataRow Double) → List (List (Packed Double)) × Option PythonException
  | [] => ([], none)
  | row :: result =>
    match underCounter limit (resultsPerUid row.uid) with
    | .error e => ([], some e)
    | .ok false => resultTuples limit resultsPerUid result
    | .ok true =>
      let (tuples, raised) := resultTuples limit
        (fun uid => if uid = row.uid then resultsPerUid uid + 1 else resultsPerUid uid) result
      (resultTuple row :: tuples, raised)

/-- What the handler packs for a client that accepts an octet stream. -/
def octetStream (limit : ℕ) (result : List (MetricDataRow Double)) : List (List (Packed Double)) :=
  names.map .raw :: (resultTuples limit (fun _ => 0) result).1

/-- The exception that the stream ends with. -/
def octetStreamRaises (limit : ℕ) (result : List (MetricDataRow Double)) : Option PythonException :=
  (resultTuples limit (fun _ => 0) result).2

/-! ## The JSON documents -/

/-- The last digits of a number. -/
def zeroPadded : ℕ → ℕ → List Char
  | 0, _ => []
  | width + 1, n => zeroPadded width (n / 10) ++ [Nat.digitChar (n % 10)]

/-- `strftime("%Y-%m-%d %H:%M:%S")`; it takes no years before 1900. -/
def strftime (t : DateTime) : Except PythonException String :=
  if t.year < 1900 then .error .valueError
  else .ok (String.ofList (zeroPadded 4 t.year ++ '-' :: (zeroPadded 2 t.month ++ '-' ::
    (zeroPadded 2 t.day ++ ' ' :: (zeroPadded 2 t.hour ++ ':' ::
      (zeroPadded 2 t.minute ++ ':' :: zeroPadded 2 t.second))))))

variable (scalars : Scalars Double)

def recordTuple (row : MetricDataRow Double) : Except PythonException Json := do
  let timestamp ← strftime row.timestamp
  return .array [.string timestamp, .number (scalars.repr row.metricValue),
    .number (scalars.repr row.anomalyScore), .number row.rowid.repr]

/-- The record goes to the data of its metric in the dictionary, if the limit allows it. -/
def addRecord (limit : ℕ) (uid : String) (record : Json) :
    List (String × List Json) → List (String × List Json)
  | [] => [(uid, if UnderLimit limit 0 then [record] else [])]
  | metric :: output =>
    if metric.1 = uid then
      (uid, if UnderLimit limit metric.2.length then metric.2 ++ [record] else metric.2) :: output
    else metric :: addRecord limit uid record output

def outputFrom (limit : ℕ) : List (String × List Json) → List (MetricDataRow Double) →
    Except PythonException (List (String × List Json))
  | output, [] => .ok output
  | output, row :: result => do
    let record ← recordTuple scalars row
    outputFrom limit (addRecord limit row.uid record output) result

def metricObject (metric : String × List Json) : Json :=
  .object [("uid", .string metric.1), ("data", .array metric.2)]

def recordNames : Json := .array ((names.drop 2).map .string)

def recordTuples : List (MetricDataRow Double) → Except PythonException (List Json)
  | [] => .ok []
  | row :: result => do
    let record ← recordTuple scalars row
    let records ← recordTuples result
    return record :: records

/-- The documents that the handler may send: the dictionaries have their keys in any order. -/
inductive Sends (limit : ℕ) (result : List (MetricDataRow Double)) : Option String → Json → Prop
  | metrics {output : List (String × List Json)} {values : List (String × List Json)} {document : Json}
      (houtput : outputFrom scalars limit [] result = .ok output) (horder : output.Perm values)
      (hdocument : Json.Same (.object [("metrics", .array (values.map metricObject)),
        ("names", recordNames)]) document) : Sends limit result none document
  | data {metricId : String} {records : List Json} {document : Json}
      (hrecords : recordTuples scalars (if limit = 0 then result else result.take limit) = .ok records)
      (hdocument : Json.Same (.object [("names", recordNames), ("data", .array records)]) document) :
      Sends limit result (some metricId) document

end MetricDataHandler

end NumentaApps.HTMIT
