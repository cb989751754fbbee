import NumentaApps.SqlCondition

/-!
# Queries of the mobile database

The selection of a query is put together filter by filter, with a flag that says whether a
connective is needed. Ids are spliced into its text; the queries of annotations pass all values as
arguments.
-/
namespace NumentaApps.MobileCore

inductive AggregationType where
  | Hour
  | HalfDay
  | Day
  | Week
  deriving DecidableEq, Repr

namespace AggregationType

def name : AggregationType → String
  | .Hour => "Hour"
  | .HalfDay => "HalfDay"
  | .Day => "Day"
  | .Week => "Week"

def minutes : AggregationType → ℕ
  | .Hour => 5
  | .HalfDay => 30
  | .Day => 60
  | .Week => 480

def milliseconds (aggregation : AggregationType) : ℤ := 60 * 1000 * aggregation.minutes

end AggregationType

namespace CoreDatabaseImpl
open SqlCondition

/-- What `Float.toString` writes for a finite number that is not negative: a number with its digits
after the point, and an exponent if the number is very large or small. -/
structure FloatText where
  whole : ℕ
  fraction : List Char
  exponent : Option ℤ
  isDigit : ∀ c ∈ fraction, c.isDigit

/-- The text of a `long`. -/
def longText : ℤ → List Char
  | .ofNat n => Nat.toDigits 10 n
  | .negSucc n => '-' :: Nat.toDigits 10 (n + 1)

def FloatText.toText (d : FloatText) : List Char :=
  Nat.toDigits 10 d.whole ++ '.' :: (d.fraction ++
    match d.exponent with
    | none => []
    | some e => 'E' :: longText e)

def FloatText.value (d : FloatText) : ℚ :=
  match d.exponent with
  | none => decimal (Nat.ofDigitChars 10 d.fraction d.whole) d.fraction.length false 0
  | some e =>
    decimal (Nat.ofDigitChars 10 d.fraction d.whole) d.fraction.length (decide (e < 0)) e.natAbs

/-- A `float` that is not negative. -/
inductive AnomalyScore where
  | finite (d : FloatText)
  | infinity

def AnomalyScore.toText : AnomalyScore → List Char
  | .finite d => d.toText
  | .infinity => "Infinity".toList

/-- `anomalyScore > 0`. -/
def AnomalyScore.isPositive : AnomalyScore → Bool
  | .finite d => 0 < d.value
  | .infinity => true

structure Selection where
  text : List Char
  append : Bool

def Selection.empty : Selection := ⟨[], false⟩

/-- The text of one more filter, after a connective if one is needed. -/
def Selection.textWith (sel : Selection) (filter : List Char) : List Char :=
  (if sel.append then sel.text ++ andText else sel.text) ++ filter

def Selection.add (sel : Selection) : Option (List Char) → Selection
  | none => sel
  | some filter => { text := sel.textWith filter, append := true }

/-- The filter of the aggregation leaves the flag as it is. -/
def Selection.addAggregation (sel : Selection) : Option (List Char) → Selection
  | none => sel
  | some filter => { sel with text := sel.textWith filter }

def timestampFrom (t : ℤ) : List Char := "timestamp >= ".toList ++ longText t

def timestampTo (t : ℤ) : List Char := "timestamp <= ".toList ++ longText t

def aggregationIs (aggregation : AggregationType) : List Char :=
  "aggregation = ".toList ++ Nat.toDigits 10 aggregation.minutes

def anomalyScoreFrom (score : AnomalyScore) : Option (List Char) :=
  if score.isPositive then some ("anomaly_score >= ".toList ++ score.toText) else none

/-- An id is spliced into the text as it is. -/
def idIs (column id : List Char) : List Char := column ++ " = '".toList ++ id ++ ['\'']

def metricIdIs : List Char → List Char := idIs "metric_id".toList

def instanceIdIs : List Char → List Char := idIs "instance_id".toList

/-- The selection of `getMetricData`. -/
def getMetricData (metricId : Option (List Char)) (fromTime toTime : Option ℤ)
    (anomalyScore : AnomalyScore) : List Char :=
  ((((Selection.empty.add (fromTime.map timestampFrom)).add (toTime.map timestampTo)).add
    (anomalyScoreFrom anomalyScore)).add (metricId.map metricIdIs)).text

/-- The selection of `getInstanceData`. -/
def getInstanceData (instanceId : Option (List Char)) (aggregation : Option AggregationType)
    (fromTime toTime : Option ℤ) (anomalyScore : AnomalyScore) : List Char :=
  (((((Selection.empty.add (fromTime.map timestampFrom)).add
    (toTime.map timestampTo)).addAggregation (aggregation.map aggregationIs)).add
    (anomalyScoreFrom anomalyScore)).add (instanceId.map instanceIdIs)).text

/-- The selection of `getAnnotations`, with its arguments. -/
def getAnnotations (server : Option (List Char)) (fromTime toTime : Option ℤ) :
    List Char × List (List Char) :=
  ((((Selection.empty.add (fromTime.map fun _ => "timestamp >= ?".toList)).add
    (toTime.map fun _ => "timestamp <= ?".toList)).add
    (server.map fun _ => "instance_id = ?".toList)).text,
    (fromTime.map longText).toList ++ (toTime.map longText).toList ++ server.toList)

/-! ### What is asked for -/

def metricDataColumns : Columns where
  numbers := ["rowid".toList, "timestamp".toList, "metric_value".toList, "anomaly_score".toList]
  texts := ["metric_id".toList]

def instanceDataColumns : Columns where
  numbers := ["aggregation".toList, "timestamp".toList, "anomaly_score".toList]
  texts := ["instance_id".toList]

def annotationColumns : Columns where
  numbers := ["timestamp".toList, "created".toList]
  texts := ["annotation_id".toList, "device".toList, "user".toList, "instance_id".toList,
    "message".toList, "data".toList]

def AtLeast (cell : Option ℚ) (bound : ℚ) : Prop := ∃ q, cell = some q ∧ bound ≤ q

def AtMost (cell : Option ℚ) (bound : ℚ) : Prop := ∃ q, cell = some q ∧ q ≤ bound

def InPeriod (fromTime toTime : Option ℤ) (row : Row) : Prop :=
  (∀ t ∈ fromTime, AtLeast (row.number "timestamp".toList) t) ∧
    ∀ t ∈ toTime, AtMost (row.number "timestamp".toList) t

/-- Zero stands for no threshold, and no score is infinite. -/
def Anomalous (score : AnomalyScore) (row : Row) : Prop :=
  match score with
  | .finite d => 0 < d.value → AtLeast (row.number "anomaly_score".toList) d.value
  | .infinity => False

def MetricDataWanted (metricId : Option (List Char)) (fromTime toTime : Option ℤ)
    (anomalyScore : AnomalyScore) (row : Row) : Prop :=
  InPeriod fromTime toTime row ∧ Anomalous anomalyScore row ∧
    ∀ id ∈ metricId, row.text "metric_id".toList = some id

def InstanceDataWanted (instanceId : Option (List Char)) (aggregation : Option AggregationType)
    (fromTime toTime : Option ℤ) (anomalyScore : AnomalyScore) (row : Row) : Prop :=
  InPeriod fromTime toTime row ∧
    (∀ a ∈ aggregation, row.number "aggregation".toList = some (a.minutes : ℚ)) ∧
    Anomalous anomalyScore row ∧ ∀ id ∈ instanceId, row.text "instance_id".toList = some id

def AnnotationsWanted (server : Option (List Char)) (fromTime toTime : Option ℤ) (row : Row) : Prop :=
  InPeriod fromTime toTime row ∧ ∀ id ∈ server, row.text "instance_id".toList = some id

end CoreDatabaseImpl
end NumentaApps.MobileCore
