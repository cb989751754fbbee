import NumentaApps.JsonReader
import NumentaApps.OrderedChoice
import NumentaApps.NumericLiteral
import NumentaApps.MetricDataHandler

/-!
# The metric data parser of the mobile application

The client takes the packed tuples off the stream, or the rows out of the JSON document. Rows that
come before the ID of their metric are kept until its object ends.
-/
namespace NumentaApps.HTMIT
open JsonReader
open OrderedChoice (Group ways)
open NumericLiteral (digitsValue)
open Unicorn (daysBeforeMonth dayNumber epochDay)

namespace DataUtils

/-! ## Dates -/

/-- The groups of the date format, the literals between them and the character before the hour. -/
inductive DatePart where
  | year
  | month
  | day
  | hour
  | minute
  | second
  | literal (c : Char)
  | any
  deriving DecidableEq, Repr

def isLineTerminator (c : Char) : Bool := c.toNat ∈ [10, 13, 0x85, 0x2028, 0x2029]

def DatePart.group : DatePart → Group
  | .literal c => .alternatives [[(· = c)]]
  | .any => .alternatives [[fun c => !isLineTerminator c]]
  | .year | .month | .day | .hour | .minute | .second => .run Char.isDigit

def dateFormatRegex : List DatePart :=
  [.year, .literal '-', .month, .literal '-', .day, .any, .hour, .literal ':', .minute,
    .literal ':', .second]

/-- The groups of a match of the whole text. -/
def dateGroups (cs : List Char) : Option (List (DatePart × List Char)) :=
  ((ways DatePart.group dateFormatRegex cs).find? fun way => way.2 = []).map Prod.fst

def parseInt (cs : List Char) : Except ReadException ℕ :=
  if digitsValue cs < 2 ^ 31 then .ok (digitsValue cs) else .error .numberFormat

def groupValue (groups : List (DatePart × List Char)) (part : DatePart) :
    Except ReadException ℕ :=
  parseInt ((groups.lookup part).getD [])

/-- The day of the first of January in the Gregorian calendar, from the first of its year 0 on. -/
def gregorianYear (year : ℤ) : ℤ :=
  365 * year + (year + 3) / 4 - (year + 99) / 100 + (year + 399) / 400

def gregorianDay (year : ℤ) (month : ℕ) (day : ℤ) : ℤ :=
  gregorianYear year + daysBeforeMonth (year % 400).toNat month + (day - 1)

/-- The same in the Julian calendar, with its leap years. -/
def julianDay (year : ℤ) (month : ℕ) (day : ℤ) : ℤ :=
  365 * year + (year + 3) / 4 - 2 + daysBeforeMonth (if year % 4 = 0 then 4 else 1) month + (day - 1)

/-- The calendar changes on the 15th of October 1582. -/
def calendarDay (year : ℤ) (month : ℕ) (day : ℤ) : ℤ :=
  if 1582 < year ∨ (year = 1582 ∧ gregorianDay 1582 10 15 ≤ gregorianDay year month day) then
    gregorianDay year month day
  else julianDay year month day

/-- The milliseconds of a lenient calendar in GMT; the months count from 0 and may be too many. -/
def getTime (year month day hour minute second : ℤ) : ℤ :=
  (((calendarDay (year + month / 12) ((month % 12).toNat + 1) day - epochDay) * 24 + hour) * 60 +
    minute) * 60000 + second * 1000

/-- None where the text has another form. -/
def parseHTMDate (dateStr : String) : Except ReadException (Option ℤ) :=
  match dateGroups dateStr.toList with
  | none => .ok none
  | some groups => do
    let year ← groupValue groups .year
    let month ← groupValue groups .month
    let day ← groupValue groups .day
    let hour ← groupValue groups .hour
    let minute ← groupValue groups .minute
    let second ← groupValue groups .second
    return some (getTime year (month - 1 : ℤ) day hour minute second)

end DataUtils

/-! ## The parser -/

structure MetricData (Single : Type) where
  metricId : Option String
  timestamp : ℤ
  metricValue : Single
  anomalyScore : Single
  rowid : ℤ
  deriving DecidableEq, Repr

/-- The state of the parser: the ID, the rows that have none, and the rows that the callback got. -/
structure MetricDataParser (Single : Type) where
  metricId : Option String
  data : List (MetricData Single)
  delivered : List (MetricData Single)
  deriving DecidableEq, Repr

namespace MetricDataParser

variable {Double Single : Type} (scalars : Scalars Double) (toFloat : Double → Single)

def nextString : List Token → Except ReadException (String × List Token)
  | [] => .error .endOfInput
  | .string text :: tokens | .number text :: tokens => .ok (text, tokens)
  | _ :: _ => .error .illegalState

def nextDouble (tokens : List Token) : Except ReadException (Double × List Token) := do
  let (text, tokens) ← nextString tokens
  match scalars.parseDouble text with
  | none => .error .numberFormat
  | some d => .ok (d, tokens)

def nextLong (tokens : List Token) : Except ReadException (ℤ × List Token) := do
  let (text, tokens) ← nextString tokens
  match scalars.parseLong text with
  | none => .error .numberFormat
  | some n => .ok (n, tokens)

/-- One pass of the loop over a row: it has to find all of a record. -/
def parseRecord (parser : MetricDataParser Single) (tokens : List Token) :
    Except ReadException (MetricDataParser Single × List Token) := do
  let (dateStr, tokens) ← nextString tokens
  let some timestamp ← DataUtils.parseHTMDate dateStr | .error .nullPointer
  let (metricValue, tokens) ← nextDouble scalars tokens
  let (anomalyScore, tokens) ← nextDouble scalars tokens
  let (rowid, tokens) ← nextLong scalars tokens
  let row : MetricData Single :=
    ⟨parser.metricId, timestamp, toFloat metricValue, toFloat anomalyScore, rowid⟩
  if parser.metricId.isSome then
    return ({ parser with delivered := parser.delivered ++ [row] }, tokens)
  else return ({ parser with data := parser.data ++ [row] }, tokens)

def parseRow (parser : MetricDataParser Single) (tokens : List Token) :
    Except ReadException (MetricDataParser Single × List Token) := do
  let tokens ← beginArray tokens
  let (parser, tokens) ← whileHasNext (parseRecord scalars toFloat) tokens.length parser tokens
  let tokens ← endArray tokens
  return (parser, tokens)

def parseData (parser : MetricDataParser Single) (tokens : List Token) :
    Except ReadException (MetricDataParser Single × List Token) := do
  let tokens ← beginArray tokens
  let (parser, tokens) ←
    whileHasNext (parseRow scalars toFloat) tokens.length { parser with data := [] } tokens
  let tokens ← endArray tokens
  return (parser, tokens)

/-- A field of the object of a metric; the value of any other is left where it is. -/
def parseMetricField (parser : MetricDataParser Single) (tokens : List Token) :
    Except ReadException (MetricDataParser Single × List Token) := do
  let (property, tokens) ← nextName tokens
  if property = "uid" then
    let (uid, tokens) ← nextString tokens
    return ({ parser with metricId := some uid }, tokens)
  else if property = "data" then parseData scalars toFloat parser tokens
  else return (parser, tokens)

/-- Notifies the caller of the rows that were kept. -/
def notifyKept (parser : MetricDataParser Single) : MetricDataParser Single :=
  match parser.metricId with
  | none => parser
  | some id =>
    let rows := parser.data.map fun row => { row with metricId := some id }
    { parser with data := rows, delivered := parser.delivered ++ rows }

def parseMetric (parser : MetricDataParser Single) (tokens : List Token) :
    Except ReadException (MetricDataParser Single × List Token) := do
  let tokens ← beginObject tokens
  let (parser, tokens) ← whileHasNext (parseMetricField scalars toFloat) tokens.length
    { parser with metricId := none } tokens
  let tokens ← endObject tokens
  return (notifyKept parser, tokens)

def parseMetrics (parser : MetricDataParser Single) (tokens : List Token) :
    Except ReadException (MetricDataParser Single × List Token) := do
  let tokens ← beginArray tokens
  let (parser, tokens) ← whileHasNext (parseMetric scalars toFloat) tokens.length parser tokens
  let tokens ← endArray tokens
  return (parser, tokens)

def parseField (parser : MetricDataParser Single) (tokens : List Token) :
    Except ReadException (MetricDataParser Single × List Token) := do
  let (property, tokens) ← nextName tokens
  if property = "metrics" then parseMetrics scalars toFloat parser tokens
  else if property = "data" then parseData scalars toFloat parser tokens
  else
    let tokens ← skipValue tokens
    return (parser, tokens)

def parseBody (parser : MetricDataParser Single) (tokens : List Token) :
    Except ReadException (MetricDataParser Single × List Token) := do
  let tokens ← beginObject tokens
  let (parser, tokens) ← whileHasNext (parseField scalars toFloat) tokens.length parser tokens
  let tokens ← endObject tokens
  return (parser, tokens)

/-- The rows that a client that asks for a metric, or for all, is notified of. -/
def parse (metricId : Option String) (tokens : List Token) :
    Except ReadException (List (MetricData Single)) := do
  let (parser, _) ← parseBody scalars toFloat ⟨metricId, [], []⟩ tokens
  return parser.delivered

end MetricDataParser

/-! ## Unpacking -/

inductive UnpackException where
  | endOfFile
  | messageType
  deriving DecidableEq, Repr

open MetricDataHandler (Packed)

/-- The unpacker of the msgpack library, `before` the messages that are left or `inside` of one of
them. Of an array that is being read only its size and its elements in their order matter here. -/
structure Unpacker {Double Single : Type} (toFloat : Double → Single) where
  State : Type
  before : List (List (Packed Double)) → State
  inside : List (Packed Double) → List (List (Packed Double)) → State
  skip : State → Except UnpackException State
  readArrayBegin : State → Except UnpackException (ℕ × State)
  readArrayEnd : State → Except UnpackException State
  readString : State → Except UnpackException (String × State)
  readLong : State → Except UnpackException (ℤ × State)
  readInt : State → Except UnpackException (ℤ × State)
  readFloat : State → Except UnpackException (Single × State)
  skip_before : ∀ message messages, skip (before (message :: messages)) = .ok (before messages)
  readArrayBegin_nil : readArrayBegin (before []) = .error .endOfFile
  readArrayBegin_cons : ∀ message messages, readArrayBegin (before (message :: messages)) =
    .ok (message.length, inside message messages)
  readArrayEnd_inside : ∀ messages, readArrayEnd (inside [] messages) = .ok (before messages)
  readString_raw : ∀ text rest messages,
    readString (inside (.raw text :: rest) messages) = .ok (text, inside rest messages)
  readLong_integer : ∀ (n : ℤ) rest messages, -2 ^ 63 ≤ n → n < 2 ^ 63 →
    readLong (inside (.integer n :: rest) messages) = .ok (n, inside rest messages)
  readInt_integer : ∀ (n : ℤ) rest messages, -2 ^ 31 ≤ n → n < 2 ^ 31 →
    readInt (inside (.integer n :: rest) messages) = .ok (n, inside rest messages)
  readFloat_double : ∀ d rest messages,
    readFloat (inside (.double d :: rest) messages) = .ok (toFloat d, inside rest messages)

namespace Unpacker

variable {Double Single : Type} {toFloat : Double → Single} (unpacker : Unpacker toFloat)

/-- The row of an array that has begun. The milliseconds are a product of longs. -/
def unpackRow (s : unpacker.State) :
    Except UnpackException (MetricData Single × unpacker.State) := do
  let (metricId, s) ← unpacker.readString s
  let (timestamp, s) ← unpacker.readLong s
  let (metricValue, s) ← unpacker.readFloat s
  let (anomalyScore, s) ← unpacker.readFloat s
  let (rowid, s) ← unpacker.readInt s
  let s ← unpacker.readArrayEnd s
  return (⟨some metricId, (timestamp * 1000).bmod (2 ^ 64), metricValue, anomalyScore, rowid⟩, s)

/-- The loop over the rows, with those that the callback got; none while it goes on. An array of
six fields ends it. -/
def unpackRows : ℕ → List (MetricData Single) → unpacker.State →
    Option (Except UnpackException Unit × List (MetricData Single))
  | 0, _, _ => none
  | fuel + 1, delivered, s =>
    match unpacker.readArrayBegin s with
    | .error e => some (.error e, delivered)
    | .ok (size, s) =>
      if size = 6 then some (.ok (), delivered)
      else
        match unpacker.unpackRow s with
        | .error e => some (.error e, delivered)
        | .ok (row, s) => unpackRows fuel (delivered ++ [row]) s

/-- `catch (EOFException eof)`. -/
def ignoreEof {α : Type} : Except UnpackException Unit × α → Except UnpackException Unit × α
  | (.error .endOfFile, delivered) => (.ok (), delivered)
  | outcome => outcome

def unpackMessage (fuel : ℕ) (s : unpacker.State) :
    Option (Except UnpackException Unit × List (MetricData Single)) :=
  match unpacker.skip s with
  | .error e => some (ignoreEof (.error e, []))
  | .ok s => (unpacker.unpackRows fuel [] s).map ignoreEof

end Unpacker

end NumentaApps.HTMIT
