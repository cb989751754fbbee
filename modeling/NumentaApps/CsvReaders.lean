import NumentaApps.NumericLiteral
import NumentaApps.TimestampFormats
import Mathlib.Data.List.Infix
import Mathlib.Data.List.ReduceOption

/-!
# The readers of a CSV file

The front end validates a file and stores the data of its metrics; the model runner and
the parameter finder of the back end read the file again, with the offset, the columns and
the format that the validation has found. The rows are those of the CSV parsers.
-/
namespace NumentaApps.Unicorn
open NumericLiteral

abbrev CsvRow := List String

inductive FieldType where
  | date
  | number
  | string
  deriving DecidableEq, Repr

structure Field where
  index : ℕ
  name : String
  type : FieldType
  format : Option String
  uid : String
  deriving DecidableEq, Repr

/-- What the readers use of other libraries: moment.js and `Date.parse`, the hash of a
string, and the parsed timestamps of the back end. -/
structure Library (D : Type) where
  strictlyValid : (value format : String) → Bool
  looselyValid : (value format : String) → Bool
  dateParses : String → Bool
  currentTime : (format : String) → String
  generateId : String → String
  isoTimestamp : (value format : String) → String
  naiveTime : (value format : String) → Option ℤ
  parseDatetime : (value format : String) → Option D
  useUtc : D → D

def naStrings : List String := ["nan", "none", "null", "n/a", "na", ""]

def lowerCase (s : String) : List Char := s.toList.map Char.toLower

/-- The front end's check of a validated cell, which may be missing and ignores blanks. -/
def FileService.isNA (entry : Option String) : Bool :=
  match entry with
  | none => true
  | some entry =>
    (lowerCase entry).filter (fun c => !isJsSpace c) ∈ naStrings.map String.toList

/-- The front end's check of a cell to be stored. -/
def DatabaseService.isNA (field : String) : Bool := lowerCase field ∈ naStrings.map String.toList

/-- The back end's check. -/
def Backend.isNA (field : String) : Bool := lowerCase field ∈ naStrings.map String.toList

def trim (s : String) : String := String.ofList (strip isJsSpace s.toList)

def unixTimestampFormats : List String :=
  [unixTimestampSecMomentFormat, unixTimestampMillisecMomentFormat]

def maxUnixTimestampInSeconds : ℚ := 253402300799

def fieldNameCouldBeTimestamp (name : String) : Bool :=
  ["time", "date"].any fun v => v.toList <:+: lowerCase name

/-- What is thrown or given to the callback as an error. -/
inductive ReadError where
  | typeError
  | message (text : String)
  | schema
  deriving DecidableEq, Repr

structure GetFieldsResult where
  error : Option String
  fields : List Field
  offset : ℕ

structure Validation where
  error : Option String
  warning : Option String
  fields : List Field
  records : ℕ
  rowOffset : ℕ

structure MetricData where
  isoTimestamp : String
  naiveTime : Option ℤ
  metricValue : Double
  deriving DecidableEq

/-- The schema of metric data. -/
def MetricData.valid (data : MetricData) : Bool :=
  10 ≤ data.isoTimestamp.length && data.isoTimestamp.length ≤ 32 && data.naiveTime.isSome &&
    data.metricValue.isFinite

/-- The file record, its metrics, and the metric data put for each row after the offset, under
the metric's ID. -/
structure Upload where
  rowOffset : ℕ
  records : ℕ
  metrics : List Field
  metricData : List (List (String × MetricData))

/-- The metric data of a metric, of which a row keeps what was put last. -/
def Upload.getMetricData (upload : Upload) (metricId : String) : List MetricData :=
  upload.metricData.filterMap fun puts =>
    (puts.filter fun put => put.1 = metricId).getLast?.map Prod.snd

/-- The options of the back end's readers. -/
structure InputOptions where
  rowOffset : ℕ
  timestampIndex : ℕ
  valueIndex : ℕ
  datetimeFormat : String
  deriving DecidableEq, Repr

/-- The options for a metric that the validation has found. -/
def inputOptions (file : Validation) (valueField : Field) : Option InputOptions := do
  let timestampField ← file.fields.find? fun field => field.type = .date
  let format ← timestampField.format.bind datetimeFormat
  some ⟨file.rowOffset, timestampField.index, valueField.index, format⟩

inductive PyError where
  | indexError
  | valueError
  | stopIteration
  deriving DecidableEq, Repr

def maxNumRows : ℕ := 20000

namespace Library

variable {D : Type} (lib : Library D)

/-! ## Fields -/

def generateMetricId (fileId name : String) : String :=
  fileId ++ "!" ++ String.ofList ((lib.generateId name).toList.take 16)

def guessCompoundTimestampFormat (timestamp : String) : Option String :=
  compoundTimestampFormats.find? fun format => lib.strictlyValid timestamp format

def isDate (value : String) : Bool :=
  value.toList.head?.any Char.isDigit && lib.dateParses value

def containsNA (row : CsvRow) : Bool := row.any fun entry => FileService.isNA (some entry)

/-- The dates of a row are counted by adding truth values up: without cells there is nothing to
begin with, and one truth value alone is not a number. -/
def resemblesHeaderRow (row : CsvRow) : Except ReadError Bool :=
  if row = [] then .error .typeError
  else
    let numdates := row.countP fun entry => (lib.guessCompoundTimestampFormat entry).isSome
    let hasNumeric := row.any fun entry => (jsNumber entry).isFinite
    .ok !(!containsNA row && (row.length ≠ 1 && numdates = 1) && hasNumeric)

/-- The name of a column without one cannot be hashed. -/
def nameOf (names : Option CsvRow) (index : ℕ) (default : String) : Except ReadError String :=
  match names with
  | none => .ok default
  | some names =>
    match names[index]? with
    | some name => .ok name
    | none => .error .typeError

/-- The fields of the values from a column on, with the number of the next metric. -/
def guessFields (fileId : String) (names : Option CsvRow) :
    (index metricX : ℕ) → CsvRow → Except ReadError (List Field)
  | _, _, [] => .ok []
  | index, metricX, entry :: values => do
    let value := trim entry
    let field (name : String) (type : FieldType) (format : Option String) : Field :=
      ⟨index, name, type, format, lib.generateMetricId fileId name⟩
    if value = "" then guessFields fileId names (index + 1) metricX values
    else match lib.guessCompoundTimestampFormat value with
      | some format =>
        let name ← nameOf names index "timestamp"
        let fields ← guessFields fileId names (index + 1) metricX values
        .ok (field name .date (some format) :: fields)
      | none =>
        if (jsNumber value).isFinite then
          let name ← nameOf names index s!"metric{metricX}"
          let fields ← guessFields fileId names (index + 1)
            (if names.isNone then metricX + 1 else metricX) values
          .ok (field name .number none :: fields)
        else if lib.isDate value then
          let name ← nameOf names index s!"timestamp{index + 1}"
          let fields ← guessFields fileId names (index + 1) metricX values
          .ok (field name .date none :: fields)
        else guessFields fileId names (index + 1) metricX values

/-- A scalar whose name could be that of a timestamp is a Unix timestamp, in seconds up to
the greatest that there can be, and in milliseconds beyond. -/
def convertUnixTimestamp (values : CsvRow) (field : Field) : Field :=
  match field.type, (values[field.index]?.bind fun entry => (jsNumber (trim entry)).value) with
  | .number, some value =>
    if 0 ≤ value ∧ fieldNameCouldBeTimestamp field.name then
      { field with
        type := .date
        format := some (if value ≤ maxUnixTimestampInSeconds then unixTimestampSecMomentFormat
          else unixTimestampMillisecMomentFormat) }
    else field
  | _, _ => field

def dateFields (fields : List Field) : List Field := fields.filter fun field => field.type = .date

/-- The error of the fields of a data row. -/
def fieldsError (fields : List Field) : Option String :=
  match dateFields fields with
  | [field] =>
    if field.format.isNone then
      let column := field.index + 1
      some s!"The date/time format used on column {column} is not supported"
    else if fields.any fun field => field.type = .number then none
    else some "The file should have at least one numeric value"
  | _ => some "The file should have one and only one date/time column"

/-- The fields of the first row that has some without missing values. Rows before it that
have no date are headers; a row that misses values is skipped. -/
def getFieldsFrom (fileId : String) :
    (offset validRowCounter : ℕ) → (headers : Option CsvRow) → List CsvRow →
      Except ReadError GetFieldsResult
  | _, _, _, [] => .error (.message "The CSV file must have at least one row without missing values")
  | offset, validRowCounter, headers, values :: lines => do
    let isHeader ← (if validRowCounter = 0 then lib.resemblesHeaderRow values else .ok false)
    if !isHeader && containsNA values then
      getFieldsFrom fileId offset (validRowCounter + 1) headers lines
    else
      let fields ← lib.guessFields fileId headers 0 1 values
      if (fields ≠ [] ∨ offset ≠ 0) ∧ ¬(dateFields fields = [] ∧ offset = 0) then
        let fields := if dateFields fields = [] then fields.map (convertUnixTimestamp values)
          else fields
        .ok ⟨fieldsError fields, fields, offset⟩
      else getFieldsFrom fileId (offset + 1) (validRowCounter + 1) (some values) lines

def getFields (fileId : String) (lines : List CsvRow) : Except ReadError GetFieldsResult :=
  lib.getFieldsFrom fileId 0 0 none lines

/-! ## Validation -/

def validDate (value format : String) : Bool :=
  if format ∈ unixTimestampFormats then lib.looselyValid value format
  else lib.strictlyValid value format

/-- A missing value is valid. A date without a format is not validated, as the file has an
error then. -/
def validField (data : CsvRow) (field : Field) : Bool :=
  match data[field.index]? with
  | none => true
  | some value =>
    FileService.isNA (some value) || match field.type with
      | .number => (jsNumber value).isFinite
      | .date => field.format.all fun format => lib.validDate value format
      | .string => true

def invalidMessage (row : ℕ) (data : CsvRow) (field : Field) : String :=
  let name := field.name
  let value := data[field.index]?.getD ""
  match field.type with
  | .date =>
    let message := s!"Invalid date/time at row {row}: The date/time value is '{value}'"
    match field.format with
    | none => message
    | some format =>
      let current := lib.currentTime format
      message ++ s!" instead of having a format matching '{format}'. For example: '{current}'"
  | _ => s!"Invalid number at row {row}: Found '{name}' = '{value}'"

structure ValidationState where
  row : ℕ
  error : Option String
  warning : Option String

def validateRow (fields : List Field) (offset : ℕ) (s : ValidationState) (data : CsvRow) :
    ValidationState :=
  let validTimestamp := (fields.find? fun field => field.type = .date).any fun timestampField =>
    !FileService.isNA data[timestampField.index]?
  if s.row < offset ∨ (s.error.isSome ∧ validTimestamp) then { s with row := s.row + 1 }
  else if s.error.isSome then s
  else
    let row := if validTimestamp then s.row + 1 else s.row
    { row := row
      warning := if 20000 < row then
          some ("The number of rows exceeds 20,000. While you can proceed with this file, " ++
            "note that HTM Studio will be unresponsive during the loading of very large files.")
        else s.warning
      error := (fields.find? fun field => !lib.validField data field).map
        (lib.invalidMessage row data) }

def validate (fileId : String) (rows : List CsvRow) : Except ReadError Validation := do
  let found ← lib.getFields fileId rows
  let s := rows.foldl (lib.validateRow found.fields found.offset) ⟨0, found.error, none⟩
  .ok {
    error := if s.row < 400 ∧ s.error = none then
        some "The CSV file needs to have at least 400 rows with a valid timestamp"
      else s.error
    warning := s.warning
    fields := found.fields
    records := s.row
    rowOffset := found.offset }

/-! ## Upload -/

def metricData (timestamp format cell : String) : MetricData where
  isoTimestamp := lib.isoTimestamp timestamp format
  naiveTime := lib.naiveTime timestamp format
  metricValue := jsParseFloat cell

/-- What is put for a field of a record whose timestamp is present. -/
def uploadField (timestampField : Field) (timestamp : String) (data : CsvRow) (field : Field) :
    Except ReadError (Option (String × MetricData)) :=
  match data[field.index]? with
  | none => .error .typeError
  | some cell =>
    if field.type = .number ∧ ¬DatabaseService.isNA cell then
      match timestampField.format with
      | none => .error .typeError
      | some format =>
        if (lib.metricData timestamp format cell).valid then
          .ok (some (field.uid, lib.metricData timestamp format cell))
        else .error .schema
    else .ok none

/-- What is put for a record; none where its timestamp is missing. -/
def uploadRow (fields : List Field) (data : CsvRow) :
    Except ReadError (Option (List (String × MetricData))) :=
  match fields.find? fun field => field.type = .date with
  | none => .error .typeError
  | some timestampField =>
    match data[timestampField.index]? with
    | none => .error .typeError
    | some timestamp =>
      if DatabaseService.isNA timestamp then .ok none
      else do
        let puts ← fields.mapM (lib.uploadField timestampField timestamp data)
        .ok (some puts.reduceOption)

def uploadFile (fileId : String) (rows : List CsvRow) : Except ReadError Upload := do
  let results ← lib.getFields fileId rows
  match results.error with
  | some text => .error (.message text)
  | none =>
    if results.fields.all fun field => field.name.length ≤ 255 then do
      let records ← (rows.drop results.offset).mapM (lib.uploadRow results.fields)
      .ok {
        rowOffset := results.offset
        records := results.offset + records.countP Option.isSome
        metrics := results.fields
        metricData := records.map fun puts => puts.getD [] }
    else .error .schema

/-! ## The back end -/

/-- What both readers of the back end take from a row; none where it is skipped. -/
def sampleOf (options : InputOptions) (row : CsvRow) : Except PyError (Option (D × Double)) :=
  match row[options.valueIndex]? with
  | none => .ok none
  | some value =>
    if Backend.isNA value then .ok none
    else match row[options.timestampIndex]? with
      | none => .error .indexError
      | some timestamp =>
        if Backend.isNA timestamp then .ok none
        else match lib.parseDatetime timestamp options.datetimeFormat, pyFloat value with
          | some timestamp, some value => .ok (some (timestamp, value))
          | _, _ => .error .valueError

/-- The rows of the model runner, which are not aggregated. -/
def runFrom (options : InputOptions) : (numRowsToSkip : ℕ) → List CsvRow →
    Except PyError (List (D × Double))
  | _, [] => .ok []
  | numRowsToSkip + 1, _ :: rows => runFrom options numRowsToSkip rows
  | 0, inputRow :: rows => do
    let fields ← lib.sampleOf options inputRow
    let emitted ← runFrom options 0 rows
    .ok (fields.toList ++ emitted)

/-- `_ModelRunner.run`. -/
def run (options : InputOptions) (rows : List CsvRow) : Except PyError (List (D × Double)) :=
  lib.runFrom options options.rowOffset rows

/-- The samples of the parameter finder, which breaks off at the greatest number of them. -/
def readRows (options : InputOptions) : (numRows : ℕ) → List CsvRow →
    Except PyError (List (D × Double))
  | _, [] => .ok []
  | numRows, row :: rows => do
    match ← lib.sampleOf options row with
    | none => readRows options numRows rows
    | some (timestamp, value) =>
      if maxNumRows ≤ numRows + 1 then .ok [(lib.useUtc timestamp, value)]
      else do
        let samples ← readRows options (numRows + 1) rows
        .ok ((lib.useUtc timestamp, value) :: samples)

/-- `_readCSVFile`, in which a file without the rows to skip ends the iteration. -/
def readCSVFile (options : InputOptions) (rows : List CsvRow) :
    Except PyError (List (D × Double)) :=
  if rows.length < options.rowOffset then .error .stopIteration
  else lib.readRows options 0 (rows.drop options.rowOffset)

end Library
end NumentaApps.Unicorn
