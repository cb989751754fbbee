import NumentaApps.JsonText
import NumentaApps.TimestampFormats

/-!
# The wire format of the model swapper

The requests and results that the layers of the model swapper exchange, their states for the wire,
and the packagers of batches and of messages. A class registers under its signature; its state is
the signature and then the attributes of its `__slots__`. A row of input data keeps the positions
of its datetimes beside the data.
-/
namespace NumentaApps.ModelSwapper
open JsonText

/-! ## Naive datetimes -/

/-- The microseconds from the epoch to `datetime.min`. -/
def datetimeMin : ℤ := ((Unicorn.dayNumber 1 1 1 : ℤ) - Unicorn.epochDay) * 86400000000

/-- The microseconds from the epoch to `datetime.max`. -/
def datetimeMax : ℤ := ((Unicorn.dayNumber 9999 12 31 : ℤ) + 1 - Unicorn.epochDay) * 86400000000 - 1

/-- A naive `datetime`, by the microseconds from the epoch to it. -/
structure NaiveDatetime where
  microseconds : ℤ
  inRange : datetimeMin ≤ microseconds ∧ microseconds ≤ datetimeMax
  deriving DecidableEq, Repr

namespace NaiveDatetime

/-- The attribute `microsecond`. -/
def microsecond (dateTime : NaiveDatetime) : ℤ := dateTime.microseconds % 1000000

/-- It raises where there is no such date. -/
def ofMicroseconds (microseconds : ℤ) : Option NaiveDatetime :=
  if h : datetimeMin ≤ microseconds ∧ microseconds ≤ datetimeMax then some ⟨microseconds, h⟩
  else none

def utcfromtimestamp (seconds : ℤ) : Option NaiveDatetime := ofMicroseconds (seconds * 1000000)

/-- The sum with `timedelta(microseconds=…)`. -/
def add (dateTime : NaiveDatetime) (microseconds : ℤ) : Option NaiveDatetime :=
  ofMicroseconds (dateTime.microseconds + microseconds)

end NaiveDatetime

/-- The exact `total_seconds`, in microseconds. -/
def epochFromNaiveUTCDatetime (dt : NaiveDatetime) : ℤ := dt.microseconds

/-! ## Requests and results -/

inductive ClientClass where
  | modelCommand
  | modelCommandResult
  | modelInputRow
  | modelInferenceResult
  deriving DecidableEq, Repr

namespace ClientClass

/-- `__STATE_SIGNATURE__` -/
def stateSignature : ClientClass → String
  | modelCommand => "mc"
  | modelCommandResult => "mcR"
  | modelInputRow => "i"
  | modelInferenceResult => "iR"

/-- `__slots__` -/
def slots : ClientClass → List String
  | modelCommand => ["commandID", "method", "args"]
  | modelCommandResult => ["commandID", "method", "status", "args", "errorMessage"]
  | modelInputRow => ["rowID", "data"]
  | modelInferenceResult => ["rowID", "status", "anomalyScore", "errorMessage"]

end ClientClass

/-- `__register__`, which asserts that the signature is free. -/
def register (factoryClassMap : List (String × ClientClass)) (clientCls : ClientClass) :
    Option (List (String × ClientClass)) :=
  if (factoryClassMap.lookup clientCls.stateSignature).isSome then none
  else some (factoryClassMap ++ [(clientCls.stateSignature, clientCls)])

/-- The map once the module is loaded. -/
def factoryClassMap : List (String × ClientClass) :=
  ([.modelCommand, .modelCommandResult, .modelInputRow, .modelInferenceResult].foldlM
    register []).getD []

/-- A field value of a row. -/
inductive Field where
  | leaf (value : Value)
  | datetime (dateTime : NaiveDatetime)

inductive Sequence where
  | list (fields : List Field)
  | tuple (fields : List Field)

def Sequence.fields : Sequence → List Field
  | list fields => fields
  | tuple fields => fields

/-- An instance: a row of input data, or an instance of one of the classes that keep the state
functions of the base class, with its attributes. -/
inductive ModelRequestResult where
  | modelInputRow (rowID : Value) (data : Sequence)
  | slotted (cls : ClientClass) (attributes : List (String × Value))

/-! ### The constructors -/

/-- What a constructor asserts. -/
inductive AssertionError where
  | methodNotText
  | argsNotDict
  | statusNotInt
  | unexpectedErrorMessage
  | errorMessageNotText
  | unexpectedArgs
  | anomalyScoreNotNumeric
  | unexpectedAnomalyScore
  | dataEmpty
  deriving DecidableEq, Repr

def assert (condition : Bool) (error : AssertionError) : Except AssertionError Unit :=
  if condition then .ok () else .error error

/-- `isinstance(value, types.StringTypes)` -/
def isString : Value → Bool
  | .string _ => true
  | _ => false

/-- `isinstance(value, (dict, None.__class__))` -/
def isDictOrNone : Value → Bool
  | .dict _ => true
  | .none => true
  | _ => false

/-- `isinstance(value, (int, long))`; a `bool` is an `int`. -/
def isInt : Value → Bool
  | .int _ => true
  | .bool _ => true
  | _ => false

/-- `isinstance(value, (int, long, float))` -/
def isNumeric : Value → Bool
  | .float _ => true
  | value => isInt value

/-- `value is None` -/
def isNone : Value → Bool
  | .none => true
  | _ => false

/-- `status == 0`, for an `int`. -/
def isZero : Value → Bool
  | .int n => n = 0
  | .bool b => !b
  | _ => false

def modelCommand (commandID method args : Value) : Except AssertionError ModelRequestResult := do
  assert (isString method) .methodNotText
  assert (isDictOrNone args) .argsNotDict
  return .slotted .modelCommand [("commandID", commandID), ("method", method), ("args", args)]

def modelCommandResult (commandID method status args errorMessage : Value) :
    Except AssertionError ModelRequestResult := do
  assert (isString method) .methodNotText
  assert (isInt status) .statusNotInt
  if isZero status then
    assert (isDictOrNone args) .argsNotDict
    assert (isNone errorMessage) .unexpectedErrorMessage
  else
    assert (isString errorMessage) .errorMessageNotText
    assert (isNone args) .unexpectedArgs
  return .slotted .modelCommandResult [("commandID", commandID), ("method", method),
    ("status", status), ("args", args), ("errorMessage", errorMessage)]

def modelInputRow (rowID : Value) (data : Sequence) : Except AssertionError ModelRequestResult := do
  assert (!data.fields.isEmpty) .dataEmpty
  return .modelInputRow rowID data

def modelInferenceResult (rowID status anomalyScore errorMessage : Value) :
    Except AssertionError ModelRequestResult := do
  assert (isInt status) .statusNotInt
  if isZero status then
    assert (isNumeric anomalyScore) .anomalyScoreNotNumeric
    assert (isNone errorMessage) .unexpectedErrorMessage
  else
    assert (isString errorMessage) .errorMessageNotText
    assert (isNone anomalyScore) .unexpectedAnomalyScore
  return .slotted .modelInferenceResult [("rowID", rowID), ("status", status),
    ("anomalyScore", anomalyScore), ("errorMessage", errorMessage)]

/-! ### The states -/

/-- It keeps the whole seconds, truncated towards zero, and the microsecond. -/
def encodeDateTime (dateTime : NaiveDatetime) : Value :=
  .list [.int ((epochFromNaiveUTCDatetime dateTime).tdiv 1000000), .int dateTime.microsecond]

/-- It raises for anything but a pair of numbers, and out of the range of dates. -/
def decodeDateTime : Value → Option NaiveDatetime
  | .list [.int seconds, .int microseconds] =>
      (NaiveDatetime.utcfromtimestamp seconds).bind (·.add microseconds)
  | _ => none

/-- The loop of `ModelInputRow.__getstate__` from the position `i` on: the encoded data and the
positions of the datetimes. -/
def encodeData (i : ℕ) : List Field → List Value × List Value
  | [] => ([], [])
  | .leaf value :: items =>
      let (encodedData, datetimeIndexes) := encodeData (i + 1) items
      (value :: encodedData, datetimeIndexes)
  | .datetime dateTime :: items =>
      let (encodedData, datetimeIndexes) := encodeData (i + 1) items
      (encodeDateTime dateTime :: encodedData, .int i :: datetimeIndexes)

/-- `data[i]`, from the end for a negative `i`. -/
def listIndex (data : List Field) (i : ℤ) : ℕ :=
  if i < 0 then (i + data.length).toNat else i.toNat

/-- The loop of `ModelInputRow.__setstate__`. -/
def decodeData (data : List Field) : List Value → Option (List Field)
  | [] => some data
  | .int i :: datetimeIndexes =>
      if i < -data.length then none
      else match data[listIndex data i]? with
        | some (.leaf value) => do
            let dateTime ← decodeDateTime value
            decodeData (data.set (listIndex data i) (.datetime dateTime)) datetimeIndexes
        | _ => none
  | _ => none

namespace ModelRequestResult

/-- `__getstate__`, which raises if an attribute of the slots is missing. -/
def getstate : ModelRequestResult → Option Value
  | .modelInputRow rowID data =>
      let (encodedData, datetimeIndexes) := encodeData 0 data.fields
      some (.list [.string ClientClass.modelInputRow.stateSignature, rowID, .list encodedData,
        .list datetimeIndexes])
  | .slotted cls attributes => do
      let values ← cls.slots.mapM fun slot => attributes.lookup slot
      return .list (.string cls.stateSignature :: values)

/-- `__setstate__`, on an instance of the class. -/
def setstate (cls : ClientClass) (state : List Value) : Option ModelRequestResult :=
  if cls = .modelInputRow then
    match state with
    | [.string requestType, rowID, .list data, .list datetimeIndexes] =>
        if requestType = cls.stateSignature then do
          let data ← decodeData (data.map .leaf) datetimeIndexes
          return .modelInputRow rowID (.list data)
        else none
    | _ => none
  else
    match state with
    | .string signature :: values =>
        if signature = cls.stateSignature ∧ values.length = cls.slots.length then
          some (.slotted cls (cls.slots.zip values))
        else none
    | _ => none

/-- `__createFromState__`, which raises for an unknown signature. -/
def createFromState : Value → Option ModelRequestResult
  | .list (.string signature :: values) => do
      let cls ← factoryClassMap.lookup signature
      setstate cls (.string signature :: values)
  | _ => none

end ModelRequestResult

/-! ## The packagers -/

namespace BatchPackager

def marshal (batch : List ModelRequestResult) : Option String := do
  let states ← batch.mapM ModelRequestResult.getstate
  return dumps (.list states)

/-- With `json.loads`, which raises for a text that is no JSON. -/
def unmarshal (loads : String → Option Value) (batchState : String) :
    Option (List ModelRequestResult) :=
  match loads batchState with
  | some (.list states) => states.mapM ModelRequestResult.createFromState
  | _ => none

end BatchPackager

/-- `msg.split("\n", 1)`, for two parts. -/
def splitLine (msg : String) : Option (String × String) :=
  match msg.toList.dropWhile (· ≠ '\n') with
  | [] => none
  | _ :: rest => some (String.ofList (msg.toList.takeWhile (· ≠ '\n')), String.ofList rest)

namespace RequestMessagePackager

structure UnmarshalResultSet where
  batchID : String
  batchState : String
  deriving DecidableEq, Repr

def marshal (batchID batchState : String) : String := batchID ++ "\n" ++ batchState

def unmarshal (msg : String) : Option UnmarshalResultSet := do
  let (batchID, batchState) ← splitLine msg
  return { batchID := batchID, batchState := batchState }

end RequestMessagePackager

namespace ResultMessagePackager

structure UnmarshalResultSet where
  modelID : String
  batchState : String
  deriving DecidableEq, Repr

def marshal (modelID batchState : String) : String := modelID ++ "\n" ++ batchState

def unmarshal (msg : String) : Option UnmarshalResultSet := do
  let (modelID, batchState) ← splitLine msg
  return { modelID := modelID, batchState := batchState }

end ResultMessagePackager

end NumentaApps.ModelSwapper
