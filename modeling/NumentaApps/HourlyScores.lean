import NumentaApps.TransitionSystem
import Mathlib.Data.Int.Notation
import Mathlib.Data.List.Sort
import Mathlib.Logic.Function.Basic
import Mathlib.Order.Bounds.Basic
import Mathlib.Order.Monotone.Defs

/-!
# Hourly anomaly scores

Any number of processes publish the hourly scores of an instance, one conditional
operation on one item after the other: an update of the entry of the metric type, a put
of the whole item if there is none, and the update again if another process has put it.
Every operation may be repeated because its response was lost.
-/
namespace NumentaApps.DynamoDB
open TransitionSystem

/-- A model inference result row. Anomaly scores are not negative. -/
structure ResultRow (R : Type) [LE R] [Zero R] where
  ts : ℤ
  anomaly : R
  nonneg : 0 ≤ anomaly

variable {I K R V : Type}

/-- The hour that a time belongs to, counted from the epoch. -/
def hourOf (ts : ℤ) : ℤ := ts / 3600

section Scores

variable [LinearOrder R] [Zero R]

/-- Stores the max score for the period. -/
def recordScore (hour : ℤ) (score : R) : List (ℤ × R) → List (ℤ × R)
  | [] => [(hour, max 0 score)]
  | (hour', score') :: rest =>
    if hour' = hour then (hour', max score' score) :: rest
    else (hour', score') :: recordScore hour score rest

def hourToMaxScore (rows : List (ResultRow R)) : List (ℤ × R) :=
  rows.foldl (fun scores row => recordScore (hourOf row.ts) row.anomaly scores) []

/-- The hours of a batch, in order, each with its rounded score. -/
def hourlyScores (round : R → V) (rows : List (ResultRow R)) : List (ℤ × V) :=
  ((hourToMaxScore rows).insertionSort fun a b => a.1 ≤ b.1).map fun p => (p.1, round p.2)

end Scores

/-- The items of the table; an item has a score for some metric types. -/
abbrev HourlyTable (I K V : Type) := I → ℤ → Option (K → Option V)

inductive DynamoDBError where
  | conditionalCheckFailed | validation | resourceNotFound
  deriving DecidableEq, Repr

namespace HourlyTable

variable [DecidableEq I] [DecidableEq K] [LinearOrder V]

def setItem (instanceName : I) (hour : ℤ) (item : K → Option V) (table : HourlyTable I K V) :
    HourlyTable I K V :=
  Function.update table instanceName (Function.update (table instanceName) hour (some item))

/-- The update of the entry of a metric type, which has to be missing or smaller. In a
missing item there is no path to the entry. -/
def updateItem (missing : DynamoDBError) (instanceName : I) (hour : ℤ) (metricType : K) (score : V)
    (table : HourlyTable I K V) : Except DynamoDBError (HourlyTable I K V) :=
  match table instanceName hour with
  | none => .error missing
  | some item =>
    if item metricType = none ∨ ∃ stored ∈ item metricType, stored < score then
      .ok (table.setItem instanceName hour (Function.update item metricType (some score)))
    else .error .conditionalCheckFailed

/-- The put of a new item, which has to be missing. -/
def putItem (instanceName : I) (hour : ℤ) (metricType : K) (score : V)
    (table : HourlyTable I K V) : Except DynamoDBError (HourlyTable I K V) :=
  match table instanceName hour with
  | none => .ok (table.setItem instanceName hour
      (Function.update (fun _ => none) metricType (some score)))
  | some _ => .error .conditionalCheckFailed

/-- The score of a metric type, if there is one. -/
def score (table : HourlyTable I K V) (instanceName : I) (hour : ℤ) (metricType : K) : Option V :=
  (table instanceName hour).bind fun item => item metricType

end HourlyTable

/-- The operation that a call is at, in the chain for one hour. -/
inductive PublishStep where
  | update | put | updateAgain
  deriving DecidableEq, Repr

/-- A call of `_publishInstanceDataHourly`: what it was given, the hours it has still to
publish, and whether it raised. -/
structure PublishCall (I K R V : Type) [LE R] [Zero R] where
  instanceName : I
  metricType : K
  rows : List (ResultRow R)
  pending : List (ℤ × V)
  step : PublishStep
  raised : Bool

/-- The table and the calls that were ever made, in any process. -/
structure HourlyPublishing (I K R V : Type) [LE R] [Zero R] where
  table : HourlyTable I K V
  calls : List (PublishCall I K R V)

namespace PublishCall

variable [LinearOrder R] [Zero R]

def begin (round : R → V) (instanceName : I) (metricType : K) (rows : List (ResultRow R)) :
    PublishCall I K R V where
  instanceName := instanceName
  metricType := metricType
  rows := rows
  pending := hourlyScores round rows
  step := .update
  raised := false

def returned (c : PublishCall I K R V) : Prop := c.pending = [] ∧ c.raised = false

def nextHour (c : PublishCall I K R V) : PublishCall I K R V :=
  { c with pending := c.pending.tail, step := .update }

/-- What the call does with the response of the operation it is at. -/
def handle (c : PublishCall I K R V) : Except DynamoDBError Unit → PublishCall I K R V
  | .ok _ => c.nextHour
  | .error .conditionalCheckFailed => match c.step with
    | .put => { c with step := .updateAgain }
    | .update | .updateAgain => c.nextHour
  | .error .validation | .error .resourceNotFound => match c.step with
    | .update => { c with step := .put }
    | .put | .updateAgain => { c with raised := true }

variable [DecidableEq I] [DecidableEq K] [LinearOrder V]

def operation (c : PublishCall I K R V) (missing : DynamoDBError) (hour : ℤ) (score : V)
    (table : HourlyTable I K V) : Except DynamoDBError (HourlyTable I K V) :=
  match c.step with
  | .update | .updateAgain => table.updateItem missing c.instanceName hour c.metricType score
  | .put => table.putItem c.instanceName hour c.metricType score

end PublishCall

namespace HourlyPublishing

variable [LinearOrder R] [Zero R] [DecidableEq I] [DecidableEq K] [LinearOrder V]

/-- `operate` is the next operation of a call. If its response is lost the call is going
to repeat it. Any call may raise for another reason. -/
inductive Action (I K R : Type) [LE R] [Zero R] where
  | publish (instanceName : I) (metricType : K) (rows : List (ResultRow R))
  | operate (i : ℕ) (resourceNotFound responseLost : Bool)
  | raise (i : ℕ)

def operate (i : ℕ) (resourceNotFound responseLost : Bool) (s : HourlyPublishing I K R V) :
    Option (HourlyPublishing I K R V) :=
  match s.calls[i]? with
  | none => none
  | some c => match c.raised, c.pending with
    | false, (hour, score) :: _ =>
      let missing := if resourceNotFound then .resourceNotFound else .validation
      let response := c.operation missing hour score s.table
      some {
        table := response.toOption.getD s.table
        calls := if responseLost then s.calls
          else s.calls.set i (c.handle (response.map fun _ => ())) }
    | _, _ => none

def act (round : R → V) (a : Action I K R) (s : HourlyPublishing I K R V) :
    Option (HourlyPublishing I K R V) :=
  match a with
  | .publish instanceName metricType rows =>
    some { s with calls := s.calls ++ [.begin round instanceName metricType rows] }
  | .operate i resourceNotFound responseLost => s.operate i resourceNotFound responseLost
  | .raise i => s.calls[i]?.map fun c =>
    { s with calls := s.calls.set i { c with raised := true } }

def system (I K R V : Type) [LinearOrder R] [Zero R] [DecidableEq I] [DecidableEq K]
    [LinearOrder V] (round : R → V) : System (HourlyPublishing I K R V) (Action I K R) where
  init s := s = ⟨fun _ _ => none, []⟩
  next := act round

end HourlyPublishing
end NumentaApps.DynamoDB
