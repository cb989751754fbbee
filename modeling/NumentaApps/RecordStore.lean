import Mathlib.Logic.Function.Basic
import NumentaApps.TransitionSystem

/-!
# The record store of Unicorn

The metrics and the models of the database service, and the calls that update one record: each
reads the record, merges its properties into what it read, and later puts the whole record.
-/
namespace NumentaApps.Unicorn
open TransitionSystem

/-- The properties of an object other than its identifier. -/
abbrev Properties (V : Type) := String → Option V

/-- A record with its `uid` or `modelId`. -/
@[ext] structure Record (V : Type) where
  id : String
  properties : Properties V

inductive Sublevel where
  | metrics | models
  deriving DecidableEq, Repr

/-- The records are stored under their identifiers. -/
structure Store (V : Type) where
  get : Sublevel → String → Option (Record V)
  id_eq : ∀ sublevel key record, get sublevel key = some record → record.id = key

variable {V : Type}

namespace Store

def put (db : Store V) (sublevel : Sublevel) (record : Record V) : Store V where
  get := Function.update db.get sublevel
    (Function.update (db.get sublevel) record.id (some record))
  id_eq := by
    intro sublevel' key record' hget
    by_cases hsub : sublevel' = sublevel
    · subst hsub
      rw [Function.update_self] at hget
      by_cases hkey : key = record.id
      · subst hkey
        rw [Function.update_self] at hget
        rw [← Option.some.inj hget]
      · rw [Function.update_of_ne hkey] at hget
        exact db.id_eq _ _ _ hget
    · rw [Function.update_of_ne hsub] at hget
      exact db.id_eq _ _ _ hget

@[simp] theorem get_put_self (db : Store V) (sublevel : Sublevel) (record : Record V) :
    (db.put sublevel record).get sublevel record.id = some record := by
  simp [put]

theorem get_put_of_ne {db : Store V} {sublevel sublevel' : Sublevel} {record : Record V}
    {key : String} (h : (sublevel', key) ≠ (sublevel, record.id)) :
    (db.put sublevel record).get sublevel' key = db.get sublevel' key := by
  by_cases hsub : sublevel' = sublevel
  · subst hsub
    have hkey : key ≠ record.id := fun hkey => h (hkey ▸ rfl)
    simp [put, Function.update_of_ne hkey]
  · simp [put, Function.update_of_ne hsub]

end Store

/-- `Object.assign({}, target, properties)`. -/
def assign (target properties : Properties V) : Properties V := fun name =>
  (properties name).or (target name)

/-! ## Operations -/

inductive Operation (V : Type) where
  | setMetricAggregationOptions (metricId : String) (options : V)
  | setMetricModelOptions (metricId : String) (options : V)
  | setMetricInputOptions (metricId : String) (options : V)
  | updateModel (modelId : String) (properties : Properties V)
  | updateMetric (metricId : String) (properties : Properties V)

namespace Operation

def sublevel : Operation V → Sublevel
  | .updateModel _ _ => .models
  | _ => .metrics

def key : Operation V → String
  | .setMetricAggregationOptions metricId _ | .setMetricModelOptions metricId _
  | .setMetricInputOptions metricId _ | .updateMetric metricId _ => metricId
  | .updateModel modelId _ => modelId

/-- The record that is put after `record` has been read. -/
def merge : Operation V → Record V → Record V
  | .setMetricAggregationOptions _ options, metric =>
    { metric with properties := Function.update metric.properties "aggregation_options" options }
  | .setMetricModelOptions _ options, metric =>
    { metric with properties := Function.update metric.properties "model_options" options }
  | .setMetricInputOptions _ options, metric =>
    { metric with properties := Function.update metric.properties "input_options" options }
  | .updateModel modelId properties, model =>
    { id := modelId, properties := assign model.properties properties }
  | .updateMetric metricId properties, metric =>
    { id := metricId, properties := assign metric.properties properties }

/-- The value that the operation gives to a property, if it names it. -/
def value : Operation V → Properties V
  | .setMetricAggregationOptions _ options =>
    Function.update (fun _ => none) "aggregation_options" options
  | .setMetricModelOptions _ options => Function.update (fun _ => none) "model_options" options
  | .setMetricInputOptions _ options => Function.update (fun _ => none) "input_options" options
  | .updateModel _ properties | .updateMetric _ properties => properties

theorem merge_properties (op : Operation V) (record : Record V) (name : String) :
    (op.merge record).properties name = (op.value name).or (record.properties name) := by
  have hset : ∀ (set : String) (options : V),
      Function.update record.properties set (some options) name =
        (Function.update (fun _ => none) set (some options) name : Option V).or
          (record.properties name) := by
    intro set options
    by_cases hname : name = set
    · subst hname
      simp
    · simp [Function.update_of_ne hname]
  cases op with
  | setMetricAggregationOptions _ options => exact hset "aggregation_options" options
  | setMetricModelOptions _ options => exact hset "model_options" options
  | setMetricInputOptions _ options => exact hset "input_options" options
  | updateModel | updateMetric => rfl

theorem merge_id (op : Operation V) {record : Record V} (h : record.id = op.key) :
    (op.merge record).id = op.key := by
  cases op with
  | updateModel | updateMetric => rfl
  | setMetricAggregationOptions | setMetricModelOptions | setMetricInputOptions => exact h

end Operation

/-! ## Calls -/

/-- How far a call is: its read is pending, its put is pending, its put has been done, or its
callback has been called, with the time or with an error. -/
inductive Phase (V : Type) where
  | reading
  | putting (record : Record V)
  | written
  | completed (time : ℕ)
  | failed

structure Call (V : Type) where
  op : Operation V
  startedAt : ℕ
  phase : Phase V

inductive Event where
  | get | put | callback | error
  deriving DecidableEq, Repr

/-- What an event does to the store and to the phase of the call; `validate` is the schema
validation. -/
def Call.next (validate : Sublevel → Record V → Bool) (now : ℕ) (db : Store V) (c : Call V) :
    Event → Option (Store V × Phase V)
  | .get =>
    match c.phase with
    | .reading => some (db,
      match db.get c.op.sublevel c.op.key with
      | none => .failed
      | some record =>
        if validate c.op.sublevel (c.op.merge record) then .putting (c.op.merge record)
        else .failed)
    | _ => none
  | .put =>
    match c.phase with
    | .putting record => some (db.put c.op.sublevel record, .written)
    | _ => none
  | .callback =>
    match c.phase with
    | .written => some (db, .completed now)
    | _ => none
  | .error =>
    match c.phase with
    | .reading | .putting _ => some (db, .failed)
    | _ => none

/-- The store, the calls in the order of their starts, and the number of steps so far. -/
structure Service (V : Type) where
  db : Store V
  calls : List (Call V)
  now : ℕ

inductive Action (V : Type) where
  | start (op : Operation V)
  | event (i : ℕ) (e : Event)

def Service.act (validate : Sublevel → Record V → Bool) (s : Service V) :
    Action V → Option (Service V)
  | .start op => some
      { s with calls := s.calls ++ [⟨op, s.now, .reading⟩], now := s.now + 1 }
  | .event i e =>
    s.calls[i]?.bind fun c =>
      (c.next validate s.now s.db e).map fun p =>
        { db := p.1, calls := s.calls.set i { c with phase := p.2 }, now := s.now + 1 }

/-- Any number of calls, their events in any order. -/
def recordSystem (validate : Sublevel → Record V → Bool) (db : Store V) :
    System (Service V) (Action V) where
  init s := s = ⟨db, [], 0⟩
  next a s := s.act validate a

end NumentaApps.Unicorn
