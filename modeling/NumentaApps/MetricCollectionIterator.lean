import Mathlib.Data.List.Nodup
import Mathlib.Data.List.Perm.Basic

/-!
# The metric collections of the aggregator

A request for the metric of an autostack makes a task for each of its instances. The tasks complete
in any order, and an iterator gathers their results by request until a request has them all.
-/
namespace NumentaApps.Aggregator

variable {R I A D T : Type} [DecidableEq R]

structure AutostackMetricRequest (R A T : Type) where
  refID : R
  autostack : A
  timeRange : T

structure MetricCollectionTask (R I : Type) where
  refID : R
  instanceID : I
  deriving DecidableEq

/-- The data of a task, or none where it failed. -/
structure MetricCollectionTaskResult (R I D : Type) where
  refID : R
  instanceID : I
  data : Option (List D)

def MetricCollectionTaskResult.task (result : MetricCollectionTaskResult R I D) :
    MetricCollectionTask R I := ⟨result.refID, result.instanceID⟩

structure InstanceMetricData (I D : Type) where
  instanceID : I
  records : List D
  deriving DecidableEq

structure MetricCollection (R I D T : Type) where
  refID : R
  slices : List (InstanceMetricData I D)
  timeRange : T
  deriving DecidableEq

structure MetricCollectionAccumulator (R I D T : Type) where
  expectedNumSlices : ℕ
  collection : MetricCollection R I D T

abbrev AccumulatorMap (R I D T : Type) := List (R × MetricCollectionAccumulator R I D T)

/-- The tasks and the accumulators of the requests after those that are done; none where an ID of
a request comes twice. -/
def createMetricDataCollectionTasks (instanceCache : A → List I) :
    List (AutostackMetricRequest R A T) →
    List (MetricCollectionTask R I) × AccumulatorMap R I D T →
    Option (List (MetricCollectionTask R I) × AccumulatorMap R I D T)
  | [], done => some done
  | request :: requests, (tasks, accumulatorMap) =>
    if request.refID ∈ accumulatorMap.map Prod.fst then none
    else createMetricDataCollectionTasks instanceCache requests
      (tasks ++ (instanceCache request.autostack).map fun instanceID =>
        ⟨request.refID, instanceID⟩,
      accumulatorMap ++ [(request.refID,
        ⟨(instanceCache request.autostack).length, ⟨request.refID, [], request.timeRange⟩⟩)])

/-! ## The iterator -/

structure MetricCollectionIterator (R I D T : Type) where
  taskResults : List (MetricCollectionTaskResult R I D)
  accumulatorMap : AccumulatorMap R I D T
  numTasks : ℕ
  numTaskResults : ℕ

/-- What a call of `next` comes to. -/
inductive Next (R I D T : Type) where
  | collection (collection : MetricCollection R I D T)
  | stopIteration
  | assertionError
  | keyError
  deriving DecidableEq

/-- An error leaves the slice with no records. -/
def sliceOf (result : MetricCollectionTaskResult R I D) : InstanceMetricData I D :=
  ⟨result.instanceID, result.data.getD []⟩

def MetricCollectionAccumulator.append (accumulator : MetricCollectionAccumulator R I D T)
    (slice : InstanceMetricData I D) : MetricCollectionAccumulator R I D T :=
  { accumulator with collection :=
    { accumulator.collection with slices := accumulator.collection.slices ++ [slice] } }

def setAccumulator (refID : R) (accumulator : MetricCollectionAccumulator R I D T)
    (accumulatorMap : AccumulatorMap R I D T) : AccumulatorMap R I D T :=
  accumulatorMap.map fun entry => if entry.1 = refID then (refID, accumulator) else entry

def pop (refID : R) (accumulatorMap : AccumulatorMap R I D T) : AccumulatorMap R I D T :=
  accumulatorMap.filter fun entry => entry.1 ≠ refID

/-- `popitem` takes any entry of the dictionary, here the one that is picked. -/
def popitem (pick : ℕ) (accumulatorMap : AccumulatorMap R I D T) :
    Option (R × MetricCollectionAccumulator R I D T) :=
  accumulatorMap[pick % accumulatorMap.length]?

/-- When there are no more results, the collections without instances are doled out. -/
def doleOut (pick : ℕ) (it : MetricCollectionIterator R I D T) :
    Next R I D T × MetricCollectionIterator R I D T :=
  if it.numTaskResults ≠ it.numTasks then (.assertionError, it)
  else
    match popitem pick it.accumulatorMap with
    | none => (.stopIteration, it)
    | some (refID, accumulator) =>
      let it := { it with accumulatorMap := pop refID it.accumulatorMap }
      if accumulator.expectedNumSlices = 0 ∧ accumulator.collection.slices.length = 0 then
        (.collection accumulator.collection, it)
      else (.assertionError, it)

/-- `next` over the results that are left. -/
def nextFrom (pick numTasks : ℕ) :
    List (MetricCollectionTaskResult R I D) → AccumulatorMap R I D T → ℕ →
    Next R I D T × MetricCollectionIterator R I D T
  | [], accumulatorMap, numTaskResults =>
    doleOut pick ⟨[], accumulatorMap, numTasks, numTaskResults⟩
  | result :: taskResults, accumulatorMap, numTaskResults =>
    let it := ⟨taskResults, accumulatorMap, numTasks, numTaskResults + 1⟩
    match accumulatorMap.lookup result.refID with
    | none => (.keyError, it)
    | some accumulator =>
      if accumulator.expectedNumSlices ≤ accumulator.collection.slices.length then
        (.assertionError, it)
      else
        let accumulator := accumulator.append (sliceOf result)
        if accumulator.collection.slices.length = accumulator.expectedNumSlices then
          (.collection accumulator.collection,
            { it with accumulatorMap := pop result.refID accumulatorMap })
        else nextFrom pick numTasks taskResults
          (setAccumulator result.refID accumulator accumulatorMap) (numTaskResults + 1)

def next (pick : ℕ) (it : MetricCollectionIterator R I D T) :
    Next R I D T × MetricCollectionIterator R I D T :=
  nextFrom pick it.numTasks it.taskResults it.accumulatorMap it.numTaskResults

/-- The iterator before the `n`th call, with what each call picks. -/
def iteratorAt (it : MetricCollectionIterator R I D T) (picks : ℕ → ℕ) :
    ℕ → MetricCollectionIterator R I D T
  | 0 => it
  | n + 1 => (next (picks n) (iteratorAt it picks n)).2

def callAt (it : MetricCollectionIterator R I D T) (picks : ℕ → ℕ) (n : ℕ) : Next R I D T :=
  (next (picks n) (iteratorAt it picks n)).1

end NumentaApps.Aggregator
