import Mathlib.Data.Int.Notation
import Mathlib.Data.List.Sort
import NumentaApps.TransitionSystem

/-!
# The metric garbage collector

`purgeOldMetricDataRows` over a metric data table that others append to and delete whole metrics
from. Each of its statements is a transaction of its own and is executed again if it fails or if
its reply is lost.
-/
namespace NumentaApps.GarbageCollector
open TransitionSystem

/-- A row of the table, whose key is its uid and rowid; the timestamp is in seconds. -/
structure DataRow (U : Type) where
  uid : U
  rowid : ℕ
  timestamp : ℤ
  deriving DecidableEq, Repr

variable {U : Type}

def DataRow.key (r : DataRow U) : U × ℕ := (r.uid, r.rowid)

/-- Rows of one metric are stored with rising rowids and without a step back in time. -/
def DataRow.Before (r r' : DataRow U) : Prop :=
  r.uid = r'.uid → r.rowid < r'.rowid ∧ r.timestamp ≤ r'.timestamp

instance [DecidableEq U] (r r' : DataRow U) : Decidable (r.Before r') :=
  inferInstanceAs (Decidable (_ → _))

/-- `THRESHOLD` and the largest batch, both of the program's configuration. -/
structure Settings where
  thresholdSeconds : ℤ
  maxDeleteBatchSize : ℕ
  deriving DecidableEq, Repr

/-- Where `purgeOldMetricDataRows` is. The clock of the query that selected them is kept with the
candidate rows, for the record. -/
inductive Phase (U : Type) where
  | estimating
  | querying (estimate totalDeleted : ℕ)
  | deleting (estimate totalDeleted : ℕ) (uidRowidPairs : List (U × ℕ)) (selectedAt : ℤ)
  | returned (estimate totalDeleted : ℕ)
  | raised (estimate totalDeleted : ℕ)
  deriving DecidableEq, Repr

namespace Phase

def estimate : Phase U → ℕ
  | estimating => 0
  | querying estimate _ => estimate
  | deleting estimate _ _ _ => estimate
  | returned estimate _ => estimate
  | raised estimate _ => estimate

def totalDeleted : Phase U → ℕ
  | estimating => 0
  | querying _ totalDeleted => totalDeleted
  | deleting _ totalDeleted _ _ => totalDeleted
  | returned _ totalDeleted => totalDeleted
  | raised _ totalDeleted => totalDeleted

/-- The test of the loop. -/
def loop (estimate totalDeleted : ℕ) : Phase U :=
  if totalDeleted < estimate then querying estimate totalDeleted
  else returned estimate totalDeleted

end Phase

/-- The committed table, the database clock and the purge; of all rows, those that were ever stored
and those that the purge has deleted, with the clock of their selection. -/
structure Collection (U : Type) where
  rows : List (DataRow U)
  clock : ℤ
  phase : Phase U
  stored : List (DataRow U)
  purged : List (DataRow U × ℤ)
  deriving DecidableEq, Repr

/-- What becomes of an execution of a statement. -/
inductive Execution where
  | answered
  | replyLost
  | failed
  deriving DecidableEq, Repr

inductive Action (U : Type) where
  | append (rows : List (DataRow U))
  | deleteMetric (uid : U)
  | tick (seconds : ℕ)
  | estimateNumRowsToDelete (execution : Execution)
  | queryCandidateRows (execution : Execution)
  | deleteRows (execution : Execution)
  | giveUp
  deriving DecidableEq, Repr

section Model

variable [LinearOrder U] (settings : Settings)

/-- The predicate of the selection. -/
def isOld (clock : ℤ) (r : DataRow U) : Bool := r.timestamp < clock - settings.thresholdSeconds

/-- The order by uid and rowid. -/
def DataRow.Le (r r' : DataRow U) : Prop := r.uid < r'.uid ∨ (r.uid = r'.uid ∧ r.rowid ≤ r'.rowid)

instance (r r' : DataRow U) : Decidable (r.Le r') := inferInstanceAs (Decidable (_ ∨ _))

def candidateRows (limit : ℕ) (clock : ℤ) (rows : List (DataRow U)) : List (DataRow U) :=
  ((rows.filter (isOld settings clock)).insertionSort DataRow.Le).take limit

def isPaired (uidRowidPairs : List (U × ℕ)) (r : DataRow U) : Bool := r.key ∈ uidRowidPairs

namespace Collection

/-- The table after an execution of the delete statement. -/
def deleteRows (uidRowidPairs : List (U × ℕ)) (selectedAt : ℤ) (s : Collection U) : Collection U :=
  { s with
    rows := s.rows.filter fun r => !isPaired uidRowidPairs r
    purged := s.purged ++ (s.rows.filter (isPaired uidRowidPairs)).map (·, selectedAt) }

def act : Action U → Collection U → Option (Collection U)
  | .append rows, s =>
      -- a rowid comes from the counter of the metric's row
      if (s.stored ++ rows).Pairwise DataRow.Before then
        some { s with rows := s.rows ++ rows, stored := s.stored ++ rows }
      else none
  | .deleteMetric uid, s => some { s with rows := s.rows.filter fun r => r.uid ≠ uid }
  | .tick seconds, s => some { s with clock := s.clock + seconds }
  | .estimateNumRowsToDelete execution, s =>
      match s.phase, execution with
      | .estimating, .answered =>
          some { s with phase := .loop (s.rows.countP (isOld settings s.clock)) 0 }
      | .estimating, _ => some s
      | _, _ => none
  | .queryCandidateRows execution, s =>
      match s.phase, execution with
      | .querying estimate totalDeleted, .answered =>
          let limit := min settings.maxDeleteBatchSize (estimate - totalDeleted)
          let uidRowidPairs := (candidateRows settings limit s.clock s.rows).map DataRow.key
          if uidRowidPairs.isEmpty then some { s with phase := .returned estimate totalDeleted }
          else some { s with phase := .deleting estimate totalDeleted uidRowidPairs s.clock }
      | .querying _ _, _ => some s
      | _, _ => none
  | .deleteRows execution, s =>
      match s.phase, execution with
      | .deleting estimate totalDeleted uidRowidPairs selectedAt, .answered =>
          let numDeleted := s.rows.countP (isPaired uidRowidPairs)
          some { s.deleteRows uidRowidPairs selectedAt with
            phase := .loop estimate (totalDeleted + numDeleted) }
      | .deleting _ _ uidRowidPairs selectedAt, .replyLost =>
          some (s.deleteRows uidRowidPairs selectedAt)
      | .deleting _ _ _ _, .failed => some s
      | _, _ => none
  | .giveUp, s =>
      match s.phase with
      | .returned _ _ => none
      | .raised _ _ => none
      | phase => some { s with phase := .raised phase.estimate phase.totalDeleted }

end Collection

/-- A table before the purge. -/
def collectionSystem : System (Collection U) (Action U) where
  init s := s.rows = s.stored ∧ s.stored.Pairwise DataRow.Before ∧ s.phase = .estimating ∧
    s.purged = []
  next := Collection.act settings

end Model

end NumentaApps.GarbageCollector
