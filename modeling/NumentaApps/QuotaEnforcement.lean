import Mathlib.Data.Finset.Option
import Mathlib.Data.List.DropRight
import NumentaApps.InstanceQuota

/-!
# What the quota checks enforce

A transaction of a request raises the instance count by one if it adds an instance that was
not counted, and never otherwise. The check was made in an earlier transaction, and it looks
for metrics of any status where the count looks for monitored ones.
-/
namespace NumentaApps.Quota
open Repository TransitionSystem

variable {S K : Type} [DecidableEq S]

namespace Database

variable {db : Database S K}

/-! ## The counted instances -/

end Database

/-! ## What a step adds -/

variable [Collation S]

namespace Request

variable [DecidableEq K] {db db' : Database S K} {uid : S} {swarmParams : Bool}

end Request

/-! ## The check and the transactions it is for -/

namespace ModelSpec

variable {quota : ℕ} {db : Database S K}

/-- The request for the model ends with a `QuotaError`. -/
def Refused (quota : ℕ) (db : Database S K) (spec : ModelSpec S K) : Prop :=
  spec.checkQuota quota (spec.getInstanceName db) db

end ModelSpec

namespace Request

variable {quota : ℕ} {db : Database S K}

/-- The check of the request raises if it is made on this database. -/
def Raises (quota : ℕ) (db : Database S K) : Request S K → Prop
  | .admitted spec => spec.Refused quota db
  | .createAutostack name region metricName =>
    (ModelSpec.autostack name region metricName).Refused quota db
  | .monitorAutostack autostackId _ =>
    checkQuotaForInstanceAndRaise quota (some (canonicalResourceName autostackId)) db
  | .monitorCustom _ _ => checkQuotaForCustomMetricAndRaise quota db
  | _ => False

end Request

/-! ## Interleaved requests -/

namespace Service

variable [DecidableEq K] {quota : ℕ} {s t : Service S K}

end Service

/-! ## Requests run alone -/

/-- The steps of a request with nothing in between, one for each identifier at most. -/
def runAlone [DecidableEq K] (quota : ℕ) (swarmParams : Bool) :
    List S → Database S K × Request S K → Database S K × Request S K
  | [], p => p
  | uid :: uids, p =>
    match p.2.step uid swarmParams p.1 quota with
    | some p' => runAlone quota swarmParams uids p'
    | none => p

namespace ModelSpec

variable [DecidableEq K] {quota : ℕ} {db : Database S K} {swarmParams : Bool}

/-- The creation takes the count over the quota. -/
def Exceeds (quota : ℕ) (swarmParams : Bool) (uids : List S) (db : Database S K)
    (spec : ModelSpec S K) : Prop :=
  db.getInstanceCount ≤ quota ∧
    quota < (runAlone quota swarmParams uids (db, .admitted spec)).1.getInstanceCount

end ModelSpec

/-- The texts of the ASCII characters under utf8_general_ci: without case and without the
blanks at the end. -/
structure GeneralCi where
  weights : List Char
  deriving DecidableEq

instance : Collation GeneralCi where
  ofString s := ⟨(s.toList.map Char.toUpper).rdropWhile (· = ' ')⟩
  append s t := ⟨s.weights ++ t.weights⟩

def text (s : String) : GeneralCi := Collation.ofString s

example : text "Web" = text "WEB " := by decide

def emptyDatabase : Database GeneralCi String := ⟨[], [], [], List.nodup_nil⟩

end NumentaApps.Quota
