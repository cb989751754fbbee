import NumentaApps.MetricCollector
import Mathlib.Data.List.Nodup
import Mathlib.Data.List.Perm.Basic

/-!
# What is collected

The results that are saved for a metric make up one collection, of which a collector that dies loses
one batch at most; a metric is put in error only when it has failed for the grace period; and metrics
that failed or had no data are left alone for a while.
-/
namespace NumentaApps.MetricCollection
open TransitionSystem CloudWatch Repository

namespace HtmIt

variable {V : Type} {facts : MetricFacts} {gracePeriod : ℤ} {s t : HtmIt V}

/-! ### The steps -/

/-- What each action does, and when. -/
inductive Moves (facts : MetricFacts) (gracePeriod : ℤ) (s : HtmIt V) : Action V → HtmIt V → Prop where
  | tick {now : ℤ} (hnow : s.clock ≤ now) : Moves facts gracePeriod s (.tick now) { s with clock := now }
  | add {uid : String} (huid : uid ∉ s.known) :
      Moves facts gracePeriod s (.add uid) { s with
        metrics := s.metrics ++ [⟨uid, none, .unmonitored, none, none⟩]
        known := uid :: s.known }
  | remove (uid : String) :
      Moves facts gracePeriod s (.remove uid) { s with
        metrics := s.metrics.filter fun row => row.uid ≠ uid }
  | setStatus (uid : String) (status : MetricStatus) (message : Option CollectorException) :
      Moves facts gracePeriod s (.setStatus uid status message) { s with
        metrics := updateMetric uid (fun row => { row with
          status := status
          message := message }) s.metrics }
  | start (h : s.collector = none) :
      Moves facts gracePeriod s .start { s with collector := some .new }
  | die {collector : MetricCollector V} (h : s.collector = some collector) :
      Moves facts gracePeriod s .die s.die
  | select {collector : MetricCollector V} (h : s.collector = some collector)
      (hcycle : collector.cycle = .idle) :
      Moves facts gracePeriod s .select (s.select facts gracePeriod collector)
  | launch {collector : MetricCollector V} {metrics : List MetricRow} (h : s.collector = some collector)
      (hcycle : collector.cycle = .selected metrics) :
      Moves facts gracePeriod s .launch { s with
        collector := some { (collector.tasks facts s.clock metrics).2 with
          cycle := .collecting metrics s.clock (collector.tasks facts s.clock metrics).1 [] .waiting } }
  | collect {collector : MetricCollector V} {metrics : List MetricRow} {launched creationTime : ℤ}
      {tasks : List Task} {results : List (Result V)} {dispatch : Dispatch V} {i : ℕ} {task : Task}
      {answer : Answer V} {status : Except CollectorException String} (h : s.collector = some collector)
      (hcycle : collector.cycle = .collecting metrics launched tasks results dispatch)
      (htask : tasks[i]? = some task) (hlaunched : launched ≤ creationTime)
      (hclock : creationTime ≤ s.clock) :
      Moves facts gracePeriod s (.collect i creationTime answer status) { s with
        collector := some { collector with
          cycle := .collecting metrics launched (tasks.eraseIdx i)
            (results ++ [MetricCollection.collect facts task creationTime answer status]) dispatch } }
  | receive {collector : MetricCollector V} {metrics : List MetricRow} {launched : ℤ} {tasks : List Task}
      {result : Result V} {results : List (Result V)} (h : s.collector = some collector)
      (hcycle : collector.cycle = .collecting metrics launched tasks (result :: results) .waiting) :
      Moves facts gracePeriod s .dispatch { s with
        collector := some { s.receive facts result collector with
          cycle := .collecting metrics launched tasks results (.saving result) } }
  | save {collector : MetricCollector V} {metrics : List MetricRow} {launched : ℤ} {tasks : List Task}
      {result : Result V} {results : List (Result V)} (h : s.collector = some collector)
      (hcycle : collector.cycle = .collecting metrics launched tasks results (.saving result)) :
      Moves facts gracePeriod s .dispatch { s.save result with
        collector := some { collector with
          cycle := .collecting metrics launched tasks results (.streaming result) } }
  | stream {collector : MetricCollector V} {metrics : List MetricRow} {launched : ℤ} {tasks : List Task}
      {result : Result V} {results : List (Result V)} (h : s.collector = some collector)
      (hcycle : collector.cycle = .collecting metrics launched tasks results (.streaming result)) :
      Moves facts gracePeriod s .dispatch { s.stream with
        collector := some { collector with
          cycle := .collecting metrics launched tasks results (.concluding result) } }
  | conclude {collector : MetricCollector V} {metrics : List MetricRow} {launched : ℤ} {tasks : List Task}
      {result : Result V} {results : List (Result V)} {metric : MetricRow}
      (h : s.collector = some collector)
      (hcycle : collector.cycle = .collecting metrics launched tasks results (.concluding result))
      (hmetric : (metrics.find? fun metric => metric.uid = result.metricID) = some metric) :
      Moves facts gracePeriod s .dispatch (s.conclude facts gracePeriod metric result { collector with
        cycle := .collecting metrics launched tasks results .waiting })
  | miss {collector : MetricCollector V} {metrics : List MetricRow} {launched : ℤ} {tasks : List Task}
      {result : Result V} {results : List (Result V)} (h : s.collector = some collector)
      (hcycle : collector.cycle = .collecting metrics launched tasks results (.concluding result))
      (hmetric : (metrics.find? fun metric => metric.uid = result.metricID) = none) :
      Moves facts gracePeriod s .dispatch s.die
  | finish {collector : MetricCollector V} {metrics : List MetricRow} {launched : ℤ}
      (h : s.collector = some collector)
      (hcycle : collector.cycle = .collecting metrics launched [] [] .waiting) :
      Moves facts gracePeriod s .finish { s with collector := some { collector with cycle := .idle } }

theorem dispatch_moves {collector : MetricCollector V} (h : s.collector = some collector)
    (hn : s.dispatch facts gracePeriod collector = some t) : Moves facts gracePeriod s .dispatch t := by
  rw [dispatch] at hn
  split at hn
  · next hcycle =>
    obtain rfl := Option.some.inj hn
    exact .receive h hcycle
  · next hcycle =>
    obtain rfl := Option.some.inj hn
    exact .save h hcycle
  · next hcycle =>
    obtain rfl := Option.some.inj hn
    exact .stream h hcycle
  · next hcycle =>
    split at hn
    · next hmetric =>
      obtain rfl := Option.some.inj hn
      exact .miss h hcycle hmetric
    · next hmetric =>
      obtain rfl := Option.some.inj hn
      exact .conclude h hcycle hmetric
  · cases hn

theorem act_moves {action : Action V} (h : act facts gracePeriod action s = some t) :
    Moves facts gracePeriod s action t := by
  rw [act.eq_def] at h
  split at h
  · simp only [Option.ite_none_right_eq_some, Option.some.injEq] at h
    obtain ⟨hnow, rfl⟩ := h
    exact .tick hnow
  · simp only [Option.ite_none_left_eq_some, Option.some.injEq] at h
    obtain ⟨huid, rfl⟩ := h
    exact .add huid
  · obtain rfl := Option.some.inj h
    exact .remove _
  · obtain rfl := Option.some.inj h
    exact .setStatus _ _ _
  · next hcollector =>
    obtain rfl := Option.some.inj h
    exact .start hcollector
  · next hcollector =>
    obtain rfl := Option.some.inj h
    exact .die hcollector
  · next hcollector =>
    split at h
    · next hcycle =>
      obtain rfl := Option.some.inj h
      exact .select hcollector hcycle
    · cases h
  · next hcollector =>
    split at h
    · next hcycle =>
      obtain rfl := Option.some.inj h
      exact .launch hcollector hcycle
    · cases h
  · next hcollector =>
    split at h
    · next hcycle =>
      split at h
      · next htask =>
        simp only [Option.ite_none_right_eq_some, Option.some.injEq] at h
        obtain ⟨⟨hlaunched, hclock⟩, rfl⟩ := h
        exact .collect hcollector hcycle htask hlaunched hclock
      · cases h
    · cases h
  · next hcollector => exact dispatch_moves hcollector h
  · next hcollector =>
    split at h
    · next hcycle =>
      obtain rfl := Option.some.inj h
      exact .finish hcollector hcycle
    · cases h
  · cases h

/-! ### Rows -/

section Rows

variable {uid : String} {f : MetricRow → MetricRow} {metrics : List MetricRow} {row : MetricRow}

theorem updateMetric_uids (hf : ∀ row, (f row).uid = row.uid) :
    (updateMetric uid f metrics).map MetricRow.uid = metrics.map MetricRow.uid := by
  rw [updateMetric, List.map_map]
  apply List.map_congr_left
  intro row _
  rw [Function.comp_apply]
  split
  · exact hf row
  · rfl

theorem of_mem_updateMetric (h : row ∈ updateMetric uid f metrics) :
    row.uid ≠ uid ∧ row ∈ metrics ∨ ∃ row' ∈ metrics, row'.uid = uid ∧ row = f row' := by
  obtain ⟨row', hrow', rfl⟩ := List.mem_map.mp h
  split
  · next huid => exact Or.inr ⟨row', hrow', huid, rfl⟩
  · next huid => exact Or.inl ⟨huid, hrow'⟩

theorem eq_of_uid_eq {row' : MetricRow} (hnodup : (metrics.map MetricRow.uid).Nodup)
    (h : row ∈ metrics) (h' : row' ∈ metrics) (huid : row.uid = row'.uid) : row = row' :=
  List.inj_on_of_nodup_map hnodup h h' huid

end Rows

/-! ### What is collected -/

def samplesOf (uid : String) (batches : List (Batch V)) : List (Datapoint V) :=
  (batches.filter fun batch => batch.uid = uid).flatMap Batch.samples

theorem samplesOf_map {f : Batch V → Batch V} (huid : ∀ batch, (f batch).uid = batch.uid)
    (hsamples : ∀ batch, (f batch).samples = batch.samples) (uid : String) (batches : List (Batch V)) :
    samplesOf uid (batches.map f) = samplesOf uid batches := by
  induction batches with
  | nil => rfl
  | cons batch batches ih =>
    rw [samplesOf, samplesOf] at ih
    rw [samplesOf, samplesOf, List.map_cons, List.filter_cons, List.filter_cons, huid]
    split
    · rw [List.flatMap_cons, List.flatMap_cons, hsamples, ih]
    · exact ih

/-- The last outcomes are failures, the first of them at that time. -/
def FailingSince (outcomes : List Outcome) (time : ℤ) : Prop :=
  ∃ earlier first later, outcomes = earlier ++ first :: later ∧ first.time = time ∧
    ∀ outcome ∈ first :: later, outcome.failed = true

theorem FailingSince.append {outcomes : List Outcome} {time : ℤ} {outcome : Outcome}
    (h : FailingSince outcomes time) (hfailed : outcome.failed = true) :
    FailingSince (outcomes ++ [outcome]) time := by
  obtain ⟨earlier, first, later, rfl, htime, hall⟩ := h
  refine ⟨earlier, first, later ++ [outcome], by simp, htime, fun outcome' hmem => ?_⟩
  rcases List.mem_append.mp (List.cons_append ▸ hmem : outcome' ∈ (first :: later) ++ [outcome]) with hmem | hmem
  · exact hall outcome' hmem
  · rw [List.mem_singleton.mp hmem]
    exact hfailed

theorem FailingSince.of_last {outcomes : List Outcome} {outcome : Outcome} (hfailed : outcome.failed = true) :
    FailingSince (outcomes ++ [outcome]) outcome.time := by
  refine ⟨outcomes, outcome, [], rfl, rfl, fun outcome' hmem => ?_⟩
  rw [List.mem_singleton.mp hmem]
  exact hfailed

/-- What the table says of a metric is what its saved results say. -/
structure TableInv (facts : MetricFacts) (gracePeriod : ℤ) (s : HtmIt V) : Prop where
  nodup : (s.metrics.map MetricRow.uid).Nodup
  known : ∀ row ∈ s.metrics, row.uid ∈ s.known
  fresh : ∀ uid ∉ s.known, s.collection uid = ⟨none, [], []⟩
  reachable : ∀ uid, Reachable (collectionSystem V (facts.pollInterval uid)) (s.collection uid)
  started : ∀ row ∈ s.metrics, row.lastTimestamp = (s.collection row.uid).start
  samples : ∀ uid, samplesOf uid s.batches = (s.collection uid).samples
  grace : ∀ row ∈ s.metrics, ∀ error, row.collectorError = some error →
    FailingSince (s.outcomes row.uid) (error.deadline - gracePeriod)

/-- The rows of a later table are new or as they were, but for their status. -/
def RowsFrom (s t : HtmIt V) : Prop :=
  s.known ⊆ t.known ∧ ∀ row ∈ t.metrics, row.uid ∈ s.known → ∃ row' ∈ s.metrics,
    row'.uid = row.uid ∧ row'.lastTimestamp = row.lastTimestamp ∧ row'.collectorError = row.collectorError

theorem rowsFrom_of_metrics (hmetrics : t.metrics = s.metrics) (hknown : t.known = s.known) :
    RowsFrom s t := by
  refine ⟨hknown ▸ List.Subset.refl _, fun row hrow _ => ⟨row, hmetrics ▸ hrow, rfl, rfl, rfl⟩⟩

/-- The row as it was taken from the table. -/
def Current (s : HtmIt V) (metric : MetricRow) : Prop :=
  metric.uid ∈ s.known ∧ ∀ row ∈ s.metrics, row.uid = metric.uid →
    row.lastTimestamp = metric.lastTimestamp ∧ row.collectorError = metric.collectorError

/-- The result is that of a call that starts there. -/
def Came (facts : MetricFacts) (start : Option ℤ) (result : Result V) : Prop :=
  ∀ next, result.nextCallStart = some next → ∃ call : Call V,
    CloudWatch.getMetricData call.service (facts.pollInterval result.metricID) call.now start call.end_ =
      ⟨result.queried, .ok (result.samples, next)⟩

def dispatched : Dispatch V → List (Result V)
  | .waiting => []
  | .saving result => [result]
  | .streaming result => [result]
  | .concluding result => [result]

def unsaved : Dispatch V → List (Result V)
  | .saving result => [result]
  | _ => []

/-- The metrics of a cycle that are not done yet. -/
def inFlight (tasks : List Task) (results : List (Result V)) (dispatch : Dispatch V) : List String :=
  tasks.map Task.metricID ++ ((dispatched dispatch).map Result.metricID ++ results.map Result.metricID)

/-- What is still in flight is of other metrics than a result that is dispatched. -/
theorem ne_of_inFlight {tasks : List Task} {results : List (Result V)} {dispatch : Dispatch V}
    {result : Result V} (h : (inFlight tasks results dispatch).Nodup)
    (hresult : result ∈ dispatched dispatch) {uid : String}
    (hmem : uid ∈ inFlight tasks results (.waiting : Dispatch V)) : uid ≠ result.metricID := by
  obtain ⟨-, hnodup, htasks⟩ := List.nodup_append.mp h
  have hmem' := List.mem_map_of_mem (f := Result.metricID) hresult
  rcases List.mem_append.mp hmem with hmem | hmem
  · exact htasks uid hmem _ (List.mem_append_left _ hmem')
  · exact ((List.nodup_append.mp hnodup).2.2 _ hmem' uid hmem).symm

structure CycleInv (facts : MetricFacts) (s : HtmIt V) (metrics : List MetricRow) (tasks : List Task)
    (results : List (Result V)) (dispatch : Dispatch V) : Prop where
  metrics_nodup : (metrics.map MetricRow.uid).Nodup
  known : ∀ metric ∈ metrics, metric.uid ∈ s.known
  nodup : (inFlight tasks results dispatch).Nodup
  found : ∀ uid ∈ inFlight tasks results dispatch, uid ∈ metrics.map MetricRow.uid
  errors : ∀ metric ∈ metrics, metric.uid ∈ inFlight tasks results dispatch → ∀ row ∈ s.metrics,
    row.uid = metric.uid → row.collectorError = metric.collectorError
  tasks : ∀ task ∈ tasks, ∀ row ∈ s.metrics, row.uid = task.metricID → row.lastTimestamp = task.rangeStart
  results : ∀ result ∈ unsaved dispatch ++ results, ∀ row ∈ s.metrics, row.uid = result.metricID →
    Came facts row.lastTimestamp result

def PhaseInv (facts : MetricFacts) (s : HtmIt V) : Cycle V → Prop
  | .idle => True
  | .selected metrics => (metrics.map MetricRow.uid).Nodup ∧ ∀ metric ∈ metrics, Current s metric
  | .collecting metrics _ tasks results dispatch => CycleInv facts s metrics tasks results dispatch

structure Inv (facts : MetricFacts) (gracePeriod : ℤ) (s : HtmIt V) : Prop where
  table : TableInv facts gracePeriod s
  phase : ∀ collector, s.collector = some collector → PhaseInv facts s collector.cycle

theorem mem_unsaved {dispatch : Dispatch V} {result : Result V} (h : result ∈ unsaved dispatch) :
    result ∈ dispatched dispatch := by
  cases dispatch with
  | saving result' => exact h
  | _ => cases h

theorem CycleInv.known_of_mem {metrics : List MetricRow} {tasks : List Task} {results : List (Result V)}
    {dispatch : Dispatch V} {uid : String} (h : CycleInv facts s metrics tasks results dispatch)
    (huid : uid ∈ inFlight tasks results dispatch) : uid ∈ s.known := by
  obtain ⟨metric, hmetric, rfl⟩ := List.mem_map.mp (h.found uid huid)
  exact h.known metric hmetric

theorem mem_inFlight_task {tasks : List Task} {results : List (Result V)} {dispatch : Dispatch V}
    {task : Task} (h : task ∈ tasks) : task.metricID ∈ inFlight tasks results dispatch :=
  List.mem_append_left _ (List.mem_map_of_mem h)

theorem mem_inFlight_result {tasks : List Task} {results : List (Result V)} {dispatch : Dispatch V}
    {result : Result V} (h : result ∈ unsaved dispatch ++ results) :
    result.metricID ∈ inFlight tasks results dispatch := by
  apply List.mem_append_right
  rw [← List.map_append]
  apply List.mem_map_of_mem
  exact List.mem_append.mpr ((List.mem_append.mp h).imp_left mem_unsaved)

/-- A cycle is not disturbed by changes of the status, nor by metrics that come and go. -/
theorem CycleInv.mono {metrics : List MetricRow} {tasks : List Task} {results : List (Result V)}
    {dispatch : Dispatch V} (h : CycleInv facts s metrics tasks results dispatch) (hrows : RowsFrom s t) :
    CycleInv facts t metrics tasks results dispatch := by
  refine ⟨h.metrics_nodup, fun metric hmetric => hrows.1 (h.known metric hmetric), h.nodup, h.found,
    ?_, ?_, ?_⟩
  · intro metric hmetric hmem row hrow huid
    obtain ⟨row', hrow', huid', -, herror⟩ := hrows.2 row hrow (huid ▸ h.known metric hmetric)
    rw [← herror]
    exact h.errors metric hmetric hmem row' hrow' (huid'.trans huid)
  · intro task htask row hrow huid
    have hknown := h.known_of_mem (mem_inFlight_task htask)
    obtain ⟨row', hrow', huid', hlast, -⟩ := hrows.2 row hrow (huid ▸ hknown)
    rw [← hlast]
    exact h.tasks task htask row' hrow' (huid'.trans huid)
  · intro result hresult row hrow huid
    have hknown := h.known_of_mem (mem_inFlight_result hresult)
    obtain ⟨row', hrow', huid', hlast, -⟩ := hrows.2 row hrow (huid ▸ hknown)
    rw [← hlast]
    exact h.results result hresult row' hrow' (huid'.trans huid)

theorem PhaseInv.mono {cycle : Cycle V} (h : PhaseInv facts s cycle) (hrows : RowsFrom s t) :
    PhaseInv facts t cycle := by
  cases cycle with
  | idle => trivial
  | selected metrics =>
    refine ⟨h.1, fun metric hmetric => ?_⟩
    obtain ⟨hknown, hcurrent⟩ := h.2 metric hmetric
    refine ⟨hrows.1 hknown, fun row hrow huid => ?_⟩
    obtain ⟨row', hrow', huid', hlast, herror⟩ := hrows.2 row hrow (huid ▸ hknown)
    rw [← hlast, ← herror]
    exact hcurrent row' hrow' (huid'.trans huid)
  | collecting metrics launched tasks results dispatch => exact CycleInv.mono h hrows

/-! ### The steps of others -/

theorem add_inv {uid : String} (h : Inv facts gracePeriod s) (huid : uid ∉ s.known) :
    Inv facts gracePeriod { s with
      metrics := s.metrics ++ [⟨uid, none, .unmonitored, none, none⟩]
      known := uid :: s.known } := by
  have hnew : uid ∉ s.metrics.map MetricRow.uid := by
    intro hmem
    obtain ⟨row, hrow, hrow'⟩ := List.mem_map.mp hmem
    exact huid (hrow' ▸ h.table.known row hrow)
  constructor
  · refine ⟨?_, fun row hrow => ?_, fun uid' huid' => ?_, h.table.reachable, fun row hrow => ?_,
      h.table.samples, fun row hrow error herror => ?_⟩
    · rw [List.map_append]
      refine List.nodup_append.mpr ⟨h.table.nodup, List.nodup_singleton _, fun uid₁ h₁ uid₂ h₂ heq => ?_⟩
      have heq' : uid₁ = uid := heq.trans (List.mem_singleton.mp h₂)
      exact hnew (heq' ▸ h₁)
    · rcases List.mem_append.mp hrow with hrow | hrow
      · exact List.mem_cons_of_mem _ (h.table.known row hrow)
      · rw [List.mem_singleton.mp hrow]
        exact List.mem_cons_self
    · exact h.table.fresh uid' fun hmem => huid' (List.mem_cons_of_mem _ hmem)
    · rcases List.mem_append.mp hrow with hrow | hrow
      · exact h.table.started row hrow
      · rw [List.mem_singleton.mp hrow]
        change none = (s.collection uid).start
        rw [h.table.fresh uid huid]
    · rcases List.mem_append.mp hrow with hrow | hrow
      · exact h.table.grace row hrow error herror
      · rw [List.mem_singleton.mp hrow] at herror
        cases herror
  · intro collector hcollector
    refine (h.phase collector hcollector).mono ⟨List.subset_cons_self _ _, fun row hrow hknown => ?_⟩
    rcases List.mem_append.mp hrow with hrow | hrow
    · exact ⟨row, hrow, rfl, rfl, rfl⟩
    · rw [List.mem_singleton.mp hrow] at hknown
      exact absurd hknown huid

theorem remove_inv (uid : String) (h : Inv facts gracePeriod s) :
    Inv facts gracePeriod { s with metrics := s.metrics.filter fun row => row.uid ≠ uid } := by
  constructor
  · refine ⟨?_, fun row hrow => ?_, h.table.fresh, h.table.reachable, fun row hrow => ?_, h.table.samples,
      fun row hrow => ?_⟩
    · exact h.table.nodup.sublist (List.filter_sublist.map _)
    · exact h.table.known row (List.mem_of_mem_filter hrow)
    · exact h.table.started row (List.mem_of_mem_filter hrow)
    · exact h.table.grace row (List.mem_of_mem_filter hrow)
  · intro collector hcollector
    refine (h.phase collector hcollector).mono ⟨List.Subset.refl _, fun row hrow _ => ?_⟩
    exact ⟨row, List.mem_of_mem_filter hrow, rfl, rfl, rfl⟩

theorem setStatus_inv (uid : String) (status : MetricStatus) (message : Option CollectorException)
    (h : Inv facts gracePeriod s) :
    Inv facts gracePeriod { s with
      metrics := updateMetric uid (fun row => { row with
        status := status
        message := message }) s.metrics } := by
  have hrows : ∀ row ∈ updateMetric uid (fun row => { row with
      status := status
      message := message }) s.metrics, ∃ row' ∈ s.metrics, row'.uid = row.uid ∧
        row'.lastTimestamp = row.lastTimestamp ∧ row'.collectorError = row.collectorError := by
    intro row hrow
    rcases of_mem_updateMetric hrow with ⟨-, hrow⟩ | ⟨row', hrow', -, rfl⟩
    · exact ⟨row, hrow, rfl, rfl, rfl⟩
    · exact ⟨row', hrow', rfl, rfl, rfl⟩
  constructor
  · refine ⟨?_, fun row hrow => ?_, h.table.fresh, h.table.reachable, fun row hrow => ?_, h.table.samples,
      fun row hrow error herror => ?_⟩
    · change ((updateMetric _ _ _).map MetricRow.uid).Nodup
      rw [updateMetric_uids]
      · exact h.table.nodup
      · exact fun _ => rfl
    · obtain ⟨row', hrow', huid, -, -⟩ := hrows row hrow
      exact huid ▸ h.table.known row' hrow'
    · obtain ⟨row', hrow', huid, hlast, -⟩ := hrows row hrow
      rw [← hlast, ← huid]
      exact h.table.started row' hrow'
    · obtain ⟨row', hrow', huid, -, herror'⟩ := hrows row hrow
      rw [← huid]
      exact h.table.grace row' hrow' error (herror'.trans herror)
  · intro collector hcollector
    refine (h.phase collector hcollector).mono ⟨List.Subset.refl _, fun row hrow _ => hrows row hrow⟩

/-- The collector changes its own state, or dies. -/
theorem Inv.setCollector {batches : List (Batch V)} {deaths : ℕ} {clock : ℤ}
    {collector : Option (MetricCollector V)} (h : Inv facts gracePeriod s)
    (hbatches : ∀ uid, samplesOf uid batches = samplesOf uid s.batches)
    (hphase : ∀ collector', collector = some collector' → PhaseInv facts s collector'.cycle) :
    Inv facts gracePeriod { s with
      batches := batches
      deaths := deaths
      clock := clock
      collector := collector } := by
  refine ⟨⟨h.table.nodup, h.table.known, h.table.fresh, h.table.reachable, h.table.started, ?_,
    h.table.grace⟩, fun collector' hcollector' => ?_⟩
  · exact fun uid => (hbatches uid).trans (h.table.samples uid)
  · exact (hphase collector' hcollector').mono (rowsFrom_of_metrics rfl rfl)

/-! ### The steps of the collector -/

theorem getMetricsPendingDataCollection_sublist :
    (s.getMetricsPendingDataCollection facts).Sublist s.metrics :=
  List.filter_sublist

/-- The rows of a part of the table. -/
theorem current_of_sublist {metrics : List MetricRow} (h : TableInv facts gracePeriod s)
    (hsublist : metrics.Sublist s.metrics) :
    PhaseInv facts s (if metrics = [] then .idle else .selected metrics) := by
  split
  · trivial
  · refine ⟨h.nodup.sublist (hsublist.map _), fun metric hmetric => ?_⟩
    have hmem := hsublist.subset hmetric
    refine ⟨h.known metric hmem, fun row hrow huid => ?_⟩
    rw [eq_of_uid_eq h.nodup hrow hmem huid]
    exact ⟨rfl, rfl⟩

theorem select_inv {collector : MetricCollector V} (h : Inv facts gracePeriod s) :
    Inv facts gracePeriod (s.select facts gracePeriod collector) := by
  refine h.setCollector (fun _ => rfl) fun collector' hcollector' => ?_
  rw [← Option.some.inj hcollector']
  exact current_of_sublist h.table (List.filter_sublist.trans getMetricsPendingDataCollection_sublist)

theorem task_spec (now : ℤ) (metric : MetricRow) (collector : MetricCollector V) :
    (collector.task facts now metric).1.metricID = metric.uid ∧
      (collector.task facts now metric).1.rangeStart = metric.lastTimestamp := by
  rw [MetricCollector.task]
  split
  · exact ⟨rfl, rfl⟩
  · exact ⟨rfl, rfl⟩

theorem tasks_metricIDs (now : ℤ) (metrics : List MetricRow) (collector : MetricCollector V) :
    (collector.tasks facts now metrics).1.map Task.metricID = metrics.map MetricRow.uid := by
  induction metrics generalizing collector with
  | nil => rfl
  | cons metric metrics ih =>
    rw [MetricCollector.tasks, List.map_cons, List.map_cons, (task_spec now metric collector).1, ih]

theorem mem_tasks (now : ℤ) {metrics : List MetricRow} {collector : MetricCollector V} {task : Task}
    (h : task ∈ (collector.tasks facts now metrics).1) :
    ∃ metric ∈ metrics, task.metricID = metric.uid ∧ task.rangeStart = metric.lastTimestamp := by
  induction metrics generalizing collector with
  | nil => cases h
  | cons metric metrics ih =>
    rcases List.mem_cons.mp h with rfl | h
    · exact ⟨metric, List.mem_cons_self, task_spec now metric collector⟩
    · obtain ⟨metric', hmetric', hspec⟩ := ih h
      exact ⟨metric', List.mem_cons_of_mem _ hmetric', hspec⟩

theorem launch_inv {collector : MetricCollector V} {metrics : List MetricRow}
    (h : Inv facts gracePeriod s) (hcollector : s.collector = some collector)
    (hcycle : collector.cycle = .selected metrics) :
    Inv facts gracePeriod { s with
      collector := some { (collector.tasks facts s.clock metrics).2 with
        cycle := .collecting metrics s.clock (collector.tasks facts s.clock metrics).1 [] .waiting } } := by
  have hphase := h.phase collector hcollector
  rw [hcycle] at hphase
  obtain ⟨hnodup, hcurrent⟩ := hphase
  have hflight : inFlight (collector.tasks facts s.clock metrics).1 ([] : List (Result V)) .waiting =
      metrics.map MetricRow.uid := by
    rw [inFlight, tasks_metricIDs]
    exact List.append_nil _
  refine h.setCollector (fun _ => rfl) fun collector' hcollector' => ?_
  rw [← Option.some.inj hcollector']
  refine ⟨hnodup, fun metric hmetric => (hcurrent metric hmetric).1, hflight ▸ hnodup,
    fun uid huid => hflight ▸ huid, ?_, ?_, fun result hresult => absurd hresult List.not_mem_nil⟩
  · exact fun metric hmetric _ row hrow huid => ((hcurrent metric hmetric).2 row hrow huid).2
  · intro task htask row hrow huid
    obtain ⟨metric, hmetric, hid, hstart⟩ := mem_tasks s.clock htask
    rw [hstart]
    exact ((hcurrent metric hmetric).2 row hrow (huid.trans hid)).1

theorem collect_metricID (task : Task) (creationTime : ℤ) (answer : Answer V)
    (status : Except CollectorException String) :
    (MetricCollection.collect facts task creationTime answer status).metricID = task.metricID := by
  cases answer with
  | failed text => rfl
  | called service now =>
    simp only [MetricCollection.collect]
    split <;> rfl

/-- A worker collects from where its task starts. -/
theorem collect_came (task : Task) (creationTime : ℤ) (answer : Answer V)
    (status : Except CollectorException String) :
    Came facts task.rangeStart (MetricCollection.collect facts task creationTime answer status) := by
  cases answer with
  | failed text =>
    intro next hnext
    cases hnext
  | called service now =>
    simp only [MetricCollection.collect]
    split
    · intro next hnext
      cases hnext
    · next samples next hresult =>
      intro next' hnext
      obtain rfl := Option.some.inj hnext
      exact ⟨⟨service, now, none⟩, congrArg (Collected.mk _) hresult⟩

theorem inFlight_collect {tasks : List Task} {results : List (Result V)} {dispatch : Dispatch V} {i : ℕ}
    {task : Task} (htask : tasks[i]? = some task) {result : Result V} (hid : result.metricID = task.metricID) :
    (inFlight (tasks.eraseIdx i) (results ++ [result]) dispatch).Perm (inFlight tasks results dispatch) := by
  have htasks : tasks.Perm (task :: tasks.eraseIdx i) := by
    obtain ⟨hi, rfl⟩ := List.getElem?_eq_some_iff.mp htask
    exact (List.getElem_cons_eraseIdx_perm hi).symm
  have hmap := htasks.map Task.metricID
  rw [inFlight, inFlight, List.map_append, ← List.append_assoc (List.map _ _) (List.map _ results),
    ← List.append_assoc (List.map _ (tasks.eraseIdx i))]
  refine List.perm_append_comm.trans ?_
  rw [List.map_singleton, hid]
  exact (hmap.append_right _).symm

theorem collect_inv {collector : MetricCollector V} {metrics : List MetricRow}
    {launched creationTime : ℤ} {tasks : List Task} {results : List (Result V)} {dispatch : Dispatch V}
    {i : ℕ} {task : Task} (answer : Answer V) (status : Except CollectorException String)
    (h : Inv facts gracePeriod s) (hcollector : s.collector = some collector)
    (hcycle : collector.cycle = .collecting metrics launched tasks results dispatch)
    (htask : tasks[i]? = some task) :
    Inv facts gracePeriod { s with
      collector := some { collector with
        cycle := .collecting metrics launched (tasks.eraseIdx i)
          (results ++ [MetricCollection.collect facts task creationTime answer status]) dispatch } } := by
  have hphase := h.phase collector hcollector
  rw [hcycle] at hphase
  have hcycleInv : CycleInv facts s metrics tasks results dispatch := hphase
  have hperm : (inFlight (tasks.eraseIdx i)
      (results ++ [MetricCollection.collect facts task creationTime answer status]) dispatch).Perm
        (inFlight tasks results dispatch) :=
    inFlight_collect htask (collect_metricID task creationTime answer status)
  refine h.setCollector (fun _ => rfl) fun collector' hcollector' => ?_
  rw [← Option.some.inj hcollector']
  refine ⟨hcycleInv.metrics_nodup, hcycleInv.known, hperm.nodup_iff.mpr hcycleInv.nodup, ?_, ?_, ?_, ?_⟩
  · exact fun uid huid => hcycleInv.found uid (hperm.mem_iff.mp huid)
  · exact fun metric hmetric huid => hcycleInv.errors metric hmetric (hperm.mem_iff.mp huid)
  · exact fun task' htask' => hcycleInv.tasks task' (List.mem_of_mem_eraseIdx htask')
  · intro result hresult row hrow huid
    rw [← List.append_assoc] at hresult
    rcases List.mem_append.mp hresult with hresult | hresult
    · exact hcycleInv.results result hresult row hrow huid
    · rw [List.mem_singleton.mp hresult] at huid ⊢
      rw [collect_metricID] at huid
      rw [hcycleInv.tasks task (List.mem_of_getElem? htask) row hrow huid]
      exact collect_came task creationTime answer status

/-- The next result is taken. -/
theorem receive_inv {collector collector' : MetricCollector V} {metrics : List MetricRow} {launched : ℤ}
    {tasks : List Task} {result : Result V} {results : List (Result V)} (h : Inv facts gracePeriod s)
    (hcollector : s.collector = some collector)
    (hcycle : collector.cycle = .collecting metrics launched tasks (result :: results) .waiting) :
    Inv facts gracePeriod { s with
      collector := some { collector' with
        cycle := .collecting metrics launched tasks results (.saving result) } } := by
  have hphase := h.phase collector hcollector
  rw [hcycle] at hphase
  refine h.setCollector (fun _ => rfl) fun collector' hcollector' => ?_
  rw [← Option.some.inj hcollector']
  exact ⟨hphase.metrics_nodup, hphase.known, hphase.nodup, hphase.found, hphase.errors, hphase.tasks,
    hphase.results⟩

theorem stream_samplesOf (uid : String) : samplesOf uid s.stream.batches = samplesOf uid s.batches := by
  apply samplesOf_map
  · intro batch
    split <;> rfl
  · intro batch
    split <;> rfl

theorem die_samplesOf (uid : String) : samplesOf uid s.die.batches = samplesOf uid s.batches := by
  apply samplesOf_map
  · intro batch
    split <;> rfl
  · intro batch
    split <;> rfl

theorem die_inv (h : Inv facts gracePeriod s) : Inv facts gracePeriod s.die := by
  refine h.setCollector die_samplesOf fun collector' hcollector' => ?_
  cases hcollector'

/-- The data of the result are given to the streamer. -/
theorem stream_inv {collector : MetricCollector V} {metrics : List MetricRow} {launched : ℤ}
    {tasks : List Task} {result : Result V} {results : List (Result V)} (h : Inv facts gracePeriod s)
    (hcollector : s.collector = some collector)
    (hcycle : collector.cycle = .collecting metrics launched tasks results (.streaming result)) :
    Inv facts gracePeriod { s.stream with
      collector := some { collector with
        cycle := .collecting metrics launched tasks results (.concluding result) } } := by
  have hphase := h.phase collector hcollector
  rw [hcycle] at hphase
  refine h.setCollector stream_samplesOf fun collector' hcollector' => ?_
  rw [← Option.some.inj hcollector']
  exact ⟨hphase.metrics_nodup, hphase.known, hphase.nodup, hphase.found, hphase.errors, hphase.tasks,
    hphase.results⟩

/-! ### Saving -/

/-- A saved result is a step of the collection. -/
theorem collection_step {result : Result V} {next : ℤ} {collection : Collection V}
    (hresult : Came facts collection.start result) (hnext : result.nextCallStart = some next) :
    ∃ call, (collectionSystem V (facts.pollInterval result.metricID)).next call collection =
      some ⟨some next, collection.queried ++ result.queried, collection.samples ++ result.samples⟩ := by
  obtain ⟨call, hcall⟩ := hresult next hnext
  refine ⟨call, ?_⟩
  have hget : collection.getMetricData (facts.pollInterval result.metricID) call =
    ⟨result.queried, .ok (result.samples, next)⟩ := hcall
  change collection.collect _ call = _
  rw [Collection.collect, hget]

theorem save_table {result : Result V} {next : ℤ} (h : TableInv facts gracePeriod s)
    (hresult : ∀ row ∈ s.metrics, row.uid = result.metricID → Came facts row.lastTimestamp result)
    (hnext : result.nextCallStart = some next) (hmem : result.metricID ∈ s.metrics.map MetricRow.uid) :
    TableInv facts gracePeriod (s.save result) := by
  obtain ⟨metric, hmetric, huid⟩ := List.mem_map.mp hmem
  have hcame := hresult metric hmetric huid
  rw [h.started metric hmetric, huid] at hcame
  simp only [save, hnext, if_pos hmem]
  refine ⟨?_, fun row hrow => ?_, fun uid hunknown => ?_, fun uid => ?_, fun row hrow => ?_, fun uid => ?_,
    fun row hrow error herror => ?_⟩
  · rw [updateMetric_uids]
    · exact h.nodup
    · exact fun _ => rfl
  · rcases of_mem_updateMetric hrow with ⟨-, hrow⟩ | ⟨row', hrow', -, rfl⟩
    · exact h.known row hrow
    · exact h.known row' hrow'
  · have hne : uid ≠ result.metricID := by
      rintro rfl
      exact hunknown (huid ▸ h.known metric hmetric)
    dsimp only
    rw [Function.update_of_ne hne]
    exact h.fresh uid hunknown
  · by_cases hid : uid = result.metricID
    · subst hid
      obtain ⟨call, hstep⟩ := collection_step hcame hnext
      dsimp only
      rw [Function.update_self]
      exact .step call (h.reachable _) hstep
    · dsimp only
      rw [Function.update_of_ne hid]
      exact h.reachable uid
  · rcases of_mem_updateMetric hrow with ⟨hne, hrow⟩ | ⟨row', hrow', hid, rfl⟩
    · dsimp only
      rw [Function.update_of_ne hne]
      exact h.started row hrow
    · change some next = (Function.update s.collection result.metricID _ row'.uid).start
      rw [hid, Function.update_self]
  · rw [samplesOf, List.filter_append, List.flatMap_append, ← samplesOf, h.samples uid]
    by_cases hid : uid = result.metricID
    · subst hid
      dsimp only
      rw [Function.update_self, List.filter_cons_of_pos (by simp), List.filter_nil, List.flatMap_singleton]
    · dsimp only
      rw [Function.update_of_ne hid, List.filter_cons_of_neg (by simpa using Ne.symm hid), List.filter_nil]
      exact List.append_nil _
  · rcases of_mem_updateMetric hrow with ⟨-, hrow⟩ | ⟨row', hrow', -, rfl⟩
    · exact h.grace row hrow error herror
    · exact h.grace row' hrow' error herror

theorem save_inv {collector : MetricCollector V} {metrics : List MetricRow} {launched : ℤ}
    {tasks : List Task} {result : Result V} {results : List (Result V)} (h : Inv facts gracePeriod s)
    (hcollector : s.collector = some collector)
    (hcycle : collector.cycle = .collecting metrics launched tasks results (.saving result)) :
    Inv facts gracePeriod { s.save result with
      collector := some { collector with
        cycle := .collecting metrics launched tasks results (.streaming result) } } := by
  have hphase := h.phase collector hcollector
  rw [hcycle] at hphase
  have hcycleInv : CycleInv facts s metrics tasks results (.saving result) := hphase
  have hresults : ∀ result' ∈ results, ∀ row ∈ s.metrics, row.uid = result'.metricID →
      Came facts row.lastTimestamp result' :=
    fun result' hmem => hcycleInv.results result' (List.mem_cons_of_mem _ hmem)
  have hunsaved : CycleInv facts s metrics tasks results (.streaming result) :=
    ⟨hcycleInv.metrics_nodup, hcycleInv.known, hcycleInv.nodup, hcycleInv.found, hcycleInv.errors,
      hcycleInv.tasks, hresults⟩
  by_cases hsaves : result.nextCallStart.isSome ∧ result.metricID ∈ s.metrics.map MetricRow.uid
  · obtain ⟨hsome, hmem⟩ := hsaves
    obtain ⟨next, hnext⟩ := Option.isSome_iff_exists.mp hsome
    have htable := save_table h.table
      (fun row hrow huid => hcycleInv.results result List.mem_cons_self row hrow huid) hnext hmem
    have htable' : TableInv facts gracePeriod { s.save result with
        collector := some { collector with
          cycle := .collecting metrics launched tasks results (.streaming result) } } :=
      ⟨htable.nodup, htable.known, htable.fresh, htable.reachable, htable.started, htable.samples, htable.grace⟩
    refine ⟨htable', fun collector' hcollector' => ?_⟩
    rw [← Option.some.inj hcollector']
    simp only [save, hnext, if_pos hmem]
    -- what is still in flight is of other metrics
    have hne : ∀ uid ∈ inFlight tasks results (.waiting : Dispatch V), uid ≠ result.metricID :=
      fun uid hmem => ne_of_inFlight hcycleInv.nodup (List.mem_singleton_self _) hmem
    have htasks : ∀ task ∈ tasks, task.metricID ≠ result.metricID := fun task htask =>
      hne _ (List.mem_append_left _ (List.mem_map_of_mem htask))
    have hothers : ∀ result' ∈ results, result'.metricID ≠ result.metricID := fun result' hmem' =>
      hne _ (List.mem_append_right _ (List.mem_map_of_mem hmem'))
    refine ⟨hcycleInv.metrics_nodup, hcycleInv.known, hcycleInv.nodup, hcycleInv.found,
      fun metric hmetric hflight row hrow huid => ?_, fun task htask row hrow huid => ?_,
      fun result' hmem' row hrow huid => ?_⟩
    · rcases of_mem_updateMetric hrow with ⟨-, hrow⟩ | ⟨row', hrow', hid, rfl⟩
      · exact hcycleInv.errors metric hmetric hflight row hrow huid
      · exact hcycleInv.errors metric hmetric hflight row' hrow' huid
    · rcases of_mem_updateMetric hrow with ⟨-, hrow⟩ | ⟨row', hrow', hid, rfl⟩
      · exact hcycleInv.tasks task htask row hrow huid
      · exact absurd (huid.symm.trans hid) (htasks task htask)
    · rcases of_mem_updateMetric hrow with ⟨-, hrow⟩ | ⟨row', hrow', hid, rfl⟩
      · exact hresults result' hmem' row hrow huid
      · exact absurd (huid.symm.trans hid) (hothers result' hmem')
  · have hsame : s.save result = s := by
      rw [save]
      split
      · rfl
      · next next hnext =>
        rw [if_neg fun hmem => hsaves ⟨Option.isSome_iff_exists.mpr ⟨next, hnext⟩, hmem⟩]
    rw [hsame]
    refine h.setCollector (fun _ => rfl) fun collector' hcollector' => ?_
    rw [← Option.some.inj hcollector']
    exact hunsaved

/-! ### Errors -/

/-- What becomes of the row of a metric whose result is done. -/
def Concluded (gracePeriod clock : ℤ) (metric row' row : MetricRow) : Option CollectorException → Prop
  | none => row.collectorError = none ∧ row.status = row'.status
  | some error =>
    match metric.collectorError with
    | none => row.collectorError = some ⟨clock + gracePeriod, error⟩ ∧ row.status = row'.status
    | some old => row.collectorError = row'.collectorError ∧
        (row.status = row'.status ∨ row.status = .error ∧ old.deadline < clock)

/-- The rows after the errors of a result were taken care of. -/
theorem conclude_metrics {metric : MetricRow} {result : Result V} {collector : MetricCollector V}
    (herrors : ∀ row ∈ s.metrics, row.uid = metric.uid → row.collectorError = metric.collectorError)
    {row : MetricRow} (hrow : row ∈ (s.conclude facts gracePeriod metric result collector).metrics) :
    row.uid ≠ metric.uid ∧ row ∈ s.metrics ∨
      ∃ row' ∈ s.metrics, row'.uid = metric.uid ∧ row.uid = metric.uid ∧
        row.lastTimestamp = row'.lastTimestamp ∧
          Concluded gracePeriod s.clock metric row' row (errorOf facts metric result collector) := by
  rw [conclude] at hrow
  split at hrow
  · next error herror =>
    rw [herror]
    rw [handleMetricCollectionError] at hrow
    cases hcollector : metric.collectorError with
    | none =>
      rw [hcollector] at hrow
      simp only [Concluded, hcollector]
      rcases of_mem_updateMetric hrow with hother | ⟨row', hrow', huid, rfl⟩
      · exact Or.inl hother
      · exact Or.inr ⟨row', hrow', huid, huid, rfl, rfl, rfl⟩
    | some old =>
      rw [hcollector] at hrow
      simp only [Concluded, hcollector]
      dsimp only at hrow
      split at hrow
      · next hexpired =>
        rcases of_mem_updateMetric hrow with hother | ⟨row', hrow', huid, rfl⟩
        · exact Or.inl hother
        · exact Or.inr ⟨row', hrow', huid, huid, rfl, rfl, Or.inr ⟨rfl, hexpired⟩⟩
      · by_cases huid : row.uid = metric.uid
        · exact Or.inr ⟨row, hrow, huid, huid, rfl, rfl, Or.inl rfl⟩
        · exact Or.inl ⟨huid, hrow⟩
  · next herror =>
    rw [herror]
    dsimp only at hrow
    split at hrow
    · rcases of_mem_updateMetric hrow with hother | ⟨row', hrow', huid, rfl⟩
      · exact Or.inl hother
      · exact Or.inr ⟨row', hrow', huid, huid, rfl, rfl, rfl⟩
    · next hnone =>
      by_cases huid : row.uid = metric.uid
      · have hclear := herrors row hrow huid
        rw [Option.not_isSome_iff_eq_none.mp hnone] at hclear
        exact Or.inr ⟨row, hrow, huid, huid, rfl, hclear, rfl⟩
      · exact Or.inl ⟨huid, hrow⟩

theorem conclude_uids {metric : MetricRow} {result : Result V} {collector : MetricCollector V} :
    (s.conclude facts gracePeriod metric result collector).metrics.map MetricRow.uid =
      s.metrics.map MetricRow.uid := by
  rw [conclude]
  split
  · rw [handleMetricCollectionError]
    split
    · exact updateMetric_uids fun _ => rfl
    · split
      · exact updateMetric_uids fun _ => rfl
      · rfl
  · dsimp only
    split
    · exact updateMetric_uids fun _ => rfl
    · rfl

/-- The rest of the state after a result is done. -/
theorem conclude_rest (facts : MetricFacts) (gracePeriod : ℤ) (metric : MetricRow) (result : Result V)
    (collector : MetricCollector V) :
    ∃ collector' : MetricCollector V,
      (s.conclude facts gracePeriod metric result collector).collector = some collector' ∧
        collector'.cycle = collector.cycle ∧
      (s.conclude facts gracePeriod metric result collector).known = s.known ∧
      (s.conclude facts gracePeriod metric result collector).collection = s.collection ∧
      (s.conclude facts gracePeriod metric result collector).batches = s.batches ∧
      (s.conclude facts gracePeriod metric result collector).outcomes =
        Function.update s.outcomes metric.uid (s.outcomes metric.uid ++ [⟨s.deaths, s.clock,
          result.creationTime, (errorOf facts metric result collector).isSome, result.isEmpty⟩]) := by
  rw [conclude]
  split
  · next herror => exact ⟨_, rfl, rfl, rfl, rfl, rfl, by rw [herror]⟩
  · next herror => exact ⟨_, rfl, rfl, rfl, rfl, rfl, by rw [herror]⟩

/-- The deadline of a metric in its grace period is that of its first failure. -/
theorem Concluded.grace {metric row' row : MetricRow} {error? : Option CollectorException} {run : ℕ}
    {creationTime : ℤ} {empty : Bool} (h : Concluded gracePeriod s.clock metric row' row error?)
    (hgrace : ∀ error, row'.collectorError = some error →
      FailingSince (s.outcomes metric.uid) (error.deadline - gracePeriod))
    {error : CollectorError} (herror : row.collectorError = some error) :
    FailingSince (s.outcomes metric.uid ++ [⟨run, s.clock, creationTime, error?.isSome, empty⟩])
      (error.deadline - gracePeriod) := by
  cases error? with
  | none =>
    rw [h.1] at herror
    cases herror
  | some ex =>
    rw [Concluded] at h
    split at h
    · have hnew := Option.some.inj (h.1.symm.trans herror)
      have hlast : FailingSince (s.outcomes metric.uid ++ [⟨run, s.clock, creationTime, true, empty⟩]) s.clock :=
        .of_last rfl
      have htime : error.deadline - gracePeriod = s.clock := by
        rw [← hnew]
        exact Int.add_sub_cancel _ _
      rw [htime]
      exact hlast
    · exact (hgrace error (h.1.symm.trans herror)).append rfl

theorem conclude_inv {collector : MetricCollector V} {metrics : List MetricRow} {launched : ℤ}
    {tasks : List Task} {result : Result V} {results : List (Result V)} {metric : MetricRow}
    (h : Inv facts gracePeriod s) (hcollector : s.collector = some collector)
    (hcycle : collector.cycle = .collecting metrics launched tasks results (.concluding result))
    (hmetric : (metrics.find? fun metric => metric.uid = result.metricID) = some metric) :
    Inv facts gracePeriod (s.conclude facts gracePeriod metric result { collector with
      cycle := .collecting metrics launched tasks results .waiting }) := by
  have hphase := h.phase collector hcollector
  rw [hcycle] at hphase
  have hcycleInv : CycleInv facts s metrics tasks results (.concluding result) := hphase
  have hmem := List.mem_of_find?_eq_some hmetric
  have huid : metric.uid = result.metricID := by simpa using List.find?_some hmetric
  have hflight : metric.uid ∈ inFlight tasks results (.concluding result) := by
    rw [huid]
    exact List.mem_append_right _ (List.mem_append_left _ (List.mem_singleton_self _))
  have herrors := hcycleInv.errors metric hmem hflight
  obtain ⟨collector', hcollector', hcycle', hknown, hcollection, hbatches, houtcomes⟩ :=
    conclude_rest (s := s) facts gracePeriod metric result { collector with
      cycle := .collecting metrics launched tasks results .waiting }
  constructor
  · refine ⟨?_, fun row hrow => ?_, ?_, ?_, fun row hrow => ?_, ?_, fun row hrow error herror => ?_⟩
    · rw [conclude_uids]
      exact h.table.nodup
    · rw [hknown]
      rcases conclude_metrics herrors hrow with ⟨-, hrow⟩ | ⟨row', hrow', hid', hid, -⟩
      · exact h.table.known row hrow
      · rw [hid, ← hid']
        exact h.table.known row' hrow'
    · rw [hknown, hcollection]
      exact h.table.fresh
    · rw [hcollection]
      exact h.table.reachable
    · rw [hcollection]
      rcases conclude_metrics herrors hrow with ⟨-, hrow⟩ | ⟨row', hrow', hid', hid, hlast, -⟩
      · exact h.table.started row hrow
      · rw [hlast, hid, ← hid']
        exact h.table.started row' hrow'
    · rw [hcollection, hbatches]
      exact h.table.samples
    · rw [houtcomes]
      rcases conclude_metrics herrors hrow with ⟨hne, hrow⟩ | ⟨row', hrow', hid', hid, -, hconcluded⟩
      · rw [Function.update_of_ne hne]
        exact h.table.grace row hrow error herror
      · rw [hid, Function.update_self]
        refine hconcluded.grace (fun error' herror' => ?_) herror
        rw [← hid']
        exact h.table.grace row' hrow' error' herror'
  · intro collector'' hcollector''
    obtain rfl := Option.some.inj (hcollector'.symm.trans hcollector'')
    rw [hcycle']
    -- what is still in flight is of other metrics
    have hsublist : (inFlight tasks results (.waiting : Dispatch V)).Sublist
        (inFlight tasks results (.concluding result)) :=
      (List.sublist_append_right _ _).append_left _
    have hne : ∀ uid ∈ inFlight tasks results (.waiting : Dispatch V), uid ≠ result.metricID :=
      fun uid hmem => ne_of_inFlight hcycleInv.nodup (List.mem_singleton_self _) hmem
    have htasks : ∀ task ∈ tasks, task.metricID ≠ result.metricID := fun task htask =>
      hne _ (List.mem_append_left _ (List.mem_map_of_mem htask))
    have hothers : ∀ result' ∈ results, result'.metricID ≠ result.metricID := fun result' hmem' =>
      hne _ (List.mem_append_right _ (List.mem_map_of_mem hmem'))
    refine ⟨hcycleInv.metrics_nodup, hknown ▸ hcycleInv.known, hcycleInv.nodup.sublist hsublist,
      fun uid hmem' => hcycleInv.found uid (hsublist.subset hmem'), ?_, ?_, ?_⟩
    · intro metric' hmetric' hflight' row hrow hid
      rcases conclude_metrics herrors hrow with ⟨-, hrow⟩ | ⟨row', -, -, hid'', -⟩
      · exact hcycleInv.errors metric' hmetric' (hsublist.subset hflight') row hrow hid
      · exact absurd (hid.symm.trans (hid''.trans huid)) (hne _ hflight')
    · intro task htask row hrow hid
      rcases conclude_metrics herrors hrow with ⟨-, hrow⟩ | ⟨row', -, -, hid'', -⟩
      · exact hcycleInv.tasks task htask row hrow hid
      · exact absurd (hid.symm.trans (hid''.trans huid)) (htasks task htask)
    · intro result' hresult' row hrow hid
      rcases conclude_metrics herrors hrow with ⟨-, hrow⟩ | ⟨row', -, -, hid'', -⟩
      · exact hcycleInv.results result' hresult' row hrow hid
      · exact absurd (hid.symm.trans (hid''.trans huid)) (hothers result' hresult')

/-! ### Runs -/

theorem Inv.moves {action : Action V} (h : Inv facts gracePeriod s)
    (hmoves : Moves facts gracePeriod s action t) : Inv facts gracePeriod t := by
  cases hmoves with
  | tick hnow => exact h.setCollector (fun _ => rfl) h.phase
  | add huid => exact add_inv h huid
  | remove uid => exact remove_inv uid h
  | setStatus uid status message => exact setStatus_inv uid status message h
  | start hcollector =>
    refine h.setCollector (fun _ => rfl) fun collector' hcollector' => ?_
    rw [← Option.some.inj hcollector']
    trivial
  | die hcollector => exact die_inv h
  | select hcollector hcycle => exact select_inv h
  | launch hcollector hcycle => exact launch_inv h hcollector hcycle
  | collect hcollector hcycle htask hlaunched hclock => exact collect_inv _ _ h hcollector hcycle htask
  | receive hcollector hcycle => exact receive_inv h hcollector hcycle
  | save hcollector hcycle => exact save_inv h hcollector hcycle
  | stream hcollector hcycle => exact stream_inv h hcollector hcycle
  | conclude hcollector hcycle hmetric => exact conclude_inv h hcollector hcycle hmetric
  | miss hcollector hcycle hmetric => exact die_inv h
  | finish hcollector hcycle =>
    refine h.setCollector (fun _ => rfl) fun collector' hcollector' => ?_
    rw [← Option.some.inj hcollector']
    trivial

theorem init_inv (h : (system facts gracePeriod).init s) : Inv facts gracePeriod s := by
  obtain ⟨hmetrics, hcollector, hknown, hcollection, hbatches, -, -⟩ := h
  constructor
  · refine ⟨?_, ?_, ?_, ?_, ?_, ?_, ?_⟩
    · rw [hmetrics]
      exact List.nodup_nil
    · simp [hmetrics]
    · intro uid _
      rw [hcollection]
    · intro uid
      rw [hcollection]
      exact .init ⟨rfl, rfl⟩
    · simp [hmetrics]
    · intro uid
      rw [hcollection, hbatches]
      rfl
    · simp [hmetrics]
  · intro collector hcollector'
    rw [hcollector] at hcollector'
    cases hcollector'

end HtmIt

end NumentaApps.MetricCollection
