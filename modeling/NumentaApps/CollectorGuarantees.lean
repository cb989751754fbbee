import NumentaApps.MetricCollection

/-!
# What the metric collector guarantees

In every run, whatever is added, removed and activated meanwhile, and wherever the collector dies.
-/
namespace NumentaApps.MetricCollection
open TransitionSystem CloudWatch Repository

namespace HtmIt

variable {V : Type} {facts : MetricFacts} {gracePeriod : ℤ} {s t : HtmIt V}

/-! ### What is lost -/

/-- The data of one result may be saved and not given to the streamer yet. -/
def mayPend : Cycle V → ℕ
  | .collecting _ _ _ _ (.streaming _) => 1
  | _ => 0

theorem mayPend_le (cycle : Cycle V) : mayPend cycle ≤ 1 := by
  rw [mayPend.eq_def]
  split <;> decide

def lostCount (batches : List (Batch V)) : ℕ := batches.countP fun batch => batch.fate = .lost

def pendingCount (batches : List (Batch V)) : ℕ := batches.countP fun batch => batch.fate = .pending

structure Fates (s : HtmIt V) : Prop where
  lost : lostCount s.batches ≤ s.deaths
  settled : s.collector = none → pendingCount s.batches = 0
  pending : ∀ collector, s.collector = some collector → pendingCount s.batches ≤ mayPend collector.cycle

/-- Each batch has its new fate. -/
theorem countP_fate {f : Batch V → Batch V} {p q : Batch V → Bool} (h : ∀ batch, p (f batch) = q batch)
    (batches : List (Batch V)) : (batches.map f).countP p = batches.countP q := by
  rw [List.countP_map]
  exact List.countP_congr fun batch _ => by rw [Function.comp_apply, h]

theorem counts_die (s : HtmIt V) :
    lostCount s.die.batches = lostCount s.batches + pendingCount s.batches ∧
      pendingCount s.die.batches = 0 := by
  constructor
  · have hlost : lostCount s.die.batches =
        s.batches.countP fun batch => batch.fate = .lost ∨ batch.fate = .pending := by
      refine countP_fate (fun batch => ?_) s.batches
      cases hfate : batch.fate <;> simp [hfate]
    rw [hlost, lostCount, pendingCount]
    clear hlost
    induction s.batches with
    | nil => rfl
    | cons batch batches ih =>
      rw [List.countP_cons, List.countP_cons, List.countP_cons, ih]
      cases batch.fate <;> simp <;> omega
  · have hpending : pendingCount s.die.batches = s.batches.countP fun _ => false := by
      refine countP_fate (fun batch => ?_) s.batches
      cases hfate : batch.fate <;> simp [hfate]
    rw [hpending, List.countP_false]
    rfl

theorem counts_stream (s : HtmIt V) :
    lostCount s.stream.batches = lostCount s.batches ∧ pendingCount s.stream.batches = 0 := by
  constructor
  · refine countP_fate (fun batch => ?_) s.batches
    cases hfate : batch.fate <;> simp [hfate]
  · have hpending : pendingCount s.stream.batches = s.batches.countP fun _ => false := by
      refine countP_fate (fun batch => ?_) s.batches
      cases hfate : batch.fate <;> simp [hfate]
    rw [hpending, List.countP_false]
    rfl

theorem counts_save (result : Result V) (s : HtmIt V) :
    lostCount (s.save result).batches = lostCount s.batches ∧
      pendingCount (s.save result).batches ≤ pendingCount s.batches + 1 := by
  rw [save]
  split
  · exact ⟨rfl, Nat.le_succ _⟩
  · split
    · simp [lostCount, pendingCount]
    · exact ⟨rfl, Nat.le_succ _⟩

theorem save_deaths (result : Result V) (s : HtmIt V) : (s.save result).deaths = s.deaths := by
  rw [save]
  split
  · rfl
  · split <;> rfl

theorem conclude_deaths (facts : MetricFacts) (gracePeriod : ℤ) (metric : MetricRow) (result : Result V) (collector : MetricCollector V) :
    (s.conclude facts gracePeriod metric result collector).deaths = s.deaths := by
  rw [conclude]
  split <;> rfl

/-- A step after which no more data are pending than before, or none. -/
theorem fates_of_collector {collector : MetricCollector V} (hlost : lostCount t.batches ≤ t.deaths)
    (hcollector : t.collector = some collector) (hpending : pendingCount t.batches ≤ mayPend collector.cycle) :
    Fates t := by
  refine ⟨hlost, fun hnone => ?_, fun collector' hcollector' => ?_⟩
  · rw [hcollector] at hnone
    cases hnone
  · rw [← Option.some.inj (hcollector.symm.trans hcollector')]
    exact hpending

theorem die_fates (h : Fates s) : Fates s.die := by
  obtain ⟨hlost, hpending⟩ := counts_die s
  refine ⟨?_, fun _ => hpending, fun collector hcollector => ?_⟩
  · have hcount := h.lost
    have hmost : pendingCount s.batches ≤ 1 := by
      cases hcollector : s.collector with
      | none =>
        rw [h.settled hcollector]
        exact Nat.zero_le _
      | some collector =>
        exact Nat.le_trans (h.pending collector hcollector) (mayPend_le collector.cycle)
    change lostCount s.die.batches ≤ s.deaths + 1
    omega
  · cases hcollector

theorem Fates.moves {action : Action V} (h : Fates s) (hmoves : Moves facts gracePeriod s action t) :
    Fates t := by
  have hbefore : ∀ {collector : MetricCollector V}, s.collector = some collector → ∀ cycle,
      collector.cycle = cycle → pendingCount s.batches ≤ mayPend cycle := by
    intro collector hcollector cycle hcycle
    rw [← hcycle]
    exact h.pending collector hcollector
  cases hmoves with
  | tick hnow => exact ⟨h.lost, h.settled, h.pending⟩
  | add huid => exact ⟨h.lost, h.settled, h.pending⟩
  | remove uid => exact ⟨h.lost, h.settled, h.pending⟩
  | setStatus uid status message => exact ⟨h.lost, h.settled, h.pending⟩
  | start hcollector => exact fates_of_collector h.lost rfl (h.settled hcollector).le
  | die hcollector => exact die_fates h
  | select hcollector hcycle =>
    exact fates_of_collector h.lost rfl (Nat.le_trans (hbefore hcollector _ hcycle) (Nat.zero_le _))
  | launch hcollector hcycle =>
    have hpending := hbefore hcollector _ hcycle
    exact fates_of_collector h.lost rfl hpending
  | @collect _ _ _ _ _ _ dispatch _ _ _ _ hcollector hcycle htask hlaunched hclock =>
    have hpending := hbefore hcollector _ hcycle
    refine fates_of_collector h.lost rfl ?_
    cases dispatch <;> exact hpending
  | receive hcollector hcycle =>
    have hpending := hbefore hcollector _ hcycle
    exact fates_of_collector h.lost rfl hpending
  | @save collector metrics launched tasks result results hcollector hcycle =>
    obtain ⟨hlost, hpending⟩ := counts_save result s
    refine fates_of_collector ?_ rfl ?_
    · change lostCount (s.save result).batches ≤ (s.save result).deaths
      rw [hlost, save_deaths]
      exact h.lost
    · exact Nat.le_trans hpending (Nat.succ_le_succ (hbefore hcollector _ hcycle))
  | stream hcollector hcycle =>
    obtain ⟨hlost, hpending⟩ := counts_stream s
    exact fates_of_collector (hlost.le.trans h.lost) rfl hpending.le
  | @conclude collector metrics launched tasks result results metric hcollector hcycle hmetric =>
    obtain ⟨collector', hcollector', hcycle', -, -, hbatches, -⟩ :=
      conclude_rest (s := s) facts gracePeriod metric result { collector with
        cycle := .collecting metrics launched tasks results .waiting }
    have hpending := hbefore hcollector _ hcycle
    refine fates_of_collector ?_ hcollector' ?_
    · rw [hbatches, conclude_deaths]
      exact h.lost
    · rw [hbatches, hcycle']
      exact hpending
  | miss hcollector hcycle hmetric => exact die_fates h
  | finish hcollector hcycle =>
    have hpending := hbefore hcollector _ hcycle
    exact fates_of_collector h.lost rfl hpending

/-! ### Quarantine -/

/-- The end of the quarantine is still known, or the last access to it was long ago. -/
def Rested (facts : MetricFacts) (clock : ℤ) (cache : String → Option MetricInfoCacheItem) (uid : String)
    (creationTime : ℤ) : Prop :=
  creationTime + metricInfoCacheItemExpiration < clock ∨ ∃ item, cache uid = some item ∧
    creationTime + quarantineDuration (facts.pollInterval uid) ≤ item.quarantineEndTime ∧
      creationTime ≤ item.lastAccessTime

theorem Rested.mono {clock clock' : ℤ} {cache : String → Option MetricInfoCacheItem} {uid : String}
    {creationTime : ℤ} (h : Rested facts clock cache uid creationTime) (hclock : clock ≤ clock') :
    Rested facts clock' cache uid creationTime :=
  h.imp_left fun hlong => Int.lt_of_lt_of_le hlong hclock

theorem Rested.touch {clock : ℤ} {collector : MetricCollector V} {uid : String} {creationTime : ℤ}
    (h : Rested facts clock collector.metricInfoCache uid creationTime) (hclock : creationTime ≤ clock)
    (uid' : String) : Rested facts clock (collector.touch clock uid').metricInfoCache uid creationTime := by
  rcases h with hlong | ⟨item, hitem, hend, haccess⟩
  · exact Or.inl hlong
  · refine Or.inr ?_
    by_cases huid : uid = uid'
    · subst huid
      refine ⟨_, Function.update_self .., ?_, hclock⟩
      rw [MetricCollector.quarantineEndTime, hitem]
      exact hend
    · exact ⟨item, (Function.update_of_ne huid ..).trans hitem, hend, haccess⟩

theorem Rested.foldl_touch {clock : ℤ} {collector : MetricCollector V} {uid : String} {creationTime : ℤ}
    (metrics : List MetricRow) (h : Rested facts clock collector.metricInfoCache uid creationTime)
    (hclock : creationTime ≤ clock) :
    Rested facts clock (metrics.foldl (fun collector row => collector.touch clock row.uid)
      collector).metricInfoCache uid creationTime := by
  induction metrics generalizing collector with
  | nil => exact h
  | cons metric metrics ih => exact ih (h.touch hclock metric.uid)

theorem Rested.garbageCollect {interval clock : ℤ} {collector : MetricCollector V} {uid : String}
    {creationTime : ℤ} (h : Rested facts clock collector.metricInfoCache uid creationTime) :
    Rested facts clock (collector.garbageCollectInfoCache interval clock).metricInfoCache uid creationTime := by
  rcases h with hlong | ⟨item, hitem, hend, haccess⟩
  · exact Or.inl hlong
  · by_cases hstale : item.lastAccessTime + metricInfoCacheItemExpiration < clock
    · refine Or.inl ?_
      omega
    · refine Or.inr ⟨item, ?_, hend, haccess⟩
      simp [MetricCollector.garbageCollectInfoCache, hitem, hstale]

/-- A later quarantine ends later. -/
theorem Rested.setQuarantine {clock creationTime' : ℤ} {collector : MetricCollector V} {uid : String}
    {creationTime : ℤ} (h : Rested facts clock collector.metricInfoCache uid creationTime)
    (hclock : creationTime ≤ clock) (uid' : String) (hlater : uid = uid' → creationTime ≤ creationTime') :
    Rested facts clock (collector.setQuarantine clock
      (creationTime' + quarantineDuration (facts.pollInterval uid')) uid').metricInfoCache uid creationTime := by
  rcases h with hlong | ⟨item, hitem, hend, haccess⟩
  · exact Or.inl hlong
  · refine Or.inr ?_
    by_cases huid : uid = uid'
    · subst huid
      exact ⟨_, Function.update_self .., Int.add_le_add_right (hlater rfl) _, hclock⟩
    · exact ⟨item, (Function.update_of_ne huid ..).trans hitem, hend, haccess⟩

theorem rested_setQuarantine {clock creationTime : ℤ} {collector : MetricCollector V} (uid : String)
    (hclock : creationTime ≤ clock) :
    Rested facts clock (collector.setQuarantine clock
      (creationTime + quarantineDuration (facts.pollInterval uid)) uid).metricInfoCache uid creationTime :=
  Or.inr ⟨_, Function.update_self .., le_refl _, hclock⟩

theorem task_metricInfoCache (now : ℤ) (metric : MetricRow) (collector : MetricCollector V) :
    (collector.task facts now metric).2.metricInfoCache = collector.metricInfoCache := by
  rw [MetricCollector.task]
  split <;> rfl

theorem tasks_metricInfoCache (now : ℤ) (metrics : List MetricRow) (collector : MetricCollector V) :
    (collector.tasks facts now metrics).2.metricInfoCache = collector.metricInfoCache := by
  induction metrics generalizing collector with
  | nil => rfl
  | cons metric metrics ih =>
    rw [MetricCollector.tasks]
    exact (ih _).trans (task_metricInfoCache now metric collector)

/-- The results of a cycle are newer than what was done before. -/
structure CycleTimes (facts : MetricFacts) (clock : ℤ) (outcomes : String → List Outcome)
    (cache : String → Option MetricInfoCacheItem) (launched : ℤ) (tasks : List Task)
    (results : List (Result V)) (dispatch : Dispatch V) : Prop where
  since : launched ≤ clock
  past : ∀ uid ∈ inFlight tasks results dispatch, ∀ outcome ∈ outcomes uid, outcome.creationTime ≤ launched
  results : ∀ result ∈ dispatched dispatch ++ results,
    launched ≤ result.creationTime ∧ result.creationTime ≤ clock
  empty : ∀ result ∈ dispatched dispatch, result.isEmpty = true →
    Rested facts clock cache result.metricID result.creationTime

def PhaseTimes (facts : MetricFacts) (clock : ℤ) (outcomes : String → List Outcome)
    (cache : String → Option MetricInfoCacheItem) : Cycle V → Prop
  | .collecting _ launched tasks results dispatch =>
    CycleTimes facts clock outcomes cache launched tasks results dispatch
  | _ => True

/-- The outcome keeps its metric from being collected for a while. -/
def Bad (outcome : Outcome) : Prop := outcome.failed = true ∨ outcome.empty = true

structure Quarantine (facts : MetricFacts) (s : HtmIt V) : Prop where
  past : ∀ uid, ∀ outcome ∈ s.outcomes uid, outcome.creationTime ≤ s.clock ∧ outcome.run ≤ s.deaths
  down : s.collector = none → ∀ uid, ∀ outcome ∈ s.outcomes uid, outcome.run < s.deaths
  rested : ∀ collector, s.collector = some collector → ∀ uid, ∀ outcome ∈ s.outcomes uid,
    outcome.run = s.deaths → Bad outcome →
      Rested facts s.clock collector.metricInfoCache uid outcome.creationTime
  phase : ∀ collector, s.collector = some collector →
    PhaseTimes facts s.clock s.outcomes collector.metricInfoCache collector.cycle

/-- The collector goes on, with no new outcomes. -/
theorem Quarantine.setCollector {collector : MetricCollector V} (h : Quarantine facts s)
    (hclock : t.clock = s.clock) (hdeaths : t.deaths = s.deaths) (houtcomes : t.outcomes = s.outcomes)
    (hcollector : t.collector = some collector)
    (hrested : ∀ uid, ∀ outcome ∈ s.outcomes uid, outcome.run = s.deaths → Bad outcome →
      Rested facts s.clock collector.metricInfoCache uid outcome.creationTime)
    (hphase : PhaseTimes facts s.clock s.outcomes collector.metricInfoCache collector.cycle) :
    Quarantine facts t := by
  refine ⟨?_, fun hnone => ?_, fun collector' hcollector' => ?_, fun collector' hcollector' => ?_⟩
  · rw [hclock, hdeaths, houtcomes]
    exact h.past
  · rw [hcollector] at hnone
    cases hnone
  · rw [← Option.some.inj (hcollector.symm.trans hcollector'), hclock, hdeaths, houtcomes]
    exact hrested
  · rw [← Option.some.inj (hcollector.symm.trans hcollector'), hclock, houtcomes]
    exact hphase

theorem tick_quarantine {now : ℤ} (h : Quarantine facts s) (hnow : s.clock ≤ now) :
    Quarantine facts { s with clock := now } := by
  refine ⟨fun uid outcome hmem => ?_, h.down, fun collector hcollector uid outcome hmem hrun hbad => ?_,
    fun collector hcollector => ?_⟩
  · exact (h.past uid outcome hmem).imp_left fun hpast => Int.le_trans hpast hnow
  · exact (h.rested collector hcollector uid outcome hmem hrun hbad).mono hnow
  · have hphase := h.phase collector hcollector
    cases hcycle : collector.cycle with
    | collecting metrics launched tasks results dispatch =>
      rw [hcycle] at hphase
      exact ⟨Int.le_trans hphase.since hnow, hphase.past,
        fun result hmem => (hphase.results result hmem).imp_right fun hle => Int.le_trans hle hnow,
        fun result hmem hempty => (hphase.empty result hmem hempty).mono hnow⟩
    | _ => trivial

theorem die_quarantine (h : Quarantine facts s) : Quarantine facts s.die := by
  refine ⟨fun uid outcome hmem => ?_, fun _ uid outcome hmem => ?_, fun collector hcollector => ?_,
    fun collector hcollector => ?_⟩
  · exact (h.past uid outcome hmem).imp_right Nat.le_succ_of_le
  · exact Nat.lt_succ_of_le (h.past uid outcome hmem).2
  · cases hcollector
  · cases hcollector

theorem start_quarantine (h : Quarantine facts s) (hcollector : s.collector = none) :
    Quarantine facts { s with collector := some .new } := by
  refine h.setCollector rfl rfl rfl rfl (fun uid outcome hmem hrun => ?_) trivial
  exact absurd hrun (h.down hcollector uid outcome hmem).ne

/-- What the caches say when the metrics are selected. -/
theorem select_rested (gracePeriod : ℤ) {collector : MetricCollector V} (h : Quarantine facts s)
    (hcollector : s.collector = some collector) {uid : String} {outcome : Outcome}
    (hmem : outcome ∈ s.outcomes uid) (hrun : outcome.run = s.deaths) (hbad : Bad outcome) :
    Rested facts s.clock (if collector.nextCacheGarbageCollectionTime < s.clock then
      collector.garbageCollectInfoCache (gracePeriod * 2) s.clock else collector).metricInfoCache uid
        outcome.creationTime := by
  have hrested := h.rested collector hcollector uid outcome hmem hrun hbad
  split
  · exact hrested.garbageCollect
  · exact hrested

theorem phaseTimes_selected {clock : ℤ} {outcomes : String → List Outcome}
    {cache : String → Option MetricInfoCacheItem} (metrics : List MetricRow) :
    PhaseTimes facts clock outcomes cache (if metrics = [] then (.idle : Cycle V) else .selected metrics) := by
  split
  · trivial
  · trivial

theorem select_quarantine {collector : MetricCollector V} (h : Quarantine facts s)
    (hcollector : s.collector = some collector) :
    Quarantine facts (s.select facts gracePeriod collector) := by
  refine h.setCollector rfl rfl rfl rfl (fun uid outcome hmem hrun hbad => ?_) ?_
  · exact (select_rested gracePeriod h hcollector hmem hrun hbad).foldl_touch _ (h.past uid outcome hmem).1
  · exact phaseTimes_selected _

theorem launch_quarantine {collector : MetricCollector V} {metrics : List MetricRow}
    (h : Quarantine facts s) (hcollector : s.collector = some collector) :
    Quarantine facts { s with
      collector := some { (collector.tasks facts s.clock metrics).2 with
        cycle := .collecting metrics s.clock (collector.tasks facts s.clock metrics).1 [] .waiting } } := by
  refine h.setCollector rfl rfl rfl rfl (fun uid outcome hmem hrun hbad => ?_) ?_
  · change Rested facts s.clock (collector.tasks facts s.clock metrics).2.metricInfoCache uid _
    rw [tasks_metricInfoCache]
    exact h.rested collector hcollector uid outcome hmem hrun hbad
  · exact ⟨Int.le_rfl, fun uid _ outcome hmem => (h.past uid outcome hmem).1,
      fun result hmem => absurd hmem List.not_mem_nil, fun result hmem => absurd hmem List.not_mem_nil⟩

theorem collect_creationTime (task : Task) (creationTime : ℤ) (answer : Answer V)
    (status : Except CollectorException String) :
    (MetricCollection.collect facts task creationTime answer status).creationTime = creationTime := by
  cases answer with
  | failed text => rfl
  | called service now =>
    simp only [MetricCollection.collect]
    split <;> rfl

theorem collect_quarantine {collector : MetricCollector V} {metrics : List MetricRow}
    {launched creationTime : ℤ} {tasks : List Task} {results : List (Result V)} {dispatch : Dispatch V}
    {i : ℕ} {task : Task} (answer : Answer V) (status : Except CollectorException String)
    (h : Quarantine facts s) (hcollector : s.collector = some collector)
    (hcycle : collector.cycle = .collecting metrics launched tasks results dispatch)
    (htask : tasks[i]? = some task) (hlaunched : launched ≤ creationTime) (hclock : creationTime ≤ s.clock) :
    Quarantine facts { s with
      collector := some { collector with
        cycle := .collecting metrics launched (tasks.eraseIdx i)
          (results ++ [MetricCollection.collect facts task creationTime answer status]) dispatch } } := by
  have hphase := h.phase collector hcollector
  rw [hcycle] at hphase
  have hperm : (inFlight (tasks.eraseIdx i)
      (results ++ [MetricCollection.collect facts task creationTime answer status]) dispatch).Perm
        (inFlight tasks results dispatch) :=
    inFlight_collect htask (collect_metricID task creationTime answer status)
  refine h.setCollector rfl rfl rfl rfl (h.rested collector hcollector) ⟨hphase.since, ?_, ?_, hphase.empty⟩
  · exact fun uid huid => hphase.past uid (hperm.mem_iff.mp huid)
  · intro result hresult
    rw [← List.append_assoc] at hresult
    rcases List.mem_append.mp hresult with hresult | hresult
    · exact hphase.results result hresult
    · rw [List.mem_singleton.mp hresult, collect_creationTime]
      exact ⟨hlaunched, hclock⟩

/-- Receiving a result changes the quarantine of its metric only. -/
theorem receive_cache (result : Result V) (collector : MetricCollector V) :
    (s.receive facts result collector).metricInfoCache = if result.isEmpty then
      (collector.setQuarantine s.clock (result.creationTime +
        quarantineDuration (facts.pollInterval result.metricID)) result.metricID).metricInfoCache
    else collector.metricInfoCache := by
  rw [receive]
  split <;> split <;> rfl

theorem receive_quarantine {collector : MetricCollector V} {metrics : List MetricRow}
    {launched : ℤ} {tasks : List Task} {result : Result V} {results : List (Result V)}
    (h : Quarantine facts s) (hcollector : s.collector = some collector)
    (hcycle : collector.cycle = .collecting metrics launched tasks (result :: results) .waiting) :
    Quarantine facts { s with
      collector := some { s.receive facts result collector with
        cycle := .collecting metrics launched tasks results (.saving result) } } := by
  have hphase := h.phase collector hcollector
  rw [hcycle] at hphase
  obtain ⟨hlaunched, hclock⟩ := hphase.results result List.mem_cons_self
  have hflight : result.metricID ∈ inFlight tasks (result :: results) .waiting :=
    mem_inFlight_result (List.mem_append_right _ List.mem_cons_self)
  refine h.setCollector rfl rfl rfl rfl (fun uid outcome hmem hrun hbad => ?_)
    ⟨hphase.since, hphase.past, hphase.results, fun result' hresult' hempty => ?_⟩
  · have hrested := h.rested collector hcollector uid outcome hmem hrun hbad
    change Rested facts s.clock (s.receive facts result collector).metricInfoCache uid _
    rw [receive_cache]
    split
    · refine hrested.setQuarantine (h.past uid outcome hmem).1 _ fun huid => ?_
      exact Int.le_trans (hphase.past uid (huid ▸ hflight) outcome hmem) hlaunched
    · exact hrested
  · have heq : result' = result := List.mem_singleton.mp hresult'
    subst heq
    change Rested facts s.clock (s.receive facts result' collector).metricInfoCache _ _
    rw [receive_cache, if_pos hempty]
    exact rested_setQuarantine _ hclock

theorem save_rest (result : Result V) (s : HtmIt V) :
    (s.save result).clock = s.clock ∧ (s.save result).outcomes = s.outcomes := by
  rw [save]
  split
  · exact ⟨rfl, rfl⟩
  · split
    · exact ⟨rfl, rfl⟩
    · exact ⟨rfl, rfl⟩

theorem conclude_collector (facts : MetricFacts) (gracePeriod : ℤ) (metric : MetricRow) (result : Result V)
    (collector : MetricCollector V) :
    (s.conclude facts gracePeriod metric result collector).clock = s.clock ∧
      (s.conclude facts gracePeriod metric result collector).collector =
        some (if (errorOf facts metric result collector).isSome then
          collector.setQuarantine s.clock (result.creationTime +
            quarantineDuration (facts.pollInterval metric.uid)) metric.uid else collector) := by
  rw [conclude]
  split
  · next error herror => exact ⟨rfl, by rw [herror]; rfl⟩
  · next herror => exact ⟨rfl, by rw [herror]; rfl⟩

theorem conclude_quarantine {collector : MetricCollector V} {metrics : List MetricRow} {launched : ℤ}
    {tasks : List Task} {result : Result V} {results : List (Result V)} {metric : MetricRow}
    (h : Quarantine facts s) (hinv : Inv facts gracePeriod s) (hcollector : s.collector = some collector)
    (hcycle : collector.cycle = .collecting metrics launched tasks results (.concluding result))
    (hmetric : (metrics.find? fun metric => metric.uid = result.metricID) = some metric) :
    Quarantine facts (s.conclude facts gracePeriod metric result { collector with
      cycle := .collecting metrics launched tasks results .waiting }) := by
  have hphase := h.phase collector hcollector
  have hinvPhase := hinv.phase collector hcollector
  rw [hcycle] at hphase hinvPhase
  have huid : metric.uid = result.metricID := by simpa using List.find?_some hmetric
  have hflight : metric.uid ∈ inFlight tasks results (.concluding result) := by
    rw [huid]
    exact List.mem_append_right _ (List.mem_append_left _ (List.mem_singleton_self _))
  obtain ⟨hlaunched, hclock⟩ := hphase.results result List.mem_cons_self
  have hdeaths := conclude_deaths (s := s) facts gracePeriod metric result { collector with
    cycle := .collecting metrics launched tasks results .waiting }
  obtain ⟨hclock', hcollector'⟩ := conclude_collector (s := s) facts gracePeriod metric result { collector with
    cycle := .collecting metrics launched tasks results .waiting }
  obtain ⟨-, -, -, -, -, -, houtcomes⟩ := conclude_rest (s := s) facts gracePeriod metric result { collector with
    cycle := .collecting metrics launched tasks results .waiting }
  generalize errorOf facts metric result { collector with
    cycle := .collecting metrics launched tasks results .waiting } = error? at hcollector' houtcomes
  -- the quarantines that were known, and that of a failure
  have hcache : ∀ uid creationTime, Rested facts s.clock collector.metricInfoCache uid creationTime →
      creationTime ≤ s.clock → (uid = metric.uid → creationTime ≤ result.creationTime) →
        Rested facts s.clock (if error?.isSome then
          MetricCollector.setQuarantine s.clock (result.creationTime +
            quarantineDuration (facts.pollInterval metric.uid)) metric.uid { collector with
              cycle := .collecting metrics launched tasks results .waiting }
          else { collector with
            cycle := .collecting metrics launched tasks results .waiting }).metricInfoCache uid creationTime := by
    intro uid creationTime hrested hpast hlater
    split
    · exact Rested.setQuarantine hrested hpast _ hlater
    · exact hrested
  refine ⟨fun uid outcome hmem => ?_, fun hnone => ?_, fun collector'' hcollector'' uid outcome hmem hrun hbad => ?_,
    fun collector'' hcollector'' => ?_⟩
  · rw [hclock', hdeaths]
    rw [houtcomes] at hmem
    by_cases hid : uid = metric.uid
    · rw [hid, Function.update_self] at hmem
      rcases List.mem_append.mp hmem with hmem | hmem
      · exact h.past _ outcome hmem
      · rw [List.mem_singleton.mp hmem]
        exact ⟨hclock, Nat.le_refl _⟩
    · rw [Function.update_of_ne hid] at hmem
      exact h.past uid outcome hmem
  · rw [hcollector'] at hnone
    cases hnone
  · rw [hcollector'] at hcollector''
    rw [← Option.some.inj hcollector'', hclock']
    rw [hdeaths] at hrun
    rw [houtcomes] at hmem
    by_cases hid : uid = metric.uid
    · subst hid
      rw [Function.update_self] at hmem
      rcases List.mem_append.mp hmem with hmem | hmem
      · refine hcache _ _ (h.rested collector hcollector _ outcome hmem hrun hbad) (h.past _ outcome hmem).1 fun _ => ?_
        exact Int.le_trans (hphase.past _ hflight outcome hmem) hlaunched
      · rw [List.mem_singleton.mp hmem] at hbad ⊢
        rcases hbad with hfailed | hempty
        · rw [if_pos hfailed]
          exact rested_setQuarantine _ hclock
        · refine hcache _ _ ?_ hclock fun _ => Int.le_rfl
          rw [huid]
          exact hphase.empty result (List.mem_singleton_self _) hempty
    · rw [Function.update_of_ne hid] at hmem
      exact hcache _ _ (h.rested collector hcollector uid outcome hmem hrun hbad) (h.past _ outcome hmem).1
        fun heq => absurd heq hid
  · rw [hcollector'] at hcollector''
    rw [← Option.some.inj hcollector'', hclock', houtcomes]
    have hcycle' : (if error?.isSome then
        MetricCollector.setQuarantine s.clock (result.creationTime +
          quarantineDuration (facts.pollInterval metric.uid)) metric.uid { collector with
            cycle := .collecting metrics launched tasks results .waiting }
        else { collector with
          cycle := .collecting metrics launched tasks results .waiting }).cycle =
            .collecting metrics launched tasks results .waiting := by
      split <;> rfl
    rw [hcycle']
    have hsublist : (inFlight tasks results (.waiting : Dispatch V)).Sublist
        (inFlight tasks results (.concluding result)) :=
      (List.sublist_append_right _ _).append_left _
    refine ⟨hphase.since, fun uid hmem outcome houtcome => ?_,
      fun result' hmem => hphase.results result' (List.mem_cons_of_mem _ hmem),
      fun result' hmem => absurd hmem List.not_mem_nil⟩
    have hne : uid ≠ metric.uid := huid ▸ ne_of_inFlight hinvPhase.nodup (List.mem_singleton_self _) hmem
    rw [Function.update_of_ne hne] at houtcome
    exact hphase.past uid (hsublist.subset hmem) outcome houtcome

theorem Quarantine.moves {action : Action V} (h : Quarantine facts s) (hinv : Inv facts gracePeriod s)
    (hmoves : Moves facts gracePeriod s action t) : Quarantine facts t := by
  cases hmoves with
  | tick hnow => exact tick_quarantine h hnow
  | add huid => exact ⟨h.past, h.down, h.rested, h.phase⟩
  | remove uid => exact ⟨h.past, h.down, h.rested, h.phase⟩
  | setStatus uid status message => exact ⟨h.past, h.down, h.rested, h.phase⟩
  | start hcollector => exact start_quarantine h hcollector
  | die hcollector => exact die_quarantine h
  | select hcollector hcycle => exact select_quarantine h hcollector
  | launch hcollector hcycle => exact launch_quarantine h hcollector
  | collect hcollector hcycle htask hlaunched hclock =>
    exact collect_quarantine _ _ h hcollector hcycle htask hlaunched hclock
  | receive hcollector hcycle => exact receive_quarantine h hcollector hcycle
  | @save collector metrics launched tasks result results hcollector hcycle =>
    have hphase := h.phase collector hcollector
    rw [hcycle] at hphase
    obtain ⟨hclock, houtcomes⟩ := save_rest result s
    exact h.setCollector hclock (save_deaths result s) houtcomes rfl (h.rested collector hcollector)
      ⟨hphase.since, hphase.past, hphase.results, hphase.empty⟩
  | @stream collector metrics launched tasks result results hcollector hcycle =>
    have hphase := h.phase collector hcollector
    rw [hcycle] at hphase
    exact h.setCollector rfl rfl rfl rfl (h.rested collector hcollector)
      ⟨hphase.since, hphase.past, hphase.results, hphase.empty⟩
  | conclude hcollector hcycle hmetric => exact conclude_quarantine h hinv hcollector hcycle hmetric
  | miss hcollector hcycle hmetric => exact die_quarantine h
  | @finish collector metrics launched hcollector hcycle =>
    exact h.setCollector rfl rfl rfl rfl (h.rested collector hcollector) trivial

/-! ### Guarantees -/

/-- The saved results of a metric make up one collection, in which nothing between two calls is left
out; its data were given to the streamer, in order, but for a batch each time that the collector died. -/
structure CollectionKept (facts : MetricFacts) (s : HtmIt V) : Prop where
  collected : ∀ uid, Reachable (collectionSystem V (facts.pollInterval uid)) (s.collection uid)
  tiled : ∀ uid, (s.collection uid).Tiled (facts.pollInterval uid).1
  started : ∀ row ∈ s.metrics, row.lastTimestamp = (s.collection row.uid).start
  batches : ∀ uid, samplesOf uid s.batches = (s.collection uid).samples
  lost : lostCount s.batches ≤ s.deaths
  settled : (∀ collector, s.collector = some collector → mayPend collector.cycle = 0) →
    ∀ batch ∈ s.batches, batch.fate ≠ .pending

theorem collectionKept_of_inv (h : Inv facts gracePeriod s) (hfates : Fates s) : CollectionKept facts s := by
  refine ⟨h.table.reachable, fun uid => ?_, h.table.started, h.table.samples, hfates.lost, fun hcycle => ?_⟩
  · exact (h.table.reachable uid).invariant (fun _ hinit => Collection.tiled_init hinit)
      fun _ _ _ _ htiled hstep => Collection.Tiled.collect htiled hstep
  · have hnone : pendingCount s.batches = 0 := by
      cases hcollector : s.collector with
      | none => exact hfates.settled hcollector
      | some collector =>
        have hpending := hfates.pending collector hcollector
        rw [hcycle collector hcollector] at hpending
        exact Nat.le_zero.mp hpending
    intro batch hbatch hpending
    exact List.countP_eq_zero.mp hnone batch hbatch (decide_eq_true hpending)

/-- Every result is of a metric of its cycle. -/
theorem conclude_found {collector : MetricCollector V} {metrics : List MetricRow} {launched : ℤ}
    {tasks : List Task} {result : Result V} {results : List (Result V)} (h : Inv facts gracePeriod s)
    (hcollector : s.collector = some collector)
    (hcycle : collector.cycle = .collecting metrics launched tasks results (.concluding result)) :
    (metrics.find? fun metric => metric.uid = result.metricID) ≠ none := by
  have hphase := h.phase collector hcollector
  rw [hcycle] at hphase
  intro hnone
  have hflight : result.metricID ∈ inFlight tasks results (.concluding result) :=
    List.mem_append_right _ (List.mem_append_left _ (List.mem_singleton_self _))
  obtain ⟨metric, hmetric, huid⟩ := List.mem_map.mp (hphase.found _ hflight)
  exact List.find?_eq_none.mp hnone metric hmetric (decide_eq_true huid)

/-- The collector does not end by itself. -/
def Survives (action : Action V) (t : HtmIt V) : Prop :=
  match action with
  | .dispatch => t.collector.isSome
  | _ => True

theorem survives_of_moves {action : Action V} (h : Inv facts gracePeriod s)
    (hmoves : Moves facts gracePeriod s action t) : Survives action t := by
  cases hmoves with
  | @conclude collector metrics launched tasks result results metric hcollector hcycle hmetric =>
    obtain ⟨collector', hcollector', -⟩ := conclude_rest (s := s) facts gracePeriod metric result { collector with
      cycle := .collecting metrics launched tasks results .waiting }
    rw [Survives, hcollector']
    rfl
  | miss hcollector hcycle hmetric => exact absurd hmetric (conclude_found h hcollector hcycle)
  | receive hcollector hcycle => rfl
  | save hcollector hcycle => rfl
  | stream hcollector hcycle => rfl
  | _ => trivial

/-- What carries the guarantees. -/
def AllInv (facts : MetricFacts) (gracePeriod : ℤ) (s : HtmIt V) : Prop :=
  Inv facts gracePeriod s ∧ Fates s ∧ Quarantine facts s

theorem allInv_init (h : (system facts gracePeriod).init s) : AllInv facts gracePeriod s := by
  refine ⟨init_inv h, ?_, ?_⟩
  · obtain ⟨-, hcollector, -, -, hbatches, -, -⟩ := h
    refine ⟨?_, fun _ => ?_, fun collector hsome => ?_⟩
    · rw [hbatches]
      exact Nat.zero_le _
    · rw [hbatches]
      rfl
    · rw [hcollector] at hsome
      cases hsome
  · obtain ⟨-, hcollector, -, -, -, houtcomes, -⟩ := h
    refine ⟨?_, fun _ => ?_, fun collector hsome => ?_, fun collector hsome => ?_⟩
    · simp [houtcomes]
    · simp [houtcomes]
    · rw [hcollector] at hsome
      cases hsome
    · rw [hcollector] at hsome
      cases hsome

theorem allInv_act {action : Action V} (h : AllInv facts gracePeriod s)
    (hact : (system facts gracePeriod).next action s = some t) : AllInv facts gracePeriod t :=
  have hmoves := act_moves hact
  ⟨h.1.moves hmoves, h.2.1.moves hmoves, h.2.2.moves h.1 hmoves⟩

theorem collections_kept {tr : List (HtmIt V × Action V)} (h : Run (system facts gracePeriod) tr s) :
    (∀ t ∈ statesOf tr s, CollectionKept facts t) ∧
      ∀ p ∈ tr, ∃ t, (system facts gracePeriod).next p.2 p.1 = some t ∧ Survives p.2 t := by
  have hstep : ∀ (a : Action V) s t, AllInv facts gracePeriod s → True →
      (system facts gracePeriod).next a s = some t → AllInv facts gracePeriod t := fun _ _ _ hs _ hact => allInv_act hs hact
  constructor
  · exact h.forall_states (fun _ => allInv_init) hstep (fun t ht => collectionKept_of_inv ht.1 ht.2.1)
      fun _ _ => trivial
  · exact h.forall_steps (fun _ => allInv_init) hstep
      (fun _ _ _ hs _ hact => survives_of_moves hs.1 (act_moves hact)) fun _ _ => trivial

/-- A metric that is put in error has failed for the grace period. -/
def FailsLate (gracePeriod : ℤ) (s : HtmIt V) (action : Action V) (t : HtmIt V) : Prop :=
  match action with
  | .setStatus _ _ _ => True
  | _ => ∀ row ∈ t.metrics, row.status = .error →
      (∃ row' ∈ s.metrics, row'.uid = row.uid ∧ row'.status = .error) ∨
        ∃ time, FailingSince (t.outcomes row.uid) time ∧ time + gracePeriod < t.clock

/-- A metric that failed or had no data is not collected again before half its polling interval, or an
hour, is over. -/
def RestsFirst (facts : MetricFacts) (s : HtmIt V) (action : Action V) (t : HtmIt V) : Prop :=
  match action with
  | .select => ∀ collector metrics, t.collector = some collector → collector.cycle = .selected metrics →
      ∀ metric ∈ metrics, ∀ outcome ∈ s.outcomes metric.uid, outcome.run = s.deaths → Bad outcome →
        outcome.creationTime + quarantineDuration (facts.pollInterval metric.uid) ≤ s.clock ∨
          outcome.creationTime + metricInfoCacheItemExpiration < s.clock
  | _ => True

theorem failsLate_of_moves {action : Action V} (h : Inv facts gracePeriod s)
    (hmoves : Moves facts gracePeriod s action t) : FailsLate gracePeriod s action t := by
  have hsame : ∀ {metrics : List MetricRow}, metrics = s.metrics → ∀ row ∈ metrics, row.status = .error →
      ∃ row' ∈ s.metrics, row'.uid = row.uid ∧ row'.status = .error := by
    intro metrics hmetrics row hrow hstatus
    exact ⟨row, hmetrics ▸ hrow, rfl, hstatus⟩
  cases hmoves with
  | setStatus uid status message => trivial
  | add huid =>
    intro row hrow hstatus
    rcases List.mem_append.mp hrow with hrow | hrow
    · exact Or.inl ⟨row, hrow, rfl, hstatus⟩
    · rw [List.mem_singleton.mp hrow] at hstatus
      cases hstatus
  | remove uid =>
    intro row hrow hstatus
    exact Or.inl ⟨row, List.mem_of_mem_filter hrow, rfl, hstatus⟩
  | @save collector metrics launched tasks result results hcollector hcycle =>
    intro row hrow hstatus
    have hsaved : row ∈ (s.save result).metrics := hrow
    rw [save] at hsaved
    split at hsaved
    · exact Or.inl (hsame rfl row hsaved hstatus)
    · split at hsaved
      · rcases of_mem_updateMetric hsaved with ⟨-, hmem⟩ | ⟨row', hmem, -, rfl⟩
        · exact Or.inl (hsame rfl row hmem hstatus)
        · exact Or.inl ⟨row', hmem, rfl, hstatus⟩
      · exact Or.inl (hsame rfl row hsaved hstatus)
  | @conclude collector metrics launched tasks result results metric hcollector hcycle hmetric =>
    intro row hrow hstatus
    have hphase := h.phase collector hcollector
    rw [hcycle] at hphase
    have huid : metric.uid = result.metricID := by simpa using List.find?_some hmetric
    have hflight : metric.uid ∈ inFlight tasks results (.concluding result) := by
      rw [huid]
      exact List.mem_append_right _ (List.mem_append_left _ (List.mem_singleton_self _))
    have herrors := hphase.errors metric (List.mem_of_find?_eq_some hmetric) hflight
    obtain ⟨hclock, -⟩ := conclude_collector (s := s) facts gracePeriod metric result { collector with
      cycle := .collecting metrics launched tasks results .waiting }
    obtain ⟨-, -, -, -, -, -, houtcomes⟩ := conclude_rest (s := s) facts gracePeriod metric result { collector with
      cycle := .collecting metrics launched tasks results .waiting }
    rw [houtcomes, hclock]
    rcases conclude_metrics herrors hrow with ⟨-, hrow⟩ | ⟨row', hrow', hid', hid, -, hconcluded⟩
    · exact Or.inl ⟨row, hrow, rfl, hstatus⟩
    · have hkept : row.status = row'.status → ∃ row' ∈ s.metrics, row'.uid = row.uid ∧ row'.status = .error :=
        fun heq => ⟨row', hrow', hid'.trans hid.symm, heq ▸ hstatus⟩
      generalize errorOf facts metric result { collector with
        cycle := .collecting metrics launched tasks results .waiting } = error? at hconcluded
      cases error? with
      | none => exact Or.inl (hkept hconcluded.2)
      | some error =>
        simp only [Concluded] at hconcluded
        split at hconcluded
        · exact Or.inl (hkept hconcluded.2)
        · next old hold =>
          rcases hconcluded.2 with heq | ⟨-, hexpired⟩
          · exact Or.inl (hkept heq)
          · -- the deadline was set when the metric failed first
            have hgrace := h.table.grace row' hrow' old ((herrors row' hrow' hid').trans hold)
            refine Or.inr ⟨old.deadline - gracePeriod, ?_, by omega⟩
            rw [hid, Function.update_self, ← hid']
            exact hgrace.append rfl
  | _ => exact fun row hrow hstatus => Or.inl (hsame rfl row hrow hstatus)

theorem selected_eq {metrics metrics' : List MetricRow}
    (h : (if metrics = [] then (.idle : Cycle V) else .selected metrics) = .selected metrics') :
    metrics = metrics' := by
  split at h
  · cases h
  · exact Cycle.selected.inj h

theorem restsFirst_of_moves {action : Action V} (h : Quarantine facts s)
    (hmoves : Moves facts gracePeriod s action t) : RestsFirst facts s action t := by
  cases hmoves with
  | @select collector hcollector hcycle =>
    intro collector' metrics hcollector' hselected metric hmetric outcome hmem hrun hbad
    rw [← Option.some.inj hcollector'] at hselected
    have hrested := select_rested gracePeriod h hcollector hmem hrun hbad
    have hchosen := selected_eq hselected
    rcases hrested with hlong | ⟨item, hitem, hend, -⟩
    · exact Or.inr hlong
    · refine Or.inl (Int.le_trans hend ?_)
      rw [← hchosen] at hmetric
      have hover := of_decide_eq_true (List.mem_filter.mp hmetric).2
      rw [MetricCollector.quarantineEndTime, hitem] at hover
      exact hover
  | _ => trivial

theorem metrics_fail_late {tr : List (HtmIt V × Action V)} (h : Run (system facts gracePeriod) tr s) :
    ∀ p ∈ tr, ∃ t, (system facts gracePeriod).next p.2 p.1 = some t ∧
      FailsLate gracePeriod p.1 p.2 t ∧ RestsFirst facts p.1 p.2 t := by
  have hstep : ∀ (a : Action V) s t, AllInv facts gracePeriod s → True →
      (system facts gracePeriod).next a s = some t → AllInv facts gracePeriod t :=
    fun _ _ _ hs _ hact => allInv_act hs hact
  have hgood : ∀ (a : Action V) s t, AllInv facts gracePeriod s → True →
      (system facts gracePeriod).next a s = some t → FailsLate gracePeriod s a t ∧ RestsFirst facts s a t :=
    fun _ _ _ hs _ hact =>
      ⟨failsLate_of_moves hs.1 (act_moves hact), restsFirst_of_moves hs.2.2 (act_moves hact)⟩
  exact h.forall_steps (fun _ => allInv_init) hstep hgood fun _ _ => trivial

/-! ### A run -/

def exampleFacts : MetricFacts := ⟨fun _ => "instance", fun _ => minute⟩

def exampleHtmIt (V : Type) : HtmIt V where
  clock := 0
  metrics := []
  collector := none
  known := []
  collection _ := ⟨none, [], []⟩
  batches := []
  outcomes _ := []
  deaths := 0

/-- A sample at the start of every range. -/
def firstService : Service Unit where
  queryCloudWatchMetricStats start end_ := .ok (if start < end_ then [⟨start, ()⟩] else [])
  inRange start end_ rawdata h x hx := by
    obtain rfl := Except.ok.inj h
    split at hx
    · next hlt =>
      obtain rfl := List.mem_singleton.mp hx
      exact ⟨le_refl _, hlt⟩
    · cases hx

theorem collect_first :
    MetricCollection.collect exampleFacts ⟨"cpu", none, true⟩ 0 (.called firstService 0) (.ok "running") =
      ⟨"cpu", 0, some (.ok "running"), .ok [⟨seconds (-1209600), ()⟩], some (seconds (-1209540)),
        [(seconds (-1209600), seconds (-1123200))]⟩ := by
  have hrange : normalizeMetricCollectionTimeRange 0 none none 60 =
      (seconds (-1209600), seconds (-1123200)) := by decide +kernel
  simp only [MetricCollection.collect, exampleFacts, getMetricData, minute, hrange]
  rw [collectLoop]
  simp [firstService, sortByTimestamp, nextCallStartTime, seconds, Except.map]

/-- A metric is added and activated, and selected in the first cycle. -/
def firstActions : List (Action Unit) :=
  [.add "cpu", .setStatus "cpu" .active none, .start, .select, .launch,
    .collect 0 0 (.called firstService 0) (.ok "running")]

def cpu : MetricRow := ⟨"cpu", none, .active, none, none⟩

/-- The state after the first result. -/
def collectedOnce (result : Result Unit) : HtmIt Unit :=
  let collector : MetricCollector Unit := ((MetricCollector.new.touch 0 "cpu").task exampleFacts 0 cpu).2
  { exampleHtmIt Unit with
    metrics := [cpu]
    known := ["cpu"]
    collector := some { collector with cycle := .collecting [cpu] 0 [] [result] .waiting } }

theorem exec_first : (system exampleFacts 0).exec firstActions (exampleHtmIt Unit) = some (collectedOnce
    (MetricCollection.collect exampleFacts ⟨"cpu", none, true⟩ 0 (.called firstService 0) (.ok "running"))) := by
  rfl

/-- The collector dies after a result was saved, before its data are given to the streamer. -/
theorem collections_kept_once : ∃ tr s, Run (system (V := Unit) exampleFacts 0) tr s ∧
    (s.batches = [⟨"cpu", [⟨seconds (-1209600), ()⟩], .lost⟩] ∧ s.deaths = 1) ∧
      (∀ t ∈ statesOf tr s, CollectionKept exampleFacts t) ∧
        ∀ p ∈ tr, ∃ t, (system exampleFacts 0).next p.2 p.1 = some t ∧ Survives p.2 t := by
  have hinit : (system (V := Unit) exampleFacts 0).init (exampleHtmIt Unit) := ⟨rfl, rfl, rfl, rfl, rfl, rfl, rfl⟩
  have hfirst := (Run.init hinit).exec_trace exec_first
  rw [collect_first] at hfirst
  have hdead : ((system exampleFacts 0).exec [.dispatch, .dispatch, .die] (collectedOnce ⟨"cpu", 0,
      some (.ok "running"), .ok [⟨seconds (-1209600), ()⟩], some (seconds (-1209540)),
        [(seconds (-1209600), seconds (-1123200))]⟩)).map (fun s => (s.batches, s.deaths)) =
      some ([⟨"cpu", [⟨seconds (-1209600), ()⟩], .lost⟩], 1) := by
    decide +kernel
  obtain ⟨s, hexec, hs⟩ := Option.map_eq_some_iff.mp hdead
  have hrun := hfirst.exec_trace hexec
  exact ⟨_, s, hrun, Prod.mk.inj hs, collections_kept hrun⟩

/-- A metric that fails, is left alone for half a minute, and fails again. -/
def failingActions : List (Action Unit) :=
  [.add "cpu", .setStatus "cpu" .active none, .start, .select, .launch,
    .collect 0 0 (.failed "no adapter") (.ok "running")] ++ List.replicate 4 .dispatch ++
      [.finish, .tick (29 * second), .select, .tick (31 * second), .select, .launch,
        .collect 0 (31 * second) (.failed "no adapter") (.ok "running")] ++ List.replicate 4 .dispatch

theorem metrics_fail_late_once : ∃ tr s, Run (system (V := Unit) exampleFacts (20 * second)) tr s ∧
    s.metrics = [⟨"cpu", none, .error, some (.other "no adapter"),
      some ⟨20 * second, .other "no adapter"⟩⟩] ∧
      ∀ p ∈ tr, ∃ t, (system exampleFacts (20 * second)).next p.2 p.1 = some t ∧
        FailsLate (20 * second) p.1 p.2 t ∧ RestsFirst exampleFacts p.1 p.2 t := by
  have hinit : (system (V := Unit) exampleFacts (20 * second)).init (exampleHtmIt Unit) :=
    ⟨rfl, rfl, rfl, rfl, rfl, rfl, rfl⟩
  have hfailed : ((system exampleFacts (20 * second)).exec failingActions (exampleHtmIt Unit)).map
      HtmIt.metrics = some [⟨"cpu", none, .error, some (.other "no adapter"),
        some ⟨20 * second, .other "no adapter"⟩⟩] := by
    decide +kernel
  obtain ⟨s, hexec, hs⟩ := Option.map_eq_some_iff.mp hfailed
  have hrun := (Run.init hinit).exec_trace hexec
  exact ⟨_, s, hrun, hs, metrics_fail_late hrun⟩

end HtmIt

end NumentaApps.MetricCollection
