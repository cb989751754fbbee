import NumentaApps.MetricCollectionIterator
import Mathlib.Data.List.Infix

/-!
# Each request has its collection once

Between the calls of the iterator the accumulators are those of the requests that are pending, with
the slices of the results that have been consumed. A call takes one of the requests off.
-/
namespace NumentaApps.Aggregator

variable {R I A D T : Type} [DecidableEq R] {instanceCache : A → List I}
  {results consumed : List (MetricCollectionTaskResult R I D)}
  {pending requests : List (AutostackMetricRequest R A T)}
  {it : MetricCollectionIterator R I D T}

/-! ## The slices of a request -/

/-- The results for a request. -/
def resultsOf (refID : R) (results : List (MetricCollectionTaskResult R I D)) :
    List (MetricCollectionTaskResult R I D) :=
  results.filter fun result => result.refID = refID

def slicesOf (refID : R) (results : List (MetricCollectionTaskResult R I D)) :
    List (InstanceMetricData I D) :=
  (resultsOf refID results).map sliceOf

def collectionOf (results : List (MetricCollectionTaskResult R I D))
    (request : AutostackMetricRequest R A T) : MetricCollection R I D T :=
  ⟨request.refID, slicesOf request.refID results, request.timeRange⟩

def entryOf (instanceCache : A → List I) (consumed : List (MetricCollectionTaskResult R I D))
    (request : AutostackMetricRequest R A T) : R × MetricCollectionAccumulator R I D T :=
  (request.refID, ⟨(instanceCache request.autostack).length, collectionOf consumed request⟩)

theorem resultsOf_concat_self (result : MetricCollectionTaskResult R I D) :
    resultsOf result.refID (consumed ++ [result]) = resultsOf result.refID consumed ++ [result] := by
  rw [resultsOf, List.filter_append, List.filter_singleton]
  simp [resultsOf]

theorem resultsOf_concat_of_ne {refID : R} {result : MetricCollectionTaskResult R I D}
    (h : result.refID ≠ refID) : resultsOf refID (consumed ++ [result]) = resultsOf refID consumed := by
  rw [resultsOf, List.filter_append, List.filter_singleton]
  simp [h, resultsOf]

theorem resultsOf_append (refID : R) (rest : List (MetricCollectionTaskResult R I D)) :
    resultsOf refID (consumed ++ rest) = resultsOf refID consumed ++ resultsOf refID rest :=
  List.filter_append _ _

theorem length_slicesOf (refID : R) :
    (slicesOf refID results).length = (resultsOf refID results).length := List.length_map _

theorem entryOf_concat_of_ne {request : AutostackMetricRequest R A T}
    {result : MetricCollectionTaskResult R I D} (h : result.refID ≠ request.refID) :
    entryOf instanceCache (consumed ++ [result]) request =
      entryOf instanceCache consumed request := by
  rw [entryOf, collectionOf, slicesOf, resultsOf_concat_of_ne h]
  rfl

theorem entryOf_concat_self {request : AutostackMetricRequest R A T}
    {result : MetricCollectionTaskResult R I D} (h : result.refID = request.refID) :
    entryOf instanceCache (consumed ++ [result]) request =
      (request.refID, (entryOf instanceCache consumed request).2.append (sliceOf result)) := by
  rw [entryOf, collectionOf, slicesOf, ← h, resultsOf_concat_self, List.map_append]
  simp only [entryOf, MetricCollectionAccumulator.append, collectionOf, ← h]
  rfl

/-! ## The accumulators of the pending requests -/

omit [DecidableEq R] in
theorem eq_of_refID (hnodup : (pending.map AutostackMetricRequest.refID).Nodup)
    {request request' : AutostackMetricRequest R A T} (hrequest : request ∈ pending)
    (hrequest' : request' ∈ pending) (h : request.refID = request'.refID) : request = request' :=
  List.inj_on_of_nodup_map hnodup hrequest hrequest' h

theorem lookup_entries (hnodup : (pending.map AutostackMetricRequest.refID).Nodup)
    {request : AutostackMetricRequest R A T} (hrequest : request ∈ pending) :
    (pending.map (entryOf instanceCache consumed)).lookup request.refID =
      some (entryOf instanceCache consumed request).2 := by
  induction pending with
  | nil => cases hrequest
  | cons first pending ih =>
    obtain ⟨hfresh, hnodup'⟩ := List.nodup_cons.mp hnodup
    rw [List.map_cons, entryOf, List.lookup_cons]
    rcases List.mem_cons.mp hrequest with rfl | hrequest
    · rw [beq_self_eq_true]
      rfl
    · have hne : (request.refID == first.refID) = false := by
        rw [beq_eq_false_iff_ne]
        exact fun heq => hfresh (heq ▸ List.mem_map.mpr ⟨request, hrequest, rfl⟩)
      rw [hne]
      exact ih hnodup' hrequest

theorem setAccumulator_entries (hnodup : (pending.map AutostackMetricRequest.refID).Nodup)
    {request : AutostackMetricRequest R A T} (hrequest : request ∈ pending)
    {result : MetricCollectionTaskResult R I D} (hresult : result.refID = request.refID) :
    setAccumulator result.refID ((entryOf instanceCache consumed request).2.append (sliceOf result))
        (pending.map (entryOf instanceCache consumed)) =
      pending.map (entryOf instanceCache (consumed ++ [result])) := by
  rw [setAccumulator, List.map_map]
  apply List.map_congr_left
  intro other hother
  by_cases heq : other.refID = result.refID
  · obtain rfl := eq_of_refID hnodup hother hrequest (heq.trans hresult)
    rw [entryOf_concat_self hresult, ← hresult]
    exact if_pos heq
  · rw [entryOf_concat_of_ne (Ne.symm heq)]
    exact if_neg heq

/-- The requests that are pending when one has been taken off. -/
def without (refID : R) (pending : List (AutostackMetricRequest R A T)) :
    List (AutostackMetricRequest R A T) :=
  pending.filter fun request => request.refID ≠ refID

theorem pop_entries (refID : R) :
    pop refID (pending.map (entryOf instanceCache consumed)) =
      (without refID pending).map (entryOf instanceCache consumed) := by
  rw [pop, without, List.filter_map]
  rfl

theorem without_entries_concat (result : MetricCollectionTaskResult R I D) :
    (without result.refID pending).map (entryOf instanceCache (consumed ++ [result])) =
      (without result.refID pending).map (entryOf instanceCache consumed) := by
  apply List.map_congr_left
  intro request hrequest
  have hne := of_decide_eq_true (List.mem_filter.mp hrequest).2
  exact entryOf_concat_of_ne (Ne.symm hne)

/-! ## The iterator between two calls -/

/-- The slice of an instance has the records of its task, and none where the task failed. -/
structure SliceFor (result : MetricCollectionTaskResult R I D) (slice : InstanceMetricData I D) :
    Prop where
  instanceID : slice.instanceID = result.instanceID
  records : ∀ data, result.data = some data → slice.records = data
  failed : result.data = none → slice.records = []

/-- The collection of a request: one slice for each of its instances, in the order of the results. -/
structure Collects (instanceCache : A → List I) (results : List (MetricCollectionTaskResult R I D))
    (request : AutostackMetricRequest R A T) (collection : MetricCollection R I D T) : Prop where
  refID : collection.refID = request.refID
  timeRange : collection.timeRange = request.timeRange
  instances : (collection.slices.map InstanceMetricData.instanceID).Perm
    (instanceCache request.autostack)
  slices : List.Forall₂ SliceFor (results.filter fun result => result.refID = request.refID)
    collection.slices

/-- Some results have been consumed, and the requests that are pending have not had all of theirs. -/
structure Gathering (instanceCache : A → List I) (results : List (MetricCollectionTaskResult R I D))
    (it : MetricCollectionIterator R I D T) (consumed : List (MetricCollectionTaskResult R I D))
    (pending : List (AutostackMetricRequest R A T)) : Prop where
  split : results = consumed ++ it.taskResults
  accumulators : it.accumulatorMap = pending.map (entryOf instanceCache consumed)
  nodup : (pending.map AutostackMetricRequest.refID).Nodup
  instances : ∀ request ∈ pending,
    ((resultsOf request.refID results).map MetricCollectionTaskResult.instanceID).Perm
      (instanceCache request.autostack)
  incomplete : ∀ request ∈ pending, instanceCache request.autostack = [] ∨
    (resultsOf request.refID consumed).length < (instanceCache request.autostack).length
  covered : ∀ result ∈ it.taskResults, ∃ request ∈ pending, request.refID = result.refID
  numTaskResults : it.numTaskResults = consumed.length
  numTasks : it.numTasks = results.length

/-- A call has yielded the collection of a request, with its last result or after all results. -/
structure Yields (instanceCache : A → List I) (results : List (MetricCollectionTaskResult R I D))
    (request : AutostackMetricRequest R A T) (call : Next R I D T)
    (it : MetricCollectionIterator R I D T) : Prop where
  collection : ∃ collection, call = .collection collection ∧
    Collects instanceCache results request collection
  last : instanceCache request.autostack ≠ [] → ∃ before result,
    results = before ++ result :: it.taskResults ∧ result.refID = request.refID ∧
      ∀ later ∈ it.taskResults, later.refID ≠ request.refID
  afterAll : instanceCache request.autostack = [] → it.taskResults = []

variable {taskResults : List (MetricCollectionTaskResult R I D)}
  {accumulatorMap : AccumulatorMap R I D T} {numTasks numTaskResults : ℕ}
  {result : MetricCollectionTaskResult R I D} {request : AutostackMetricRequest R A T}

omit [DecidableEq R] in
theorem sliceOf_sliceFor (result : MetricCollectionTaskResult R I D) :
    SliceFor result (sliceOf result) := by
  refine ⟨rfl, fun data hdata => ?_, fun hfailed => ?_⟩
  · rw [sliceOf, hdata, Option.getD_some]
  · rw [sliceOf, hfailed, Option.getD_none]

/-- The collection of all results of a request is what is asked for. -/
theorem Gathering.collects (h : Gathering instanceCache results it consumed pending)
    (hrequest : request ∈ pending) :
    Collects instanceCache results request (collectionOf results request) := by
  refine ⟨rfl, rfl, ?_, ?_⟩
  · have hinstances := h.instances request hrequest
    rw [collectionOf, slicesOf, List.map_map]
    exact hinstances
  · rw [collectionOf, slicesOf, List.forall₂_map_right_iff]
    exact List.forall₂_same.mpr fun result _ => sliceOf_sliceFor result

theorem Gathering.total (h : Gathering instanceCache results it consumed pending)
    (hrequest : request ∈ pending) :
    (resultsOf request.refID results).length = (instanceCache request.autostack).length := by
  rw [← (h.instances request hrequest).length_eq, List.length_map]

theorem Gathering.nodup_without (h : Gathering instanceCache results it consumed pending) (refID : R) :
    ((without refID pending).map AutostackMetricRequest.refID).Nodup :=
  h.nodup.sublist ((List.filter_sublist).map _)

theorem mem_without {refID : R} : request ∈ without refID pending ↔
    request ∈ pending ∧ request.refID ≠ refID := by
  rw [without, List.mem_filter, decide_eq_true_eq]

/-- With no results left, the pending requests are those without instances. -/
theorem Gathering.no_instances (h : Gathering instanceCache results it consumed pending)
    (hend : it.taskResults = []) (hrequest : request ∈ pending) :
    instanceCache request.autostack = [] ∧ resultsOf request.refID results = [] := by
  have hsplit := h.split
  rw [hend, List.append_nil] at hsplit
  have hnone : instanceCache request.autostack = [] := by
    rcases h.incomplete request hrequest with hnone | hlt
    · exact hnone
    · rw [← hsplit, h.total hrequest] at hlt
      exact absurd hlt (Nat.lt_irrefl _)
  have htotal := h.total hrequest
  rw [hnone] at htotal
  exact ⟨hnone, List.length_eq_zero_iff.mp htotal⟩

theorem doleOut_nil (h : Gathering instanceCache results it consumed [])
    (hend : it.taskResults = []) (pick : ℕ) : doleOut pick it = (.stopIteration, it) := by
  have hcount : it.numTaskResults = it.numTasks := by
    rw [h.numTaskResults, h.numTasks, h.split, hend, List.append_nil]
  have hpop : popitem pick it.accumulatorMap = none := by
    rw [h.accumulators]
    rfl
  rw [doleOut, if_neg (not_not.mpr hcount), hpop]

theorem popitem_entries (instanceCache : A → List I)
    (consumed : List (MetricCollectionTaskResult R I D)) (hpending : pending ≠ []) (pick : ℕ) :
    ∃ request ∈ pending, popitem pick (pending.map (entryOf instanceCache consumed)) =
      some (entryOf instanceCache consumed request) := by
  have hpick : pick % pending.length < pending.length :=
    Nat.mod_lt _ (List.length_pos_iff.mpr hpending)
  refine ⟨pending[pick % pending.length], List.getElem_mem hpick, ?_⟩
  rw [popitem, List.length_map, List.getElem?_map, List.getElem?_eq_getElem hpick]
  rfl

theorem doleOut_pending (h : Gathering instanceCache results it consumed pending)
    (hend : it.taskResults = []) (hpending : pending ≠ []) (pick : ℕ) :
    ∃ request ∈ pending,
      Yields instanceCache results request (doleOut pick it).1 (doleOut pick it).2 ∧
      Gathering instanceCache results (doleOut pick it).2 consumed
        (without request.refID pending) := by
  have hcount : it.numTaskResults = it.numTasks := by
    rw [h.numTaskResults, h.numTasks, h.split, hend, List.append_nil]
  have hconsumed : consumed = results := by rw [h.split, hend, List.append_nil]
  obtain ⟨request, hrequest, hpop⟩ :=
    popitem_entries instanceCache consumed hpending pick
  obtain ⟨hnone, hresults⟩ := h.no_instances hend hrequest
  have hempty : (entryOf instanceCache consumed request).2.expectedNumSlices = 0 ∧
      (entryOf instanceCache consumed request).2.collection.slices.length = 0 := by
    refine ⟨List.length_eq_zero_iff.mpr hnone, ?_⟩
    refine (length_slicesOf _).trans ?_
    rw [hconsumed, hresults]
    rfl
  have hdole : doleOut pick it = (.collection (collectionOf results request),
      { it with accumulatorMap := pop request.refID it.accumulatorMap }) := by
    rw [doleOut, if_neg (not_not.mpr hcount), h.accumulators, hpop]
    refine (if_pos hempty).trans ?_
    rw [hconsumed]
  rw [hdole]
  refine ⟨request, hrequest, ⟨⟨_, rfl, h.collects hrequest⟩, fun hne => absurd hnone hne,
    fun _ => hend⟩, ?_⟩
  exact {
    split := h.split
    accumulators := by
      refine (congrArg (pop request.refID) h.accumulators).trans ?_
      exact pop_entries request.refID
    nodup := h.nodup_without request.refID
    instances := fun other hother => h.instances other (mem_without.mp hother).1
    incomplete := fun other hother => h.incomplete other (mem_without.mp hother).1
    covered := by
      intro result hresult
      have hresult' : result ∈ it.taskResults := hresult
      rw [hend] at hresult'
      cases hresult'
    numTaskResults := h.numTaskResults
    numTasks := h.numTasks }

/-- What is left of the results of a request when one has come. -/
theorem resultsOf_rest (hsplit : results = consumed ++ result :: taskResults)
    (hresult : result.refID = request.refID) :
    (resultsOf request.refID results).length = (resultsOf request.refID consumed).length + 1 +
      (resultsOf request.refID taskResults).length := by
  have hcons : resultsOf request.refID (result :: taskResults) =
      result :: resultsOf request.refID taskResults :=
    List.filter_cons_of_pos (decide_eq_true hresult)
  rw [hsplit, resultsOf_append, hcons, List.length_append, List.length_cons]
  omega

/-- A result that is not the last one of its request is kept with the others. -/
theorem Gathering.keep
    (h : Gathering instanceCache results ⟨result :: taskResults, accumulatorMap, numTasks,
      numTaskResults⟩ consumed pending) (hrequest : request ∈ pending)
    (hresult : result.refID = request.refID)
    (hmore : (resultsOf request.refID consumed).length + 1 ≠
      (instanceCache request.autostack).length) :
    Gathering instanceCache results ⟨taskResults, setAccumulator result.refID
      ((entryOf instanceCache consumed request).2.append (sliceOf result)) accumulatorMap, numTasks,
      numTaskResults + 1⟩ (consumed ++ [result]) pending where
  split := by
    rw [h.split, List.append_assoc]
    rfl
  accumulators := by
    refine (congrArg (setAccumulator _ _) h.accumulators).trans ?_
    exact setAccumulator_entries h.nodup hrequest hresult
  nodup := h.nodup
  instances := h.instances
  incomplete := by
    intro other hother
    by_cases heq : result.refID = other.refID
    · obtain rfl := eq_of_refID h.nodup hother hrequest (heq.symm.trans hresult)
      have hrest := resultsOf_rest h.split hresult
      have htotal := h.total hother
      refine Or.inr ?_
      rw [← heq, resultsOf_concat_self, heq, List.length_append, List.length_singleton]
      omega
    · rw [resultsOf_concat_of_ne heq]
      exact h.incomplete other hother
  covered := fun later hlater => h.covered later (List.mem_cons_of_mem _ hlater)
  numTaskResults := by
    rw [List.length_append, ← h.numTaskResults]
    rfl
  numTasks := h.numTasks

/-- With its last result a request is taken off. -/
theorem Gathering.complete
    (h : Gathering instanceCache results ⟨result :: taskResults, accumulatorMap, numTasks,
      numTaskResults⟩ consumed pending) (hrequest : request ∈ pending)
    (hresult : result.refID = request.refID)
    (hlast : (resultsOf request.refID consumed).length + 1 =
      (instanceCache request.autostack).length) :
    (∀ later ∈ taskResults, later.refID ≠ request.refID) ∧
    Gathering instanceCache results ⟨taskResults, pop result.refID accumulatorMap, numTasks,
      numTaskResults + 1⟩ (consumed ++ [result]) (without request.refID pending) := by
  have hnone : resultsOf request.refID taskResults = [] := by
    have hrest := resultsOf_rest h.split hresult
    have htotal := h.total hrequest
    apply List.length_eq_zero_iff.mp
    omega
  have hlater : ∀ later ∈ taskResults, later.refID ≠ request.refID := by
    intro later hlater heq
    exact List.filter_eq_nil_iff.mp hnone later hlater (decide_eq_true heq)
  refine ⟨hlater, ?_⟩
  exact {
    split := by
      rw [h.split, List.append_assoc]
      rfl
    accumulators := by
      refine (congrArg (pop result.refID) h.accumulators).trans ?_
      rw [pop_entries, ← hresult, without_entries_concat]
    nodup := h.nodup_without request.refID
    instances := fun other hother => h.instances other (mem_without.mp hother).1
    incomplete := by
      intro other hother
      obtain ⟨hother, hne⟩ := mem_without.mp hother
      rw [resultsOf_concat_of_ne fun heq => hne (heq.symm.trans hresult)]
      exact h.incomplete other hother
    covered := by
      intro later hmem
      obtain ⟨other, hother, heq⟩ := h.covered later (List.mem_cons_of_mem _ hmem)
      exact ⟨other, mem_without.mpr ⟨hother, heq ▸ hlater later hmem⟩, heq⟩
    numTaskResults := by
      rw [List.length_append, ← h.numTaskResults]
      rfl
    numTasks := h.numTasks }

/-- The last slice makes the collection that of all results. -/
theorem collection_complete (hsplit : results = consumed ++ result :: taskResults)
    (hresult : result.refID = request.refID)
    (hlater : ∀ later ∈ taskResults, later.refID ≠ request.refID) :
    ((entryOf instanceCache consumed request).2.append (sliceOf result)).collection =
      collectionOf results request := by
  have hnone : resultsOf request.refID taskResults = [] :=
    List.filter_eq_nil_iff.mpr fun later hmem => by simpa using hlater later hmem
  have hresults : resultsOf request.refID results = resultsOf request.refID (consumed ++ [result]) := by
    rw [hsplit, show consumed ++ result :: taskResults = (consumed ++ [result]) ++ taskResults by simp,
      resultsOf_append, hnone, List.append_nil]
  have hentry : entryOf instanceCache (consumed ++ [result]) request = _ :=
    entryOf_concat_self hresult
  rw [collectionOf, slicesOf, hresults]
  exact (congrArg (fun entry => entry.2.collection) hentry).symm

/-- A call takes one of the pending requests off, and yields its collection. -/
theorem nextFrom_pending (pick : ℕ)
    (h : Gathering instanceCache results ⟨taskResults, accumulatorMap, numTasks, numTaskResults⟩
      consumed pending) (hpending : pending ≠ []) :
    ∃ request ∈ pending, ∃ consumed',
      Yields instanceCache results request
        (nextFrom pick numTasks taskResults accumulatorMap numTaskResults).1
        (nextFrom pick numTasks taskResults accumulatorMap numTaskResults).2 ∧
      Gathering instanceCache results
        (nextFrom pick numTasks taskResults accumulatorMap numTaskResults).2 consumed'
        (without request.refID pending) := by
  induction taskResults generalizing accumulatorMap numTaskResults consumed with
  | nil =>
    obtain ⟨request, hrequest, hyields, hrest⟩ := doleOut_pending h rfl hpending pick
    exact ⟨request, hrequest, consumed, hyields, hrest⟩
  | cons result taskResults ih =>
    obtain ⟨request, hrequest, hresult⟩ := h.covered result List.mem_cons_self
    have hlookup : accumulatorMap.lookup result.refID =
        some (entryOf instanceCache consumed request).2 := by
      rw [← hresult, show accumulatorMap = _ from h.accumulators]
      exact lookup_entries h.nodup hrequest
    have hrest := resultsOf_rest h.split hresult.symm
    have htotal := h.total hrequest
    have hslices : (entryOf instanceCache consumed request).2.collection.slices.length =
        (resultsOf request.refID consumed).length := length_slicesOf _
    have hopen : ¬ (entryOf instanceCache consumed request).2.expectedNumSlices ≤
        (entryOf instanceCache consumed request).2.collection.slices.length := by
      rw [hslices, entryOf]
      simp only
      omega
    have happend : ((entryOf instanceCache consumed request).2.append
        (sliceOf result)).collection.slices.length = (resultsOf request.refID consumed).length + 1 := by
      rw [← hslices]
      exact List.length_append
    rw [nextFrom, hlookup]
    simp only [if_neg hopen]
    by_cases hlast : (resultsOf request.refID consumed).length + 1 =
        (instanceCache request.autostack).length
    · obtain ⟨hlater, hgathering⟩ := h.complete hrequest hresult.symm hlast
      have hfull : ((entryOf instanceCache consumed request).2.append
          (sliceOf result)).collection.slices.length =
          ((entryOf instanceCache consumed request).2.append (sliceOf result)).expectedNumSlices := by
        rw [happend]
        exact hlast
      rw [if_pos hfull]
      refine ⟨request, hrequest, consumed ++ [result], ⟨?_, ?_, ?_⟩, hgathering⟩
      · exact ⟨_, congrArg Next.collection (collection_complete h.split hresult.symm hlater),
          h.collects hrequest⟩
      · exact fun _ => ⟨consumed, result, h.split, hresult.symm, hlater⟩
      · intro hnone
        rw [hnone] at hlast
        cases hlast
    · have hmore : ¬ ((entryOf instanceCache consumed request).2.append
          (sliceOf result)).collection.slices.length =
          ((entryOf instanceCache consumed request).2.append (sliceOf result)).expectedNumSlices := by
        rw [happend]
        exact hlast
      rw [if_neg hmore]
      exact ih (h.keep hrequest hresult.symm hlast)

/-! ## All calls -/

theorem Gathering.taskResults_nil (h : Gathering instanceCache results it consumed []) :
    it.taskResults = [] := by
  apply List.eq_nil_iff_forall_not_mem.mpr
  intro result hresult
  obtain ⟨request, hrequest, -⟩ := h.covered result hresult
  cases hrequest

theorem next_done (h : Gathering instanceCache results it consumed []) (pick : ℕ) :
    next pick it = (.stopIteration, it) := by
  have hend := h.taskResults_nil
  obtain ⟨taskResults, accumulatorMap, numTasks, numTaskResults⟩ := it
  obtain rfl : taskResults = [] := hend
  exact doleOut_nil h rfl pick

theorem iteratorAt_done (h : Gathering instanceCache results it consumed []) (picks : ℕ → ℕ)
    (n : ℕ) : iteratorAt it picks n = it := by
  induction n with
  | zero => rfl
  | succ n ih => rw [iteratorAt, ih, next_done h]

/-- The calls after the first are those of the iterator that it leaves. -/
theorem iteratorAt_succ (it : MetricCollectionIterator R I D T) (picks : ℕ → ℕ) (n : ℕ) :
    iteratorAt it picks (n + 1) = iteratorAt (next (picks 0) it).2 (fun k => picks (k + 1)) n := by
  induction n with
  | zero => rfl
  | succ n ih => rw [iteratorAt, ih, iteratorAt]

theorem callAt_succ (it : MetricCollectionIterator R I D T) (picks : ℕ → ℕ) (n : ℕ) :
    callAt it picks (n + 1) = callAt (next (picks 0) it).2 (fun k => picks (k + 1)) n := by
  rw [callAt, iteratorAt_succ, callAt]

theorem perm_cons_without (hnodup : (pending.map AutostackMetricRequest.refID).Nodup)
    (hrequest : request ∈ pending) : (request :: without request.refID pending).Perm pending := by
  induction pending with
  | nil => cases hrequest
  | cons first pending ih =>
    obtain ⟨hfresh, hnodup'⟩ := List.nodup_cons.mp hnodup
    have hothers : ∀ other ∈ pending, other.refID ≠ first.refID :=
      fun other hother heq => hfresh (heq ▸ List.mem_map.mpr ⟨other, hother, rfl⟩)
    rcases List.mem_cons.mp hrequest with rfl | hrequest
    · have hself : without request.refID (request :: pending) = pending := by
        rw [without, List.filter_cons_of_neg (by simp)]
        exact List.filter_eq_self.mpr fun other hother => decide_eq_true (hothers other hother)
      rw [hself]
    · have hfirst : without request.refID (first :: pending) =
          first :: without request.refID pending :=
        List.filter_cons_of_pos (decide_eq_true (hothers request hrequest).symm)
      rw [hfirst]
      exact (List.Perm.swap _ _ _).trans ((ih hnodup' hrequest).cons first)

/-- One call after another, the pending requests are yielded, and then the iteration stops. -/
theorem calls_yield (h : Gathering instanceCache results it consumed pending) (picks : ℕ → ℕ) :
    ∃ order : List (AutostackMetricRequest R A T), order.Perm pending ∧
      (∀ n (hn : n < order.length), Yields instanceCache results (order[n]) (callAt it picks n)
        (iteratorAt it picks (n + 1))) ∧
      ∀ n, pending.length ≤ n → callAt it picks n = .stopIteration ∧
        (iteratorAt it picks (n + 1)).accumulatorMap = [] := by
  induction hlength : pending.length generalizing it consumed pending picks with
  | zero =>
    obtain rfl := List.length_eq_zero_iff.mp hlength
    refine ⟨[], List.Perm.refl _, fun n hn => absurd hn (Nat.not_lt_zero n), fun n _ => ?_⟩
    rw [callAt, iteratorAt_done h, iteratorAt_done h, next_done h]
    exact ⟨rfl, h.accumulators⟩
  | succ length ih =>
    have hpending : pending ≠ [] := by
      rintro rfl
      cases hlength
    obtain ⟨request, hrequest, consumed', hyields, hrest⟩ := nextFrom_pending (picks 0) h hpending
    have hperm := perm_cons_without h.nodup hrequest
    have hlength' : (without request.refID pending).length = length := by
      have hcons := hperm.length_eq
      rw [List.length_cons] at hcons
      omega
    obtain ⟨order, horder, hcalls, hstop⟩ := ih hrest (fun k => picks (k + 1)) hlength'
    refine ⟨request :: order, (horder.cons request).trans hperm, ?_, ?_⟩
    · intro n hn
      cases n with
      | zero => exact hyields
      | succ n =>
        rw [callAt_succ, iteratorAt_succ]
        exact hcalls n (Nat.lt_of_succ_lt_succ hn)
    · intro n hn
      cases n with
      | zero => exact absurd hn (Nat.not_succ_le_zero _)
      | succ n =>
        rw [callAt_succ, iteratorAt_succ]
        exact hstop n (Nat.le_of_succ_le_succ hn)

/-! ## The tasks of the requests -/

def tasksOf (instanceCache : A → List I) (request : AutostackMetricRequest R A T) :
    List (MetricCollectionTask R I) :=
  (instanceCache request.autostack).map fun instanceID => ⟨request.refID, instanceID⟩

theorem createTasks_eq (instanceCache : A → List I)
    {tasks : List (MetricCollectionTask R I)} {accumulatorMap : AccumulatorMap R I D T}
    (hnodup : (accumulatorMap.map Prod.fst ++ requests.map AutostackMetricRequest.refID).Nodup) :
    createMetricDataCollectionTasks instanceCache requests (tasks, accumulatorMap) =
      some (tasks ++ requests.flatMap (tasksOf instanceCache),
        accumulatorMap ++ requests.map (entryOf instanceCache [])) := by
  induction requests generalizing tasks accumulatorMap with
  | nil => rw [createMetricDataCollectionTasks, List.flatMap_nil, List.append_nil, List.map_nil,
      List.append_nil]
  | cons request requests ih =>
    have hfresh : request.refID ∉ accumulatorMap.map Prod.fst := by
      rw [List.map_cons, List.nodup_middle] at hnodup
      exact fun hmem => (List.nodup_cons.mp hnodup).1 (List.mem_append_left _ hmem)
    have hnodup' : ((accumulatorMap ++ [entryOf instanceCache [] request]).map Prod.fst ++
        requests.map AutostackMetricRequest.refID).Nodup := by
      rw [List.map_append, List.append_assoc]
      exact hnodup
    rw [createMetricDataCollectionTasks, if_neg hfresh]
    refine (ih hnodup').trans ?_
    rw [List.flatMap_cons, List.map_cons, ← List.append_assoc, List.append_assoc accumulatorMap]
    rfl

theorem tasksOf_filter {refID : R} (h : request.refID ≠ refID) :
    (tasksOf instanceCache request).filter (fun task => task.refID = refID) = [] := by
  apply List.filter_eq_nil_iff.mpr
  intro task htask
  obtain ⟨instanceID, -, rfl⟩ := List.mem_map.mp htask
  simpa using h

theorem tasks_filter (hnodup : (requests.map AutostackMetricRequest.refID).Nodup)
    (hrequest : request ∈ requests) :
    (requests.flatMap (tasksOf instanceCache)).filter (fun task => task.refID = request.refID) =
      tasksOf instanceCache request := by
  have hself : (tasksOf instanceCache request).filter (fun task => task.refID = request.refID) =
      tasksOf instanceCache request := by
    apply List.filter_eq_self.mpr
    intro task htask
    obtain ⟨instanceID, -, rfl⟩ := List.mem_map.mp htask
    exact decide_eq_true rfl
  induction requests with
  | nil => cases hrequest
  | cons first requests ih =>
    obtain ⟨hfresh, hnodup'⟩ := List.nodup_cons.mp hnodup
    rw [List.flatMap_cons, List.filter_append]
    rcases List.mem_cons.mp hrequest with rfl | hrequest
    · have hothers : (requests.flatMap (tasksOf instanceCache)).filter
          (fun task => task.refID = request.refID) = [] := by
        rw [List.filter_flatMap, List.flatMap_eq_nil_iff]
        intro other hother
        apply tasksOf_filter
        exact fun heq => hfresh (heq ▸ List.mem_map.mpr ⟨other, hother, rfl⟩)
      rw [hself, hothers, List.append_nil]
    · have hne : first.refID ≠ request.refID :=
        fun heq => hfresh (heq ▸ List.mem_map.mpr ⟨request, hrequest, rfl⟩)
      rw [tasksOf_filter hne, List.nil_append]
      exact ih hnodup' hrequest

/-- The results of a request are of its instances, one each. -/
theorem resultsOf_instances (hnodup : (requests.map AutostackMetricRequest.refID).Nodup)
    (hresults : (results.map MetricCollectionTaskResult.task).Perm
      (requests.flatMap (tasksOf instanceCache))) (hrequest : request ∈ requests) :
    ((resultsOf request.refID results).map MetricCollectionTaskResult.instanceID).Perm
      (instanceCache request.autostack) := by
  have hfilter := hresults.filter fun task => task.refID = request.refID
  rw [tasks_filter hnodup hrequest, List.filter_map] at hfilter
  have hinstances := hfilter.map MetricCollectionTask.instanceID
  rw [List.map_map, tasksOf, List.map_map] at hinstances
  exact hinstances.trans (List.Perm.of_eq (List.map_id _))

theorem gathering_start (hnodup : (requests.map AutostackMetricRequest.refID).Nodup)
    (hresults : (results.map MetricCollectionTaskResult.task).Perm
      (requests.flatMap (tasksOf instanceCache))) :
    Gathering instanceCache results ⟨results, requests.map (entryOf instanceCache []),
      (requests.flatMap (tasksOf instanceCache)).length, 0⟩ [] requests where
  split := rfl
  accumulators := rfl
  nodup := hnodup
  instances request hrequest := resultsOf_instances hnodup hresults hrequest
  incomplete request _ := by
    by_cases hnone : instanceCache request.autostack = []
    · exact Or.inl hnone
    · exact Or.inr (List.length_pos_iff.mpr hnone)
  covered result hresult := by
    have htask : result.task ∈ requests.flatMap (tasksOf instanceCache) :=
      hresults.mem_iff.mp (List.mem_map.mpr ⟨result, hresult, rfl⟩)
    obtain ⟨request, hrequest, hmem⟩ := List.mem_flatMap.mp htask
    obtain ⟨instanceID, -, heq⟩ := List.mem_map.mp hmem
    exact ⟨request, hrequest, congrArg MetricCollectionTask.refID heq⟩
  numTaskResults := rfl
  numTasks := by rw [← hresults.length_eq, List.length_map]

/-- Whatever the order of the results, the iterator yields each request once, with one slice for
each of its instances that has the records of its task, as soon as its last result is there, or at
the end if it has no instances; from then on it stops. -/
theorem iterator_yields_requests (instanceCache : A → List I)
    {requests : List (AutostackMetricRequest R A T)}
    (hnodup : (requests.map AutostackMetricRequest.refID).Nodup) :
    ∃ (tasks : List (MetricCollectionTask R I)) (accumulatorMap : AccumulatorMap R I D T),
      createMetricDataCollectionTasks instanceCache requests ([], []) =
        some (tasks, accumulatorMap) ∧
      ∀ (results : List (MetricCollectionTaskResult R I D)) (picks : ℕ → ℕ),
        (results.map MetricCollectionTaskResult.task).Perm tasks →
        ∃ order : List (AutostackMetricRequest R A T), order.Perm requests ∧
          (∀ n (hn : n < order.length), Yields instanceCache results (order[n])
            (callAt ⟨results, accumulatorMap, tasks.length, 0⟩ picks n)
            (iteratorAt ⟨results, accumulatorMap, tasks.length, 0⟩ picks (n + 1))) ∧
          ∀ n, requests.length ≤ n →
            callAt ⟨results, accumulatorMap, tasks.length, 0⟩ picks n = .stopIteration ∧
            (iteratorAt ⟨results, accumulatorMap, tasks.length, 0⟩ picks (n + 1)).accumulatorMap =
              [] := by
  refine ⟨_, _, createTasks_eq instanceCache hnodup, fun results picks hresults => ?_⟩
  obtain ⟨order, horder, hcalls, hstop⟩ := calls_yield (gathering_start hnodup hresults) picks
  exact ⟨order, horder, hcalls, hstop⟩

/-- Two requests, of two instances and of none. -/
def sampleRequests : List (AutostackMetricRequest ℕ ℕ Unit) := [⟨1, 2, ()⟩, ⟨7, 0, ()⟩]

/-- The results come in the other order, and one of the tasks has failed. -/
def sampleResults : List (MetricCollectionTaskResult ℕ ℕ ℕ) := [⟨1, 1, none⟩, ⟨1, 0, some [5]⟩]

theorem iterator_yields_requests_sample :
    ∃ tasks accumulatorMap, createMetricDataCollectionTasks List.range sampleRequests ([], []) =
        some (tasks, accumulatorMap) ∧
      ∃ order : List (AutostackMetricRequest ℕ ℕ Unit), order.Perm sampleRequests ∧
        ∀ n, 2 ≤ n →
          callAt ⟨sampleResults, accumulatorMap, tasks.length, 0⟩ id n = .stopIteration := by
  have hnodup : (sampleRequests.map AutostackMetricRequest.refID).Nodup := by decide
  obtain ⟨tasks, accumulatorMap, hcreate, hyields⟩ := iterator_yields_requests List.range hnodup
  have htasks : [⟨1, 0⟩, ⟨1, 1⟩] = tasks := congrArg Prod.fst (Option.some.inj hcreate)
  have hresults : (sampleResults.map MetricCollectionTaskResult.task).Perm tasks := by
    rw [← htasks]
    exact List.Perm.swap _ _ _
  obtain ⟨order, horder, -, hstop⟩ := hyields sampleResults id hresults
  exact ⟨tasks, accumulatorMap, hcreate, order, horder, fun n hn => (hstop n hn).1⟩

end NumentaApps.Aggregator
