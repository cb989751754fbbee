import NumentaApps.SchedulerHandshake

/-!
# The shutdown of the scheduler

Once the stop request has been handled and no model waits, the controller asks the
running models to stop, once. A model that is started later escapes the request, unless
its slot is preempted for the models that wait behind it.
-/
namespace NumentaApps.ModelSwapper
open TransitionSystem

namespace Scheduler

section

variable {M : Type} {s t : Scheduler M}

/-- Every running model has been asked to stop. -/
def AllAsked (s : Scheduler M) : Prop :=
  ∀ p ∈ s.runningModelsMap, p.2.slotIndex ∈ s.pendingPreemptSlotsSet

theorem allAsked_iff : s.AllAsked ↔ ∀ i ∈ s.busySlots, i ∈ s.pendingPreemptSlotsSet := by
  simp only [AllAsked, busySlots, List.forall_mem_map]

theorem requestPreemption_cases {order : DictOrder (M × RunningModelInfo)}
    (h : s.requestPreemptionOfRunningSlotIfNeededAndPossible order = .ok t) :
    s.freeSlots = [] ∧
    (((s.waitingModelsFIFO.length ≤ s.pendingPreemptSlotsSet.card ∨
        s.slotAgents.length ≤ s.pendingPreemptSlotsSet.card) ∧ t = s) ∨
      (s.pendingPreemptSlotsSet.card < s.waitingModelsFIFO.length ∧
        ∃ as i, i ∈ s.busySlots ∧ i ∉ s.pendingPreemptSlotsSet ∧ t = { s with
          slotAgents := as, pendingPreemptSlotsSet := insert i s.pendingPreemptSlotsSet })) := by
  unfold requestPreemptionOfRunningSlotIfNeededAndPossible at h
  split at h
  · cases h
  rename_i hf
  refine ⟨not_not.mp hf, ?_⟩
  split at h
  · rename_i hc
    cases h
    exact .inl ⟨hc, rfl⟩
  rename_i hc
  rw [not_or] at hc
  split at h
  · cases h
  · rename_i i time rest hlru
    obtain ⟨as, rfl⟩ := preemptSlot_eq h
    have hmem : (i, time) ∈ s.lru order := hlru ▸ List.mem_cons_self
    obtain ⟨hb, hp⟩ := mem_lru hmem
    exact .inr ⟨by omega, as, i, hb, hp, rfl⟩

end

variable {M : Type} [DecidableEq M] {s t : Scheduler M} {n : ℕ}

/-- After the stop request to the remaining models, no idle model is started on a free
slot, and a slot that frees up goes to a waiting model only if more models wait than
there are slots. -/
def NoLateStart (s : Scheduler M) : Action M → Prop
  | .runEvent _ _ _ => s.requestedStopOfRemainingModels = true →
    match s.eventQ.head? with
    | some (.newInputNotify m) =>
      m ∈ s.runningModels ∨ m ∈ s.waitingModelsFIFO ∨ s.freeSlots = []
    | some (.modelDoneNotify _ _) =>
      s.waitingModelsFIFO = [] ∨ s.slotAgents.length < s.waitingModelsFIFO.length
    | _ => True
  | _ => True

instance (s : Scheduler M) : (a : Action M) → Decidable (s.NoLateStart a)
  | .runEvent _ _ _ => by
    unfold NoLateStart
    cases s.eventQ.head? with
    | none => exact inferInstanceAs (Decidable (_ → True))
    | some e =>
      cases e with
      | stopEventLoopRequest => exact inferInstanceAs (Decidable (_ → True))
      | newInputNotify m => exact inferInstanceAs (Decidable (_ → _ ∨ _ ∨ _))
      | modelDoneNotify m code => exact inferInstanceAs (Decidable (_ → _ ∨ _))
  | .newInputNotify _ | .requestStop | .runTop _ | .agentTurn _ | .agentJoins _
  | .processExits _ _ | .monitorReports _ => inferInstanceAs (Decidable True)

/-! ## The pending preemptions -/

theorem AllAsked.updateTimestamp (h : s.AllAsked) (m : M) (now : ℕ) :
    (s.updateTimestamp m now).AllAsked := by
  rw [allAsked_iff, busySlots_updateTimestamp]
  exact allAsked_iff.mp h

omit [DecidableEq M] in
theorem AllAsked.requestPreemption {order : DictOrder (M × RunningModelInfo)} (h : s.AllAsked)
    (ht : s.requestPreemptionOfRunningSlotIfNeededAndPossible order = .ok t) : t.AllAsked := by
  rcases (requestPreemption_cases ht).2 with ⟨-, rfl⟩ | ⟨-, as, i, -, -, rfl⟩
  · exact h
  · intro p hp
    exact Finset.mem_insert_of_mem (h p hp)

/-- A freed slot is pending no more, and those of the other models still are. -/
theorem AllAsked.freeSlotOf (h : s.AllAsked) (hi : s.Tables n) {p : M × RunningModelInfo}
    (hp : p ∈ s.runningModelsMap) (as : List (SlotAgent M)) :
    AllAsked { s.freeSlotOf p with slotAgents := as } := by
  intro q hq
  have hperm : s.busySlots.Perm
      (p.2.slotIndex :: (s.runningModelsMap.erase p).map (·.2.slotIndex)) :=
    (List.perm_cons_erase hp).map _
  have hnd := hperm.nodup_iff.mp (List.nodup_append.mp hi.slots_nodup).1
  refine Finset.mem_erase.mpr ⟨?_, h q (List.mem_of_mem_erase hq)⟩
  intro heq
  exact (List.nodup_cons.mp hnd).1 (heq ▸ List.mem_map_of_mem hq)

/-- With every slot busy and asked, the pending preemptions are all the slots. -/
theorem AllAsked.card_eq (h : s.AllAsked) (hi : s.Tables n) (hf : s.freeSlots = []) :
    s.pendingPreemptSlotsSet = Finset.range s.slotAgents.length := by
  have hslots := hi.slots
  rw [hf, List.append_nil] at hslots
  ext i
  rw [Finset.mem_range, ← List.mem_range, ← hslots.mem_iff]
  exact ⟨hi.pending i, allAsked_iff.mp h i⟩

omit [DecidableEq M] in
/-- The one slot that was not asked to stop is asked exactly if the pending preemptions are
outnumbered by the waiting models. -/
theorem requestPreemption_allAsked_iff {order : DictOrder (M × RunningModelInfo)} {i : ℕ}
    (ht : s.requestPreemptionOfRunningSlotIfNeededAndPossible order = .ok t)
    (hothers : ∀ k ∈ s.busySlots, k ≠ i → k ∈ s.pendingPreemptSlotsSet) (hb : i ∈ s.busySlots)
    (hi : i ∉ s.pendingPreemptSlotsSet)
    (hcard : s.pendingPreemptSlotsSet.card < s.slotAgents.length) :
    t.AllAsked ↔ s.pendingPreemptSlotsSet.card < s.waitingModelsFIFO.length := by
  rw [allAsked_iff]
  rcases (requestPreemption_cases ht).2 with ⟨hc, rfl⟩ | ⟨hc, as, k, hk, hkp, rfl⟩
  · refine ⟨fun h => absurd (h i hb) hi, fun hlt => ?_⟩
    omega
  · refine ⟨fun _ => hc, fun _ j hj => ?_⟩
    have hki : k = i := by
      by_contra hne
      exact hkp (hothers k hk hne)
    by_cases hji : j = i
    · exact hji ▸ hki ▸ Finset.mem_insert_self _ _
    · exact Finset.mem_insert_of_mem (hothers j hj hji)

/-- A waiting model that is started on the slot just freed is asked to stop at once exactly
if the slots still pending are outnumbered by the models that wait behind it. -/
theorem startWaitingModel_allAsked_iff {order : DictOrder (M × RunningModelInfo)} {now i : ℕ}
    {m : M} {rest : List M} (hi : s.Tables n) (hl : s.loop ≠ .left)
    (hw : s.waitingModelsFIFO = m :: rest) (hf : s.freeSlots = [i]) (hasked : s.AllAsked)
    (ht : s.startWaitingModel order now = .ok t) :
    t.AllAsked ↔ s.pendingPreemptSlotsSet.card < rest.length := by
  have hnd := hi.waiting
  rw [hw, List.nodup_cons] at hnd
  have hrest : Tables n { s with waitingModelsFIFO := rest } :=
    { hi with
      waiting := hnd.2
      disjoint := fun m' hm' => hi.disjoint m' (by simp [hw, hm']) }
  have hlast : s.freeSlots = [] ++ [i] := hf
  obtain ⟨as, heq, hu⟩ := hrest.assignModelToFreeSlot hl now
    (hi.disjoint m (by simp [hw])) hnd.1 hlast
  have hfree : i ∉ s.busySlots := by
    intro hb
    exact hi.not_free hb (by simp [hf])
  have hpend : i ∉ s.pendingPreemptSlotsSet := fun h => hfree (hi.pending i h)
  have hcard : s.pendingPreemptSlotsSet.card < s.slotAgents.length := by
    have hsub : s.pendingPreemptSlotsSet ⊆ s.busySlots.toFinset :=
      fun j hj => List.mem_toFinset.mpr (hi.pending j hj)
    have hle := (Finset.card_le_card hsub).trans (List.toFinset_card_le _)
    have hsum := hi.length
    rw [hf] at hsum
    simp only [busySlots, List.length_map, List.length_singleton] at hle hsum
    omega
  simp only [startWaitingModel, hw, heq, Except.bind] at ht
  refine requestPreemption_allAsked_iff (i := i) ht ?_ ?_ hpend ?_
  · intro k hk hne
    rw [busySlots, List.map_append, List.mem_append] at hk
    rcases hk with hk | hk
    · exact allAsked_iff.mp hasked k hk
    · exact absurd (List.mem_singleton.mp hk) hne
  · simp [busySlots]
  · have hcount := hu.count
    simp only at hcount ⊢
    rw [hcount, ← hi.count]
    exact hcard

/-! ## The turns of the controller -/

/-- A new-input notification leaves every running model asked to stop exactly if it starts
no model. -/
theorem handleNewInputNotifyEvent_allAsked_iff {order : DictOrder (M × RunningModelInfo)}
    {now : ℕ} {m : M} (hi : s.Inv n) (hasked : s.AllAsked)
    (h : s.handleNewInputNotifyEvent order now m = .ok t) :
    t.AllAsked ↔ m ∈ s.runningModels ∨ m ∈ s.waitingModelsFIFO ∨ s.freeSlots = [] := by
  unfold handleNewInputNotifyEvent at h
  split at h
  · rename_i p hp
    cases h
    obtain ⟨hmem, rfl⟩ := runningModelInfo_some hp
    exact iff_of_true (hasked.updateTimestamp _ now) (.inl (List.mem_map_of_mem hmem))
  rename_i hnone
  have hidle := runningModelInfo_none hnone
  split at h
  · rename_i hw
    cases h
    exact iff_of_true hasked (.inr (.inl hw))
  rename_i hw
  split at h
  · rename_i hf
    rw [if_neg (not_not.mpr (hi.waiting_free hf))] at h
    obtain ⟨as, i, hlast, rfl⟩ := assignModelToFreeSlot_eq h
    have hfree : i ∈ s.freeSlots := List.mem_of_getLast? hlast
    refine iff_of_false (fun hall => ?_) (by simp [hidle, hw, hf])
    have hpend := hall (m, RunningModelInfo.mk i now) (by simp)
    exact hi.not_free (hi.pending i hpend) hfree
  · rename_i hf
    have hasked' : AllAsked { s with waitingModelsFIFO := s.waitingModelsFIFO ++ [m] } := hasked
    exact iff_of_true (hasked'.requestPreemption h) (.inr (.inr (not_not.mp hf)))

/-- The state between the release of slot `i` and the start of a waiting model on it. -/
structure Released (n i : ℕ) (s u : Scheduler M) : Prop where
  tables : u.Tables n
  loop : u.loop = .top
  asked : u.AllAsked
  waiting : u.waitingModelsFIFO = s.waitingModelsFIFO
  free : u.freeSlots = s.freeSlots ++ [i]
  pending : u.pendingPreemptSlotsSet = s.pendingPreemptSlotsSet.erase i

theorem Released.allAsked_iff {u : Scheduler M} {i now : ℕ}
    {order : DictOrder (M × RunningModelInfo)} (hi : s.Inv n) (hasked : s.AllAsked)
    (hb : i ∈ s.busySlots) (h : Released n i s u) (ht : u.startWaitingModel order now = .ok t) :
    t.AllAsked ↔ s.waitingModelsFIFO = [] ∨ s.slotAgents.length < s.waitingModelsFIFO.length := by
  cases hw : s.waitingModelsFIFO with
  | nil =>
    rw [startWaitingModel, h.waiting.trans hw] at ht
    cases ht
    exact iff_of_true h.asked (.inl rfl)
  | cons m rest =>
    have hf : s.freeSlots = [] := by
      by_contra hne
      rw [hi.waiting_free hne] at hw
      cases hw
    have hfree := h.free
    rw [hf, List.nil_append] at hfree
    have hlt := hi.slot_lt (List.mem_append_left _ hb)
    have hcard : u.pendingPreemptSlotsSet.card = s.slotAgents.length - 1 := by
      rw [h.pending, hasked.card_eq hi.toTables hf,
        Finset.card_erase_of_mem (Finset.mem_range.mpr hlt), Finset.card_range]
    rw [startWaitingModel_allAsked_iff h.tables (by simp [h.loop]) (h.waiting.trans hw) hfree
      h.asked ht, hcard, List.length_cons]
    constructor
    · intro hless
      exact .inr (by omega)
    · rintro (hnil | hless)
      · cases hnil
      · omega

/-- A model-done notification leaves them asked exactly if no model waits for the slot or
more models wait than there are slots. -/
theorem runEvent_modelDone_allAsked_iff {order : DictOrder (M × RunningModelInfo)}
    {now : ℕ} {modelInputPending : M → Bool} {m : M} {code : ℤ} {q : List (Event M)}
    (hi : s.Inv n) (hl : s.loop = .atQueue) (hq : s.eventQ = .modelDoneNotify m code :: q)
    (hasked : s.AllAsked) (h : s.runEvent order now modelInputPending = some (.ok t)) :
    t.AllAsked ↔ s.waitingModelsFIFO = [] ∨
      s.slotAgents.length < s.waitingModelsFIFO.length := by
  obtain ⟨info, as, hmem, htables, heq⟩ := hi.runEvent_modelDone hl hq order now modelInputPending
  have hb : info.slotIndex ∈ s.busySlots := mem_busySlots.mpr ⟨m, info, hmem, rfl⟩
  have hfreed := hasked.freeSlotOf hi.toTables hmem as
  rw [heq] at h
  have hstart := Option.some.inj h
  cases hpending : modelInputPending m with
  | false =>
    rw [hpending, if_neg (by simp)] at hstart
    exact Released.allAsked_iff hi hasked hb ⟨htables, rfl, hfreed, rfl, rfl, rfl⟩ hstart
  | true =>
    rw [hpending, if_pos rfl] at hstart
    exact Released.allAsked_iff hi hasked hb
      ⟨htables.appendEvent (fun _ => rfl), rfl, hfreed, rfl, rfl, rfl⟩ hstart

/-! ## Runs -/

/-- What the controller keeps from the one stop request on, as long as nothing starts late. -/
def StopRequested (s : Scheduler M) : Prop :=
  s.requestedStopOfRemainingModels = true → s.AllAsked

/-- The top of the event loop asks every model that is running then. -/
theorem StopRequested.runTop (hi : s.Inv n) (hl : s.loop = .top) (hP : s.StopRequested)
    {order : DictOrder (M × RunningModelInfo)} (h : s.runTop order = .ok t) : t.StopRequested := by
  unfold Scheduler.runTop at h
  split at h
  · split at h
    · cases h
      exact hP
    split at h
    · rename_i hwait
      split at h
      · cases h
      · obtain ⟨as, pending, heq, -, -, hall⟩ := hi.toTables.stopRemaining (by simp [hl])
          (order.arrange s.runningModelsMap) (fun p hp => (order.perm _).mem_iff.mp hp)
        rw [heq] at h
        cases h
        exact fun _ p hp => hall p ((order.perm _).mem_iff.mpr hp)
    · cases h
      exact hP
  · cases h
    exact hP

/-- A turn other than the handling of an event keeps the property. -/
theorem StopRequested.act (hi : s.Inv n) (hP : s.StopRequested) {a : Action M}
    (ha : ∀ order now pending, a ≠ .runEvent order now pending) (h : s.act a = some (.ok t)) :
    t.StopRequested := by
  cases a with
  | newInputNotify m =>
    cases h
    exact hP
  | requestStop =>
    simp only [Scheduler.act] at h
    split at h
    · cases h
    · cases h
      exact hP
  | runTop order =>
    simp only [Scheduler.act] at h
    split at h
    · rename_i hl
      exact hP.runTop hi hl (Option.some.inj h)
    · cases h
  | runEvent order now pending => exact absurd rfl (ha order now pending)
  | agentTurn slot =>
    obtain ⟨r, -, hr⟩ := Option.map_eq_some_iff.mp h
    cases r with
    | error e => cases hr
    | ok a =>
      cases hr
      exact hP
  | agentJoins slot =>
    obtain ⟨⟨a, out⟩, -, hr⟩ := Option.map_eq_some_iff.mp h
    cases out with
    | none =>
      cases hr
      exact hP
    | some done =>
      cases hr
      exact hP
  | processExits slot code =>
    obtain ⟨u, hu, hr⟩ := Option.map_eq_some_iff.mp h
    obtain ⟨a, a', -, -, rfl⟩ := turnOf_some hu
    cases hr
    exact hP
  | monitorReports slot =>
    obtain ⟨u, hu, hr⟩ := Option.map_eq_some_iff.mp h
    obtain ⟨a, a', -, -, rfl⟩ := turnOf_some hu
    cases hr
    exact hP

/-- The handling of an event once the stop has been requested: it leaves the models asked
exactly if it is no late start. -/
theorem runEvent_allAsked_iff {order : DictOrder (M × RunningModelInfo)} {now : ℕ}
    {modelInputPending : M → Bool} (hi : s.Inv n) (hl : s.loop = .atQueue)
    (hrequested : s.requestedStopOfRemainingModels = true) (hasked : s.AllAsked)
    (h : s.runEvent order now modelInputPending = some (.ok t)) :
    t.AllAsked ↔ s.NoLateStart (.runEvent order now modelInputPending) := by
  simp only [NoLateStart, hrequested, true_imp_iff]
  cases hq : s.eventQ with
  | nil =>
    simp only [Scheduler.runEvent, hq] at h
    cases h
  | cons e q =>
    simp only [List.head?_cons]
    cases e with
    | stopEventLoopRequest =>
      simp only [Scheduler.runEvent, hq, handleEvent] at h
      cases h
      exact iff_of_true hasked trivial
    | newInputNotify m =>
      simp only [Scheduler.runEvent, hq, handleEvent, Option.some.injEq] at h
      have hpop : Inv n { s with eventQ := q, loop := .top } :=
        .of_tables_waiting_nil (hi.popEvent hl hq fun _ => rfl) (by simp) hi.waiting_free
      have hasked' : AllAsked { s with eventQ := q, loop := .top } := hasked
      have hiff := handleNewInputNotifyEvent_allAsked_iff hpop hasked' h
      exact hiff
    | modelDoneNotify m code => exact runEvent_modelDone_allAsked_iff hi hl hq hasked h

theorem startWaitingModel_requested {order : DictOrder (M × RunningModelInfo)} {now : ℕ}
    (h : s.startWaitingModel order now = .ok t) :
    t.loop = s.loop ∧ t.requestedStopOfRemainingModels = s.requestedStopOfRemainingModels := by
  rcases startWaitingModel_eq h with rfl | ⟨as, pending, i, m, rest, -, -, rfl⟩
  · exact ⟨rfl, rfl⟩
  · exact ⟨rfl, rfl⟩

/-- The handling of an event brings the controller back to the top of the loop. -/
theorem runEvent_requested {order : DictOrder (M × RunningModelInfo)} {now : ℕ}
    {modelInputPending : M → Bool} (h : s.runEvent order now modelInputPending = some (.ok t)) :
    t.loop = .top ∧ t.requestedStopOfRemainingModels = s.requestedStopOfRemainingModels := by
  unfold Scheduler.runEvent at h
  split at h
  · cases h
  rename_i e q hq
  have hh := Option.some.inj h
  cases e with
  | stopEventLoopRequest =>
    cases hh
    exact ⟨rfl, rfl⟩
  | newInputNotify m =>
    rcases handleNewInputNotifyEvent_eq hh with
      ⟨-, rfl⟩ | ⟨-, rfl⟩ | ⟨as, i, -, rfl⟩ | ⟨as, pending, -, -, rfl⟩
    all_goals exact ⟨rfl, rfl⟩
  | modelDoneNotify m code =>
    obtain ⟨p, as, -, hstart⟩ := handleModelDoneNotifyEvent_eq hh
    obtain ⟨hloop, hreq⟩ := startWaitingModel_requested hstart
    cases hp : modelInputPending m with
    | false =>
      rw [hp, if_neg (by simp)] at hloop hreq
      exact ⟨hloop, hreq⟩
    | true =>
      rw [hp, if_pos rfl] at hloop hreq
      exact ⟨hloop, hreq⟩

/-- A step that is no late start keeps the models asked. -/
theorem StopRequested.step (hi : s.Inv n) (hP : s.StopRequested) {a : Action M}
    (ha : s.NoLateStart a) (h : s.act a = some (.ok t)) : t.StopRequested := by
  cases a with
  | runEvent order now pending =>
    simp only [Scheduler.act] at h
    split at h
    · rename_i hl
      intro hreq
      have hreq' : s.requestedStopOfRemainingModels = true :=
        (runEvent_requested h).2 ▸ hreq
      exact (runEvent_allAsked_iff hi hl hreq' (hP hreq') h).mpr ha
    · cases h
  | newInputNotify m => exact hP.act hi (by simp) h
  | requestStop => exact hP.act hi (by simp) h
  | runTop order => exact hP.act hi (by simp) h
  | agentTurn slot => exact hP.act hi (by simp) h
  | agentJoins slot => exact hP.act hi (by simp) h
  | processExits slot code => exact hP.act hi (by simp) h
  | monitorReports slot => exact hP.act hi (by simp) h

/-- A late start is seen at the top of the event loop right after it. -/
theorem StopRequested.lateStart (hi : s.Inv n) (hP : s.StopRequested) {a : Action M}
    (ha : ¬ s.NoLateStart a) (h : s.act a = some (.ok t)) :
    t.loop = .top ∧ t.requestedStopOfRemainingModels = true ∧ ¬ t.AllAsked := by
  cases a with
  | runEvent order now pending =>
    have hreq : s.requestedStopOfRemainingModels = true := by
      by_contra hne
      exact ha fun hreq => absurd hreq hne
    simp only [Scheduler.act] at h
    split at h
    · rename_i hl
      obtain ⟨htop, hsame⟩ := runEvent_requested h
      refine ⟨htop, hsame.trans hreq, fun hall => ha ?_⟩
      exact (runEvent_allAsked_iff hi hl hreq (hP hreq) h).mp hall
    · cases h
  | newInputNotify m => exact absurd trivial ha
  | requestStop => exact absurd trivial ha
  | runTop order => exact absurd trivial ha
  | agentTurn slot => exact absurd trivial ha
  | agentJoins slot => exact absurd trivial ha
  | processExits slot code => exact absurd trivial ha
  | monitorReports slot => exact absurd trivial ha

/-- What the shutdown promises of a state at the top of the event loop. -/
def StopsEveryModel (s : Scheduler M) : Prop :=
  s.loop = .top → s.requestedStopOfRemainingModels = true → s.AllAsked

end Scheduler

variable {M : Type} [DecidableEq M]

/-- In a run, every model that runs after the one stop request to the remaining models has
been asked to stop, whenever the controller is at the top of its event loop, if and only if
no step of the run is a late start. -/
theorem shutdown_stops_every_model_iff {n : ℕ}
    {tr : List (Scheduler M × Scheduler.Action M)} {s : Scheduler M}
    (h : Run (schedulerSystem M n) tr s) :
    (∀ t ∈ statesOf tr s, t.StopsEveryModel) ↔ ∀ p ∈ tr, p.1.NoLateStart p.2 := by
  refine h.forall_states_iff (I := Scheduler.Inv n) (P := Scheduler.StopRequested)
    (G := Scheduler.NoLateStart) ?_ ?_ ?_ ?_ ?_
  · rintro s rfl
    exact ⟨Scheduler.inv_initial n, fun hreq => absurd hreq (by simp [Scheduler.initial])⟩
  · intro a s t hi hn
    obtain ⟨u, hu, hinv⟩ := hi.act (schedulerSystem_next.mp hn)
    cases hu
    exact hinv
  · intro a s t hi hP hn ha
    exact hP.step hi ha (schedulerSystem_next.mp hn)
  · intro a s t hi hP hn ha hQ
    obtain ⟨htop, hreq, hall⟩ := hP.lateStart hi ha (schedulerSystem_next.mp hn)
    exact hall (hQ htop hreq)
  · intro s hP _ hreq
    exact hP hreq

/-- Two models run when the stop is requested; both are asked to stop and the first is
done. -/
def shutdownSchedule (pending : Bool) : List (Scheduler.Action Bool) :=
  [.newInputNotify true, .newInputNotify false, .requestStop, .runTop (.insertion _),
    .runEvent (.insertion _) 0 (fun _ => false), .runTop (.insertion _),
    .runEvent (.insertion _) 1 (fun _ => false), .runTop (.insertion _),
    .runEvent (.insertion _) 2 (fun _ => false), .runTop (.insertion _),
    .agentTurn 1, .agentTurn 1, .processExits 1 0, .monitorReports 1, .agentJoins 1,
    .runEvent (.insertion _) 3 (fun _ => pending), .runTop (.insertion _)]

/-- The first model has no input pending; once the second is done too, the loop is left. -/
theorem shutdown_stops_every_model_no_input :
    ∃ tr s, Run (schedulerSystem Bool 2) tr s ∧ s.loop = .left ∧
      ∀ t ∈ statesOf tr s, t.StopsEveryModel := by
  have hinit : (schedulerSystem Bool 2).init (.initial Bool 2) := rfl
  have hexec : ∃ s, (schedulerSystem Bool 2).exec
      (shutdownSchedule false ++ [.agentTurn 0, .agentTurn 0, .processExits 0 0,
        .monitorReports 0, .agentJoins 0, .runEvent (.insertion _) 4 (fun _ => false),
        .runTop (.insertion _)])
      (Scheduler.initial Bool 2) = some s ∧ s.loop = .left := ⟨_, rfl, rfl⟩
  obtain ⟨s, hs, hleft⟩ := hexec
  have hrun := (Run.init hinit).exec_trace hs
  refine ⟨_, s, hrun, hleft, (shutdown_stops_every_model_iff hrun).mpr ?_⟩
  decide

/-- A model that has input pending when it is done is started again while the other one is
stopping, and nobody asks it to stop. -/
theorem shutdown_restarts_a_model :
    ∃ s, Reachable (schedulerSystem Bool 2) s ∧ s.loop = .top ∧
      s.requestedStopOfRemainingModels = true ∧
      ∃ p ∈ s.runningModelsMap, p.2.slotIndex ∉ s.pendingPreemptSlotsSet := by
  have hinit : (schedulerSystem Bool 2).init (.initial Bool 2) := rfl
  have hexec : ∃ s, (schedulerSystem Bool 2).exec
      (shutdownSchedule true ++ [.runEvent (.insertion _) 4 (fun _ => true)])
      (Scheduler.initial Bool 2) = some s ∧ s.loop = .top ∧
      s.requestedStopOfRemainingModels = true ∧
      s.runningModelsMap = [(false, RunningModelInfo.mk 0 1), (true, RunningModelInfo.mk 1 4)] ∧
      s.pendingPreemptSlotsSet = {0} := ⟨_, rfl, rfl, rfl, rfl, rfl⟩
  obtain ⟨s, hs, htop, hreq, hmap, hpend⟩ := hexec
  refine ⟨s, Reachable.exec (.init hinit) hs, htop, hreq, (true, RunningModelInfo.mk 1 4), ?_, ?_⟩
  · simp [hmap]
  · simp [hpend]

end NumentaApps.ModelSwapper
