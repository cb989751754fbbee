import NumentaApps.SchedulerShutdown

/-!
# The pace and the order of preemption

The turns of the controller are run again with a log of the calls they make to the slot
agents. Without the log they are the turns of the scheduler; with it, the sequence of the
models started is compared with the sequence of the notifications that were admitted.
-/
namespace NumentaApps.ModelSwapper
open TransitionSystem

/-- The calls of the controller to the interface methods of its slot agents. -/
inductive SlotCall (M : Type) where
  | startModel (slotIndex : ℕ) (modelID : M)
  | stopModel (slotIndex : ℕ)
  | releaseSlot (slotIndex : ℕ)
  | close (slotIndex : ℕ)
  deriving DecidableEq, Repr

namespace SlotCall

variable {M : Type}

def started : SlotCall M → Option M
  | .startModel _ modelID => some modelID
  | _ => none

def stopped : SlotCall M → Option ℕ
  | .stopModel slotIndex => some slotIndex
  | _ => none

end SlotCall

namespace Scheduler

/-! ## The turns of the controller with their calls -/

namespace Logged

section

variable {M : Type}

def preemptSlot (i : ℕ) (s : Scheduler M) : Except Failure (Scheduler M × List (SlotCall M)) :=
  (s.preemptSlot i).map fun t => (t, [.stopModel i])

def requestPreemptionOfRunningSlotIfNeededAndPossible (order : DictOrder (M × RunningModelInfo))
    (s : Scheduler M) : Except Failure (Scheduler M × List (SlotCall M)) :=
  if s.freeSlots ≠ [] then .error (.assertion "not self._freeSlots")
  else if s.waitingModelsFIFO.length ≤ s.pendingPreemptSlotsSet.card ∨
      s.slotAgents.length ≤ s.pendingPreemptSlotsSet.card then .ok (s, [])
  else match s.lru order with
    | [] => .error .indexError
    | (slotIndex, _) :: _ => preemptSlot slotIndex s

def stopRemaining : List (M × RunningModelInfo) → Scheduler M →
    Except Failure (Scheduler M × List (SlotCall M))
  | [], s => .ok (s, [])
  | (_, modelInfo) :: rest, s =>
    if modelInfo.slotIndex ∈ s.pendingPreemptSlotsSet then stopRemaining rest s
    else (preemptSlot modelInfo.slotIndex s).bind fun p =>
      (stopRemaining rest p.1).map fun q => (q.1, p.2 ++ q.2)

def runTop (order : DictOrder (M × RunningModelInfo)) (s : Scheduler M) :
    Except Failure (Scheduler M × List (SlotCall M)) :=
  if s.eventLoopStopPending then
    if s.runningModelsMap = [] ∧ s.waitingModelsFIFO = [] then
      .ok ({ s with slotAgents := s.slotAgents.map SlotAgent.close, loop := .left },
        (List.range s.slotAgents.length).map .close)
    else if s.waitingModelsFIFO = [] ∧ s.requestedStopOfRemainingModels = false then
      if s.runningModelsMap = [] then .error (.assertion "self._runningModelsMap")
      else (stopRemaining (order.arrange s.runningModelsMap) s).map fun p =>
        ({ p.1 with requestedStopOfRemainingModels := true, loop := .atQueue }, p.2)
    else .ok ({ s with loop := .atQueue }, [])
  else .ok ({ s with loop := .atQueue }, [])

end

variable {M : Type} [DecidableEq M]

/-- The one call to an agent is made after the assertions on the model, on the slot that
the free slots end with. -/
def assignModelToFreeSlot (now : ℕ) (modelID : M) (s : Scheduler M) :
    Except Failure (Scheduler M × List (SlotCall M)) :=
  (s.assignModelToFreeSlot now modelID).map fun t =>
    (t, (s.freeSlots.getLast?.map fun i => SlotCall.startModel i modelID).toList)

def handleNewInputNotifyEvent (order : DictOrder (M × RunningModelInfo)) (now : ℕ) (modelID : M)
    (s : Scheduler M) : Except Failure (Scheduler M × List (SlotCall M)) :=
  match s.runningModelInfo modelID with
  | some _ => .ok (s.updateTimestamp modelID now, [])
  | none =>
    if modelID ∈ s.waitingModelsFIFO then .ok (s, [])
    else if s.freeSlots ≠ [] then
      if s.waitingModelsFIFO ≠ [] then .error (.assertion "not self._waitingModelsFIFO")
      else assignModelToFreeSlot now modelID s
    else requestPreemptionOfRunningSlotIfNeededAndPossible order
      { s with waitingModelsFIFO := s.waitingModelsFIFO ++ [modelID] }

def startWaitingModel (order : DictOrder (M × RunningModelInfo)) (now : ℕ) (s : Scheduler M) :
    Except Failure (Scheduler M × List (SlotCall M)) :=
  match s.waitingModelsFIFO with
  | [] => .ok (s, [])
  | newModelID :: rest =>
    (assignModelToFreeSlot now newModelID { s with waitingModelsFIFO := rest }).bind fun p =>
      (requestPreemptionOfRunningSlotIfNeededAndPossible order p.1).map fun q =>
        (q.1, p.2 ++ q.2)

def handleModelDoneNotifyEvent (order : DictOrder (M × RunningModelInfo)) (now : ℕ)
    (modelInputPending : M → Bool) (modelID : M) (s : Scheduler M) :
    Except Failure (Scheduler M × List (SlotCall M)) :=
  match s.runningModelInfo modelID with
  | none => .error .keyError
  | some info =>
    if info.2.slotIndex ∈ s.freeSlots then
      .error (.assertion "doneModelInfo.slotIndex not in self._freeSlots")
    else if ¬ info.2.slotIndex < s.slotAgents.length then
      .error (.assertion "0 <= doneModelInfo.slotIndex < len(self._slotAgents)")
    else if ¬ s.freeSlots.length < s.slotAgents.length then
      .error (.assertion "len(self._freeSlots) < len(self._slotAgents)")
    else
      ((s.freeSlotOf info).withSlotAgent info.2.slotIndex SlotAgent.releaseSlot).bind fun s =>
        (startWaitingModel order now
          (if modelInputPending modelID then s.newInputNotifyTS modelID else s)).map fun p =>
            (p.1, .releaseSlot info.2.slotIndex :: p.2)

def handleEvent (order : DictOrder (M × RunningModelInfo)) (now : ℕ)
    (modelInputPending : M → Bool) (s : Scheduler M) :
    Event M → Except Failure (Scheduler M × List (SlotCall M))
  | .stopEventLoopRequest => .ok ({ s with eventLoopStopPending := true }, [])
  | .newInputNotify modelID => handleNewInputNotifyEvent order now modelID s
  | .modelDoneNotify modelID _ => handleModelDoneNotifyEvent order now modelInputPending modelID s

def runEvent (order : DictOrder (M × RunningModelInfo)) (now : ℕ) (modelInputPending : M → Bool)
    (s : Scheduler M) : Option (Except Failure (Scheduler M × List (SlotCall M))) :=
  match s.eventQ with
  | [] => none
  | evt :: q =>
    some (handleEvent order now modelInputPending { s with eventQ := q, loop := .top } evt)

/-- Only the turns of the controller call the agents. -/
def act : Action M → Scheduler M → Option (Except Failure (Scheduler M × List (SlotCall M)))
  | .runTop order, s => if s.loop = .top then some (runTop order s) else none
  | .runEvent order now pending, s =>
    if s.loop = .atQueue then runEvent order now pending s else none
  | a, s => (s.act a).map fun r => r.map fun t => (t, [])

end Logged

/-! ## Without the log -/

namespace Logged

section

variable {M : Type} {s t : Scheduler M} {calls : List (SlotCall M)}

theorem preemptSlot_ok {i : ℕ} (h : preemptSlot i s = .ok (t, calls)) :
    s.preemptSlot i = .ok t ∧ calls = [.stopModel i] := by
  unfold preemptSlot at h
  cases hp : s.preemptSlot i with
  | error e => simp [hp, Except.map] at h
  | ok u =>
    rw [hp] at h
    cases h
    exact ⟨rfl, rfl⟩

theorem preemptSlot_result (i : ℕ) (s : Scheduler M) :
    (preemptSlot i s).map Prod.fst = s.preemptSlot i := by
  unfold preemptSlot
  cases s.preemptSlot i <;> rfl

theorem requestPreemption_result (order : DictOrder (M × RunningModelInfo)) (s : Scheduler M) :
    (requestPreemptionOfRunningSlotIfNeededAndPossible order s).map Prod.fst =
      s.requestPreemptionOfRunningSlotIfNeededAndPossible order := by
  unfold requestPreemptionOfRunningSlotIfNeededAndPossible
    Scheduler.requestPreemptionOfRunningSlotIfNeededAndPossible
  split
  · rfl
  split
  · rfl
  cases s.lru order with
  | nil => rfl
  | cons p rest => exact preemptSlot_result p.1 s

theorem stopRemaining_result (l : List (M × RunningModelInfo)) (s : Scheduler M) :
    (stopRemaining l s).map Prod.fst = s.stopRemaining l := by
  induction l generalizing s with
  | nil => rfl
  | cons p rest ih =>
    unfold stopRemaining Scheduler.stopRemaining
    split
    · exact ih s
    · rw [← preemptSlot_result]
      cases preemptSlot p.2.slotIndex s with
      | error e => rfl
      | ok q =>
        have hrest := ih q.1
        simp only [Except.bind, Except.map] at hrest ⊢
        rw [← hrest]
        cases stopRemaining rest q.1 <;> rfl

theorem runTop_result (order : DictOrder (M × RunningModelInfo)) (s : Scheduler M) :
    (runTop order s).map Prod.fst = s.runTop order := by
  unfold runTop Scheduler.runTop
  split
  · split
    · rfl
    split
    · split
      · rfl
      · rw [← stopRemaining_result]
        cases stopRemaining (order.arrange s.runningModelsMap) s <;> rfl
    · rfl
  · rfl

end

variable {M : Type} [DecidableEq M]

theorem assignModelToFreeSlot_result (now : ℕ) (m : M) (s : Scheduler M) :
    (assignModelToFreeSlot now m s).map Prod.fst = s.assignModelToFreeSlot now m := by
  unfold assignModelToFreeSlot
  cases s.assignModelToFreeSlot now m <;> rfl

theorem handleNewInputNotifyEvent_result (order : DictOrder (M × RunningModelInfo)) (now : ℕ)
    (m : M) (s : Scheduler M) :
    (handleNewInputNotifyEvent order now m s).map Prod.fst =
      s.handleNewInputNotifyEvent order now m := by
  unfold handleNewInputNotifyEvent Scheduler.handleNewInputNotifyEvent
  cases s.runningModelInfo m with
  | some p => rfl
  | none =>
    dsimp only
    split
    · rfl
    split
    · split
      · rfl
      · exact assignModelToFreeSlot_result now m s
    · exact requestPreemption_result order _

theorem startWaitingModel_result (order : DictOrder (M × RunningModelInfo)) (now : ℕ)
    (s : Scheduler M) :
    (startWaitingModel order now s).map Prod.fst = s.startWaitingModel order now := by
  unfold startWaitingModel Scheduler.startWaitingModel
  cases s.waitingModelsFIFO with
  | nil => rfl
  | cons m rest =>
    dsimp only
    rw [← assignModelToFreeSlot_result]
    cases assignModelToFreeSlot now m { s with waitingModelsFIFO := rest } with
    | error e => rfl
    | ok p =>
      have hrequest := requestPreemption_result order p.1
      simp only [Except.bind, Except.map] at hrequest ⊢
      rw [← hrequest]
      cases requestPreemptionOfRunningSlotIfNeededAndPossible order p.1 <;> rfl

theorem handleModelDoneNotifyEvent_result (order : DictOrder (M × RunningModelInfo)) (now : ℕ)
    (modelInputPending : M → Bool) (m : M) (s : Scheduler M) :
    (handleModelDoneNotifyEvent order now modelInputPending m s).map Prod.fst =
      s.handleModelDoneNotifyEvent order now modelInputPending m := by
  unfold handleModelDoneNotifyEvent Scheduler.handleModelDoneNotifyEvent
  cases s.runningModelInfo m with
  | none => rfl
  | some p =>
    dsimp only
    split
    · rfl
    split
    · rfl
    split
    · rfl
    cases (s.freeSlotOf p).withSlotAgent p.2.slotIndex SlotAgent.releaseSlot with
    | error e => rfl
    | ok u =>
      have hstart := startWaitingModel_result order now
        (if modelInputPending m then u.newInputNotifyTS m else u)
      simp only [Except.bind, Except.map] at hstart ⊢
      rw [← hstart]
      cases startWaitingModel order now
        (if modelInputPending m then u.newInputNotifyTS m else u) <;> rfl

theorem runEvent_result (order : DictOrder (M × RunningModelInfo)) (now : ℕ)
    (modelInputPending : M → Bool) (s : Scheduler M) :
    (runEvent order now modelInputPending s).map (·.map Prod.fst) =
      s.runEvent order now modelInputPending := by
  unfold runEvent Scheduler.runEvent
  cases s.eventQ with
  | nil => rfl
  | cons e q =>
    refine congrArg some ?_
    cases e with
    | stopEventLoopRequest => rfl
    | newInputNotify m => exact handleNewInputNotifyEvent_result order now m _
    | modelDoneNotify m code =>
      exact handleModelDoneNotifyEvent_result order now modelInputPending m _

/-- The log changes no turn. -/
theorem act_result (a : Action M) (s : Scheduler M) :
    (act a s).map (·.map Prod.fst) = s.act a := by
  have hrest : ∀ r : Option (Except Failure (Scheduler M)),
      (r.map fun r => r.map fun t => (t, ([] : List (SlotCall M)))).map (·.map Prod.fst) = r := by
    intro r
    cases r with
    | none => rfl
    | some r => cases r <;> rfl
  cases a with
  | runTop order =>
    simp only [act, Scheduler.act]
    split
    · exact congrArg some (runTop_result order s)
    · rfl
  | runEvent order now pending =>
    simp only [act, Scheduler.act]
    split
    · exact runEvent_result order now pending s
    · rfl
  | newInputNotify m => exact hrest (s.act (.newInputNotify m))
  | requestStop => exact hrest (s.act .requestStop)
  | agentTurn i => exact hrest (s.act (.agentTurn i))
  | agentJoins i => exact hrest (s.act (.agentJoins i))
  | processExits i code => exact hrest (s.act (.processExits i code))
  | monitorReports i => exact hrest (s.act (.monitorReports i))

/-- The turn of the scheduler is made with some calls. -/
theorem act_ok {a : Action M} {s t : Scheduler M} (h : s.act a = some (.ok t)) :
    ∃ calls, act a s = some (.ok (t, calls)) := by
  rw [← act_result] at h
  obtain ⟨r, hr, ht⟩ := Option.map_eq_some_iff.mp h
  cases r with
  | error e => cases ht
  | ok p =>
    cases ht
    exact ⟨p.2, hr⟩

end Logged

/-! ## The pace -/

/-- As many preemptions are pending as models wait, or as there are slots. -/
def Paced (n : ℕ) {M : Type} (s : Scheduler M) : Prop :=
  min s.waitingModelsFIFO.length n ≤ s.pendingPreemptSlotsSet.card

section

variable {M : Type} {s t : Scheduler M} {n : ℕ}

/-- One request makes up for one missing preemption. -/
theorem requestPreemption_paced {order : DictOrder (M × RunningModelInfo)}
    (hcount : s.slotAgents.length = n)
    (hp : min s.waitingModelsFIFO.length n ≤ s.pendingPreemptSlotsSet.card + 1)
    (h : s.requestPreemptionOfRunningSlotIfNeededAndPossible order = .ok t) : t.Paced n := by
  unfold Paced
  rcases (requestPreemption_cases h).2 with ⟨hc, rfl⟩ | ⟨hc, as, i, -, hi, rfl⟩
  · omega
  · rw [Finset.card_insert_of_notMem hi]
    exact hp

end

variable {M : Type} [DecidableEq M] {s t : Scheduler M} {n : ℕ}

/-- After a slot is freed one preemption may be missing; the request made once the slot has
gone to the first waiting model makes up for it. -/
theorem startWaitingModel_paced {order : DictOrder (M × RunningModelInfo)} {now : ℕ}
    (hi : s.Tables n) (hl : s.loop ≠ .left)
    (hp : min s.waitingModelsFIFO.length n ≤ s.pendingPreemptSlotsSet.card + 1)
    (h : s.startWaitingModel order now = .ok t) : t.Paced n := by
  unfold startWaitingModel at h
  split at h
  · rename_i hw
    cases h
    simp [Paced, hw]
  · rename_i m rest hw
    have hnd := hi.waiting
    rw [hw, List.nodup_cons] at hnd
    rw [hw, List.length_cons] at hp
    have hrest : Tables n { s with waitingModelsFIFO := rest } :=
      { hi with
        waiting := hnd.2
        disjoint := fun m' hm' => hi.disjoint m' (by simp [hw, hm']) }
    cases ha : ({ s with waitingModelsFIFO := rest } : Scheduler M).assignModelToFreeSlot now m with
    | error e => simp [ha, Except.bind] at h
    | ok u =>
      obtain ⟨as, i, hlast, rfl⟩ := assignModelToFreeSlot_eq ha
      obtain ⟨as', heq, hu⟩ := hrest.assignModelToFreeSlot hl now
        (hi.disjoint m (by simp [hw])) hnd.1 (List.dropLast_append_getLast? _ hlast).symm
      cases ha.symm.trans heq
      rw [ha] at h
      refine requestPreemption_paced hu.count ?_ h
      simp only
      omega

theorem handleNewInputNotifyEvent_paced {order : DictOrder (M × RunningModelInfo)} {now : ℕ}
    {m : M} (hi : s.Inv n) (hp : s.Paced n)
    (h : s.handleNewInputNotifyEvent order now m = .ok t) : t.Paced n := by
  unfold handleNewInputNotifyEvent at h
  split at h
  · cases h
    exact hp
  split at h
  · cases h
    exact hp
  split at h
  · rename_i hf
    rw [if_neg (not_not.mpr (hi.waiting_free hf))] at h
    obtain ⟨as, i, -, rfl⟩ := assignModelToFreeSlot_eq h
    simp [Paced, hi.waiting_free hf]
  · have hcount : ({ s with waitingModelsFIFO := s.waitingModelsFIFO ++ [m]
        } : Scheduler M).slotAgents.length = n := hi.count
    refine requestPreemption_paced hcount ?_ h
    unfold Paced at hp
    simp only [List.length_append, List.length_singleton]
    omega

theorem runEvent_paced {order : DictOrder (M × RunningModelInfo)} {now : ℕ}
    {modelInputPending : M → Bool} (hi : s.Inv n) (hl : s.loop = .atQueue) (hp : s.Paced n)
    (h : s.runEvent order now modelInputPending = some (.ok t)) : t.Paced n := by
  cases hq : s.eventQ with
  | nil =>
    simp only [Scheduler.runEvent, hq] at h
    cases h
  | cons e q =>
    cases e with
    | stopEventLoopRequest =>
      simp only [Scheduler.runEvent, hq, handleEvent] at h
      cases h
      exact hp
    | newInputNotify m =>
      simp only [Scheduler.runEvent, hq, handleEvent, Option.some.injEq] at h
      have hpop : Inv n { s with eventQ := q, loop := .top } :=
        .of_tables_waiting_nil (hi.popEvent hl hq fun _ => rfl) (by simp) hi.waiting_free
      have hp' : Paced n { s with eventQ := q, loop := .top } := hp
      exact handleNewInputNotifyEvent_paced hpop hp' h
    | modelDoneNotify m code =>
      obtain ⟨info, as, -, ht, heq⟩ := hi.runEvent_modelDone hl hq order now modelInputPending
      have hfreed : min s.waitingModelsFIFO.length n ≤
          (s.pendingPreemptSlotsSet.erase info.slotIndex).card + 1 := by
        apply hp.trans
        apply Nat.le_add_of_sub_le
        exact Finset.pred_card_le_card_erase
      rw [heq] at h
      have hstart := Option.some.inj h
      cases hpending : modelInputPending m with
      | false =>
        rw [hpending, if_neg (by simp)] at hstart
        exact startWaitingModel_paced ht (by simp) hfreed hstart
      | true =>
        rw [hpending, if_pos rfl] at hstart
        exact startWaitingModel_paced (ht.appendEvent fun _ => rfl) (by simp) hfreed hstart

/-- The stop requests to the remaining models only add pending preemptions. -/
theorem runTop_paced {order : DictOrder (M × RunningModelInfo)} (hi : s.Inv n)
    (hl : s.loop = .top) (hp : s.Paced n) (h : s.runTop order = .ok t) : t.Paced n := by
  unfold Scheduler.runTop at h
  split at h
  · split at h
    · cases h
      exact hp
    split at h
    · split at h
      · cases h
      · obtain ⟨as, pending, heq, -, hsub, -⟩ := hi.toTables.stopRemaining (by simp [hl])
          (order.arrange s.runningModelsMap) (fun p hp => (order.perm _).mem_iff.mp hp)
        rw [heq] at h
        cases h
        exact hp.trans (Finset.card_le_card hsub)
    · cases h
      exact hp
  · cases h
    exact hp

theorem act_paced {a : Action M} (hi : s.Inv n) (hp : s.Paced n) (h : s.act a = some (.ok t)) :
    t.Paced n := by
  cases a with
  | runTop order =>
    simp only [act] at h
    split at h
    · rename_i hl
      exact runTop_paced hi hl hp (Option.some.inj h)
    · cases h
  | runEvent order now pending =>
    simp only [act] at h
    split at h
    · rename_i hl
      exact runEvent_paced hi hl hp h
    · cases h
  | newInputNotify | requestStop | agentTurn | agentJoins | processExits | monitorReports =>
    obtain ⟨as, q, stop, rfl⟩ := act_eq_of_others rfl h
    exact hp

/-! ## The order -/

namespace Logged

section

variable {M : Type} {s t : Scheduler M} {calls : List (SlotCall M)}

/-- A request starts no model and stops at most one. -/
theorem requestPreemption_calls {order : DictOrder (M × RunningModelInfo)}
    (h : requestPreemptionOfRunningSlotIfNeededAndPossible order s = .ok (t, calls)) :
    calls.filterMap SlotCall.started = [] ∧ (calls.filterMap SlotCall.stopped).length ≤ 1 ∧
      t.waitingModelsFIFO = s.waitingModelsFIFO := by
  unfold requestPreemptionOfRunningSlotIfNeededAndPossible at h
  split at h
  · cases h
  split at h
  · cases h
    exact ⟨rfl, Nat.zero_le 1, rfl⟩
  split at h
  · cases h
  · obtain ⟨hpreempt, rfl⟩ := preemptSlot_ok h
    obtain ⟨as, rfl⟩ := preemptSlot_eq hpreempt
    exact ⟨rfl, Nat.le_refl 1, rfl⟩

theorem stopRemaining_calls {l : List (M × RunningModelInfo)}
    (h : stopRemaining l s = .ok (t, calls)) :
    calls.filterMap SlotCall.started = [] ∧ t.waitingModelsFIFO = s.waitingModelsFIFO := by
  induction l generalizing s calls with
  | nil =>
    cases h
    exact ⟨rfl, rfl⟩
  | cons p rest ih =>
    unfold stopRemaining at h
    split at h
    · exact ih h
    · cases hp : preemptSlot p.2.slotIndex s with
      | error e => simp [hp, Except.bind] at h
      | ok q =>
        obtain ⟨u, cs⟩ := q
        obtain ⟨hpreempt, rfl⟩ := preemptSlot_ok hp
        obtain ⟨as, rfl⟩ := preemptSlot_eq hpreempt
        simp only [hp, Except.bind] at h
        cases hr : stopRemaining rest { s with
            slotAgents := as
            pendingPreemptSlotsSet := insert p.2.slotIndex s.pendingPreemptSlotsSet } with
        | error e => simp [hr, Except.map] at h
        | ok r =>
          rw [hr] at h
          cases h
          obtain ⟨hstarted, hwait⟩ := ih hr
          exact ⟨by simpa [SlotCall.started] using hstarted, hwait⟩

theorem runTop_calls {order : DictOrder (M × RunningModelInfo)}
    (h : runTop order s = .ok (t, calls)) :
    calls.filterMap SlotCall.started = [] ∧ t.waitingModelsFIFO = s.waitingModelsFIFO := by
  unfold runTop at h
  split at h
  · split at h
    · cases h
      refine ⟨?_, rfl⟩
      rw [List.filterMap_map]
      exact List.filterMap_eq_nil_iff.mpr fun i _ => rfl
    split at h
    · split at h
      · cases h
      cases hr : stopRemaining (order.arrange s.runningModelsMap) s with
      | error e => simp [hr, Except.map] at h
      | ok p =>
        rw [hr] at h
        obtain ⟨hstarted, hwait⟩ := stopRemaining_calls hr
        cases h
        exact ⟨hstarted, hwait⟩
    · cases h
      exact ⟨rfl, rfl⟩
  · cases h
    exact ⟨rfl, rfl⟩

end

variable {M : Type} [DecidableEq M] {s t : Scheduler M} {calls : List (SlotCall M)}

theorem assignModelToFreeSlot_calls {now : ℕ} {m : M}
    (h : assignModelToFreeSlot now m s = .ok (t, calls)) :
    ∃ i, calls = [.startModel i m] ∧ t.waitingModelsFIFO = s.waitingModelsFIFO := by
  unfold assignModelToFreeSlot at h
  cases ha : s.assignModelToFreeSlot now m with
  | error e => simp [ha, Except.map] at h
  | ok u =>
    obtain ⟨as, i, hlast, rfl⟩ := assignModelToFreeSlot_eq ha
    rw [ha, hlast] at h
    cases h
    exact ⟨i, rfl, rfl⟩

/-- The model that is started is the one that waited the longest. -/
theorem startWaitingModel_calls {order : DictOrder (M × RunningModelInfo)} {now : ℕ}
    (h : startWaitingModel order now s = .ok (t, calls)) :
    calls.filterMap SlotCall.started ++ t.waitingModelsFIFO = s.waitingModelsFIFO ∧
      (calls.filterMap SlotCall.stopped).length ≤ 1 := by
  unfold startWaitingModel at h
  split at h
  · cases h
    exact ⟨rfl, Nat.zero_le 1⟩
  · rename_i m rest hw
    cases ha : assignModelToFreeSlot now m { s with waitingModelsFIFO := rest } with
    | error e => simp [ha, Except.bind] at h
    | ok p =>
      obtain ⟨i, hcalls, hwait⟩ := assignModelToFreeSlot_calls ha
      simp only [ha, Except.bind, hcalls] at h
      cases hr : requestPreemptionOfRunningSlotIfNeededAndPossible order p.1 with
      | error e => simp [hr, Except.map] at h
      | ok q =>
        obtain ⟨hstarted, hstopped, hwait'⟩ := requestPreemption_calls hr
        rw [hr] at h
        cases h
        rw [hw, hwait', hwait, List.filterMap_append, hstarted]
        exact ⟨rfl, hstopped⟩

end Logged

variable {M : Type} [DecidableEq M] {s t : Scheduler M} {n : ℕ}

/-- The notification admitted by the handling of the next event: its model is neither
running nor waiting. -/
def admission (s : Scheduler M) : Action M → List M
  | .runEvent _ _ _ =>
    match s.eventQ.head? with
    | some (.newInputNotify modelID) =>
      if modelID ∈ s.runningModels ∨ modelID ∈ s.waitingModelsFIFO then [] else [modelID]
    | _ => []
  | _ => []

namespace Logged

variable {calls : List (SlotCall M)}

theorem handleNewInputNotifyEvent_calls {order : DictOrder (M × RunningModelInfo)} {now : ℕ}
    {m : M} (h : handleNewInputNotifyEvent order now m s = .ok (t, calls)) :
    calls.filterMap SlotCall.started ++ t.waitingModelsFIFO = s.waitingModelsFIFO ++
        (if m ∈ s.runningModels ∨ m ∈ s.waitingModelsFIFO then [] else [m]) ∧
      (calls.filterMap SlotCall.stopped).length ≤ 1 := by
  unfold handleNewInputNotifyEvent at h
  split at h
  · rename_i p hp
    obtain ⟨hmem, rfl⟩ := runningModelInfo_some hp
    have hrun : p.1 ∈ s.runningModels := List.mem_map_of_mem hmem
    cases h
    rw [if_pos (.inl hrun), List.append_nil]
    exact ⟨rfl, Nat.zero_le 1⟩
  rename_i hnone
  have hrun := runningModelInfo_none hnone
  split at h
  · rename_i hw
    cases h
    rw [if_pos (.inr hw), List.append_nil]
    exact ⟨rfl, Nat.zero_le 1⟩
  rename_i hw
  rw [if_neg (not_or.mpr ⟨hrun, hw⟩)]
  split at h
  · split at h
    · cases h
    · rename_i hnil
      obtain ⟨i, rfl, hwait⟩ := assignModelToFreeSlot_calls h
      rw [hwait, not_not.mp hnil]
      exact ⟨rfl, Nat.zero_le 1⟩
  · obtain ⟨hstarted, hstopped, hwait⟩ := requestPreemption_calls h
    rw [hstarted, hwait]
    exact ⟨rfl, hstopped⟩

theorem handleModelDoneNotifyEvent_calls {order : DictOrder (M × RunningModelInfo)} {now : ℕ}
    {modelInputPending : M → Bool} {m : M}
    (h : handleModelDoneNotifyEvent order now modelInputPending m s = .ok (t, calls)) :
    calls.filterMap SlotCall.started ++ t.waitingModelsFIFO = s.waitingModelsFIFO ∧
      (calls.filterMap SlotCall.stopped).length ≤ 1 := by
  unfold handleModelDoneNotifyEvent at h
  split at h
  · cases h
  rename_i p hp
  split at h
  · cases h
  split at h
  · cases h
  split at h
  · cases h
  cases hr : (s.freeSlotOf p).withSlotAgent p.2.slotIndex SlotAgent.releaseSlot with
  | error e => simp [hr, Except.bind] at h
  | ok u =>
    obtain ⟨as, rfl⟩ := withSlotAgent_eq hr
    simp only [hr, Except.bind] at h
    cases hs : startWaitingModel order now (if modelInputPending m then
        Scheduler.newInputNotifyTS m { s.freeSlotOf p with slotAgents := as }
      else { s.freeSlotOf p with slotAgents := as }) with
    | error e => simp [hs, Except.map] at h
    | ok q =>
      obtain ⟨hstarted, hstopped⟩ := startWaitingModel_calls hs
      rw [hs] at h
      cases h
      refine ⟨hstarted.trans ?_, hstopped⟩
      split <;> rfl

/-- The handling of an event starts the models in the order of their admission and stops at
most one. -/
theorem runEvent_calls {order : DictOrder (M × RunningModelInfo)} {now : ℕ}
    {modelInputPending : M → Bool}
    (h : runEvent order now modelInputPending s = some (.ok (t, calls))) :
    calls.filterMap SlotCall.started ++ t.waitingModelsFIFO =
        s.waitingModelsFIFO ++ s.admission (.runEvent order now modelInputPending) ∧
      (calls.filterMap SlotCall.stopped).length ≤ 1 := by
  unfold runEvent at h
  split at h
  · cases h
  · rename_i e q hq
    have hh := Option.some.inj h
    simp only [admission, hq, List.head?_cons]
    cases e with
    | stopEventLoopRequest =>
      cases hh
      exact ⟨(List.append_nil _).symm, Nat.zero_le 1⟩
    | newInputNotify m =>
      have hcalls := handleNewInputNotifyEvent_calls hh
      exact hcalls
    | modelDoneNotify m code =>
      have hcalls := handleModelDoneNotifyEvent_calls hh
      rw [List.append_nil]
      exact hcalls

end Logged

/-- The calls to the agents made in a step. -/
def callsOf (p : Scheduler M × Action M) : List (SlotCall M) :=
  match Logged.act p.2 p.1 with
  | some (.ok (_, calls)) => calls
  | _ => []

/-- The models passed to `startModel` in a run. -/
def startedModels (tr : List (Scheduler M × Action M)) : List M :=
  (tr.flatMap callsOf).filterMap SlotCall.started

/-- The notifications admitted in a run. -/
def admittedModels (tr : List (Scheduler M × Action M)) : List M :=
  tr.flatMap fun p => p.1.admission p.2

theorem act_calls {a : Action M} (h : s.act a = some (.ok t)) :
    (callsOf (s, a)).filterMap SlotCall.started ++ t.waitingModelsFIFO =
      s.waitingModelsFIFO ++ s.admission a := by
  obtain ⟨calls, hc⟩ := Logged.act_ok h
  simp only [callsOf, hc]
  cases a with
  | runTop order =>
    simp only [Logged.act] at hc
    split at hc
    · obtain ⟨hstarted, hwait⟩ := Logged.runTop_calls (Option.some.inj hc)
      rw [hstarted, hwait]
      exact (List.append_nil _).symm
    · cases hc
  | runEvent order now pending =>
    simp only [Logged.act] at hc
    split at hc
    · exact (Logged.runEvent_calls hc).1
    · cases hc
  | newInputNotify | requestStop | agentTurn | agentJoins | processExits | monitorReports =>
    have hnone : calls = [] := by
      simp only [Logged.act, h] at hc
      cases hc
      rfl
    obtain ⟨as, q, stop, rfl⟩ := act_eq_of_others rfl h
    rw [hnone]
    exact (List.append_nil _).symm

/-- The handling of one event requests at most one preemption. -/
theorem runEvent_stops_one {order : DictOrder (M × RunningModelInfo)} {now : ℕ}
    {modelInputPending : M → Bool}
    (h : s.act (.runEvent order now modelInputPending) = some (.ok t)) :
    ((callsOf (s, .runEvent order now modelInputPending)).filterMap SlotCall.stopped).length ≤
      1 := by
  obtain ⟨calls, hc⟩ := Logged.act_ok h
  simp only [callsOf, hc]
  simp only [Logged.act] at hc
  split at hc
  · exact (Logged.runEvent_calls hc).2
  · cases hc

end Scheduler

variable {M : Type} [DecidableEq M] {n : ℕ}

/-- The models started so far followed by those that wait are the models admitted so far. -/
theorem started_append_waiting {tr : List (Scheduler M × Scheduler.Action M)} {s : Scheduler M}
    (h : Run (schedulerSystem M n) tr s) :
    Scheduler.startedModels tr ++ s.waitingModelsFIFO = Scheduler.admittedModels tr := by
  induction h with
  | init h =>
    cases h
    rfl
  | @step tr s t a hs h ih =>
    have hcalls := Scheduler.act_calls (schedulerSystem_next.mp h)
    calc Scheduler.startedModels (tr ++ [(s, a)]) ++ t.waitingModelsFIFO
        = Scheduler.startedModels tr ++
            ((Scheduler.callsOf (s, a)).filterMap SlotCall.started ++ t.waitingModelsFIFO) := by
          simp [Scheduler.startedModels]
      _ = (Scheduler.startedModels tr ++ s.waitingModelsFIFO) ++ s.admission a := by
          rw [hcalls, List.append_assoc]
      _ = Scheduler.admittedModels (tr ++ [(s, a)]) := by
          rw [ih]
          simp [Scheduler.admittedModels]

theorem reachable_paced {s : Scheduler M} (h : Reachable (schedulerSystem M n) s) : s.Paced n := by
  refine h.invariant ?_ ?_
  · rintro s rfl
    simp [Scheduler.Paced, Scheduler.initial]
  · intro a s t hr hp ht
    exact Scheduler.act_paced (reachable_inv hr) hp (schedulerSystem_next.mp ht)

/-- Preemption keeps pace with the demand, one request an event, and the models are started
in the order in which their notifications were admitted. -/
theorem preemption_keeps_pace_and_order {tr : List (Scheduler M × Scheduler.Action M)}
    {s : Scheduler M} (h : Run (schedulerSystem M n) tr s) :
    min s.waitingModelsFIFO.length n ≤ s.pendingPreemptSlotsSet.card ∧
      (∀ p ∈ tr, ∀ order now pending, p.2 = .runEvent order now pending →
        ((Scheduler.callsOf p).filterMap SlotCall.stopped).length ≤ 1) ∧
      Scheduler.startedModels tr <+: Scheduler.admittedModels tr := by
  refine ⟨reachable_paced h.reachable, ?_, s.waitingModelsFIFO, started_append_waiting h⟩
  have hsteps := h.forall_steps (G := fun _ _ => True) (I := fun _ => True)
    (P := fun s a _ => ∀ order now pending, a = .runEvent order now pending →
      ((Scheduler.callsOf (s, a)).filterMap SlotCall.stopped).length ≤ 1)
    (fun _ _ => trivial) (fun _ _ _ _ _ _ => trivial) ?_ fun _ _ => trivial
  · intro p hp
    obtain ⟨t, -, hstops⟩ := hsteps p hp
    exact hstops
  · rintro a s t - - ht order now pending rfl
    exact Scheduler.runEvent_stops_one (schedulerSystem_next.mp ht)

theorem preemption_keeps_pace_and_order_preemption :
    ∃ s : Scheduler Bool,
      (schedulerSystem Bool 1).exec preemptionSchedule (.initial Bool 1) = some s ∧
      min s.waitingModelsFIFO.length 1 ≤ s.pendingPreemptSlotsSet.card ∧
      Scheduler.startedModels ((schedulerSystem Bool 1).trace preemptionSchedule
        (.initial Bool 1)) <+: [true, false] := by
  obtain ⟨s, hs, -⟩ := preemptionSchedule_runs
  obtain ⟨hpace, -, horder⟩ := preemption_keeps_pace_and_order ((Run.init rfl).exec_trace hs)
  exact ⟨s, hs, hpace, horder⟩

end NumentaApps.ModelSwapper
