import NumentaApps.SlotAgent
import NumentaApps.TransitionSystem
import Mathlib.Data.List.Sort
import Mathlib.Data.Finset.Card

/-!
# The swap controller

The controller takes the events of its FIFO one at a time and starts, preempts
and releases models on the slot agents. A scheduler state is the controller
together with its agents; the actions are the turns of the controller, of the
agents and of the ModelRunner processes, and the events arriving from outside.
-/
namespace NumentaApps.ModelSwapper
open TransitionSystem

inductive Event (M : Type) where
  | stopEventLoopRequest
  | newInputNotify (modelID : M)
  | modelDoneNotify (modelID : M) (exitStatus : ℤ)
  deriving DecidableEq, Repr

structure RunningModelInfo where
  slotIndex : ℕ
  timestamp : ℕ
  deriving DecidableEq, Repr

/-- An order in which a dict may be iterated. -/
structure DictOrder (α : Type) where
  arrange : List α → List α
  perm : ∀ l, (arrange l).Perm l

def DictOrder.insertion (α : Type) : DictOrder α := ⟨id, fun _ => .refl _⟩

/-- Where the controller's `run` is: at the top of the event loop, in the
blocking get, or out of the loop. -/
inductive Loop where
  | top | atQueue | left
  deriving DecidableEq, Repr

structure Scheduler (M : Type) where
  slotAgents : List (SlotAgent M)
  eventQ : List (Event M)
  waitingModelsFIFO : List M
  runningModelsMap : List (M × RunningModelInfo)
  freeSlots : List ℕ
  pendingPreemptSlotsSet : Finset ℕ
  eventLoopStopPending : Bool
  requestedStopOfRemainingModels : Bool
  stopNotificationReader : Bool
  loop : Loop

namespace Scheduler

variable {M : Type}

def initial (M : Type) (concurrency : ℕ) : Scheduler M where
  slotAgents := List.replicate concurrency .initial
  eventQ := []
  waitingModelsFIFO := []
  runningModelsMap := []
  freeSlots := List.range concurrency
  pendingPreemptSlotsSet := ∅
  eventLoopStopPending := false
  requestedStopOfRemainingModels := false
  stopNotificationReader := false
  loop := .top

/-- Calls an interface method of the slot agent with the given index. -/
def withSlotAgent (i : ℕ) (call : SlotAgent M → Except Failure (SlotAgent M)) (s : Scheduler M) :
    Except Failure (Scheduler M) :=
  match s.slotAgents[i]? with
  | none => .error .indexError
  | some a => (call a).bind fun a' => .ok { s with slotAgents := s.slotAgents.set i a' }

/-- Asks a slot to stop its model and records the slot as pending preemption. -/
def preemptSlot (i : ℕ) (s : Scheduler M) : Except Failure (Scheduler M) :=
  (s.withSlotAgent i SlotAgent.stopModel).bind fun s =>
    .ok { s with pendingPreemptSlotsSet := insert i s.pendingPreemptSlotsSet }

def newInputNotifyTS (modelID : M) (s : Scheduler M) : Scheduler M :=
  { s with eventQ := s.eventQ ++ [.newInputNotify modelID] }

def modelDoneNotifyTS (modelID : M) (exitStatus : ℤ) (s : Scheduler M) : Scheduler M :=
  { s with eventQ := s.eventQ ++ [.modelDoneNotify modelID exitStatus] }

def requestStopTS (s : Scheduler M) : Scheduler M :=
  { s with stopNotificationReader := true, eventQ := s.eventQ ++ [.stopEventLoopRequest] }

/-- The busy slots that are not pending preemption, least recently active first. -/
def lru (order : DictOrder (M × RunningModelInfo)) (s : Scheduler M) : List (ℕ × ℕ) :=
  (((order.arrange s.runningModelsMap).filter
      (fun p => p.2.slotIndex ∉ s.pendingPreemptSlotsSet)).map
    (fun p => (p.2.slotIndex, p.2.timestamp))).insertionSort (fun a b => a.2 ≤ b.2)

def requestPreemptionOfRunningSlotIfNeededAndPossible (order : DictOrder (M × RunningModelInfo))
    (s : Scheduler M) : Except Failure (Scheduler M) :=
  if s.freeSlots ≠ [] then .error (.assertion "not self._freeSlots")
  else if s.waitingModelsFIFO.length ≤ s.pendingPreemptSlotsSet.card ∨
      s.slotAgents.length ≤ s.pendingPreemptSlotsSet.card then .ok s
  else match s.lru order with
    | [] => .error .indexError
    | (slotIndex, _) :: _ => s.preemptSlot slotIndex

/-- The loop over the running models at the top of the event loop. -/
def stopRemaining : List (M × RunningModelInfo) → Scheduler M → Except Failure (Scheduler M)
  | [], s => .ok s
  | (_, modelInfo) :: rest, s =>
    if modelInfo.slotIndex ∈ s.pendingPreemptSlotsSet then stopRemaining rest s
    else (s.preemptSlot modelInfo.slotIndex).bind (stopRemaining rest)

/-- One pass through the top of the event loop, up to the blocking get. -/
def runTop (order : DictOrder (M × RunningModelInfo)) (s : Scheduler M) :
    Except Failure (Scheduler M) :=
  if s.eventLoopStopPending then
    if s.runningModelsMap = [] ∧ s.waitingModelsFIFO = [] then
      .ok { s with slotAgents := s.slotAgents.map SlotAgent.close, loop := .left }
    else if s.waitingModelsFIFO = [] ∧ s.requestedStopOfRemainingModels = false then
      if s.runningModelsMap = [] then .error (.assertion "self._runningModelsMap")
      else (s.stopRemaining (order.arrange s.runningModelsMap)).bind fun s =>
        .ok { s with requestedStopOfRemainingModels := true, loop := .atQueue }
    else .ok { s with loop := .atQueue }
  else .ok { s with loop := .atQueue }

variable [DecidableEq M]

def assignModelToFreeSlot (now : ℕ) (modelID : M) (s : Scheduler M) :
    Except Failure (Scheduler M) :=
  if modelID ∈ s.runningModelsMap.map Prod.fst then
    .error (.assertion "modelID not in self._runningModelsMap")
  else if modelID ∈ s.waitingModelsFIFO then
    .error (.assertion "modelID not in self._waitingModelsFIFO")
  else match s.freeSlots.getLast? with
    | none => .error .indexError
    | some freeSlotIndex =>
      ({ s with freeSlots := s.freeSlots.dropLast }.withSlotAgent freeSlotIndex
        (fun a => a.startModel modelID modelID)).bind fun (s : Scheduler M) =>
      let s : Scheduler M := { s with
        runningModelsMap := s.runningModelsMap ++ [(modelID, RunningModelInfo.mk freeSlotIndex now)] }
      if s.runningModelsMap.length + s.freeSlots.length = s.slotAgents.length then .ok s
      else .error (.assertion "len(runningModelsMap) + len(freeSlots) == len(slotAgents)")

def runningModelInfo (modelID : M) (s : Scheduler M) : Option (M × RunningModelInfo) :=
  s.runningModelsMap.find? (fun p => p.1 = modelID)

def updateTimestamp (modelID : M) (now : ℕ) (s : Scheduler M) : Scheduler M :=
  { s with runningModelsMap := s.runningModelsMap.map fun p =>
      if p.1 = modelID then (p.1, { p.2 with timestamp := now }) else p }

def handleNewInputNotifyEvent (order : DictOrder (M × RunningModelInfo)) (now : ℕ) (modelID : M)
    (s : Scheduler M) : Except Failure (Scheduler M) :=
  match s.runningModelInfo modelID with
  | some _ => .ok (s.updateTimestamp modelID now)
  | none =>
    if modelID ∈ s.waitingModelsFIFO then .ok s
    else if s.freeSlots ≠ [] then
      if s.waitingModelsFIFO ≠ [] then .error (.assertion "not self._waitingModelsFIFO")
      else s.assignModelToFreeSlot now modelID
    else { s with waitingModelsFIFO := s.waitingModelsFIFO ++ [modelID]
      }.requestPreemptionOfRunningSlotIfNeededAndPossible order

/-- The controller's part in the release of a slot: the model leaves the running
models and its slot becomes free. -/
def freeSlotOf (doneModelInfo : M × RunningModelInfo) (s : Scheduler M) : Scheduler M :=
  { s with
    runningModelsMap := s.runningModelsMap.erase doneModelInfo
    freeSlots := s.freeSlots ++ [doneModelInfo.2.slotIndex]
    pendingPreemptSlotsSet := s.pendingPreemptSlotsSet.erase doneModelInfo.2.slotIndex }

/-- Starts the first waiting model, if any, on the slot just freed. -/
def startWaitingModel (order : DictOrder (M × RunningModelInfo)) (now : ℕ) (s : Scheduler M) :
    Except Failure (Scheduler M) :=
  match s.waitingModelsFIFO with
  | [] => .ok s
  | newModelID :: rest =>
    ({ s with waitingModelsFIFO := rest }.assignModelToFreeSlot now newModelID).bind
      (requestPreemptionOfRunningSlotIfNeededAndPossible order)

def handleModelDoneNotifyEvent (order : DictOrder (M × RunningModelInfo)) (now : ℕ)
    (modelInputPending : M → Bool) (modelID : M) (s : Scheduler M) :
    Except Failure (Scheduler M) :=
  match s.runningModelInfo modelID with
  | none => .error .keyError
  | some info =>
    if info.2.slotIndex ∈ s.freeSlots then
      .error (.assertion "doneModelInfo.slotIndex not in self._freeSlots")
    else if ¬ info.2.slotIndex < s.slotAgents.length then
      .error (.assertion "0 <= doneModelInfo.slotIndex < len(self._slotAgents)")
    else if ¬ s.freeSlots.length < s.slotAgents.length then
      .error (.assertion "len(self._freeSlots) < len(self._slotAgents)")
    else
      ((s.freeSlotOf info).withSlotAgent info.2.slotIndex SlotAgent.releaseSlot).bind fun s =>
        (if modelInputPending modelID then s.newInputNotifyTS modelID else s).startWaitingModel
          order now

def handleEvent (order : DictOrder (M × RunningModelInfo)) (now : ℕ)
    (modelInputPending : M → Bool) (s : Scheduler M) : Event M → Except Failure (Scheduler M)
  | .stopEventLoopRequest => .ok { s with eventLoopStopPending := true }
  | .newInputNotify modelID => s.handleNewInputNotifyEvent order now modelID
  | .modelDoneNotify modelID _ => s.handleModelDoneNotifyEvent order now modelInputPending modelID

/-- The event loop takes the next event and handles it. -/
def runEvent (order : DictOrder (M × RunningModelInfo)) (now : ℕ) (modelInputPending : M → Bool)
    (s : Scheduler M) : Option (Except Failure (Scheduler M)) :=
  match s.eventQ with
  | [] => none
  | evt :: q =>
    some (({ s with eventQ := q, loop := .top } : Scheduler M).handleEvent order now
      modelInputPending evt)

/-- The turns of the actors. Nothing orders them: a notification, a process exit
or an agent's turn may come between any two turns of the controller. -/
inductive Action (M : Type) where
  | newInputNotify (modelID : M)
  | requestStop
  | runTop (order : DictOrder (M × RunningModelInfo))
  | runEvent (order : DictOrder (M × RunningModelInfo)) (now : ℕ) (modelInputPending : M → Bool)
  | agentTurn (slot : ℕ)
  | agentJoins (slot : ℕ)
  | processExits (slot : ℕ) (returncode : ℤ)
  | monitorReports (slot : ℕ)

/-- Replaces the agent of a slot, if it is there and the turn is enabled. -/
def turnOf (slot : ℕ) (turn : SlotAgent M → Option (SlotAgent M)) (s : Scheduler M) :
    Option (Scheduler M) :=
  (s.slotAgents[slot]?.bind turn).map fun a => { s with slotAgents := s.slotAgents.set slot a }

/-- `none` is a turn that cannot be taken, an error a turn that raises. -/
def act : Action M → Scheduler M → Option (Except Failure (Scheduler M))
  | .newInputNotify modelID, s => some (.ok (s.newInputNotifyTS modelID))
  | .requestStop, s => if s.stopNotificationReader then none else some (.ok s.requestStopTS)
  | .runTop order, s => if s.loop = .top then some (s.runTop order) else none
  | .runEvent order now pending, s => if s.loop = .atQueue then s.runEvent order now pending else none
  | .agentTurn slot, s =>
    (s.slotAgents[slot]?.bind SlotAgent.runEventLoop).map fun r =>
      r.bind fun a => .ok { s with slotAgents := s.slotAgents.set slot a }
  | .agentJoins slot, s =>
    (s.slotAgents[slot]?.bind SlotAgent.stopGracefullyReturns).map fun r =>
      let s := { s with slotAgents := s.slotAgents.set slot r.1 }
      .ok (match r.2 with
        | some (modelID, exitStatus) => s.modelDoneNotifyTS modelID exitStatus
        | none => s)
  | .processExits slot code, s => (s.turnOf slot (·.processExits code)).map .ok
  | .monitorReports slot, s => (s.turnOf slot SlotAgent.runProcessMonitorThread).map .ok

/-! ## What each operation can change -/

section

variable {M : Type} {s t : Scheduler M}

theorem withSlotAgent_eq {i : ℕ} {call : SlotAgent M → Except Failure (SlotAgent M)}
    (h : s.withSlotAgent i call = .ok t) : ∃ as, t = { s with slotAgents := as } := by
  unfold withSlotAgent at h
  split at h
  · cases h
  · rename_i a _
    cases hc : call a with
    | error e => simp [hc, Except.bind] at h
    | ok a' =>
      rw [hc] at h
      cases h
      exact ⟨_, rfl⟩

theorem preemptSlot_eq {i : ℕ} (h : s.preemptSlot i = .ok t) :
    ∃ as, t = { s with
      slotAgents := as, pendingPreemptSlotsSet := insert i s.pendingPreemptSlotsSet } := by
  unfold preemptSlot at h
  cases hw : s.withSlotAgent i SlotAgent.stopModel with
  | error e => simp [hw, Except.bind] at h
  | ok u =>
    obtain ⟨as, rfl⟩ := withSlotAgent_eq hw
    rw [hw] at h
    cases h
    exact ⟨as, rfl⟩

theorem requestPreemption_eq {order : DictOrder (M × RunningModelInfo)}
    (h : s.requestPreemptionOfRunningSlotIfNeededAndPossible order = .ok t) :
    ∃ as pending, t = { s with slotAgents := as, pendingPreemptSlotsSet := pending } := by
  unfold requestPreemptionOfRunningSlotIfNeededAndPossible at h
  split at h
  · cases h
  split at h
  · cases h
    exact ⟨_, _, rfl⟩
  split at h
  · cases h
  · obtain ⟨as, rfl⟩ := preemptSlot_eq h
    exact ⟨as, _, rfl⟩

theorem stopRemaining_eq {l : List (M × RunningModelInfo)} (h : s.stopRemaining l = .ok t) :
    ∃ as pending, t = { s with slotAgents := as, pendingPreemptSlotsSet := pending } := by
  induction l generalizing s with
  | nil =>
    cases h
    exact ⟨_, _, rfl⟩
  | cons p rest ih =>
    obtain ⟨m, info⟩ := p
    unfold stopRemaining at h
    split at h
    · exact ih h
    · cases hp : s.preemptSlot info.slotIndex with
      | error e => simp [hp, Except.bind] at h
      | ok u =>
        obtain ⟨as, rfl⟩ := preemptSlot_eq hp
        rw [hp] at h
        obtain ⟨as', pending, rfl⟩ := ih h
        exact ⟨as', pending, rfl⟩

theorem runTop_eq {order : DictOrder (M × RunningModelInfo)} (h : s.runTop order = .ok t) :
    ∃ as pending requested loop, t = { s with
      slotAgents := as
      pendingPreemptSlotsSet := pending
      requestedStopOfRemainingModels := requested
      loop := loop } := by
  unfold runTop at h
  split at h
  · split at h
    · cases h
      exact ⟨_, _, _, _, rfl⟩
    split at h
    · split at h
      · cases h
      cases hr : s.stopRemaining (order.arrange s.runningModelsMap) with
      | error e => simp [hr, Except.bind] at h
      | ok u =>
        obtain ⟨as, pending, rfl⟩ := stopRemaining_eq hr
        rw [hr] at h
        cases h
        exact ⟨_, _, _, _, rfl⟩
    · cases h
      exact ⟨_, _, _, _, rfl⟩
  · cases h
    exact ⟨_, _, _, _, rfl⟩

end

section

variable {s t : Scheduler M}

theorem assignModelToFreeSlot_eq {now : ℕ} {m : M} (h : s.assignModelToFreeSlot now m = .ok t) :
    ∃ as i, s.freeSlots.getLast? = some i ∧ t = { s with
      slotAgents := as
      freeSlots := s.freeSlots.dropLast
      runningModelsMap := s.runningModelsMap ++ [(m, RunningModelInfo.mk i now)] } := by
  unfold assignModelToFreeSlot at h
  split at h
  · cases h
  split at h
  · cases h
  split at h
  · cases h
  rename_i i hi
  cases hw : ({ s with freeSlots := s.freeSlots.dropLast } : Scheduler M).withSlotAgent i
      (fun a => a.startModel m m) with
  | error e => simp [hw, Except.bind] at h
  | ok u =>
    obtain ⟨as, rfl⟩ := withSlotAgent_eq hw
    rw [hw] at h
    simp only [Except.bind] at h
    split at h
    · cases h
      exact ⟨as, i, hi, rfl⟩
    · cases h

theorem startWaitingModel_eq {order : DictOrder (M × RunningModelInfo)} {now : ℕ}
    (h : s.startWaitingModel order now = .ok t) :
    t = s ∨ ∃ as pending i m rest, s.waitingModelsFIFO = m :: rest ∧
      s.freeSlots.getLast? = some i ∧ t = { s with
        slotAgents := as
        pendingPreemptSlotsSet := pending
        waitingModelsFIFO := rest
        freeSlots := s.freeSlots.dropLast
        runningModelsMap := s.runningModelsMap ++ [(m, RunningModelInfo.mk i now)] } := by
  unfold startWaitingModel at h
  split at h
  · cases h
    exact .inl rfl
  · rename_i m rest hw
    cases ha : ({ s with waitingModelsFIFO := rest } : Scheduler M).assignModelToFreeSlot now m with
    | error e => simp [ha, Except.bind] at h
    | ok u =>
      obtain ⟨as, i, hi, rfl⟩ := assignModelToFreeSlot_eq ha
      rw [ha] at h
      obtain ⟨as', pending, rfl⟩ := requestPreemption_eq h
      exact .inr ⟨as', pending, i, m, rest, hw, hi, rfl⟩

/-- A new-input notification updates a timestamp, changes nothing, starts the
model or puts it in the waiting list. -/
theorem handleNewInputNotifyEvent_eq {order : DictOrder (M × RunningModelInfo)} {now : ℕ} {m : M}
    (h : s.handleNewInputNotifyEvent order now m = .ok t) :
    ((∃ p, s.runningModelInfo m = some p) ∧ t = s.updateTimestamp m now) ∨
      (m ∈ s.waitingModelsFIFO ∧ t = s) ∨
      (∃ as i, s.freeSlots.getLast? = some i ∧ t = { s with
        slotAgents := as
        freeSlots := s.freeSlots.dropLast
        runningModelsMap := s.runningModelsMap ++ [(m, RunningModelInfo.mk i now)] }) ∨
      ∃ as pending, s.freeSlots = [] ∧ m ∉ s.waitingModelsFIFO ∧ t = { s with
        slotAgents := as
        pendingPreemptSlotsSet := pending
        waitingModelsFIFO := s.waitingModelsFIFO ++ [m] } := by
  unfold handleNewInputNotifyEvent at h
  split at h
  · rename_i p hp
    cases h
    exact .inl ⟨⟨p, hp⟩, rfl⟩
  split at h
  · rename_i hw
    cases h
    exact .inr (.inl ⟨hw, rfl⟩)
  rename_i hw
  split at h
  · split at h
    · cases h
    · exact .inr (.inr (.inl (assignModelToFreeSlot_eq h)))
  · rename_i hf
    obtain ⟨as, pending, rfl⟩ := requestPreemption_eq h
    exact .inr (.inr (.inr ⟨as, pending, not_not.mp hf, hw, rfl⟩))

/-- A model-done notification frees the slot of the model, re-queues the model if
its input is pending, and then looks at the waiting list. -/
theorem handleModelDoneNotifyEvent_eq {order : DictOrder (M × RunningModelInfo)} {now : ℕ}
    {modelInputPending : M → Bool} {m : M}
    (h : s.handleModelDoneNotifyEvent order now modelInputPending m = .ok t) :
    ∃ p as, s.runningModelInfo m = some p ∧
      Scheduler.startWaitingModel order now
        (if modelInputPending m then
          Scheduler.newInputNotifyTS m { s.freeSlotOf p with slotAgents := as }
        else { s.freeSlotOf p with slotAgents := as }) = .ok t := by
  unfold handleModelDoneNotifyEvent at h
  split at h
  · cases h
  rename_i p hp
  split at h
  · cases h
  split at h
  · cases h
  split at h
  · cases h
  cases hw : (s.freeSlotOf p).withSlotAgent p.2.slotIndex SlotAgent.releaseSlot with
  | error e => simp [hw, Except.bind] at h
  | ok u =>
    obtain ⟨as, rfl⟩ := withSlotAgent_eq hw
    rw [hw] at h
    exact ⟨p, as, hp, h⟩

/-- The turns of the controller's own thread. -/
def Action.ofController {M : Type} : Action M → Bool
  | .runTop _ | .runEvent _ _ _ => true
  | _ => false

/-- The other turns change the agents, the queue of the controller and the request to stop
the notification reader. -/
theorem act_eq_of_others {a : Action M} (ha : a.ofController = false)
    (h : s.act a = some (.ok t)) :
    ∃ as q stop, t = { s with slotAgents := as, eventQ := q, stopNotificationReader := stop } := by
  cases a with
  | newInputNotify m =>
    cases h
    exact ⟨_, _, _, rfl⟩
  | requestStop =>
    simp only [act] at h
    split at h
    · cases h
    · cases h
      exact ⟨_, _, _, rfl⟩
  | runTop order => cases ha
  | runEvent order now pending => cases ha
  | agentTurn slot =>
    obtain ⟨r, -, hr⟩ := Option.map_eq_some_iff.mp h
    cases r with
    | error e => cases hr
    | ok a =>
      cases hr
      exact ⟨_, _, _, rfl⟩
  | agentJoins slot =>
    obtain ⟨⟨a, out⟩, -, hr⟩ := Option.map_eq_some_iff.mp h
    cases out with
    | none =>
      cases hr
      exact ⟨_, _, _, rfl⟩
    | some done =>
      cases hr
      exact ⟨_, _, _, rfl⟩
  | processExits slot code =>
    obtain ⟨u, hu, hr⟩ := Option.map_eq_some_iff.mp h
    obtain ⟨a, -, rfl⟩ := Option.map_eq_some_iff.mp hu
    cases hr
    exact ⟨_, _, _, rfl⟩
  | monitorReports slot =>
    obtain ⟨u, hu, hr⟩ := Option.map_eq_some_iff.mp h
    obtain ⟨a, -, rfl⟩ := Option.map_eq_some_iff.mp hu
    cases hr
    exact ⟨_, _, _, rfl⟩

end

end Scheduler

variable {M : Type} [DecidableEq M]

/-- The scheduler with `concurrency` slots; a turn that raises leads nowhere. -/
def schedulerSystem (M : Type) [DecidableEq M] (concurrency : ℕ) :
    System (Scheduler M) (Scheduler.Action M) where
  init s := s = .initial M concurrency
  next a s := (s.act a).bind Except.toOption

end NumentaApps.ModelSwapper
