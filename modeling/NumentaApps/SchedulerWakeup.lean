import NumentaApps.MessageBroker
import NumentaApps.SchedulerHandshake

/-!
# No lost wake-up

The scheduler is put next to the message bus: submitters, which publish a batch
and then a notification, the notification reader, and the ModelRunner processes,
which consume the input queues. A model whose input queue is not empty is awake:
some actor still has to act on it.
-/
namespace NumentaApps.ModelSwapper
open TransitionSystem MessageBroker

/-- Where the notification reader thread is. -/
inductive NotificationReader (M : Type) where
  | starting
  | listing
  | checking (todo found : List M)
  | notifying (found : List M)
  | forwarding
  | acking
  | stopped
  deriving DecidableEq, Repr

/-- The scheduler and its surroundings. The submitters are those between the
publishing of their batch and that of their notification. -/
structure Swapper (M B : Type) where
  scheduler : Scheduler M
  inputQueues : Broker M B
  notificationQueue : Option (List M)
  submitters : List M
  reader : NotificationReader M

namespace Swapper

inductive Action (M B : Type) where
  | createInputQueue (modelID : M)
  | deleteInputQueue (modelID : M)
  | purgeInputQueue (modelID : M)
  | publish (modelID : M) (batch : B)
  | notify (modelID : M)
  | initSchedulerNotification
  | getAllMessageQueues (order : DictOrder M)
  | checkInputPending
  | notifyPending
  | forwardNotification
  | ackNotification
  | requestStop
  | runTop (order : DictOrder (M × RunningModelInfo))
  | runEvent (order : DictOrder (M × RunningModelInfo)) (now : ℕ)
  | agentTurn (slot : ℕ)
  | agentJoins (slot : ℕ)
  | processExits (slot : ℕ) (returncode : ℤ)
  | monitorReports (slot : ℕ)
  | runnerTakes (slot : ℕ)
  | runnerAcks (slot tag : ℕ) (multiple : Bool)

variable {M B : Type}

/-- The model of the ModelRunner process alive on a slot. -/
def runnerOn (slot : ℕ) (s : Swapper M B) : Option M :=
  (s.scheduler.slotAgents[slot]?.bind SlotAgent.modelState).bind fun ms =>
    match ms.modelRunner with
    | .running => some ms.modelID
    | _ => none

variable [DecidableEq M]

def modelInputPending (s : Swapper M B) (modelID : M) : Bool :=
  match s.inputQueues.find? modelID with
  | some q => !q.ready.isEmpty
  | none => false

/-- A turn of the scheduler proper. -/
def turn (a : Scheduler.Action M) (s : Swapper M B) : Option (Swapper M B) :=
  ((s.scheduler.act a).bind Except.toOption).map fun t => { s with scheduler := t }

def act : Action M B → Swapper M B → Option (Swapper M B)
  | .createInputQueue m, s => some { s with inputQueues := s.inputQueues.create m }
  | .deleteInputQueue m, s => some { s with inputQueues := s.inputQueues.delete m }
  | .purgeInputQueue m, s => some { s with inputQueues := s.inputQueues.update m AckedQueue.purge }
  | .publish m b, s =>
    match s.inputQueues.find? m with
    | none => none
    | some _ => some { s with
        inputQueues := s.inputQueues.update m (·.publish b)
        submitters := s.submitters ++ [m] }
  | .notify m, s =>
    if m ∈ s.submitters then some { s with
      submitters := s.submitters.erase m
      notificationQueue := s.notificationQueue.map (· ++ [m]) }
    else none
  | .initSchedulerNotification, s =>
    match s.reader with
    | .starting => some { s with
        notificationQueue := some (s.notificationQueue.getD []), reader := .listing }
    | _ => none
  | .getAllMessageQueues order, s =>
    match s.reader with
    | .listing => some { s with reader := .checking (order.arrange s.inputQueues.names) [] }
    | _ => none
  | .checkInputPending, s =>
    match s.reader with
    | .checking [] found => some { s with reader := .notifying found }
    | .checking (m :: todo) found =>
      some { s with
        reader := .checking todo (if s.modelInputPending m then found ++ [m] else found) }
    | _ => none
  | .notifyPending, s =>
    match s.reader with
    | .notifying [] => some { s with reader := .forwarding }
    | .notifying (m :: found) =>
      ({ s with reader := .notifying found }).turn (.newInputNotify m)
    | _ => none
  | .forwardNotification, s =>
    match s.reader, s.notificationQueue with
    | .forwarding, some (m :: _) =>
      if s.scheduler.stopNotificationReader then some { s with reader := .stopped }
      else ({ s with reader := .acking }).turn (.newInputNotify m)
    | _, _ => none
  | .ackNotification, s =>
    match s.reader with
    | .acking => some { s with
        notificationQueue := s.notificationQueue.map List.tail, reader := .forwarding }
    | _ => none
  | .requestStop, s => if s.reader = .acking then none else s.turn .requestStop
  | .runTop order, s => s.turn (.runTop order)
  | .runEvent order now, s => s.turn (.runEvent order now s.modelInputPending)
  | .agentTurn i, s => s.turn (.agentTurn i)
  | .agentJoins i, s => s.turn (.agentJoins i)
  | .processExits i code, s =>
    (s.runnerOn i).bind fun m =>
      { s with inputQueues := s.inputQueues.update m AckedQueue.requeue
        }.turn (.processExits i code)
  | .monitorReports i, s => s.turn (.monitorReports i)
  | .runnerTakes i, s =>
    (s.runnerOn i).bind fun m => (s.inputQueues.find? m).bind fun q => q.deliver.map fun d =>
      { s with inputQueues := s.inputQueues.update m fun _ => d.2 }
  | .runnerAcks i tag multiple, s =>
    (s.runnerOn i).map fun m =>
      { s with inputQueues := s.inputQueues.update m (·.settle tag multiple) }

end Swapper

/-- The scheduler starts next to input queues, notifications and submitters left
by anything that ran before it. -/
def swapperSystem (M B : Type) [DecidableEq M] (concurrency : ℕ) :
    System (Swapper M B) (Swapper.Action M B) where
  init s := s.scheduler = .initial M concurrency ∧ s.reader = .starting
  next := Swapper.act

namespace Scheduler

variable {M : Type} {s t : Scheduler M}

/-- The scheduler knows that the model has to be run. -/
def Noticed (m : M) (s : Scheduler M) : Prop :=
  m ∈ s.runningModels ∨ m ∈ s.waitingModelsFIFO ∨ .newInputNotify m ∈ s.eventQ

theorem Noticed.mono {m : M} (h : s.Noticed m) (hr : ∀ m ∈ s.runningModels, m ∈ t.runningModels)
    (hw : s.waitingModelsFIFO = t.waitingModelsFIFO) (hq : ∀ e ∈ s.eventQ, e ∈ t.eventQ) :
    t.Noticed m := by
  rcases h with h | h | h
  · exact .inl (hr m h)
  · exact .inr (.inl (hw ▸ h))
  · exact .inr (.inr (hq _ h))

variable [DecidableEq M]

theorem Noticed.startWaitingModel {order : DictOrder (M × RunningModelInfo)} {now : ℕ} {m : M}
    (h : s.Noticed m) (ht : s.startWaitingModel order now = .ok t) : t.Noticed m := by
  rcases startWaitingModel_eq ht with rfl | ⟨as, pending, i, m', rest, hw, -, rfl⟩
  · exact h
  · rcases h with h | h | h
    · exact .inl (by simpa [runningModels] using Or.inl h)
    · rw [hw] at h
      rcases List.mem_cons.mp h with rfl | h
      · exact .inl (by simp [runningModels])
      · exact .inr (.inl h)
    · exact .inr (.inr h)

/-- A handled new-input notification leaves its model running or waiting, and
forgets no other. -/
theorem Noticed.handleNewInputNotifyEvent {order : DictOrder (M × RunningModelInfo)} {now : ℕ}
    {m m' : M} (h : m = m' ∨ s.Noticed m) (ht : s.handleNewInputNotifyEvent order now m' = .ok t) :
    t.Noticed m := by
  rcases handleNewInputNotifyEvent_eq ht with
    ⟨⟨p, hp⟩, rfl⟩ | ⟨hw, rfl⟩ | ⟨as, i, -, rfl⟩ | ⟨as, pending, -, -, rfl⟩
  · have hrun : m' ∈ s.runningModels :=
      mem_runningModels.mpr ⟨p.2, (runningModelInfo_some hp).2 ▸ (runningModelInfo_some hp).1⟩
    have hs : s.Noticed m := h.elim (fun hm => .inl (hm ▸ hrun)) id
    exact hs.mono (fun m hm => (runningModels_updateTimestamp m' now).symm ▸ hm) rfl (fun _ he => he)
  · exact h.elim (fun hm => .inr (.inl (hm ▸ hw))) id
  · rcases h with rfl | h
    · exact .inl (by simp [runningModels])
    · exact h.mono (fun m hm => by simpa [runningModels] using Or.inl hm) rfl (fun _ he => he)
  · rcases h with rfl | h | h | h
    · exact .inr (.inl (by simp))
    · exact .inl h
    · exact .inr (.inl (by simp [h]))
    · exact .inr (.inr h)

/-- The end of a model is noticed again if its input is pending. -/
theorem Noticed.handleModelDoneNotifyEvent {order : DictOrder (M × RunningModelInfo)} {now : ℕ}
    {modelInputPending : M → Bool} {m m' : M} (h : s.Noticed m) (hp : modelInputPending m = true)
    (ht : s.handleModelDoneNotifyEvent order now modelInputPending m' = .ok t) : t.Noticed m := by
  obtain ⟨p, as, hinfo, hstart⟩ := handleModelDoneNotifyEvent_eq ht
  refine Noticed.startWaitingModel ?_ hstart
  obtain ⟨hmem, rfl⟩ := runningModelInfo_some hinfo
  by_cases hm : m = p.1
  · subst hm
    rw [hp]
    exact .inr (.inr (by simp [newInputNotifyTS]))
  · have hkeep : Noticed m { s.freeSlotOf p with slotAgents := as } := by
      rcases h with h | h | h
      · obtain ⟨info, hin⟩ := mem_runningModels.mp h
        have hne : (m, info) ≠ p := fun hpe => hm (congrArg Prod.fst hpe)
        exact .inl (mem_runningModels.mpr ⟨info, (List.mem_erase_of_ne hne).mpr hin⟩)
      · exact .inr (.inl h)
      · exact .inr (.inr h)
    split
    · exact hkeep.mono (fun _ hr => hr) rfl (fun e he => List.mem_append_left _ he)
    · exact hkeep

theorem Noticed.runEvent {order : DictOrder (M × RunningModelInfo)} {now : ℕ}
    {modelInputPending : M → Bool} {m : M} (h : s.Noticed m) (hp : modelInputPending m = true)
    (ht : s.runEvent order now modelInputPending = some (.ok t)) : t.Noticed m := by
  unfold Scheduler.runEvent at ht
  cases hq : s.eventQ with
  | nil => simp [hq] at ht
  | cons e q =>
    simp only [hq, Option.some.injEq] at ht
    have hpop : .newInputNotify m = e ∨
        Noticed m ({ s with eventQ := q, loop := .top } : Scheduler M) := by
      rcases h with h | h | h
      · exact .inr (.inl h)
      · exact .inr (.inr (.inl h))
      · rw [hq] at h
        exact (List.mem_cons.mp h).imp id fun h => .inr (.inr h)
    cases e with
    | stopEventLoopRequest =>
      cases ht
      rcases hpop with hpop | hpop
      · cases hpop
      · exact hpop.mono (fun _ hr => hr) rfl (fun _ he => he)
    | newInputNotify m' =>
      refine Noticed.handleNewInputNotifyEvent (hpop.imp (fun he => ?_) id) ht
      cases he
      rfl
    | modelDoneNotify m' code =>
      rcases hpop with hpop | hpop
      · cases hpop
      · exact hpop.handleModelDoneNotifyEvent hp ht

/-- No turn of the scheduler forgets a model whose input is pending. -/
theorem Noticed.act {a : Action M} {m : M} (h : s.Noticed m)
    (hp : ∀ order now pending, a = .runEvent order now pending → pending m = true)
    (ht : s.act a = some (.ok t)) : t.Noticed m := by
  cases a with
  | newInputNotify m' =>
    cases ht
    exact h.mono (fun _ hr => hr) rfl (fun e he => List.mem_append_left _ he)
  | requestStop =>
    simp only [Scheduler.act] at ht
    split at ht
    · cases ht
    · cases ht
      exact h.mono (fun _ hr => hr) rfl (fun e he => List.mem_append_left _ he)
  | runTop order =>
    simp only [Scheduler.act] at ht
    split at ht
    · obtain ⟨as, pending, requested, loop, rfl⟩ := runTop_eq (Option.some.inj ht)
      exact h.mono (fun _ hr => hr) rfl (fun _ he => he)
    · cases ht
  | runEvent order now pending =>
    simp only [Scheduler.act] at ht
    split at ht
    · exact h.runEvent (hp order now pending rfl) ht
    · cases ht
  | agentTurn i =>
    obtain ⟨r, -, hr⟩ := Option.map_eq_some_iff.mp ht
    cases r with
    | error e => cases hr
    | ok a =>
      cases hr
      exact h.mono (fun _ hr => hr) rfl (fun _ he => he)
  | agentJoins i =>
    obtain ⟨⟨a, out⟩, -, hr⟩ := Option.map_eq_some_iff.mp ht
    cases out with
    | none =>
      cases hr
      exact h.mono (fun _ hr => hr) rfl (fun _ he => he)
    | some d =>
      cases hr
      exact h.mono (fun _ hr => hr) rfl (fun e he => List.mem_append_left _ he)
  | processExits i code =>
    obtain ⟨u, hu, hr⟩ := Option.map_eq_some_iff.mp ht
    obtain ⟨a, a', -, -, rfl⟩ := turnOf_some hu
    cases hr
    exact h.mono (fun _ hr => hr) rfl (fun _ he => he)
  | monitorReports i =>
    obtain ⟨u, hu, hr⟩ := Option.map_eq_some_iff.mp ht
    obtain ⟨a, a', -, -, rfl⟩ := turnOf_some hu
    cases hr
    exact h.mono (fun _ hr => hr) rfl (fun _ he => he)

end Scheduler

namespace Swapper

variable {M B : Type} [DecidableEq M] {s t : Swapper M B}

theorem turn_eq_some {a : Scheduler.Action M} :
    s.turn a = some t ↔ ∃ u, s.scheduler.act a = some (.ok u) ∧ t = { s with scheduler := u } := by
  simp only [turn, Option.map_eq_some_iff, Option.bind_eq_some_iff]
  constructor
  · rintro ⟨u, ⟨r, hr, hu⟩, rfl⟩
    cases r with
    | error e => cases hu
    | ok v =>
      obtain rfl : v = u := Option.some.inj hu
      exact ⟨v, hr, rfl⟩
  · rintro ⟨u, hu, rfl⟩
    exact ⟨u, ⟨_, hu, rfl⟩, rfl⟩

theorem modelInputPending_iff {m : M} :
    s.modelInputPending m = true ↔ ∃ q, s.inputQueues.find? m = some q ∧ q.ready ≠ [] := by
  unfold modelInputPending
  cases s.inputQueues.find? m <;> simp

/-- A step of the whole is a turn of the scheduler or leaves it alone. -/
theorem act_scheduler {a : Action M B} (h : s.act a = some t) :
    t.scheduler = s.scheduler ∨ ∃ b, s.scheduler.act b = some (.ok t.scheduler) := by
  have hturn : ∀ {b : Scheduler.Action M} {u : Swapper M B}, u.turn b = some t →
      u.scheduler = s.scheduler → ∃ b, s.scheduler.act b = some (.ok t.scheduler) := by
    intro b u ht hu
    obtain ⟨v, hv, rfl⟩ := turn_eq_some.mp ht
    exact ⟨b, hu ▸ hv⟩
  cases a with
  | createInputQueue m => cases h; exact .inl rfl
  | deleteInputQueue m => cases h; exact .inl rfl
  | purgeInputQueue m => cases h; exact .inl rfl
  | publish m b =>
    simp only [act] at h
    split at h
    · cases h
    · cases h; exact .inl rfl
  | notify m =>
    simp only [act] at h
    split at h
    · cases h; exact .inl rfl
    · cases h
  | initSchedulerNotification =>
    simp only [act] at h
    split at h
    · cases h; exact .inl rfl
    · cases h
  | getAllMessageQueues order =>
    simp only [act] at h
    split at h
    · cases h; exact .inl rfl
    · cases h
  | checkInputPending =>
    simp only [act] at h
    split at h
    · cases h; exact .inl rfl
    · cases h; exact .inl rfl
    · cases h
  | notifyPending =>
    simp only [act] at h
    split at h
    · cases h; exact .inl rfl
    · exact .inr (hturn h rfl)
    · cases h
  | forwardNotification =>
    simp only [act] at h
    split at h
    · split at h
      · cases h; exact .inl rfl
      · exact .inr (hturn h rfl)
    · cases h
  | ackNotification =>
    simp only [act] at h
    split at h
    · cases h; exact .inl rfl
    · cases h
  | requestStop =>
    simp only [act] at h
    split at h
    · cases h
    · exact .inr (hturn h rfl)
  | runTop order => exact .inr (hturn h rfl)
  | runEvent order now => exact .inr (hturn h rfl)
  | agentTurn i => exact .inr (hturn h rfl)
  | agentJoins i => exact .inr (hturn h rfl)
  | processExits i code =>
    obtain ⟨m, -, ht⟩ := Option.bind_eq_some_iff.mp h
    exact .inr (hturn ht rfl)
  | monitorReports i => exact .inr (hturn h rfl)
  | runnerTakes i =>
    obtain ⟨m, -, h⟩ := Option.bind_eq_some_iff.mp h
    obtain ⟨q, -, h⟩ := Option.bind_eq_some_iff.mp h
    obtain ⟨d, -, rfl⟩ := Option.map_eq_some_iff.mp h
    exact .inl rfl
  | runnerAcks i tag multiple =>
    obtain ⟨m, -, rfl⟩ := Option.map_eq_some_iff.mp h
    exact .inl rfl

/-- The scheduler of the whole is a scheduler on its own. -/
theorem reachable_scheduler {n : ℕ} (h : Reachable (swapperSystem M B n) s) :
    Reachable (schedulerSystem M n) s.scheduler := by
  obtain ⟨u, hu, rfl⟩ : ∃ u, Reachable (schedulerSystem M n) u ∧ s.scheduler = u := by
    refine Reachable.simulation (R := fun s u => s.scheduler = u) ?_ ?_ h
    · rintro s ⟨hs, -⟩
      exact ⟨_, rfl, hs⟩
    rintro a s t _ _ rfl ht
    rcases act_scheduler ht with heq | ⟨b, hb⟩
    · exact .inl heq
    · exact .inr ⟨b, _, schedulerSystem_next.mpr hb, rfl⟩
  exact hu

/-- The model of a live ModelRunner process is running. -/
theorem runnerOn_running {n i : ℕ} {m : M} (h : s.scheduler.Inv n) (hr : s.runnerOn i = some m) :
    m ∈ s.scheduler.runningModels := by
  obtain ⟨ms, hms, hrun⟩ := Option.bind_eq_some_iff.mp hr
  obtain ⟨a, ha, hstate⟩ := Option.bind_eq_some_iff.mp hms
  split at hrun
  · rename_i hproc
    obtain rfl := Option.some.inj hrun
    obtain ⟨d, hs, -⟩ := h.agents i a ha
    obtain ⟨info, hin, -⟩ := h.modelID_running ha (hs.modelID_of_running hstate hproc)
    exact Scheduler.mem_runningModels.mpr ⟨info, hin⟩
  · cases hrun

end Swapper

/-- The reader has still to look at the input queue of the model, or to report
that it found it non-empty. -/
def NotificationReader.WillCheck {M : Type} (m : M) : NotificationReader M → Prop
  | .starting => True
  | .listing => True
  | .checking todo found => m ∈ todo ∨ m ∈ found
  | .notifying found => m ∈ found
  | _ => False

namespace Swapper

variable {M B : Type} {s t : Swapper M B}

/-- The notifications not yet passed on to the controller. -/
def unforwarded (s : Swapper M B) : List M :=
  match s.reader with
  | .acking => (s.notificationQueue.getD []).tail
  | _ => s.notificationQueue.getD []

/-- Some actor has still to act on the model. -/
def Awake (m : M) (s : Swapper M B) : Prop :=
  s.scheduler.Noticed m ∨ m ∈ s.unforwarded ∨ m ∈ s.submitters ∨ s.reader.WillCheck m

variable [DecidableEq M]

/-- No wake-up has been lost. -/
structure Wakeful (s : Swapper M B) : Prop where
  declared : s.reader ≠ .starting → s.notificationQueue.isSome
  unacked : s.reader = .acking → s.notificationQueue ≠ some []
  awake : ∀ m, s.modelInputPending m = true → s.Awake m

theorem Awake.turn {a : Scheduler.Action M} {m : M} (h : s.Awake m)
    (hp : ∀ order now pending, a = .runEvent order now pending → pending m = true)
    (ht : s.turn a = some t) : t.Awake m := by
  obtain ⟨u, hu, rfl⟩ := turn_eq_some.mp ht
  exact h.imp (fun h => h.act hp hu) id

theorem Wakeful.turn {a : Scheduler.Action M} (h : s.Wakeful)
    (hp : ∀ order now pending, a = .runEvent order now pending → pending = s.modelInputPending)
    (ht : s.turn a = some t) : t.Wakeful := by
  obtain ⟨u, hu, rfl⟩ := turn_eq_some.mp ht
  refine ⟨h.declared, h.unacked, fun m hm => (h.awake m hm).turn (fun order now pending ha => ?_) ht⟩
  rw [hp order now pending ha]
  exact hm

/-- Fewer pending inputs need fewer wake-ups. -/
theorem Wakeful.of_queues (h : s.Wakeful) {k : Broker M B}
    (hk : ∀ m q, k.find? m = some q → q.ready ≠ [] → s.modelInputPending m = true) :
    Wakeful { s with inputQueues := k } := by
  refine ⟨h.declared, h.unacked, fun m hm => ?_⟩
  obtain ⟨q, hq, hne⟩ := modelInputPending_iff.mp hm
  exact h.awake m (hk m q hq hne)

theorem Wakeful.update (h : s.Wakeful) {m : M} {f : AckedQueue B → AckedQueue B}
    (hf : ∀ q, s.inputQueues.find? m = some q → (f q).ready ≠ [] → q.ready ≠ []) :
    Wakeful { s with inputQueues := s.inputQueues.update m f } := by
  refine h.of_queues fun m' q hq hne => ?_
  rw [Broker.find?_update] at hq
  split at hq
  · rename_i hm
    subst hm
    obtain ⟨q', hq', rfl⟩ := Option.map_eq_some_iff.mp hq
    exact modelInputPending_iff.mpr ⟨q', hq', hf q' hq' hne⟩
  · exact modelInputPending_iff.mpr ⟨q, hq, hne⟩

/-- A notification that is dropped is one the reader does not need. -/
theorem Wakeful.notify (h : s.Wakeful) (m : M) : Wakeful { s with
    submitters := s.submitters.erase m
    notificationQueue := s.notificationQueue.map (· ++ [m]) } := by
  cases hq : s.notificationQueue with
  | none =>
    have hr : s.reader = .starting := by
      by_contra hne
      simpa [hq] using h.declared hne
    exact ⟨fun hne => absurd hr hne, by simp, fun m' _ => .inr (.inr (.inr (by simp [hr,
      NotificationReader.WillCheck])))⟩
  | some q =>
    refine ⟨fun _ => rfl, by simp, fun m' hm' => ?_⟩
    have hmem : ∀ x, x ∈ s.unforwarded ∨ x = m → x ∈ unforwarded { s with
        submitters := s.submitters.erase m, notificationQueue := some (q ++ [m]) } := by
      intro x hx
      cases hr : s.reader with
      | acking =>
        have hne : q ≠ [] := fun hnil => h.unacked hr (hnil ▸ hq)
        simpa [unforwarded, hr, hq, List.tail_append_of_ne_nil hne] using hx
      | _ => simpa [unforwarded, hr, hq] using hx
    rcases h.awake m' hm' with hn | hu | hs | hr
    · exact .inl hn
    · exact .inr (.inl (hmem m' (.inl hu)))
    · by_cases hmm : m' = m
      · exact .inr (.inl (hmem m' (.inr hmm)))
      · exact .inr (.inr (.inl ((List.mem_erase_of_ne hmm).mpr hs)))
    · exact .inr (.inr (.inr hr))

theorem Wakeful.act {n : ℕ} (h : s.Wakeful) (hi : s.scheduler.Inv n) {a : Action M B}
    (ht : s.act a = some t) : t.Wakeful := by
  cases a with
  | createInputQueue m =>
    cases ht
    refine h.of_queues fun m' q hq hne => ?_
    rcases Broker.find?_create_cases hq with hq | ⟨-, rfl⟩
    · exact modelInputPending_iff.mpr ⟨q, hq, hne⟩
    · exact absurd rfl hne
  | deleteInputQueue m =>
    cases ht
    refine h.of_queues fun m' q hq hne => ?_
    rw [Broker.find?_delete] at hq
    split at hq
    · cases hq
    · exact modelInputPending_iff.mpr ⟨q, hq, hne⟩
  | purgeInputQueue m =>
    cases ht
    exact h.update fun q _ hne => absurd rfl hne
  | publish m b =>
    simp only [Swapper.act] at ht
    split at ht
    · cases ht
    · cases ht
      refine ⟨h.declared, h.unacked, fun m' hm' => ?_⟩
      by_cases hmm : m' = m
      · exact .inr (.inr (.inl (by simp [hmm])))
      · obtain ⟨q, hq, hne⟩ := modelInputPending_iff.mp hm'
        rw [Broker.find?_update, if_neg hmm] at hq
        rcases h.awake m' (modelInputPending_iff.mpr ⟨q, hq, hne⟩) with hn | hu | hs | hr
        · exact .inl hn
        · exact .inr (.inl hu)
        · exact .inr (.inr (.inl (List.mem_append_left _ hs)))
        · exact .inr (.inr (.inr hr))
  | notify m =>
    simp only [Swapper.act] at ht
    split at ht
    · cases ht
      exact h.notify m
    · cases ht
  | initSchedulerNotification =>
    simp only [Swapper.act] at ht
    split at ht
    · cases ht
      exact ⟨fun _ => rfl, by simp, fun m' _ => .inr (.inr (.inr trivial))⟩
    · cases ht
  | getAllMessageQueues order =>
    simp only [Swapper.act] at ht
    split at ht
    · rename_i hl
      cases ht
      refine ⟨fun _ => h.declared (by simp [hl]), by simp, fun m' hm' => ?_⟩
      obtain ⟨q, hq, -⟩ := modelInputPending_iff.mp hm'
      exact .inr (.inr (.inr (.inl
        ((order.perm _).mem_iff.mpr (Broker.mem_names_of_find? hq)))))
    · cases ht
  | checkInputPending =>
    simp only [Swapper.act] at ht
    split at ht
    · rename_i found hl
      cases ht
      refine ⟨fun _ => h.declared (by simp [hl]), by simp, fun m' hm' => ?_⟩
      have hw := h.awake m' hm'
      simp only [Awake, unforwarded, hl, NotificationReader.WillCheck, List.not_mem_nil, false_or]
        at hw ⊢
      exact hw
    · rename_i m todo found hl
      cases ht
      refine ⟨fun _ => h.declared (by simp [hl]), by simp, fun m' hm' => ?_⟩
      have hp : s.modelInputPending m' = true := hm'
      have hw := h.awake m' hm'
      simp only [Awake, unforwarded, hl, NotificationReader.WillCheck, List.mem_cons] at hw ⊢
      rcases hw with hn | hu | hs | (rfl | htodo) | hfound
      · exact .inl hn
      · exact .inr (.inl hu)
      · exact .inr (.inr (.inl hs))
      · exact .inr (.inr (.inr (.inr (by simp [hp]))))
      · exact .inr (.inr (.inr (.inl htodo)))
      · exact .inr (.inr (.inr (.inr (by split <;> simp [hfound]))))
    · cases ht
  | notifyPending =>
    simp only [Swapper.act] at ht
    split at ht
    · rename_i hl
      cases ht
      refine ⟨fun _ => h.declared (by simp [hl]), by simp, fun m' hm' => ?_⟩
      have hw := h.awake m' hm'
      simp only [Awake, unforwarded, hl, NotificationReader.WillCheck, List.not_mem_nil] at hw ⊢
      exact hw
    · rename_i m found hl
      obtain ⟨u, hu, rfl⟩ := turn_eq_some.mp ht
      cases hu
      refine ⟨fun _ => h.declared (by simp [hl]), by simp, fun m' hm' => ?_⟩
      have hw := h.awake m' hm'
      simp only [Awake, unforwarded, hl, NotificationReader.WillCheck, List.mem_cons] at hw ⊢
      rcases hw with hn | hu | hs | rfl | hfound
      · exact .inl (hn.mono (fun _ hr => hr) rfl fun e he => List.mem_append_left _ he)
      · exact .inr (.inl hu)
      · exact .inr (.inr (.inl hs))
      · exact .inl (.inr (.inr (by simp [Scheduler.newInputNotifyTS])))
      · exact .inr (.inr (.inr hfound))
    · cases ht
  | forwardNotification =>
    simp only [Swapper.act] at ht
    split at ht
    · rename_i m q hl hq
      split at ht
      · cases ht
        refine ⟨fun _ => h.declared (by simp [hl]), by simp, fun m' hm' => ?_⟩
        have hw := h.awake m' hm'
        simp only [Awake, unforwarded, hl, NotificationReader.WillCheck] at hw ⊢
        exact hw
      · obtain ⟨u, hu, rfl⟩ := turn_eq_some.mp ht
        cases hu
        refine ⟨fun _ => h.declared (by simp [hl]), by simp [hq], fun m' hm' => ?_⟩
        have hw := h.awake m' hm'
        simp only [Awake, unforwarded, hl, hq, NotificationReader.WillCheck, Option.getD_some,
          List.mem_cons, List.tail_cons] at hw ⊢
        rcases hw with hn | (rfl | hu) | hs | hr
        · exact .inl (hn.mono (fun _ hr => hr) rfl fun e he => List.mem_append_left _ he)
        · exact .inl (.inr (.inr (by simp [Scheduler.newInputNotifyTS])))
        · exact .inr (.inl hu)
        · exact .inr (.inr (.inl hs))
        · exact .inr (.inr (.inr hr))
    · cases ht
  | ackNotification =>
    simp only [Swapper.act] at ht
    split at ht
    · rename_i hl
      cases ht
      refine ⟨fun _ => by simpa using h.declared (by simp [hl]), by simp, fun m' hm' => ?_⟩
      have hw := h.awake m' hm'
      simp only [Awake, unforwarded, hl, NotificationReader.WillCheck] at hw ⊢
      cases hq : s.notificationQueue with
      | none => simpa [hq] using hw
      | some q => simpa [hq] using hw
    · cases ht
  | requestStop =>
    simp only [Swapper.act] at ht
    split at ht
    · cases ht
    · exact h.turn (by rintro _ _ _ ⟨⟩) ht
  | runTop order => exact h.turn (by rintro _ _ _ ⟨⟩) ht
  | runEvent order now => exact h.turn (by rintro _ _ _ ⟨⟩; rfl) ht
  | agentTurn i => exact h.turn (by rintro _ _ _ ⟨⟩) ht
  | agentJoins i => exact h.turn (by rintro _ _ _ ⟨⟩) ht
  | processExits i code =>
    obtain ⟨m, hm, ht⟩ := Option.bind_eq_some_iff.mp ht
    obtain ⟨u, hu, rfl⟩ := turn_eq_some.mp ht
    refine ⟨h.declared, h.unacked, fun m' hm' => Awake.turn ?_ (by rintro _ _ _ ⟨⟩) ht⟩
    by_cases hmm : m' = m
    · subst hmm
      have hrun := runnerOn_running hi hm
      exact .inl (.inl hrun)
    · obtain ⟨q, hq, hne⟩ := modelInputPending_iff.mp hm'
      rw [Broker.find?_update, if_neg hmm] at hq
      exact h.awake m' (modelInputPending_iff.mpr ⟨q, hq, hne⟩)
  | monitorReports i => exact h.turn (by rintro _ _ _ ⟨⟩) ht
  | runnerTakes i =>
    obtain ⟨m, -, ht⟩ := Option.bind_eq_some_iff.mp ht
    obtain ⟨q, hq, ht⟩ := Option.bind_eq_some_iff.mp ht
    obtain ⟨⟨b, q'⟩, hd, rfl⟩ := Option.map_eq_some_iff.mp ht
    refine h.update fun q₁ hq₁ _ => ?_
    obtain rfl : q = q₁ := Option.some.inj (hq.symm.trans hq₁)
    rw [(AckedQueue.held_deliver hd).2.1]
    simp
  | runnerAcks i tag multiple =>
    obtain ⟨m, -, rfl⟩ := Option.map_eq_some_iff.mp ht
    exact h.update fun q _ hne => hne

theorem reachable_wakeful {n : ℕ} (h : Reachable (swapperSystem M B n) s) : s.Wakeful := by
  refine h.invariant ?_ ?_
  · rintro s ⟨-, hr⟩
    exact ⟨fun hne => absurd hr hne, by simp [hr], fun m _ =>
      .inr (.inr (.inr (by simp [hr, NotificationReader.WillCheck])))⟩
  · intro a s t hs hw ht
    exact hw.act (reachable_inv (reachable_scheduler hs)) ht

end Swapper

variable {M B : Type} [DecidableEq M]

/-- No lost wake-up: a model with messages ready in its input queue is running,
waiting, notified, about to be notified by its submitter, or still to be looked
at by the reader's check at start. -/
theorem no_lost_wakeup {n : ℕ} {s : Swapper M B} (h : Reachable (swapperSystem M B n) s) {m : M}
    {q : AckedQueue B} (hq : s.inputQueues.find? m = some q) (hne : q.ready ≠ []) :
    m ∈ s.scheduler.runningModels ∨ m ∈ s.scheduler.waitingModelsFIFO ∨
      .newInputNotify m ∈ s.scheduler.eventQ ∨
      (∃ ns, s.notificationQueue = some ns ∧ m ∈ ns) ∨
      m ∈ s.submitters ∨ s.reader.WillCheck m := by
  have hw := (Swapper.reachable_wakeful h).awake m (Swapper.modelInputPending_iff.mpr ⟨q, hq, hne⟩)
  rcases hw with (hr | hw | he) | hu | hs | hr
  · exact .inl hr
  · exact .inr (.inl hw)
  · exact .inr (.inr (.inl he))
  · have hsub : m ∈ s.notificationQueue.getD [] := by
      unfold Swapper.unforwarded at hu
      split at hu
      · exact List.mem_of_mem_tail hu
      · exact hu
    cases hn : s.notificationQueue with
    | none => simp [hn] at hsub
    | some ns => exact .inr (.inr (.inr (.inl ⟨ns, rfl, by simpa [hn] using hsub⟩)))
  · exact .inr (.inr (.inr (.inr (.inl hs))))
  · exact .inr (.inr (.inr (.inr (.inr hr))))

/-- A batch published before the reader has declared the notification queue. -/
def earlySubmission : List (Swapper.Action Bool ℕ) :=
  [.createInputQueue true, .publish true 7, .notify true, .initSchedulerNotification]

theorem no_lost_wakeup_early :
    ∃ s : Swapper Bool ℕ, (swapperSystem Bool ℕ 1).exec earlySubmission
        ⟨.initial Bool 1, ⟨[]⟩, none, [], .starting⟩ = some s ∧
      (true ∈ s.scheduler.runningModels ∨ true ∈ s.scheduler.waitingModelsFIFO ∨
        .newInputNotify true ∈ s.scheduler.eventQ ∨
        (∃ ns, s.notificationQueue = some ns ∧ true ∈ ns) ∨
        true ∈ s.submitters ∨ s.reader.WillCheck true) := by
  have hexec : (swapperSystem Bool ℕ 1).exec earlySubmission
      ⟨.initial Bool 1, ⟨[]⟩, none, [], .starting⟩ =
      some ⟨.initial Bool 1, ⟨[(true, ⟨[7], [], 1⟩)]⟩, some [], [], .listing⟩ := rfl
  exact ⟨_, hexec, no_lost_wakeup (q := ⟨[7], [], 1⟩) (Reachable.exec (.init ⟨rfl, rfl⟩) hexec) rfl
    (by simp)⟩

end NumentaApps.ModelSwapper
