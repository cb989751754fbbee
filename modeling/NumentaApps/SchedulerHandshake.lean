import NumentaApps.SwapController
import Mathlib.Data.List.Range

/-!
# Safety of the handshake between the controller and the slot agents

The invariant relates the controller's four tables to the state and the queue of
every slot agent. It is proved for each operation of the controller first, then
for the handlers, then for every turn of every actor; no turn from a state
satisfying it raises.
-/
namespace NumentaApps.ModelSwapper
open TransitionSystem

namespace Event

variable {M : Type} [DecidableEq M]

/-- The model-done notifications of one model. -/
def isDoneOf (m : M) : Event M → Bool
  | .modelDoneNotify m' _ => m' = m
  | _ => false

@[simp] theorem isDoneOf_newInputNotify (m m' : M) : isDoneOf m (newInputNotify m') = false := rfl

@[simp] theorem isDoneOf_stop (m : M) : isDoneOf m (stopEventLoopRequest : Event M) = false := rfl

@[simp] theorem isDoneOf_modelDoneNotify (m m' : M) (code : ℤ) :
    isDoneOf m (modelDoneNotify m' code) = decide (m' = m) := rfl

end Event

namespace Scheduler

section

variable {M : Type} {s : Scheduler M}

/-- The slots of the running models. -/
def busySlots (s : Scheduler M) : List ℕ := s.runningModelsMap.map (·.2.slotIndex)

def runningModels (s : Scheduler M) : List M := s.runningModelsMap.map Prod.fst

theorem withSlotAgent_ok {i : ℕ} {a a' : SlotAgent M}
    {call : SlotAgent M → Except Failure (SlotAgent M)} (hi : s.slotAgents[i]? = some a)
    (hc : call a = .ok a') :
    s.withSlotAgent i call = .ok { s with slotAgents := s.slotAgents.set i a' } := by
  simp [withSlotAgent, hi, hc, Except.bind]

/-- The agents other than the one replaced are found unchanged. -/
theorem getElem?_set_cases {as : List (SlotAgent M)} {i j : ℕ} {a b : SlotAgent M}
    (h : (as.set i a)[j]? = some b) : (i = j ∧ b = a) ∨ (i ≠ j ∧ as[j]? = some b) := by
  rw [List.getElem?_set] at h
  split at h
  · rename_i hij
    split at h
    · exact .inl ⟨hij, (Option.some.inj h).symm⟩
    · cases h
  · rename_i hij
    exact .inr ⟨hij, h⟩

theorem turnOf_some {t : Scheduler M} {i : ℕ} {turn : SlotAgent M → Option (SlotAgent M)}
    (h : s.turnOf i turn = some t) :
    ∃ a a', s.slotAgents[i]? = some a ∧ turn a = some a' ∧
      t = { s with slotAgents := s.slotAgents.set i a' } := by
  obtain ⟨a', hb, rfl⟩ := Option.map_eq_some_iff.mp h
  obtain ⟨a, ha, hturn⟩ := Option.bind_eq_some_iff.mp hb
  exact ⟨a, a', ha, hturn, rfl⟩

theorem initial_slotAgents {concurrency i : ℕ} {a : SlotAgent M}
    (ha : (initial M concurrency).slotAgents[i]? = some a) : i < concurrency ∧ SlotAgent.initial = a := by
  have hrep : (List.replicate concurrency SlotAgent.initial)[i]? = some a := ha
  rw [List.getElem?_replicate] at hrep
  split at hrep
  · rename_i hi
    exact ⟨hi, Option.some.inj hrep⟩
  · cases hrep

theorem mem_busySlots {i : ℕ} :
    i ∈ s.busySlots ↔ ∃ m info, (m, info) ∈ s.runningModelsMap ∧ info.slotIndex = i := by
  simp [busySlots]

theorem mem_lru {order : DictOrder (M × RunningModelInfo)} {i time : ℕ}
    (h : (i, time) ∈ s.lru order) : i ∈ s.busySlots ∧ i ∉ s.pendingPreemptSlotsSet := by
  simp only [lru, List.mem_insertionSort, List.mem_map, List.mem_filter, decide_eq_true_eq] at h
  obtain ⟨p, ⟨hp, hpp⟩, heq⟩ := h
  cases heq
  exact ⟨mem_busySlots.mpr ⟨p.1, p.2, (order.perm _).mem_iff.mp hp, rfl⟩, hpp⟩

theorem mem_runningModels {m : M} :
    m ∈ s.runningModels ↔ ∃ info, (m, info) ∈ s.runningModelsMap := by
  simp [runningModels]

end

variable {M : Type} [DecidableEq M]

/-- The slot agent of index `i` agrees with the tables and with the notifications
in flight. -/
def SlotOk (s : Scheduler M) (i : ℕ) (a : SlotAgent M) : Prop :=
  ∃ done, SlotAgent.Shape (decide (i ∈ s.pendingPreemptSlotsSet)) done (decide (s.loop = .left)) a ∧
    ∀ m, a.modelID = some m → s.eventQ.countP (Event.isDoneOf m) = done.toNat

/-- What holds between any two operations of the controller. -/
structure Tables (n : ℕ) (s : Scheduler M) : Prop where
  count : s.slotAgents.length = n
  slots : (s.busySlots ++ s.freeSlots).Perm (List.range s.slotAgents.length)
  models : s.runningModels.Nodup
  waiting : s.waitingModelsFIFO.Nodup
  disjoint : ∀ m ∈ s.waitingModelsFIFO, m ∉ s.runningModels
  pending : ∀ i ∈ s.pendingPreemptSlotsSet, i ∈ s.busySlots
  agents : ∀ i a, s.slotAgents[i]? = some a → s.SlotOk i a
  busy : ∀ p ∈ s.runningModelsMap, ∀ a, s.slotAgents[p.2.slotIndex]? = some a → a.modelID = some p.1
  free : ∀ i ∈ s.freeSlots, ∀ a, s.slotAgents[i]? = some a → a.modelID = none
  done : ∀ m code, .modelDoneNotify m code ∈ s.eventQ → m ∈ s.runningModels

/-- What holds between any two turns: moreover no model waits while a slot is free. -/
structure Inv (n : ℕ) (s : Scheduler M) : Prop extends Tables n s where
  waiting_free : s.freeSlots ≠ [] → s.waitingModelsFIFO = []
  left : s.loop = .left → s.runningModelsMap = []

variable {s : Scheduler M} {n : ℕ}

theorem Tables.slots_nodup (h : s.Tables n) : (s.busySlots ++ s.freeSlots).Nodup :=
  h.slots.nodup_iff.mpr List.nodup_range

theorem Tables.not_free (h : s.Tables n) {i : ℕ} (hi : i ∈ s.busySlots) : i ∉ s.freeSlots :=
  List.disjoint_of_nodup_append h.slots_nodup hi

theorem Tables.slot_lt (h : s.Tables n) {i : ℕ} (hi : i ∈ s.busySlots ++ s.freeSlots) :
    i < s.slotAgents.length := List.mem_range.mp (h.slots.mem_iff.mp hi)

theorem Tables.length (h : s.Tables n) :
    s.runningModelsMap.length + s.freeSlots.length = s.slotAgents.length := by
  simpa [busySlots] using h.slots.length_eq

theorem Tables.agent_exists (h : s.Tables n) {i : ℕ} (hi : i ∈ s.busySlots ++ s.freeSlots) :
    ∃ a, s.slotAgents[i]? = some a := ⟨_, List.getElem?_eq_getElem (h.slot_lt hi)⟩

/-- Two running models on one slot are the same entry. -/
theorem Tables.entry_unique (h : s.Tables n) {p q : M × RunningModelInfo}
    (hp : p ∈ s.runningModelsMap) (hq : q ∈ s.runningModelsMap)
    (hpq : p.2.slotIndex = q.2.slotIndex) : p = q :=
  List.inj_on_of_nodup_map (f := fun p : M × RunningModelInfo => p.2.slotIndex)
    (List.nodup_append.mp h.slots_nodup).1 hp hq hpq

/-- The model a busy slot's agent is associated with is the running one. -/
theorem Tables.modelID_running (h : s.Tables n) {i : ℕ} {a : SlotAgent M} {m : M}
    (hi : s.slotAgents[i]? = some a) (ha : a.modelID = some m) :
    ∃ info, (m, info) ∈ s.runningModelsMap ∧ info.slotIndex = i := by
  have hlt : i < s.slotAgents.length := (List.getElem?_eq_some_iff.mp hi).1
  rcases List.mem_append.mp (h.slots.mem_iff.mpr (List.mem_range.mpr hlt)) with hb | hf
  · obtain ⟨m', info, hm, rfl⟩ := mem_busySlots.mp hb
    obtain rfl : m' = m := Option.some.inj ((h.busy _ hm a hi).symm.trans ha)
    exact ⟨info, hm, rfl⟩
  · rw [h.free i hf a hi] at ha
    cases ha

/-- No done notification of a model that is not running is in flight. -/
theorem Tables.no_done (h : s.Tables n) {m : M} (hm : m ∉ s.runningModels) :
    s.eventQ.countP (Event.isDoneOf m) = 0 := by
  refine List.countP_eq_zero.mpr fun e he => ?_
  cases e with
  | stopEventLoopRequest => simp
  | newInputNotify m' => simp
  | modelDoneNotify m' code =>
    have hr := h.done m' code he
    simp only [Event.isDoneOf_modelDoneNotify, decide_eq_true_eq]
    rintro rfl
    exact hm hr

/-! ## The operations of the controller -/

/-- Asking a busy slot that is not pending preemption to stop never raises. -/
theorem Tables.preemptSlot (h : s.Tables n) (hl : s.loop ≠ .left) {i : ℕ} (hb : i ∈ s.busySlots)
    (hp : i ∉ s.pendingPreemptSlotsSet) :
    ∃ as, s.preemptSlot i = .ok { s with
        slotAgents := as
        pendingPreemptSlotsSet := insert i s.pendingPreemptSlotsSet } ∧
      Tables n { s with
        slotAgents := as
        pendingPreemptSlotsSet := insert i s.pendingPreemptSlotsSet } := by
  obtain ⟨a, ha⟩ := h.agent_exists (List.mem_append_left _ hb)
  obtain ⟨m, info, hm, rfl⟩ := mem_busySlots.mp hb
  have hid := h.busy _ hm a ha
  obtain ⟨done, hs, hd⟩ := h.agents _ a ha
  simp only [hp, hl, decide_false] at hs
  obtain ⟨a', hc, hid', hs'⟩ := SlotAgent.shape_stopModel hs hid
  refine ⟨s.slotAgents.set info.slotIndex a', ?_, ?_⟩
  · simp [Scheduler.preemptSlot, withSlotAgent_ok ha hc, Except.bind]
  · constructor
    · simpa using h.count
    · simpa [busySlots] using h.slots
    · exact h.models
    · exact h.waiting
    · exact h.disjoint
    · intro j hj
      rcases Finset.mem_insert.mp hj with rfl | hj
      · exact hb
      · exact h.pending j hj
    · intro j b hj
      rcases getElem?_set_cases hj with ⟨rfl, rfl⟩ | ⟨hij, hj⟩
      · refine ⟨done, by simpa [hl] using hs', fun m' hm' => hd m' ?_⟩
        rw [hid, ← hid', hm']
      · obtain ⟨d, hs, hd⟩ := h.agents j b hj
        exact ⟨d, by simpa [Ne.symm hij] using hs, hd⟩
    · intro p hp b hj
      rcases getElem?_set_cases hj with ⟨hij, rfl⟩ | ⟨_, hj⟩
      · rw [h.entry_unique hp hm hij.symm]
        exact hid'
      · exact h.busy p hp b hj
    · intro j hj b hjb
      rcases getElem?_set_cases hjb with ⟨rfl, rfl⟩ | ⟨_, hjb⟩
      · exact absurd hj (h.not_free hb)
      · exact h.free j hj b hjb
    · exact h.done

/-- Assigning a new model to the last free slot never raises. -/
theorem Tables.assignModelToFreeSlot (h : s.Tables n) (hl : s.loop ≠ .left) (now : ℕ) {m : M}
    (hm : m ∉ s.runningModels) (hw : m ∉ s.waitingModelsFIFO) {fs : List ℕ} {i : ℕ}
    (hf : s.freeSlots = fs ++ [i]) :
    ∃ as, s.assignModelToFreeSlot now m = .ok { s with
        slotAgents := as
        freeSlots := fs
        runningModelsMap := s.runningModelsMap ++ [(m, RunningModelInfo.mk i now)] } ∧
      Tables n { s with
        slotAgents := as
        freeSlots := fs
        runningModelsMap := s.runningModelsMap ++ [(m, RunningModelInfo.mk i now)] } := by
  have hi : i ∈ s.freeSlots := by simp [hf]
  obtain ⟨a, ha⟩ := h.agent_exists (List.mem_append_right _ hi)
  have hid := h.free i hi a ha
  have hp : i ∉ s.pendingPreemptSlotsSet := fun hp => h.not_free (h.pending i hp) hi
  obtain ⟨done, hs, -⟩ := h.agents i a ha
  obtain rfl := (hs.of_modelID_none hid).2
  simp only [hp, hl, decide_false] at hs
  obtain ⟨a', hc, hid', hs'⟩ := SlotAgent.shape_startModel hs hid m
  have hlen := h.length
  have hnd := h.slots_nodup
  rw [hf, List.length_append, List.length_singleton] at hlen
  rw [hf, ← List.append_assoc] at hnd
  have hfs : i ∉ fs := fun hi =>
    (List.disjoint_of_nodup_append hnd) (List.mem_append_right _ hi) (List.mem_singleton_self i)
  refine ⟨s.slotAgents.set i a', ?_, ?_⟩
  · have hm' : m ∉ s.runningModelsMap.map Prod.fst := hm
    have hcall : ({ s with freeSlots := fs } : Scheduler M).withSlotAgent i
        (fun a => a.startModel m m) = .ok { s with
          slotAgents := s.slotAgents.set i a', freeSlots := fs } := withSlotAgent_ok ha hc
    simp only [Scheduler.assignModelToFreeSlot, hm', hw, hf, if_false, List.getLast?_concat,
      List.dropLast_concat, hcall, Except.bind, List.length_append, List.length_set,
      List.length_singleton]
    rw [if_pos (by omega)]
  · constructor
    · simpa using h.count
    · have hperm := h.slots
      rw [hf, ← List.append_assoc] at hperm
      have hcomm : (s.busySlots ++ [i] ++ fs).Perm (s.busySlots ++ fs ++ [i]) := by
        simpa only [List.append_assoc] using
          List.Perm.append_left s.busySlots (List.perm_append_comm : ([i] ++ fs).Perm (fs ++ [i]))
      simpa [busySlots] using hcomm.trans hperm
    · simpa [runningModels, List.nodup_append] using ⟨h.models, fun a x hx hax => hm (mem_runningModels.mpr ⟨x, hax ▸ hx⟩)⟩
    · exact h.waiting
    · intro m' hm' hr
      simp only [runningModels, List.map_append, List.mem_append] at hr
      rcases hr with hr | hr
      · exact h.disjoint m' hm' hr
      · obtain rfl : m' = m := by simpa using hr
        exact hw hm'
    · intro j hj
      simpa [busySlots] using Or.inl (h.pending j hj)
    · intro j b hj
      rcases getElem?_set_cases hj with ⟨rfl, rfl⟩ | ⟨hij, hj⟩
      · refine ⟨false, by simpa [hp, hl] using hs', fun m' hm' => ?_⟩
        obtain rfl : m = m' := Option.some.inj (hid'.symm.trans hm')
        exact h.no_done hm
      · exact h.agents j b hj
    · intro p hp b hj
      rcases List.mem_append.mp hp with hold | hnew
      · rcases getElem?_set_cases hj with ⟨hij, rfl⟩ | ⟨_, hj⟩
        · exact absurd (hij ▸ hi) (h.not_free (mem_busySlots.mpr ⟨p.1, p.2, hold, rfl⟩))
        · exact h.busy p hold b hj
      · obtain rfl := List.mem_singleton.mp hnew
        rcases getElem?_set_cases hj with ⟨_, rfl⟩ | ⟨hij, _⟩
        · exact hid'
        · exact absurd rfl hij
    · intro j hj b hjb
      rcases getElem?_set_cases hjb with ⟨rfl, rfl⟩ | ⟨_, hjb⟩
      · exact absurd hj hfs
      · exact h.free j (by simp [hf, hj]) b hjb
    · intro m' code he
      simpa [runningModels] using Or.inl (h.done m' code he)

/-- The first least recently active slot exists whenever a slot is neither free
nor pending preemption. -/
theorem Tables.lru_ne_nil (h : s.Tables n) (order : DictOrder (M × RunningModelInfo))
    (hf : s.freeSlots = []) (hn : s.pendingPreemptSlotsSet.card < s.slotAgents.length) :
    ∃ i t rest, s.lru order = (i, t) :: rest ∧ i ∈ s.busySlots ∧ i ∉ s.pendingPreemptSlotsSet := by
  have hbusy : s.busySlots.toFinset.card = s.slotAgents.length := by
    have hlen := h.slots.length_eq
    have hnd := h.slots_nodup
    rw [hf, List.append_nil] at hlen hnd
    rw [List.toFinset_card_of_nodup hnd, hlen, List.length_range]
  obtain ⟨j, hj, hjp⟩ := Finset.exists_mem_notMem_of_card_lt_card (hbusy ▸ hn)
  obtain ⟨m, info, hm, rfl⟩ := mem_busySlots.mp (List.mem_toFinset.mp hj)
  have hin : (info.slotIndex, info.timestamp) ∈ s.lru order := by
    simp only [lru, List.mem_insertionSort, List.mem_map, List.mem_filter, decide_eq_true_eq]
    exact ⟨(m, info), ⟨(order.perm _).mem_iff.mpr hm, hjp⟩, rfl⟩
  cases hl : s.lru order with
  | nil => rw [hl] at hin; cases hin
  | cons q rest =>
    have hq : (q.1, q.2) ∈ s.lru order := hl ▸ List.mem_cons_self
    exact ⟨q.1, q.2, rest, rfl, mem_lru hq⟩

/-- With no free slot the controller may always look for a slot to preempt; it
touches nothing but the agents and the pending preemptions. -/
theorem Tables.requestPreemption (h : s.Tables n) (hl : s.loop ≠ .left) (hf : s.freeSlots = [])
    (order : DictOrder (M × RunningModelInfo)) :
    ∃ as pending, s.requestPreemptionOfRunningSlotIfNeededAndPossible order =
        .ok { s with slotAgents := as, pendingPreemptSlotsSet := pending } ∧
      Tables n { s with slotAgents := as, pendingPreemptSlotsSet := pending } := by
  unfold requestPreemptionOfRunningSlotIfNeededAndPossible
  rw [if_neg (not_not_intro hf)]
  by_cases hc : s.waitingModelsFIFO.length ≤ s.pendingPreemptSlotsSet.card ∨
      s.slotAgents.length ≤ s.pendingPreemptSlotsSet.card
  · rw [if_pos hc]
    exact ⟨_, _, rfl, h⟩
  · rw [if_neg hc]
    push Not at hc
    obtain ⟨i, t, rest, hlru, hb, hp⟩ := h.lru_ne_nil order hf hc.2
    obtain ⟨as, heq, ht⟩ := h.preemptSlot hl hb hp
    rw [hlru]
    exact ⟨_, _, heq, ht⟩

/-- The stop requests to the remaining models never raise, and leave every one of
them asked. -/
theorem Tables.stopRemaining (h : s.Tables n) (hl : s.loop ≠ .left)
    (l : List (M × RunningModelInfo)) (hsub : ∀ p ∈ l, p ∈ s.runningModelsMap) :
    ∃ as pending, s.stopRemaining l =
        .ok { s with slotAgents := as, pendingPreemptSlotsSet := pending } ∧
      Tables n { s with slotAgents := as, pendingPreemptSlotsSet := pending } ∧
      s.pendingPreemptSlotsSet ⊆ pending ∧ ∀ p ∈ l, p.2.slotIndex ∈ pending := by
  induction l generalizing s with
  | nil => exact ⟨_, _, rfl, h, Finset.Subset.refl _, by simp⟩
  | cons p rest ih =>
    have hp := hsub p List.mem_cons_self
    have hrest : ∀ q ∈ rest, q ∈ s.runningModelsMap :=
      fun q hq => hsub q (List.mem_cons_of_mem _ hq)
    by_cases hpend : p.2.slotIndex ∈ s.pendingPreemptSlotsSet
    · obtain ⟨as, pending, heq, ht, hmono, hall⟩ := ih h hl hrest
      refine ⟨as, pending, ?_, ht, hmono, ?_⟩
      · simp only [Scheduler.stopRemaining, hpend, if_true, heq]
      · intro q hq
        rcases List.mem_cons.mp hq with rfl | hq
        · exact hmono hpend
        · exact hall q hq
    · obtain ⟨as, heq, ht⟩ := h.preemptSlot hl (mem_busySlots.mpr ⟨p.1, p.2, hp, rfl⟩) hpend
      obtain ⟨as', pending, heq', ht', hmono, hall⟩ := ih ht hl hrest
      refine ⟨as', pending, ?_, ht', fun j hj => hmono (Finset.mem_insert_of_mem hj), ?_⟩
      · simp only [Scheduler.stopRemaining, hpend, if_false, heq, Except.bind, heq']
      · intro q hq
        rcases List.mem_cons.mp hq with rfl | hq
        · exact hmono (Finset.mem_insert_self _ _)
        · exact hall q hq

theorem Tables.appendEvent (h : s.Tables n) {e : Event M} (he : ∀ m, e.isDoneOf m = false) :
    Tables n { s with eventQ := s.eventQ ++ [e] } where
  count := h.count
  slots := h.slots
  models := h.models
  waiting := h.waiting
  disjoint := h.disjoint
  pending := h.pending
  agents i a ha := by
    obtain ⟨d, hs, hd⟩ := h.agents i a ha
    refine ⟨d, hs, fun m hm => ?_⟩
    simp [List.countP_append, hd m hm, he m]
  busy := h.busy
  free := h.free
  done m code hm := by
    rcases List.mem_append.mp hm with hm | hm
    · exact h.done m code hm
    · obtain rfl := List.mem_singleton.mp hm
      simpa using he m

theorem Tables.popEvent (h : s.Tables n) (hl : s.loop = .atQueue) {e : Event M} {q : List (Event M)}
    (hq : s.eventQ = e :: q) (he : ∀ m, e.isDoneOf m = false) :
    Tables n { s with eventQ := q, loop := .top } where
  count := h.count
  slots := h.slots
  models := h.models
  waiting := h.waiting
  disjoint := h.disjoint
  pending := h.pending
  agents i a ha := by
    obtain ⟨d, hs, hd⟩ := h.agents i a ha
    refine ⟨d, by simpa [hl] using hs, fun m hm => ?_⟩
    simpa [hq, he m] using hd m hm
  busy := h.busy
  free := h.free
  done m code hm := h.done m code (by simp [hq, hm])

theorem runningModelInfo_none {m : M} (h : s.runningModelInfo m = none) : m ∉ s.runningModels := by
  intro hm
  obtain ⟨info, hm⟩ := mem_runningModels.mp hm
  simpa using List.find?_eq_none.mp h _ hm

theorem runningModelInfo_some {m : M} {p : M × RunningModelInfo}
    (h : s.runningModelInfo m = some p) : p ∈ s.runningModelsMap ∧ p.1 = m :=
  ⟨List.mem_of_find?_eq_some h, by simpa using List.find?_some h⟩

@[simp] theorem busySlots_updateTimestamp (m : M) (now : ℕ) :
    (s.updateTimestamp m now).busySlots = s.busySlots := by
  simp only [busySlots, updateTimestamp, List.map_map]
  refine List.map_congr_left fun p _ => ?_
  by_cases hp : p.1 = m <;> simp [hp]

@[simp] theorem runningModels_updateTimestamp (m : M) (now : ℕ) :
    (s.updateTimestamp m now).runningModels = s.runningModels := by
  simp only [runningModels, updateTimestamp, List.map_map]
  refine List.map_congr_left fun p _ => ?_
  by_cases hp : p.1 = m <;> simp [hp]

theorem Tables.updateTimestamp (h : s.Tables n) (m : M) (now : ℕ) :
    Tables n (s.updateTimestamp m now) where
  count := h.count
  slots := (busySlots_updateTimestamp (s := s) m now).symm ▸ h.slots
  models := (runningModels_updateTimestamp (s := s) m now).symm ▸ h.models
  waiting := h.waiting
  disjoint := (runningModels_updateTimestamp (s := s) m now).symm ▸ h.disjoint
  pending := (busySlots_updateTimestamp (s := s) m now).symm ▸ h.pending
  agents := h.agents
  busy p hp a ha := by
    obtain ⟨q, hq, rfl⟩ := List.mem_map.mp hp
    by_cases hqm : q.1 = m
    · simp only [hqm, if_true] at ha ⊢
      exact hqm ▸ h.busy q hq a ha
    · simp only [hqm, if_false] at ha ⊢
      exact h.busy q hq a ha
  free := h.free
  done := (runningModels_updateTimestamp (s := s) m now).symm ▸ h.done

/-! ## The handlers -/

theorem Inv.of_tables_waiting_nil (h : s.Tables n) (hl : s.loop ≠ .left)
    (hw : s.freeSlots ≠ [] → s.waitingModelsFIFO = []) : s.Inv n :=
  { h with waiting_free := hw, left := fun hl' => absurd hl' hl }

/-- Handling a new-input notification, once it has left the queue. -/
theorem Inv.handleNewInputNotifyEvent (h : s.Inv n) (hl : s.loop ≠ .left)
    (order : DictOrder (M × RunningModelInfo)) (now : ℕ) (m : M) :
    ∃ t, s.handleNewInputNotifyEvent order now m = .ok t ∧ t.Inv n := by
  unfold Scheduler.handleNewInputNotifyEvent
  cases hr : s.runningModelInfo m with
  | some p => exact ⟨_, rfl, .of_tables_waiting_nil (h.updateTimestamp m now) hl h.waiting_free⟩
  | none =>
    have hm := runningModelInfo_none hr
    by_cases hw : m ∈ s.waitingModelsFIFO
    · exact ⟨s, by simp [hw], h⟩
    by_cases hf : s.freeSlots = []
    · have ht : Tables n { s with waitingModelsFIFO := s.waitingModelsFIFO ++ [m] } := by
        refine { h with waiting := ?_, disjoint := ?_ }
        · simpa [List.nodup_append, h.waiting] using fun a ha (hma : a = m) => hw (hma ▸ ha)
        · intro m' hm'
          rcases List.mem_append.mp hm' with hm' | hm'
          · exact h.disjoint m' hm'
          · obtain rfl := List.mem_singleton.mp hm'
            exact hm
      obtain ⟨as, pending, heq, ht⟩ := ht.requestPreemption hl hf order
      refine ⟨_, ?_, .of_tables_waiting_nil ht hl fun hf' => absurd hf hf'⟩
      dsimp only
      rw [if_neg hw, if_neg (not_not_intro hf)]
      exact heq
    · obtain ⟨fs, i, hfs⟩ := (List.eq_nil_or_concat' s.freeSlots).resolve_left hf
      obtain ⟨as, heq, ht⟩ := h.assignModelToFreeSlot hl now hm hw hfs
      refine ⟨_, ?_, .of_tables_waiting_nil ht hl fun _ => h.waiting_free hf⟩
      dsimp only
      rw [if_neg hw, if_pos hf, if_neg (not_not_intro (h.waiting_free hf))]
      exact heq

/-- A freed slot is given to the first waiting model. -/
theorem Tables.startWaitingModel (h : s.Tables n) (hl : s.loop ≠ .left) {fs : List ℕ} {i : ℕ}
    (hf : s.freeSlots = fs ++ [i]) (hw : fs ≠ [] → s.waitingModelsFIFO = [])
    (order : DictOrder (M × RunningModelInfo)) (now : ℕ) :
    ∃ t, s.startWaitingModel order now = .ok t ∧ t.Inv n := by
  unfold Scheduler.startWaitingModel
  cases hq : s.waitingModelsFIFO with
  | nil => exact ⟨s, rfl, .of_tables_waiting_nil h hl fun _ => hq⟩
  | cons m rest =>
    have hfs : fs = [] := by
      by_contra hne
      simp [hw hne] at hq
    have hnd := h.waiting
    rw [hq, List.nodup_cons] at hnd
    have ht : Tables n { s with waitingModelsFIFO := rest } :=
      { h with
        waiting := hnd.2
        disjoint := fun m' hm' => h.disjoint m' (by simp [hq, hm']) }
    obtain ⟨as, heq, ht⟩ := ht.assignModelToFreeSlot hl now
      (h.disjoint m (by simp [hq])) hnd.1 hf
    obtain ⟨as', pending, heq', ht⟩ := ht.requestPreemption hl hfs order
    refine ⟨_, ?_, .of_tables_waiting_nil ht hl fun hf' => absurd hfs hf'⟩
    simp only [heq, Except.bind, heq']

/-- The slot of a done model can be released: the tables agree again once the
agent has been told. -/
theorem Tables.release (h : s.Tables n) (hl : s.loop = .atQueue) {m : M} {code : ℤ}
    {q : List (Event M)} (hq : s.eventQ = .modelDoneNotify m code :: q) :
    ∃ info as, s.runningModelInfo m = some (m, info) ∧ info.slotIndex ∈ s.busySlots ∧
      Scheduler.withSlotAgent info.slotIndex SlotAgent.releaseSlot
          ({ s with eventQ := q, loop := .top }.freeSlotOf (m, info)) =
        .ok { s.freeSlotOf (m, info) with eventQ := q, loop := .top, slotAgents := as } ∧
      as.length = s.slotAgents.length ∧
      Tables n { s.freeSlotOf (m, info) with eventQ := q, loop := .top, slotAgents := as } := by
  obtain ⟨p, hp⟩ : ∃ p, s.runningModelInfo m = some p := by
    obtain ⟨info, hm⟩ := mem_runningModels.mp (h.done m code (by simp [hq]))
    refine Option.ne_none_iff_exists'.mp fun hn => ?_
    exact runningModelInfo_none hn (mem_runningModels.mpr ⟨info, hm⟩)
  obtain ⟨hmem, rfl⟩ := runningModelInfo_some hp
  have hb : p.2.slotIndex ∈ s.busySlots := mem_busySlots.mpr ⟨p.1, p.2, hmem, rfl⟩
  obtain ⟨a, ha⟩ := h.agent_exists (List.mem_append_left _ hb)
  have hid := h.busy p hmem a ha
  obtain ⟨done, hs, hd⟩ := h.agents _ a ha
  have hcount := hd p.1 hid
  rw [hq, List.countP_cons, Event.isDoneOf_modelDoneNotify] at hcount
  obtain rfl : done = true := by cases done <;> simp at hcount ⊢
  simp only [hl] at hs
  obtain ⟨a', hc, hid', hs'⟩ := SlotAgent.shape_releaseSlot hs
  refine ⟨p.2, s.slotAgents.set p.2.slotIndex a', hp, hb, withSlotAgent_ok ha hc,
    List.length_set, ?_⟩
  have hperm : s.runningModelsMap.Perm (p :: s.runningModelsMap.erase p) :=
    List.perm_cons_erase hmem
  have hbusy : s.busySlots.Perm (p.2.slotIndex :: (s.runningModelsMap.erase p).map (·.2.slotIndex)) :=
    hperm.map _
  have hrun : s.runningModels.Perm (p.1 :: (s.runningModelsMap.erase p).map Prod.fst) := hperm.map _
  have hbnd := hbusy.nodup_iff.mp (List.nodup_append.mp h.slots_nodup).1
  have hrnd := hrun.nodup_iff.mp h.models
  have hold : ∀ r ∈ s.runningModelsMap.erase p, r ∈ s.runningModelsMap :=
    fun r hr => List.mem_of_mem_erase hr
  constructor
  · simpa [freeSlotOf] using h.count
  · have hmid : ((s.runningModelsMap.erase p).map (·.2.slotIndex) ++
        (s.freeSlots ++ [p.2.slotIndex])).Perm (s.busySlots ++ s.freeSlots) := by
      rw [← List.append_assoc]
      exact (List.perm_append_singleton _ _).trans (hbusy.symm.append_right _)
    simpa [busySlots, freeSlotOf] using hmid.trans h.slots
  · exact (List.nodup_cons.mp hrnd).2
  · exact h.waiting
  · intro m' hm' hr
    exact h.disjoint m' hm' (hrun.mem_iff.mpr (List.mem_cons_of_mem _ hr))
  · intro j hj
    obtain ⟨hne, hj⟩ := Finset.mem_erase.mp hj
    exact (List.mem_cons.mp (hbusy.mem_iff.mp (h.pending j hj))).resolve_left hne
  · intro j b hj
    rcases getElem?_set_cases hj with ⟨rfl, rfl⟩ | ⟨hij, hj⟩
    · exact ⟨false, by simpa [freeSlotOf] using hs', fun m' hm' => by rw [hid'] at hm'; cases hm'⟩
    · obtain ⟨d, hs, hd⟩ := h.agents j b hj
      refine ⟨d, by simpa [freeSlotOf, hl, Ne.symm hij] using hs, fun m' hm' => ?_⟩
      have hne : p.1 ≠ m' := by
        rintro rfl
        obtain ⟨info, hin, rfl⟩ := h.modelID_running hj hm'
        have hpi : p = (p.1, info) := List.inj_on_of_nodup_map h.models hmem hin rfl
        exact hij (congrArg (fun r => r.2.slotIndex) hpi)
      have hcount := hd m' hm'
      rw [hq, List.countP_cons, Event.isDoneOf_modelDoneNotify] at hcount
      simpa [hne] using hcount
  · intro r hr b hj
    rcases getElem?_set_cases hj with ⟨hij, rfl⟩ | ⟨_, hj⟩
    · exact absurd (hij ▸ List.mem_map_of_mem hr) (List.nodup_cons.mp hbnd).1
    · exact h.busy r (hold r hr) b hj
  · intro j hj b hjb
    rcases getElem?_set_cases hjb with ⟨rfl, rfl⟩ | ⟨hij, hjb⟩
    · exact hid'
    · rcases List.mem_append.mp hj with hj | hj
      · exact h.free j hj b hjb
      · exact absurd (List.mem_singleton.mp hj).symm hij
  · intro m' code' he
    have hr := h.done m' code' (by simp [hq, he])
    refine (List.mem_cons.mp (hrun.mem_iff.mp hr)).resolve_left ?_
    rintro rfl
    have hpos : 0 < q.countP (Event.isDoneOf p.1) :=
      List.countP_pos_iff.mpr ⟨_, he, by simp⟩
    simp only [decide_true, if_true, Bool.toNat_true] at hcount
    omega

/-- A done event releases the slot of its model and then looks at the waiting models. -/
theorem Inv.runEvent_modelDone (h : s.Inv n) (hl : s.loop = .atQueue) {m : M} {code : ℤ}
    {q : List (Event M)} (hq : s.eventQ = .modelDoneNotify m code :: q)
    (order : DictOrder (M × RunningModelInfo)) (now : ℕ) (modelInputPending : M → Bool) :
    ∃ info as, (m, info) ∈ s.runningModelsMap ∧
      Tables n { s.freeSlotOf (m, info) with eventQ := q, loop := .top, slotAgents := as } ∧
      s.runEvent order now modelInputPending = some (Scheduler.startWaitingModel order now
        (if modelInputPending m then Scheduler.newInputNotifyTS m
            { s.freeSlotOf (m, info) with eventQ := q, loop := .top, slotAgents := as }
          else { s.freeSlotOf (m, info) with eventQ := q, loop := .top, slotAgents := as })) := by
  obtain ⟨info, as, hinfo, hb, hcall, hlen, ht⟩ := h.release hl hq
  have hlt := h.slot_lt (List.mem_append_left _ hb)
  have hroom : s.freeSlots.length < s.slotAgents.length := by
    have hpos : 0 < s.busySlots.length := List.length_pos_of_mem hb
    have hsum := h.length
    simp only [busySlots, List.length_map] at hpos
    omega
  refine ⟨info, as, (runningModelInfo_some hinfo).1, ht, ?_⟩
  have hinfo' : Scheduler.runningModelInfo m { s with eventQ := q, loop := .top } =
      some (m, info) := hinfo
  simp only [Scheduler.runEvent, hq, Scheduler.handleEvent, Scheduler.handleModelDoneNotifyEvent,
    hinfo', hlt, hroom, h.not_free hb, not_true_eq_false, if_false]
  rw [hcall]
  rfl

/-- Taking an event from the queue and handling it. -/
theorem Inv.runEvent (h : s.Inv n) (hl : s.loop = .atQueue) (order : DictOrder (M × RunningModelInfo))
    (now : ℕ) (modelInputPending : M → Bool) {r : Except Failure (Scheduler M)}
    (hr : s.runEvent order now modelInputPending = some r) : ∃ t, r = .ok t ∧ t.Inv n := by
  cases hq : s.eventQ with
  | nil => simp [Scheduler.runEvent, hq] at hr
  | cons e q =>
    have htop : ({ s with eventQ := q, loop := .top } : Scheduler M).loop ≠ .left := by simp
    cases e with
    | stopEventLoopRequest =>
      simp only [Scheduler.runEvent, hq, Option.some.injEq] at hr
      subst hr
      have ht := h.popEvent hl hq (fun _ => rfl)
      exact ⟨_, rfl, .of_tables_waiting_nil { ht with } htop h.waiting_free⟩
    | newInputNotify m =>
      simp only [Scheduler.runEvent, hq, Option.some.injEq] at hr
      subst hr
      have ht := h.popEvent hl hq (fun _ => rfl)
      exact (Inv.of_tables_waiting_nil ht htop h.waiting_free).handleNewInputNotifyEvent htop
        order now m
    | modelDoneNotify m code =>
      obtain ⟨info, as, -, ht, heq⟩ := h.runEvent_modelDone hl hq order now modelInputPending
      rw [heq] at hr
      cases hr
      cases modelInputPending m with
      | false => exact ht.startWaitingModel htop rfl h.waiting_free order now
      | true =>
        exact (ht.appendEvent (fun _ => rfl)).startWaitingModel htop rfl h.waiting_free order now

/-- With nothing running, every agent can be closed. -/
theorem Inv.closed (h : s.Inv n) (hl : s.loop ≠ .left) (hr : s.runningModelsMap = []) :
    Inv n { s with slotAgents := s.slotAgents.map SlotAgent.close, loop := .left } := by
  have hbusy : s.busySlots = [] := by simp [busySlots, hr]
  have hpend : ∀ i, i ∉ s.pendingPreemptSlotsSet := fun i hi => by simpa [hbusy] using h.pending i hi
  have hfree : ∀ (i : ℕ) (a : SlotAgent M), s.slotAgents[i]? = some a → a.modelID = none := by
    intro i a ha
    have hlt : i < s.slotAgents.length := (List.getElem?_eq_some_iff.mp ha).1
    have hi := h.slots.mem_iff.mpr (List.mem_range.mpr hlt)
    exact h.free i (by simpa [hbusy] using hi) a ha
  constructor
  · constructor
    · simpa using h.count
    · simpa [busySlots] using h.slots
    · exact h.models
    · exact h.waiting
    · exact h.disjoint
    · exact h.pending
    · intro i b hb
      rw [List.getElem?_map, Option.map_eq_some_iff] at hb
      obtain ⟨a, ha, rfl⟩ := hb
      obtain ⟨d, hs, -⟩ := h.agents i a ha
      have hid := hfree i a ha
      obtain rfl := (hs.of_modelID_none hid).2
      simp only [hpend, hl, decide_false] at hs
      refine ⟨false, by simpa [hpend] using SlotAgent.shape_close hs hid, fun m hm => ?_⟩
      exact absurd (hid.symm.trans hm) (by simp)
    · intro p hp
      simp [hr] at hp
    · intro i _ b hb
      rw [List.getElem?_map, Option.map_eq_some_iff] at hb
      obtain ⟨a, ha, rfl⟩ := hb
      exact hfree i a ha
    · exact h.done
  · exact h.waiting_free
  · exact fun _ => hr

/-- The top of the event loop, the shutdown branches included. -/
theorem Inv.runTop (h : s.Inv n) (hl : s.loop = .top) (order : DictOrder (M × RunningModelInfo)) :
    ∃ t, s.runTop order = .ok t ∧ t.Inv n := by
  have hnl : s.loop ≠ .left := by simp [hl]
  have hgo : Inv n { s with loop := .atQueue } := by
    refine .of_tables_waiting_nil { h with agents := fun i a ha => ?_ } (by simp) h.waiting_free
    obtain ⟨d, hs, hd⟩ := h.agents i a ha
    exact ⟨d, by simpa [hl] using hs, hd⟩
  unfold Scheduler.runTop
  by_cases hstop : s.eventLoopStopPending
  · rw [if_pos hstop]
    by_cases hidle : s.runningModelsMap = [] ∧ s.waitingModelsFIFO = []
    · rw [if_pos hidle]
      exact ⟨_, rfl, h.closed hnl hidle.1⟩
    rw [if_neg hidle]
    by_cases hwait : s.waitingModelsFIFO = [] ∧ s.requestedStopOfRemainingModels = false
    · have hrun : s.runningModelsMap ≠ [] := fun hr => hidle ⟨hr, hwait.1⟩
      obtain ⟨as, pending, heq, ht, -, -⟩ := h.stopRemaining hnl
        (order.arrange s.runningModelsMap) (fun p hp => (order.perm _).mem_iff.mp hp)
      rw [if_pos hwait, if_neg hrun, heq]
      refine ⟨_, rfl, .of_tables_waiting_nil { ht with agents := fun i a ha => ?_ } (by simp)
        h.waiting_free⟩
      obtain ⟨d, hs, hd⟩ := ht.agents i a ha
      exact ⟨d, by simpa [hl] using hs, hd⟩
    · rw [if_neg hwait]
      exact ⟨_, rfl, hgo⟩
  · rw [if_neg hstop]
    exact ⟨_, rfl, hgo⟩

/-! ## The turns of the agents and of their processes -/

theorem Tables.setAgent (h : s.Tables n) {i : ℕ} {a a' : SlotAgent M} (ha : s.slotAgents[i]? = some a)
    (hid : a'.modelID = a.modelID)
    (hs : ∀ d, SlotAgent.Shape (decide (i ∈ s.pendingPreemptSlotsSet)) d (decide (s.loop = .left)) a →
      SlotAgent.Shape (decide (i ∈ s.pendingPreemptSlotsSet)) d (decide (s.loop = .left)) a') :
    Tables n { s with slotAgents := s.slotAgents.set i a' } where
  count := by simpa using h.count
  slots := by simpa [busySlots] using h.slots
  models := h.models
  waiting := h.waiting
  disjoint := h.disjoint
  pending := h.pending
  agents j b hj := by
    rcases getElem?_set_cases hj with ⟨rfl, rfl⟩ | ⟨_, hj⟩
    · obtain ⟨d, hd, hc⟩ := h.agents i a ha
      exact ⟨d, hs d hd, fun m hm => hc m (hid ▸ hm)⟩
    · exact h.agents j b hj
  busy p hp b hj := by
    rcases getElem?_set_cases hj with ⟨rfl, rfl⟩ | ⟨_, hj⟩
    · exact hid.trans (h.busy p hp a ha)
    · exact h.busy p hp b hj
  free j hf b hj := by
    rcases getElem?_set_cases hj with ⟨rfl, rfl⟩ | ⟨_, hj⟩
    · exact hid.trans (h.free i hf a ha)
    · exact h.free j hf b hj
  done := h.done

theorem Inv.setAgent (h : s.Inv n) {i : ℕ} {a a' : SlotAgent M} (ha : s.slotAgents[i]? = some a)
    (hid : a'.modelID = a.modelID)
    (hs : ∀ d, SlotAgent.Shape (decide (i ∈ s.pendingPreemptSlotsSet)) d (decide (s.loop = .left)) a →
      SlotAgent.Shape (decide (i ∈ s.pendingPreemptSlotsSet)) d (decide (s.loop = .left)) a') :
    Inv n { s with slotAgents := s.slotAgents.set i a' } :=
  { h.toTables.setAgent ha hid hs with waiting_free := h.waiting_free, left := h.left }

/-- A stop that returns sends the one model-done notification of its model. -/
theorem Inv.joinAgent (h : s.Inv n) {i : ℕ} {a a' : SlotAgent M} {out : Option (M × ℤ)}
    (ha : s.slotAgents[i]? = some a) (hr : a.stopGracefullyReturns = some (a', out)) :
    ∃ m code, out = some (m, code) ∧
      Inv n { s with
        slotAgents := s.slotAgents.set i a'
        eventQ := s.eventQ ++ [.modelDoneNotify m code] } := by
  obtain ⟨d, hs, hc⟩ := h.agents i a ha
  obtain ⟨rfl, hcl, hid, hs', m, code, hm, rfl⟩ := SlotAgent.shape_stopGracefullyReturns hs hr
  refine ⟨m, code, rfl, ?_⟩
  obtain ⟨info, hin, rfl⟩ := h.modelID_running ha hm
  constructor
  · constructor
    · simpa using h.count
    · simpa [busySlots] using h.slots
    · exact h.models
    · exact h.waiting
    · exact h.disjoint
    · exact h.pending
    · intro j b hj
      rcases getElem?_set_cases hj with ⟨rfl, rfl⟩ | ⟨hij, hj⟩
      · refine ⟨true, hcl ▸ hs', fun m' hm' => ?_⟩
        obtain rfl : m' = m := Option.some.inj ((hm'.symm.trans hid).trans hm)
        simp [List.countP_append, hc m' hm]
      · obtain ⟨d, hd, hc⟩ := h.agents j b hj
        refine ⟨d, hd, fun m' hm' => ?_⟩
        have hne : m ≠ m' := by
          rintro rfl
          obtain ⟨info', hin', rfl⟩ := h.modelID_running hj hm'
          have hpi : (m, info) = (m, info') := List.inj_on_of_nodup_map h.models hin hin' rfl
          exact hij (congrArg (fun r => r.2.slotIndex) hpi)
        simp [List.countP_append, hc m' hm', hne]
    · intro p hp b hj
      rcases getElem?_set_cases hj with ⟨hij, rfl⟩ | ⟨_, hj⟩
      · exact hid.trans (h.busy p hp a (hij ▸ ha))
      · exact h.busy p hp b hj
    · intro j hf b hj
      rcases getElem?_set_cases hj with ⟨rfl, rfl⟩ | ⟨_, hj⟩
      · exact hid.trans (h.free _ hf a ha)
      · exact h.free j hf b hj
    · intro m' code' he
      rcases List.mem_append.mp he with he | he
      · exact h.done m' code' he
      · obtain ⟨rfl, -⟩ : m' = m ∧ code' = code := by simpa using he
        exact mem_runningModels.mpr ⟨info, hin⟩
  · exact h.waiting_free
  · exact h.left

/-! ## Every turn -/

theorem inv_initial (concurrency : ℕ) : Inv concurrency (initial M concurrency) := by
  constructor
  · constructor
    · simp [initial]
    · simp [initial, busySlots]
    · simp [initial, runningModels]
    · simp [initial]
    · simp [initial]
    · simp [initial]
    · intro i a ha
      obtain ⟨-, rfl⟩ := initial_slotAgents ha
      exact ⟨false, by simpa [initial] using SlotAgent.shape_initial, by simp [SlotAgent.initial]⟩
    · simp [initial]
    · intro i _ a ha
      obtain ⟨-, rfl⟩ := initial_slotAgents ha
      rfl
    · simp [initial]
  · simp [initial]
  · simp [initial]

/-- No enabled turn of any actor raises, and every one keeps the invariant. -/
theorem Inv.act (h : s.Inv n) {α : Action M} {r : Except Failure (Scheduler M)}
    (hr : s.act α = some r) : ∃ t, r = .ok t ∧ t.Inv n := by
  cases α with
  | newInputNotify m =>
    cases hr
    exact ⟨_, rfl, { h.appendEvent (fun _ => rfl) with waiting_free := h.waiting_free, left := h.left }⟩
  | requestStop =>
    simp only [Scheduler.act] at hr
    split at hr
    · cases hr
    · cases hr
      exact ⟨_, rfl, { h.appendEvent (fun _ => rfl) with
        waiting_free := h.waiting_free, left := h.left }⟩
  | runTop order =>
    simp only [Scheduler.act] at hr
    split at hr
    · rename_i hl
      cases hr
      exact h.runTop hl order
    · cases hr
  | runEvent order now pending =>
    simp only [Scheduler.act] at hr
    split at hr
    · rename_i hl
      exact h.runEvent hl order now pending hr
    · cases hr
  | agentTurn i =>
    obtain ⟨ra, hra, rfl⟩ := Option.map_eq_some_iff.mp hr
    obtain ⟨a, ha, hturn⟩ := Option.bind_eq_some_iff.mp hra
    obtain ⟨d, hs, -⟩ := h.agents i a ha
    obtain ⟨a', rfl, hid, -⟩ := SlotAgent.shape_runEventLoop hs hturn
    refine ⟨_, rfl, h.setAgent ha hid fun d hs => ?_⟩
    obtain ⟨b, hb, -, hs'⟩ := SlotAgent.shape_runEventLoop hs hturn
    cases hb
    exact hs'
  | agentJoins i =>
    obtain ⟨⟨a', out⟩, hra, rfl⟩ := Option.map_eq_some_iff.mp hr
    obtain ⟨a, ha, hturn⟩ := Option.bind_eq_some_iff.mp hra
    obtain ⟨m, code, rfl, ht⟩ := h.joinAgent ha hturn
    exact ⟨_, rfl, ht⟩
  | processExits i code =>
    obtain ⟨t, ht, rfl⟩ := Option.map_eq_some_iff.mp hr
    obtain ⟨a, a', ha, hturn, rfl⟩ := turnOf_some ht
    obtain ⟨d, hs, -⟩ := h.agents i a ha
    exact ⟨_, rfl, h.setAgent ha (SlotAgent.shape_processExits hs hturn).1 fun d hs =>
      (SlotAgent.shape_processExits hs hturn).2.2⟩
  | monitorReports i =>
    obtain ⟨t, ht, rfl⟩ := Option.map_eq_some_iff.mp hr
    obtain ⟨a, a', ha, hturn, rfl⟩ := turnOf_some ht
    obtain ⟨d, hs, -⟩ := h.agents i a ha
    exact ⟨_, rfl, h.setAgent ha (SlotAgent.shape_runProcessMonitorThread hs hturn).1 fun d hs =>
      (SlotAgent.shape_runProcessMonitorThread hs hturn).2⟩

theorem Tables.count_done_le (h : s.Tables n) (m : M) : s.eventQ.countP (Event.isDoneOf m) ≤ 1 := by
  by_cases hm : m ∈ s.runningModels
  · obtain ⟨info, hin⟩ := mem_runningModels.mp hm
    obtain ⟨a, ha⟩ := h.agent_exists
      (List.mem_append_left _ (mem_busySlots.mpr ⟨m, info, hin, rfl⟩))
    obtain ⟨d, -, hd⟩ := h.agents _ a ha
    rw [hd m (h.busy _ hin a ha)]
    exact Bool.toNat_le d
  · rw [h.no_done hm]
    exact Nat.zero_le 1

end Scheduler

variable {M : Type} [DecidableEq M]

theorem schedulerSystem_next {n : ℕ} {α : Scheduler.Action M} {s t : Scheduler M} :
    (schedulerSystem M n).next α s = some t ↔ s.act α = some (.ok t) := by
  simp only [schedulerSystem, Option.bind_eq_some_iff]
  constructor
  · rintro ⟨r, hr, ht⟩
    cases r with
    | error e => cases ht
    | ok u =>
      obtain rfl : u = t := Option.some.inj ht
      exact hr
  · intro h
    exact ⟨_, h, rfl⟩

theorem reachable_inv {n : ℕ} {s : Scheduler M} (h : Reachable (schedulerSystem M n) s) : s.Inv n := by
  refine h.invariant ?_ ?_
  · rintro s rfl
    exact Scheduler.inv_initial n
  · intro α s t _ hs ht
    obtain ⟨u, hu, hinv⟩ := hs.act (schedulerSystem_next.mp ht)
    cases hu
    exact hinv

/-- Safety of the handshake: whatever the interleaving, no turn raises, the busy
and the free slots partition the slots, the waiting models are distinct and not
running, the pending preemptions are of busy slots, and the agents agree with the
controller on who runs where. -/
theorem scheduler_handshake_safe {n : ℕ} {s : Scheduler M}
    (h : Reachable (schedulerSystem M n) s) :
    (∀ α r, s.act α = some r → ∃ t, r = .ok t) ∧
      (s.busySlots ++ s.freeSlots).Perm (List.range n) ∧
      (s.busySlots ++ s.freeSlots).Nodup ∧
      s.runningModels.Nodup ∧ s.waitingModelsFIFO.Nodup ∧
      (∀ m ∈ s.waitingModelsFIFO, m ∉ s.runningModels) ∧
      (∀ i ∈ s.pendingPreemptSlotsSet, i ∈ s.busySlots) ∧
      (∀ p ∈ s.runningModelsMap, ∀ a, s.slotAgents[p.2.slotIndex]? = some a →
        a.modelID = some p.1) ∧
      (∀ i ∈ s.freeSlots, ∀ a, s.slotAgents[i]? = some a → a.modelID = none) ∧
      (s.freeSlots ≠ [] → s.waitingModelsFIFO = []) ∧
      ∀ m, s.eventQ.countP (Event.isDoneOf m) ≤ if m ∈ s.runningModels then 1 else 0 := by
  have hi := reachable_inv h
  refine ⟨fun α r hr => ?_, hi.count ▸ hi.slots, hi.slots_nodup, hi.models, hi.waiting, hi.disjoint,
    hi.pending, hi.busy, hi.free, hi.waiting_free, fun m => ?_⟩
  · obtain ⟨t, ht, -⟩ := hi.act hr
    exact ⟨t, ht⟩
  · split
    · exact hi.count_done_le m
    · rename_i hm
      exact (hi.no_done hm).le

/-- Two models on one slot: the second waits and the first is asked to stop. -/
def preemptionSchedule : List (Scheduler.Action Bool) :=
  [.newInputNotify true, .newInputNotify false, .runTop (.insertion _),
    .runEvent (.insertion _) 0 (fun _ => true), .agentTurn 0, .runTop (.insertion _),
    .runEvent (.insertion _) 1 (fun _ => true), .agentTurn 0]

theorem preemptionSchedule_runs :
    ∃ s, (schedulerSystem Bool 1).exec preemptionSchedule (Scheduler.initial Bool 1) = some s ∧
      s.waitingModelsFIFO = [false] ∧ s.pendingPreemptSlotsSet = {0} :=
  ⟨_, rfl, rfl, rfl⟩

theorem scheduler_handshake_safe_preemption :
    ∃ s : Scheduler Bool, (schedulerSystem Bool 1).exec preemptionSchedule (.initial Bool 1) = some s ∧
      (∀ α r, s.act α = some r → ∃ t, r = .ok t) ∧
      (s.busySlots ++ s.freeSlots).Perm (List.range 1) := by
  obtain ⟨s, hs, -⟩ := preemptionSchedule_runs
  obtain ⟨hact, hslots, -⟩ := scheduler_handshake_safe (Reachable.exec (.init rfl) hs)
  exact ⟨s, hs, hact, hslots⟩

end NumentaApps.ModelSwapper
