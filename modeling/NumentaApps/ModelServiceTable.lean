import NumentaApps.ModelService
import Mathlib.Algebra.Order.Ring.Rat
import Mathlib.Data.List.Nodup
import Mathlib.Data.List.Perm.Basic
import Mathlib.Tactic.Linarith

/-!
# When the table of model processes is faithful

The handlers of a process are keyed by its model's ID. While no process outlives its
model's successor, and slots are whole, the entries of the table are the live processes.
-/
namespace NumentaApps.Unicorn
open TransitionSystem

variable {D : Type}

namespace ModelService

variable {s t : ModelService D} {modelId : String} {child : ModelProcess} {pid : ℕ}

/-! ## Lookups -/

theorem has_iff : s.has modelId ↔ ∃ entry ∈ s.models, entry.modelId = modelId := by
  simp [has]

theorem mem_of_get {entry : ModelEntry} (h : s.get modelId = some entry) :
    entry ∈ s.models ∧ entry.modelId = modelId :=
  ⟨List.mem_of_find?_eq_some h, by simpa using List.find?_some h⟩

theorem get_eq_none (h : ¬ s.has modelId) : s.get modelId = none := by
  refine List.find?_eq_none.mpr fun entry he hid => h ?_
  exact has_iff.mpr ⟨entry, he, by simpa using hid⟩

theorem mem_of_latest (h : s.latest modelId = some child) :
    child ∈ s.children ∧ child.modelId = modelId :=
  ⟨List.mem_of_find?_eq_some h, by simpa using List.find?_some h⟩

theorem mem_of_openChild (h : s.openChild pid = some child) :
    child ∈ s.children ∧ child.pid = pid ∧ child.closed = false := by
  obtain ⟨hchild, hopen⟩ := Option.filter_eq_some_iff.mp h
  refine ⟨List.mem_of_find?_eq_some hchild, by simpa using List.find?_some hchild, ?_⟩
  simpa using hopen

theorem createModel_spec {spawns : Bool} (ht : s.createModel modelId spawns = .ok t) :
    0 < s.availableSlots ∧ ¬ s.has modelId ∧ spawns = true ∧ t = { s with
      models := s.models ++ [⟨modelId, s.children.length⟩]
      children := ⟨s.children.length, modelId, 0, false, false⟩ :: s.children } := by
  unfold createModel at ht
  split at ht
  · cases ht
  split at ht
  · cases ht
  split at ht
  · cases ht
  rename_i hslots hnew hspawns
  cases ht
  exact ⟨not_le.mp hslots, hnew, by simpa using hspawns, rfl⟩

theorem createModel_ok (hslots : 0 < s.availableSlots) (hnew : ¬ s.has modelId) :
    ∃ t, s.createModel modelId true = .ok t := by
  unfold createModel
  rw [if_neg (not_le.mpr hslots), if_neg hnew, if_neg (by decide)]
  exact ⟨_, rfl⟩

theorem attach_spec (s : ModelService D) (modelId : String) :
    ∃ listeners attached,
      s.attach modelId = { s with listeners := listeners, attached := attached } := by
  unfold attach
  split
  · exact ⟨_, _, rfl⟩
  · exact ⟨_, _, rfl⟩

/-- What is changed in a process when it is updated. -/
structure Keeps (f : ModelProcess → ModelProcess) : Prop where
  pid : ∀ child, (f child).pid = child.pid
  modelId : ∀ child, (f child).modelId = child.modelId

theorem latest_updateChild {f : ModelProcess → ModelProcess} (hf : Keeps f) (pid : ℕ) :
    (s.updateChild pid f).latest modelId =
      (s.latest modelId).map fun child => if child.pid = pid then f child else child := by
  simp only [latest, updateChild, List.find?_map]
  congr 2
  funext child
  simp only [Function.comp_apply]
  split
  · rw [hf.modelId]
  · rfl

theorem updateChild_pids {f : ModelProcess → ModelProcess} (hf : Keeps f) (pid : ℕ) :
    (s.updateChild pid f).children.map ModelProcess.pid = s.children.map ModelProcess.pid := by
  rw [updateChild, List.map_map]
  apply List.map_congr_left
  intro child _
  simp only [Function.comp_apply]
  split
  · exact hf.pid child
  · rfl

theorem keeps_index (n : ℕ) : Keeps fun child => { child with index := child.index + n } :=
  ⟨fun _ => rfl, fun _ => rfl⟩

theorem keeps_removed : Keeps fun child => { child with removed := true } :=
  ⟨fun _ => rfl, fun _ => rfl⟩

theorem keeps_closed : Keeps fun child => { child with closed := true } :=
  ⟨fun _ => rfl, fun _ => rfl⟩

/-! ## What holds in every run -/

/-- Process and model IDs are distinct, and a model in the table has its listeners. -/
structure Inv (s : ModelService D) : Prop where
  pids : (s.children.map ModelProcess.pid).Nodup
  bound : ∀ child ∈ s.children, child.pid < s.children.length
  ids : (s.models.map ModelEntry.modelId).Nodup
  attached : s.listeners = s.attached
  listening : ∀ entry ∈ s.models, entry.modelId ∈ s.listeners

theorem inv_initial (cpus totalmem : ℕ) : (initial (D := D) cpus totalmem).Inv where
  pids := List.nodup_nil
  bound _ h := by cases h
  ids := List.nodup_nil
  attached := rfl
  listening _ h := by cases h

theorem Inv.attach (h : s.Inv) (modelId : String) : (s.attach modelId).Inv := by
  unfold ModelService.attach
  split
  · exact h
  · refine ⟨h.pids, h.bound, h.ids, ?_, fun entry he => ?_⟩
    · simp only [h.attached]
    · exact List.mem_append_left _ (h.listening entry he)

theorem Inv.mem_attach (h : s.Inv) (modelId : String) : modelId ∈ (s.attach modelId).listeners := by
  unfold ModelService.attach
  split
  · rename_i hin
    exact h.attached ▸ hin
  · exact List.mem_append_right _ (List.mem_singleton_self _)

theorem Inv.createModel {spawns : Bool} (h : s.Inv) (hin : modelId ∈ s.listeners)
    (ht : s.createModel modelId spawns = .ok t) : t.Inv := by
  obtain ⟨-, hnew, -, rfl⟩ := createModel_spec ht
  refine ⟨?_, ?_, ?_, h.attached, ?_⟩
  · refine List.nodup_cons.mpr ⟨fun hmem => ?_, h.pids⟩
    obtain ⟨child, hchild, heq⟩ := List.mem_map.mp hmem
    exact absurd (h.bound child hchild) (by simp [heq])
  · intro child hchild
    rcases List.mem_cons.mp hchild with rfl | hchild
    · simp
    · exact Nat.lt_succ_of_lt (h.bound child hchild)
  · rw [List.map_append, List.nodup_append]
    refine ⟨h.ids, by simp, ?_⟩
    intro id hid _ hlast heq
    obtain ⟨entry, he, rfl⟩ := List.mem_map.mp hid
    refine hnew (has_iff.mpr ⟨entry, he, ?_⟩)
    simpa [heq] using hlast
  · intro entry he
    rcases List.mem_append.mp he with he | he
    · exact h.listening entry he
    · rwa [List.mem_singleton.mp he]

theorem Inv.updateChild {f : ModelProcess → ModelProcess} (h : s.Inv) (hf : Keeps f) (pid : ℕ) :
    (s.updateChild pid f).Inv where
  pids := (updateChild_pids hf pid).symm ▸ h.pids
  bound child hchild := by
    obtain ⟨old, hold, rfl⟩ := List.mem_map.mp hchild
    have hlen : (s.updateChild pid f).children.length = s.children.length := List.length_map _
    rw [hlen]
    split
    · exact hf.pid old ▸ h.bound old hold
    · exact h.bound old hold
  ids := h.ids
  attached := h.attached
  listening := h.listening

theorem Inv.delete (h : s.Inv) (modelId : String) : (s.delete modelId).Inv where
  pids := h.pids
  bound := h.bound
  ids := (List.filter_sublist.map _).nodup h.ids
  attached := h.attached
  listening entry he := h.listening entry (List.mem_of_mem_filter he)

theorem Inv.emissions (h : s.Inv) (emissions : List (Emission D)) :
    Inv { s with emissions := emissions } := ⟨h.pids, h.bound, h.ids, h.attached, h.listening⟩

/-- Without an entry in the table the listeners of a model may go. -/
theorem Inv.removeListeners {listeners attached : List String} (h : s.Inv)
    (heq : listeners = attached)
    (hin : ∀ entry ∈ s.models, entry.modelId ∈ listeners) :
    Inv { s with listeners := listeners, attached := attached } :=
  ⟨h.pids, h.bound, h.ids, heq, hin⟩

/-- What removing a model comes to: its entry goes and its process is marked, if it has
them, and its listeners go. -/
theorem onRemove_cases (h : s.Inv) (modelId : String) :
    (¬ s.has modelId ∧ s.onRemove modelId = s.detach modelId) ∨
      ∃ entry ∈ s.models, entry.modelId = modelId ∧ s.onRemove modelId =
        { (s.delete modelId).updateChild entry.child fun child => { child with removed := true } with
          listeners := s.listeners.filter fun other => other ≠ modelId
          attached := s.attached.filter fun other => other ≠ modelId } := by
  have hmodels : (s.detach modelId).models = s.models := by
    unfold detach
    split <;> rfl
  have hget : (s.detach modelId).get modelId = s.get modelId := by simp only [get, hmodels]
  cases hentry : s.get modelId with
  | none =>
    refine .inl ⟨fun hhas => ?_, ?_⟩
    · obtain ⟨entry, he, heq⟩ := has_iff.mp hhas
      exact absurd (List.find?_eq_none.mp hentry entry he) (by simp [heq])
    · simp only [onRemove, removeModel, hget, hentry]
  | some entry =>
    obtain ⟨he, hid⟩ := mem_of_get hentry
    have hin : modelId ∈ s.attached := h.attached ▸ hid ▸ h.listening entry he
    refine .inr ⟨entry, he, hid, ?_⟩
    simp only [onRemove, removeModel, hget, hentry]
    simp [detach, hin, removeAllListeners, delete, ModelService.updateChild, List.filter_filter]

theorem Inv.detach (h : s.Inv) (hnot : ¬ s.has modelId) : (s.detach modelId).Inv := by
  unfold ModelService.detach
  split
  · refine h.removeListeners (by simp only [h.attached]) fun entry he => ?_
    refine List.mem_filter.mpr ⟨h.listening entry he, decide_eq_true fun heq => hnot ?_⟩
    exact has_iff.mpr ⟨entry, he, heq⟩
  · exact h

theorem Inv.onRemove (h : s.Inv) (modelId : String) : (s.onRemove modelId).Inv := by
  rcases onRemove_cases h modelId with ⟨hnot, heq⟩ | ⟨entry, -, -, heq⟩
  · rw [heq]
    exact h.detach hnot
  · rw [heq]
    have hdel := (h.delete modelId).updateChild keeps_removed entry.child
    refine hdel.removeListeners (by simp only [h.attached]) fun other hother => ?_
    obtain ⟨hmem, hne⟩ := List.mem_filter.mp hother
    exact List.mem_filter.mpr ⟨h.listening other hmem, hne⟩

theorem Inv.act {a : Action D} (h : s.Inv) (hn : act a s = some t) : t.Inv := by
  cases a with
  | create modelId spawns =>
    obtain rfl := Option.some.inj hn
    simp only [onCreate]
    split
    · rename_i u hu
      exact (h.attach modelId).createModel (h.mem_attach modelId) hu
    · exact h.attach modelId
  | remove modelId =>
    obtain rfl := Option.some.inj hn
    exact h.onRemove modelId
  | stdout pid lines =>
    obtain ⟨child, -, rfl⟩ := Option.map_eq_some_iff.mp hn
    exact (h.updateChild (keeps_index _) child.pid).emissions _
  | error pid =>
    obtain ⟨child, -, rfl⟩ := Option.map_eq_some_iff.mp hn
    exact h.emissions _
  | close pid code =>
    obtain ⟨child, -, rfl⟩ := Option.map_eq_some_iff.mp hn
    exact ((h.updateChild keeps_closed child.pid).delete child.modelId).emissions _

/-! ## The table in undisturbed runs -/

/-- The entries of the table are the live processes, each the latest of its model. -/
structure TableLive (s : ModelService D) : Prop where
  entry : ∀ entry ∈ s.models, ∃ child, s.latest entry.modelId = some child ∧
    child.pid = entry.child ∧ child.live
  live : ∀ child ∈ s.children, child.live → ⟨child.modelId, child.pid⟩ ∈ s.models

structure Good (s : ModelService D) : Prop where
  table : s.TableLive
  concurrency : (s.models.length : ℚ) ≤ s.maxConcurrency
  emissions : ∀ e ∈ s.emissions, e.removed → e.latest ≠ some e.child →
    e.reached = false ∧ e.deletedEntry = none

theorem Inv.child_inj (h : s.Inv) {a b : ModelProcess} (ha : a ∈ s.children)
    (hb : b ∈ s.children) (heq : a.pid = b.pid) : a = b :=
  List.inj_on_of_nodup_map h.pids ha hb heq

theorem Inv.entry_inj (h : s.Inv) {a b : ModelEntry} (ha : a ∈ s.models)
    (hb : b ∈ s.models) (heq : a.modelId = b.modelId) : a = b :=
  List.inj_on_of_nodup_map h.ids ha hb heq

/-- As many processes are live as the table has entries. -/
theorem TableLive.count (h : s.TableLive) (hI : s.Inv) :
    (s.children.filter ModelProcess.live).length = s.models.length := by
  let entryOf : ModelProcess → ModelEntry := fun child => ⟨child.modelId, child.pid⟩
  have hnd : ((s.children.filter ModelProcess.live).map entryOf).Nodup := by
    apply List.Nodup.of_map ModelEntry.child
    rw [List.map_map]
    exact (List.filter_sublist.map _).nodup hI.pids
  have hperm : ((s.children.filter ModelProcess.live).map entryOf).Perm s.models := by
    refine (List.perm_ext_iff_of_nodup hnd (List.Nodup.of_map _ hI.ids)).mpr fun entry => ?_
    constructor
    · intro hin
      obtain ⟨child, hchild, rfl⟩ := List.mem_map.mp hin
      obtain ⟨hmem, hlive⟩ := List.mem_filter.mp hchild
      exact h.live child hmem hlive
    · intro hin
      obtain ⟨child, hlatest, hpid, hlive⟩ := h.entry entry hin
      obtain ⟨hmem, hid⟩ := mem_of_latest hlatest
      refine List.mem_map.mpr ⟨child, List.mem_filter.mpr ⟨hmem, hlive⟩, ?_⟩
      simp only [entryOf, hid, hpid]
  simpa using hperm.length_eq

theorem Good.faithful (hI : s.Inv) (h : s.Good) : s.Faithful where
  table modelId := by
    rw [has_iff]
    constructor
    · intro hhas
      obtain ⟨entry, he, rfl⟩ := hhas
      obtain ⟨child, hlatest, -, hlive⟩ := h.table.entry entry he
      exact ⟨child, hlatest, hlive⟩
    · intro hlatest
      obtain ⟨child, hlatest, hlive⟩ := hlatest
      obtain ⟨hmem, rfl⟩ := mem_of_latest hlatest
      exact ⟨_, h.table.live child hmem hlive, rfl⟩
  concurrency := by
    rw [h.table.count hI]
    exact h.concurrency
  emissions := h.emissions

/-- An update that leaves a process as live as it was. -/
theorem TableLive.updateChild {f : ModelProcess → ModelProcess} (h : s.TableLive) (hf : Keeps f)
    (hlive : ∀ child, (f child).live = child.live) (pid : ℕ) :
    (s.updateChild pid f).TableLive where
  entry entry he := by
    obtain ⟨child, hlatest, hpid, hl⟩ := h.entry entry he
    rw [latest_updateChild hf, hlatest]
    refine ⟨_, rfl, ?_⟩
    dsimp only
    split
    · exact ⟨(hf.pid child).trans hpid, (hlive child).trans hl⟩
    · exact ⟨hpid, hl⟩
  live child hchild hl := by
    obtain ⟨old, hold, rfl⟩ := List.mem_map.mp hchild
    split at hl
    · rename_i heq
      rw [if_pos heq, hf.modelId, hf.pid]
      exact h.live old hold (hlive old ▸ hl)
    · rename_i hne
      rw [if_neg hne]
      exact h.live old hold hl

/-- A process ends, and with it the entry of its model if that is its own. -/
theorem TableLive.endChild {f : ModelProcess → ModelProcess} (hI : s.Inv) (h : s.TableLive)
    (hf : Keeps f) (hdead : ∀ child, (f child).live = false) (hchild : child ∈ s.children)
    (hown : ∀ entry ∈ s.models, entry.modelId = child.modelId → entry.child = child.pid) :
    ((s.delete child.modelId).updateChild child.pid f).TableLive where
  entry entry he := by
    obtain ⟨hmem, hne⟩ := List.mem_filter.mp he
    obtain ⟨other, hlatest, hpid, hl⟩ := h.entry entry hmem
    obtain ⟨hother, hid⟩ := mem_of_latest hlatest
    have hdiff : other.pid ≠ child.pid := by
      intro heq
      have hsame := hI.child_inj hother hchild heq
      exact of_decide_eq_true hne (hid.symm.trans (congrArg ModelProcess.modelId hsame))
    rw [latest_updateChild hf]
    refine ⟨other, ?_, hpid, hl⟩
    rw [show (s.delete child.modelId).latest entry.modelId = some other from hlatest]
    simp [hdiff]
  live other hother hl := by
    obtain ⟨old, hold, rfl⟩ := List.mem_map.mp hother
    split at hl
    · rw [hdead] at hl
      cases hl
    · rename_i hdiff
      rw [if_neg hdiff]
      have hin := h.live old hold hl
      refine List.mem_filter.mpr ⟨hin, decide_eq_true fun heq => hdiff ?_⟩
      exact hown _ hin heq

theorem TableLive.createModel {spawns : Bool} (h : s.TableLive)
    (ht : s.createModel modelId spawns = .ok t) : t.TableLive := by
  obtain ⟨-, hnew, -, rfl⟩ := createModel_spec ht
  constructor
  · intro entry he
    rcases List.mem_append.mp he with he | he
    · obtain ⟨child, hlatest, hpid, hlive⟩ := h.entry entry he
      refine ⟨child, ?_, hpid, hlive⟩
      have hne : modelId ≠ entry.modelId := fun heq => hnew (has_iff.mpr ⟨entry, he, heq.symm⟩)
      rw [latest, List.find?_cons_of_neg (by simpa using hne)]
      exact hlatest
    · rw [List.mem_singleton.mp he]
      refine ⟨_, List.find?_cons_of_pos (by simp), rfl, rfl⟩
  · intro child hchild hlive
    rcases List.mem_cons.mp hchild with rfl | hchild
    · exact List.mem_append_right _ (List.mem_singleton_self _)
    · exact List.mem_append_left _ (h.live child hchild hlive)

theorem TableLive.setListeners (h : s.TableLive) (listeners attached : List String) :
    TableLive { s with listeners := listeners, attached := attached } := ⟨h.entry, h.live⟩

theorem TableLive.setEmissions (h : s.TableLive) (emissions : List (Emission D)) :
    TableLive { s with emissions := emissions } := ⟨h.entry, h.live⟩

theorem Good.onCreate {spawns : Bool} (h : s.Good)
    (hg : s.Undisturbed (.create modelId spawns)) : (s.onCreate modelId spawns).Good := by
  obtain ⟨listeners, attached, hattach⟩ := attach_spec s modelId
  simp only [ModelService.onCreate, hattach]
  have htable := h.table.setListeners listeners attached
  split
  · rename_i t ht
    refine ⟨htable.createModel ht, ?_, ?_⟩
    · obtain ⟨hslots, hnew, hspawns, rfl⟩ := createModel_spec ht
      have hone : 1 ≤ s.maxConcurrency - s.models.length := hg hspawns hnew hslots
      simp only [List.length_append, List.length_singleton]
      push_cast
      linarith
    · obtain ⟨-, -, -, rfl⟩ := createModel_spec ht
      exact h.emissions
  · exact ⟨htable, h.concurrency, h.emissions⟩

theorem length_delete_le (s : ModelService D) (modelId : String) :
    ((s.delete modelId).models.length : ℚ) ≤ s.models.length := by
  exact_mod_cast List.length_filter_le _ _

theorem Good.onRemove (hI : s.Inv) (h : s.Good) : (s.onRemove modelId).Good := by
  rcases onRemove_cases hI modelId with ⟨-, heq⟩ | ⟨entry, he, rfl, heq⟩
  · rw [heq, detach]
    split
    · exact ⟨h.table.setListeners _ _, h.concurrency, h.emissions⟩
    · exact h
  · rw [heq]
    obtain ⟨child, hlatest, hpid, -⟩ := h.table.entry entry he
    obtain ⟨hmem, hid⟩ := mem_of_latest hlatest
    have hown : ∀ other ∈ s.models, other.modelId = child.modelId → other.child = child.pid := by
      intro other hother hsame
      rw [hI.entry_inj hother he (hsame.trans hid), hpid]
    have hend := h.table.endChild hI keeps_removed (fun _ => rfl) hmem hown
    rw [hid, hpid] at hend
    refine ⟨hend.setListeners _ _, ?_, h.emissions⟩
    exact (length_delete_le s entry.modelId).trans h.concurrency

/-- A process that is not stale is not heard of by a later model. -/
theorem not_reached (hg : ¬ s.Stale child) (hremoved : child.removed)
    (hlater : (s.latest child.modelId).map ModelProcess.pid ≠ some child.pid) :
    child.modelId ∉ s.listeners := fun hin => hg ⟨hremoved, hlater, hin⟩

theorem Good.onStdout (h : s.Good) {lines : List (Option D)}
    (hg : parsed lines ≠ [] → ¬ s.Stale child) : (s.onStdout child lines).Good where
  table := (h.table.updateChild (keeps_index _) (fun _ => rfl) child.pid).setEmissions _
  concurrency := h.concurrency
  emissions e he hremoved hlater := by
    rcases List.mem_append.mp he with he | he
    · exact h.emissions e he hremoved hlater
    · obtain ⟨d, hd, rfl⟩ := List.mem_map.mp he
      have hne : parsed lines ≠ [] := by
        intro hnil
        rw [hnil] at hd
        cases hd
      exact ⟨decide_eq_false (not_reached (hg hne) hremoved hlater), rfl⟩

theorem Good.onError (h : s.Good) (hg : ¬ s.Stale child) : (s.onError child).Good where
  table := h.table.setEmissions _
  concurrency := h.concurrency
  emissions e he hremoved hlater := by
    rcases List.mem_append.mp he with he | he
    · exact h.emissions e he hremoved hlater
    · obtain rfl := List.mem_singleton.mp he
      exact ⟨decide_eq_false (not_reached hg hremoved hlater), rfl⟩

/-- A removed process has no entry left when it closes undisturbed. -/
theorem TableLive.not_has (hI : s.Inv) (h : s.TableLive) (hmem : child ∈ s.children)
    (hg : ¬ s.Stale child) (hremoved : child.removed) : ¬ s.has child.modelId := by
  intro hhas
  obtain ⟨entry, he, hid⟩ := has_iff.mp hhas
  obtain ⟨other, hlatest, -, hlive⟩ := h.entry entry he
  rw [hid] at hlatest
  by_cases hlater : (s.latest child.modelId).map ModelProcess.pid = some child.pid
  · rw [hlatest, Option.map_some, Option.some.injEq] at hlater
    rw [hI.child_inj (mem_of_latest hlatest).1 hmem hlater] at hlive
    simp [ModelProcess.live, hremoved] at hlive
  · exact not_reached hg hremoved hlater (hid ▸ hI.listening entry he)

theorem Good.onClose (hI : s.Inv) (h : s.Good) (hmem : child ∈ s.children)
    (hopen : child.closed = false) (code : Option ℤ) (hg : ¬ s.Stale child) :
    (s.onClose child code).Good := by
  have hown : ∀ entry ∈ s.models, entry.modelId = child.modelId → entry.child = child.pid := by
    intro entry he hid
    by_cases hremoved : child.removed = true
    · exact absurd (has_iff.mpr ⟨entry, he, hid⟩) (h.table.not_has hI hmem hg hremoved)
    · have hlive : child.live := by simp [ModelProcess.live, hremoved, hopen]
      rw [hI.entry_inj he (h.table.live child hmem hlive) hid]
  have hend := h.table.endChild hI keeps_closed
    (fun child => by simp [ModelProcess.live]) hmem hown
  refine ⟨hend.setEmissions _, ?_, ?_⟩
  · exact (length_delete_le s child.modelId).trans h.concurrency
  · intro e he hremoved hlater
    rcases List.mem_append.mp he with he | he
    · exact h.emissions e he hremoved hlater
    · obtain rfl := List.mem_singleton.mp he
      have hnone := get_eq_none (h.table.not_has hI hmem hg hremoved)
      refine ⟨decide_eq_false (not_reached hg hremoved hlater), ?_⟩
      simp only [emission, hnone, Option.map_none]

/-- An undisturbed step keeps the table good. -/
theorem Good.act {a : Action D} (hI : s.Inv) (h : s.Good) (hn : act a s = some t)
    (hg : s.Undisturbed a) : t.Good := by
  cases a with
  | create modelId spawns =>
    obtain rfl := Option.some.inj hn
    exact h.onCreate hg
  | remove modelId =>
    obtain rfl := Option.some.inj hn
    exact h.onRemove hI
  | stdout pid lines =>
    obtain ⟨child, hchild, rfl⟩ := Option.map_eq_some_iff.mp hn
    exact h.onStdout (hg child hchild)
  | error pid =>
    obtain ⟨child, hchild, rfl⟩ := Option.map_eq_some_iff.mp hn
    exact h.onError (hg child hchild)
  | close pid code =>
    obtain ⟨child, hchild, rfl⟩ := Option.map_eq_some_iff.mp hn
    obtain ⟨hmem, -, hopen⟩ := mem_of_openChild hchild
    exact h.onClose hI hmem hopen code (hg child hchild)

theorem good_initial (cpus totalmem : ℕ) : (initial (D := D) cpus totalmem).Good where
  table := by
    constructor
    · intro _ he
      cases he
    · intro _ hc
      cases hc
  concurrency := by
    have htwo : (2 : ℚ) ≤ calculateMaxConcurrency cpus totalmem := le_max_right _ _
    exact le_trans (by norm_num [initial]) htwo
  emissions _ he := by cases he

/-! ## Disturbed steps -/

/-- One model more than there are slots. -/
theorem not_faithful_of_count (hI : t.Inv) (h : t.TableLive)
    (hlt : t.maxConcurrency < t.models.length) : ¬ t.Faithful := by
  intro hf
  have hle := hf.concurrency
  rw [h.count hI] at hle
  exact absurd hle (not_le.mpr hlt)

/-- An event of a stale process reaches the listeners of a later model. -/
theorem not_faithful_of_stale {event : ModelEvent D} {deletedEntry : Option ℕ}
    (hs : s.Stale child) (hmem : s.emission child event deletedEntry ∈ t.emissions) :
    ¬ t.Faithful := by
  intro hf
  have hreached := (hf.emissions _ hmem hs.1 hs.2.1).1
  exact of_decide_eq_false hreached hs.2.2

theorem Faithful.disturbed {a : Action D} (hI : s.Inv) (h : s.Good) (hn : act a s = some t)
    (hg : ¬ s.Undisturbed a) : ¬ t.Faithful := by
  have ht := hI.act hn
  cases a with
  | create modelId spawns =>
    obtain rfl := Option.some.inj hn
    simp only [Undisturbed, Classical.not_imp] at hg
    obtain ⟨hspawns, hnew, hslots, hpart⟩ := hg
    obtain ⟨listeners, attached, hattach⟩ := attach_spec s modelId
    subst hspawns
    obtain ⟨u, hu⟩ := createModel_ok
      (s := { s with listeners := listeners, attached := attached }) hslots hnew
    have heq : s.onCreate modelId true = u := by
      simp only [ModelService.onCreate, hattach, hu]
    have htable := (h.table.setListeners listeners attached).createModel hu
    rw [heq] at ht ⊢
    apply not_faithful_of_count ht htable
    obtain ⟨-, -, -, rfl⟩ := createModel_spec hu
    simp only [List.length_append, List.length_singleton]
    unfold availableSlots at hpart
    push_cast
    linarith
  | remove modelId => exact absurd trivial hg
  | stdout pid lines =>
    obtain ⟨child, hchild, rfl⟩ := Option.map_eq_some_iff.mp hn
    simp only [Undisturbed, Option.mem_def, hchild, Option.some.injEq, forall_eq',
      Classical.not_imp, not_not] at hg
    obtain ⟨d, ds, hds⟩ := List.exists_cons_of_ne_nil hg.1
    have hmem : s.emission child (.data child.index d) none ∈
        (s.onStdout child lines).emissions := by
      refine List.mem_append_right _ ?_
      rw [hds, List.zipIdx_cons]
      exact List.mem_cons_self
    exact not_faithful_of_stale hg.2 hmem
  | error pid =>
    obtain ⟨child, hchild, rfl⟩ := Option.map_eq_some_iff.mp hn
    simp only [Undisturbed, Option.mem_def, hchild, Option.some.injEq, forall_eq', not_not] at hg
    exact not_faithful_of_stale hg (List.mem_append_right _ (List.mem_singleton_self _))
  | close pid code =>
    obtain ⟨child, hchild, rfl⟩ := Option.map_eq_some_iff.mp hn
    simp only [Undisturbed, Option.mem_def, hchild, Option.some.injEq, forall_eq', not_not] at hg
    exact not_faithful_of_stale hg (List.mem_append_right _ (List.mem_singleton_self _))

end ModelService

instance (s : ModelService D) (child : ModelProcess) : Decidable (s.Stale child) :=
  inferInstanceAs (Decidable (_ ∧ _ ∧ _))

instance [DecidableEq D] (s : ModelService D) : (a : ModelService.Action D) →
    Decidable (s.Undisturbed a)
  | .create _ _ => inferInstanceAs (Decidable (_ → _ → _ → _))
  | .remove _ => inferInstanceAs (Decidable True)
  | .stdout pid lines => inferInstanceAs (Decidable (∀ child ∈ s.openChild pid,
      ModelService.parsed lines ≠ [] → ¬ s.Stale child))
  | .error pid | .close pid _ =>
    inferInstanceAs (Decidable (∀ child ∈ s.openChild pid, ¬ s.Stale child))

/-- In a run the table is faithful, in every state it passes through, if and only if every
step of it is undisturbed. -/
theorem model_service_faithful_iff {tr : List (ModelService D × ModelService.Action D)}
    {s : ModelService D} (h : Run (ModelService.system D) tr s) :
    (∀ t ∈ statesOf tr s, t.Faithful) ↔ ∀ p ∈ tr, p.1.Undisturbed p.2 := by
  refine h.forall_states_iff (I := ModelService.Inv)
    (P := fun s => s.Inv ∧ s.Good) (G := ModelService.Undisturbed) ?_ ?_ ?_ ?_ ?_
  · intro s hinit
    obtain ⟨cpus, totalmem, rfl⟩ := hinit
    have hI := ModelService.inv_initial (D := D) cpus totalmem
    exact ⟨hI, hI, ModelService.good_initial cpus totalmem⟩
  · intro a s t hI hn
    exact hI.act hn
  · intro a s t hI hP hn hg
    exact ⟨hI.act hn, hP.2.act hI hn hg⟩
  · intro a s t hI hP hn hg
    exact ModelService.Faithful.disturbed hI hP.2 hn hg
  · exact fun _ hP => hP.2.faithful hP.1

/-- A model is created, removed while its process runs on, and created again after that
process has closed. -/
def undisturbedCommands : List (ModelService.Action ℕ) :=
  [.create "model" true, .stdout 0 [some 1, none, some 3], .remove "model", .stdout 0 [some 2],
    .close 0 none, .create "model" true, .stdout 1 [some 1], .close 1 (some 0)]

/-- The removed process closes after the model was created again, and two more models are
created while the second process is live. -/
def staleCloseCommands : List (ModelService.Action ℕ) :=
  [.create "model" true, .remove "model", .create "model" true, .stdout 0 [some 1],
    .close 0 none]

theorem model_service_faithful_in_turn :
    ∃ tr s, Run (ModelService.system ℕ) tr s ∧ s.emissions.length = 5 ∧
      ∀ t ∈ statesOf tr s, t.Faithful := by
  have hinit : (ModelService.system ℕ).init (.initial 4 8589934592) := ⟨_, _, rfl⟩
  have hexec : ((ModelService.system ℕ).exec undisturbedCommands (.initial 4 8589934592)).map
      (fun s => s.emissions.length) = some 5 := by decide +kernel
  obtain ⟨s, hs, hlen⟩ := Option.map_eq_some_iff.mp hexec
  have hrun := (Run.init hinit).exec_trace hs
  refine ⟨_, s, hrun, hlen, (model_service_faithful_iff hrun).mpr ?_⟩
  decide +kernel

/-- The second process is live and not in the table, and was heard as the first one. With
two and a half slots there is a third process. -/
theorem model_service_not_faithful :
    (∃ s, (ModelService.system ℕ).exec staleCloseCommands (.initial 4 8589934592) = some s ∧
      Reachable (ModelService.system ℕ) s ∧ ¬ s.Faithful) ∧
    ∃ s, (ModelService.system ℕ).exec
        [.create "a" true, .create "b" true, .create "c" true] (.initial 4 2684354560) = some s ∧
      Reachable (ModelService.system ℕ) s ∧ ¬ s.Faithful := by
  constructor
  · have hinit : (ModelService.system ℕ).init (.initial 4 8589934592) := ⟨_, _, rfl⟩
    have hexec : ((ModelService.system ℕ).exec staleCloseCommands (.initial 4 8589934592)).map
        (fun s => (s.has "model", (s.latest "model").map ModelProcess.live,
          s.emissions.map Emission.reached)) = some (false, some true, [true, true]) := by
      decide +kernel
    obtain ⟨s, hs, hobs⟩ := Option.map_eq_some_iff.mp hexec
    refine ⟨s, hs, Reachable.exec (.init hinit) hs, fun hf => ?_⟩
    simp only [Prod.mk.injEq] at hobs
    obtain ⟨hhas, hlive, -⟩ := hobs
    obtain ⟨child, hlatest, hlive⟩ := Option.map_eq_some_iff.mp hlive
    have htable := (hf.table "model").mpr ⟨child, hlatest, hlive⟩
    rw [hhas] at htable
    cases htable
  · have hinit : (ModelService.system ℕ).init (.initial 4 2684354560) := ⟨_, _, rfl⟩
    have hexec : ((ModelService.system ℕ).exec
        [.create "a" true, .create "b" true, .create "c" true] (.initial 4 2684354560)).map
        (fun s => (s.maxConcurrency, (s.children.filter ModelProcess.live).length)) =
          some (5 / 2, 3) := by decide +kernel
    obtain ⟨s, hs, hobs⟩ := Option.map_eq_some_iff.mp hexec
    refine ⟨s, hs, Reachable.exec (.init hinit) hs, fun hf => ?_⟩
    simp only [Prod.mk.injEq] at hobs
    have hle := hf.concurrency
    rw [hobs.1, hobs.2] at hle
    norm_num at hle

end NumentaApps.Unicorn
