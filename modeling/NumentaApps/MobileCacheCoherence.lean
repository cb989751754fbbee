import NumentaApps.MobileMetricCache
import Mathlib.Data.List.Nodup

/-!
# When the mobile metric cache is coherent

The maps are changed in the loops that run the transaction. Each operation that is
committed brings them from the old table to the new one; one that is undone after it has
changed them leaves them ahead of the table.
-/
namespace NumentaApps.MobileCore
open TransitionSystem

namespace Caches

variable {c : Caches} {metric m : Metric} {rows : List Metric} {failsAt : Option ℕ}
  {id instanceId serverName name : String}

def names (c : Caches) : List String := c.instanceToName.map Prod.fst

theorem mem_names : name ∈ c.names ↔ ∃ entry ∈ c.instanceToName, entry.1 = name := List.mem_map

theorem mem_put : m ∈ (c.put metric).metricCache ↔
    (m ∈ c.metricCache ∧ m.id ≠ metric.id) ∨ m = metric := by
  simp [put]

theorem mem_putName : name ∈ (c.putName instanceId serverName).names ↔
    name = instanceId ∨ name ∈ c.names := by
  simp only [mem_names, putName, List.mem_append, List.mem_filter, List.mem_singleton]
  constructor
  · intro h
    obtain ⟨entry, ⟨hmem, -⟩ | rfl, rfl⟩ := h
    · exact .inr ⟨entry, hmem, rfl⟩
    · exact .inl rfl
  · intro h
    by_cases heq : name = instanceId
    · exact ⟨_, .inr rfl, heq.symm⟩
    · obtain ⟨entry, hmem, rfl⟩ := h.resolve_left heq
      exact ⟨entry, .inl ⟨hmem, by simpa using heq⟩, rfl⟩

theorem mem_putNameIfAbsent : name ∈ (c.putNameIfAbsent instanceId serverName).names ↔
    name = instanceId ∨ name ∈ c.names := by
  unfold putNameIfAbsent
  split
  · rename_i hany
    obtain ⟨entry, hmem, heq⟩ := List.any_eq_true.mp hany
    have hin : instanceId ∈ c.names := mem_names.mpr ⟨entry, hmem, by simpa using heq⟩
    constructor
    · exact .inr
    · intro h
      rcases h with rfl | h
      · exact hin
      · exact h
  · simp [names, or_comm]

theorem mem_removeName : name ∈ (c.removeName instanceId).names ↔
    name ≠ instanceId ∧ name ∈ c.names := by
  simp only [mem_names, removeName, List.mem_filter]
  constructor
  · intro h
    obtain ⟨entry, ⟨hmem, hne⟩, rfl⟩ := h
    exact ⟨by simpa using hne, entry, hmem, rfl⟩
  · intro h
    obtain ⟨hne, entry, hmem, rfl⟩ := h
    exact ⟨entry, ⟨hmem, by simpa using hne⟩, rfl⟩

/-! ## Maps that belong together -/

/-- The names are those of the instances of the cached metrics, which have one each. -/
structure Paired (c : Caches) : Prop where
  instances : ∀ name, name ∈ c.names ↔ ∃ m ∈ c.metricCache, m.instanceId = some name
  named : ∀ m ∈ c.metricCache, m.Named

theorem paired_empty : Paired ⟨[], []⟩ := ⟨by simp [names], by simp⟩

/-- A metric is put with the name of its instance, and the instance that it had before
keeps a metric. -/
theorem Paired.put {c' : Caches} (h : c.Paired) (hnamed : metric.Named)
    (hinstance : metric.instanceId = some instanceId)
    (hcache : c'.metricCache = (c.put metric).metricCache)
    (hnames : ∀ name, name ∈ c'.names ↔ name = instanceId ∨ name ∈ c.names)
    (hkeep : ∀ old ∈ c.metricCache, old.id = metric.id →
      ∃ other ∈ (c.put metric).metricCache, other.instanceId = old.instanceId) : c'.Paired := by
  constructor
  · intro name
    rw [hnames, h.instances, hcache]
    constructor
    · intro hname
      rcases hname with rfl | ⟨m, hm, hname⟩
      · exact ⟨metric, mem_put.mpr (.inr rfl), hinstance⟩
      · by_cases heq : m.id = metric.id
        · obtain ⟨other, hother, hsame⟩ := hkeep m hm heq
          exact ⟨other, hother, hsame.trans hname⟩
        · exact ⟨m, mem_put.mpr (.inl ⟨hm, heq⟩), hname⟩
    · intro hname
      obtain ⟨m, hm, hname⟩ := hname
      rcases mem_put.mp hm with ⟨hm, -⟩ | rfl
      · exact .inr ⟨m, hm, hname⟩
      · exact .inl (Option.some.inj (hname.symm.trans hinstance))
  · intro m hm
    rw [hcache] at hm
    rcases mem_put.mp hm with ⟨hm, -⟩ | rfl
    · exact h.named m hm
    · exact hnamed

/-- The maps show the rows of a table. -/
structure Mirrors (rows : List Metric) (c : Caches) : Prop where
  paired : c.Paired
  metrics : ∀ m, m ∈ c.metricCache ↔ m ∈ rows

theorem exists_names (h : metric.Named) : ∃ instanceId serverName,
    metric.instanceId = some instanceId ∧ metric.serverName = some serverName := by
  obtain ⟨instanceId, hi⟩ := Option.isSome_iff_exists.mp h.1
  obtain ⟨serverName, hs⟩ := Option.isSome_iff_exists.mp h.2
  exact ⟨instanceId, serverName, hi, hs⟩

/-! ## Loads -/

theorem loadRows_cons (hfails : failsAt ≠ some 0) (hi : metric.instanceId = some instanceId)
    (hs : metric.serverName = some serverName) :
    loadRows (metric :: rows) failsAt c = loadRows rows (failsAt.map Nat.pred)
      ((c.putNameIfAbsent instanceId serverName).put metric) := by
  cases failsAt with
  | none => simp only [loadRows, hi, hs]
  | some k =>
    cases k with
    | zero => exact absurd rfl hfails
    | succ k => simp only [loadRows, hi, hs]

theorem loads_tail (h : CoreDatabase.Loads (metric :: rows) failsAt) :
    CoreDatabase.Loads rows (failsAt.map Nat.pred) := by
  refine ⟨fun m hm => h.1 m (List.mem_cons_of_mem _ hm), fun k hk => ?_⟩
  obtain ⟨j, hj, rfl⟩ := Option.map_eq_some_iff.mp hk
  have hlt := h.2 j hj
  rw [List.length_cons] at hlt
  exact Nat.lt_pred_of_succ_lt hlt

/-- Each row adds its metric, as the rows have different IDs. -/
theorem loadRows_spec (hnd : (rows.map Metric.id).Nodup) (hload : CoreDatabase.Loads rows failsAt)
    (h : c.Paired) (hnew : ∀ m ∈ c.metricCache, m.id ∉ rows.map Metric.id) :
    ∃ c', loadRows rows failsAt c = .ok c' ∧ c'.Paired ∧
      ∀ m, m ∈ c'.metricCache ↔ m ∈ c.metricCache ∨ m ∈ rows := by
  have hfails : failsAt ≠ some 0 := fun heq => absurd (hload.2 0 heq) (Nat.not_lt_zero _)
  induction rows generalizing c failsAt with
  | nil =>
    refine ⟨c, ?_, h, by simp⟩
    cases failsAt with
    | none => rfl
    | some k =>
      cases k with
      | zero => exact absurd rfl hfails
      | succ k => rfl
  | cons metric rows ih =>
    obtain ⟨hnot, hnd⟩ := List.nodup_cons.mp hnd
    obtain ⟨instanceId, serverName, hi, hs⟩ := exists_names (hload.1 metric List.mem_cons_self)
    have hother : ∀ m ∈ c.metricCache, m.id ≠ metric.id := by
      intro m hm heq
      exact hnew m hm (heq ▸ List.mem_cons_self)
    have hcache : ((c.putNameIfAbsent instanceId serverName).put metric).metricCache =
        (c.put metric).metricCache := by
      unfold putNameIfAbsent
      split <;> rfl
    have hpaired : ((c.putNameIfAbsent instanceId serverName).put metric).Paired :=
      h.put (hload.1 metric List.mem_cons_self) hi hcache (fun _ => mem_putNameIfAbsent)
        fun old hold heq => absurd heq (hother old hold)
    have htail := loads_tail hload
    have hfails' : failsAt.map Nat.pred ≠ some 0 :=
      fun heq => absurd (htail.2 0 heq) (Nat.not_lt_zero _)
    obtain ⟨c', hc', hp', hmem⟩ := ih hnd htail hpaired (by
      intro m hm
      rw [hcache] at hm
      rcases mem_put.mp hm with ⟨hm, -⟩ | rfl
      · exact fun hin => hnew m hm (List.mem_cons_of_mem _ hin)
      · exact hnot) hfails'
    refine ⟨c', (loadRows_cons hfails hi hs).trans hc', hp', fun m => ?_⟩
    rw [hmem, hcache, mem_put, List.mem_cons]
    constructor
    · intro hm
      rcases hm with (⟨hm, -⟩ | rfl) | hm
      · exact .inl hm
      · exact .inr (.inl rfl)
      · exact .inr (.inr hm)
    · intro hm
      rcases hm with hm | rfl | hm
      · exact .inl (.inl ⟨hm, hother m hm⟩)
      · exact .inl (.inr rfl)
      · exact .inr hm

theorem loadMetricCache_mirrors (hnd : (rows.map Metric.id).Nodup)
    (hload : CoreDatabase.Loads rows failsAt) : Mirrors rows (loadMetricCache rows failsAt) := by
  obtain ⟨c, hc, hp, hmem⟩ := loadRows_spec hnd hload paired_empty (by simp)
  rw [loadMetricCache, hc]
  exact ⟨hp, fun m => (hmem m).trans (by simp)⟩

theorem loadRows_null (h : ¬ metric.Named) : loadRows (metric :: rows) failsAt c = .error c := by
  have hnull : ∀ instanceId serverName, metric.instanceId = some instanceId →
      metric.serverName ≠ some serverName := by
    intro instanceId serverName hi hs
    exact h ⟨hi ▸ rfl, hs ▸ rfl⟩
  rcases failsAt with _ | _ | k
  · simp only [loadRows]
  · rfl
  · simp only [loadRows]

theorem loadMetricCache_none (hload : CoreDatabase.LoadsNone rows failsAt) :
    loadMetricCache rows failsAt = ⟨[], []⟩ := by
  have herr : loadRows rows failsAt ⟨[], []⟩ = .error ⟨[], []⟩ := by
    rcases hload with rfl | ⟨metric, hmetric, hnull⟩
    · cases rows <;> rfl
    · obtain ⟨rest, rfl⟩ := List.head?_eq_some_iff.mp hmetric
      exact loadRows_null hnull
  rw [loadMetricCache, herr]

theorem loadMetricCache_nil (failsAt : Option ℕ) : loadMetricCache [] failsAt = ⟨[], []⟩ := by
  rcases failsAt with _ | _ | k <;> rfl

/-! ## Operations on the maps -/

/-- The maps are empty or show the table. -/
def Follow (rows : List Metric) (c : Caches) : Prop := c = ⟨[], []⟩ ∨ Mirrors rows c

theorem Follow.cases (h : Follow rows c) : c = ⟨[], []⟩ ∨ c.metricCache ≠ [] ∧ Mirrors rows c := by
  rcases h with rfl | h
  · exact .inl rfl
  · by_cases hnil : c.metricCache = []
    · have hnames : c.names = [] := by
        apply List.eq_nil_iff_forall_not_mem.mpr
        intro name hname
        obtain ⟨m, hm, -⟩ := (h.paired.instances name).mp hname
        rw [hnil] at hm
        cases hm
      refine .inl ?_
      cases c
      simp only [names, List.map_eq_nil_iff] at hnil hnames
      rw [hnil, hnames]
    · exact .inr ⟨hnil, h⟩

theorem Mirrors.congr {rows' : List Metric} (h : Mirrors rows c) (hrows : ∀ m, m ∈ rows ↔ m ∈ rows') :
    Mirrors rows' c := ⟨h.paired, fun m => (h.metrics m).trans (hrows m)⟩

theorem load_follow (hnd : (rows.map Metric.id).Nodup)
    (hload : CoreDatabase.Loads rows failsAt ∨ CoreDatabase.LoadsNone rows failsAt) :
    Follow rows (loadMetricCache rows failsAt) := by
  rcases hload with hload | hload
  · exact .inr (loadMetricCache_mirrors hnd hload)
  · exact .inl (loadMetricCache_none hload)

theorem Follow.getMetricCache (h : Follow rows c) (hnd : (rows.map Metric.id).Nodup)
    (hload : c.metricCache = [] →
      CoreDatabase.Loads rows failsAt ∨ CoreDatabase.LoadsNone rows failsAt) :
    Follow rows (c.getMetricCache rows failsAt) := by
  unfold Caches.getMetricCache
  split
  · rename_i hnil
    exact load_follow hnd (hload hnil)
  · exact h

theorem getMetricCache_of_ne (hne : c.metricCache ≠ []) : c.getMetricCache rows failsAt = c :=
  if_neg hne

/-- The maps go from the old table to the one in which the metric has been put. -/
theorem updateMetricCache_mirrors {old : List Metric} (h : Follow old c) (hnamed : metric.Named)
    (hnd : (rows.map Metric.id).Nodup)
    (hload : c.metricCache = [] → CoreDatabase.Loads rows failsAt)
    (hkeep : ∀ m ∈ c.metricCache, m.id = metric.id →
      ∃ other ∈ (c.put metric).metricCache, other.instanceId = m.instanceId)
    (hrows : ∀ m, m ∈ rows ↔ (m ∈ old ∧ m.id ≠ metric.id) ∨ m = metric) :
    ∃ c', c.updateMetricCache rows failsAt metric = .ok c' ∧ Mirrors rows c' := by
  obtain ⟨instanceId, serverName, hi, hs⟩ := exists_names hnamed
  simp only [updateMetricCache, hi, hs]
  refine ⟨_, rfl, ?_⟩
  rcases h.cases with rfl | ⟨hne, hm⟩
  · have hl := loadMetricCache_mirrors hnd (hload rfl)
    rw [show getMetricCache rows failsAt ⟨[], []⟩ = loadMetricCache rows failsAt from rfl]
    have hsame : ∀ m ∈ (loadMetricCache rows failsAt).metricCache, m.id = metric.id → m = metric := by
      intro m hmem heq
      rcases (hrows m).mp ((hl.metrics m).mp hmem) with ⟨-, hne⟩ | heq'
      · exact absurd heq hne
      · exact heq'
    refine ⟨hl.paired.put hnamed hi rfl (fun _ => mem_putName) ?_, fun m => ?_⟩
    · intro m hmem heq
      exact ⟨metric, mem_put.mpr (.inr rfl), by rw [hsame m hmem heq]⟩
    · refine mem_put.trans ?_
      rw [hl.metrics]
      constructor
      · intro hm
        rcases hm with ⟨hm, -⟩ | rfl
        · exact hm
        · exact (hrows m).mpr (.inr rfl)
      · intro hm
        by_cases heq : m.id = metric.id
        · exact .inr (hsame m ((hl.metrics m).mpr hm) heq)
        · exact .inl ⟨hm, heq⟩
  · rw [getMetricCache_of_ne hne]
    refine ⟨hm.paired.put hnamed hi rfl (fun _ => mem_putName) hkeep, fun m => ?_⟩
    refine mem_put.trans ?_
    rw [hm.metrics, hrows]

/-- A metric is taken out, and the name of its instance if that has no other. -/
theorem Paired.remove {c' : Caches} (h : c.Paired) (hmem : metric ∈ c.metricCache)
    (hi : metric.instanceId = some instanceId)
    (hcache : ∀ m, m ∈ c'.metricCache ↔ m ∈ c.metricCache ∧ m ≠ metric)
    (hnames : ∀ name, name ∈ c'.names ↔ name ∈ c.names ∧
      (name = instanceId → ∃ m ∈ c'.metricCache, m.instanceId = some instanceId)) : c'.Paired := by
  constructor
  · intro name
    rw [hnames, h.instances]
    constructor
    · intro hname
      obtain ⟨⟨m, hm, hname⟩, hother⟩ := hname
      by_cases heq : m = metric
      · obtain rfl := heq
        have hsame : name = instanceId := Option.some.inj (hname.symm.trans hi)
        exact hsame ▸ hother hsame
      · exact ⟨m, (hcache m).mpr ⟨hm, heq⟩, hname⟩
    · intro hname
      obtain ⟨m, hm, hname⟩ := hname
      refine ⟨⟨m, ((hcache m).mp hm).1, hname⟩, fun heq => ⟨m, hm, heq ▸ hname⟩⟩
  · exact fun m hm => h.named m ((hcache m).mp hm).1

/-- The maps go from the old table to the one from which the metric has been deleted. -/
theorem removeMetricFromCache_follow {old : List Metric} (h : Follow old c)
    (hnd : (old.map Metric.id).Nodup) (failsAgainAt : Option ℕ)
    (hload : c.metricCache = [] → CoreDatabase.Loads (CoreDatabase.deleteRow id old) failsAt ∨
      CoreDatabase.LoadsNone (CoreDatabase.deleteRow id old) failsAt) :
    ∃ c', c.removeMetricFromCache (CoreDatabase.deleteRow id old) failsAt failsAgainAt id = .ok c' ∧
      Follow (CoreDatabase.deleteRow id old) c' := by
  have hrows : ∀ m, m ∈ CoreDatabase.deleteRow id old ↔ m ∈ old ∧ m.id ≠ id := by
    simp [CoreDatabase.deleteRow]
  have hnd' : ((CoreDatabase.deleteRow id old).map Metric.id).Nodup :=
    (List.filter_sublist.map _).nodup hnd
  rcases h.cases with rfl | ⟨hne, hm⟩
  · have hf := load_follow hnd' (hload rfl)
    have hnone : ((loadMetricCache (CoreDatabase.deleteRow id old) failsAt).metricCache.find?
        fun metric => metric.id = id) = none := by
      refine List.find?_eq_none.mpr fun m hmem heq => ?_
      rcases hf.cases with hnil | ⟨-, hl⟩
      · rw [hnil] at hmem
        cases hmem
      · exact ((hrows m).mp ((hl.metrics m).mp hmem)).2 (by simpa using heq)
    refine ⟨_, ?_, hf⟩
    simp only [removeMetricFromCache, getMetricCache, if_true, hnone]
  · have hsame : ∀ a ∈ c.metricCache, ∀ b ∈ c.metricCache, a.id = b.id → a = b := fun a ha b hb =>
      List.inj_on_of_nodup_map hnd ((hm.metrics a).mp ha) ((hm.metrics b).mp hb)
    simp only [removeMetricFromCache, getMetricCache_of_ne hne]
    cases hfind : c.metricCache.find? fun metric => metric.id = id with
    | none =>
      refine ⟨c, rfl, .inr (hm.congr fun m => ?_)⟩
      rw [hrows]
      refine ⟨fun hmem => ⟨hmem, fun heq => ?_⟩, fun hmem => hmem.1⟩
      exact List.find?_eq_none.mp hfind m ((hm.metrics m).mpr hmem) (by simpa using heq)
    | some metric =>
      have hmem := List.mem_of_find?_eq_some hfind
      have hid : metric.id = id := by simpa using List.find?_some hfind
      obtain ⟨instanceId, serverName, hi, -⟩ := exists_names (hm.paired.named metric hmem)
      simp only [hi]
      have hcache : ∀ m, m ∈ c.metricCache.filter (fun other => other.id ≠ id) ↔
          m ∈ c.metricCache ∧ m ≠ metric := by
        intro m
        simp only [List.mem_filter, decide_eq_true_eq]
        refine and_congr_right fun hin => not_congr ⟨fun heq => ?_, fun heq => heq ▸ hid⟩
        exact hsame m hin metric hmem (heq.trans hid.symm)
      have hdeleted : ∀ m, m ∈ c.metricCache.filter (fun other => other.id ≠ id) ↔
          m ∈ CoreDatabase.deleteRow id old := by
        intro m
        simp [hrows, hm.metrics]
      generalize hrest : c.metricCache.filter (fun other => other.id ≠ id) = rest at hcache hdeleted
      by_cases hnil : rest = []
      · -- The last metric is gone, and the table is loaded again, which is empty.
        have hempty : CoreDatabase.deleteRow id old = [] := by
          apply List.eq_nil_iff_forall_not_mem.mpr
          intro m hin
          rw [← hdeleted, hnil] at hin
          cases hin
        rw [hempty, hnil]
        simp only [getMetricCache, if_true, loadMetricCache_nil]
        exact ⟨_, rfl, .inl rfl⟩
      · rw [getMetricCache_of_ne hnil]
        have hnone : (rest.any fun m => m.instanceId.isNone) = false := by
          refine List.any_eq_false.mpr fun m hin hnone => ?_
          have hsome := (hm.paired.named m ((hcache m).mp hin).1).1
          rw [Option.isNone_iff_eq_none.mp hnone] at hsome
          cases hsome
        simp only [getMetricsByInstanceId, hnone, Bool.false_eq_true, if_false]
        refine ⟨_, rfl, .inr ?_⟩
        split
        · rename_i hlast
          refine ⟨hm.paired.remove hmem hi hcache fun name => ?_, hdeleted⟩
          refine mem_removeName.trans ?_
          rw [and_comm]
          refine and_congr_right fun _ => ⟨fun hne heq => absurd heq hne, fun hother heq => ?_⟩
          obtain ⟨m, hin, hsame⟩ := hother heq
          have hmem : m ∈ rest.filter fun m => m.instanceId = some instanceId :=
            List.mem_filter.mpr ⟨hin, decide_eq_true hsame⟩
          rw [hlast] at hmem
          cases hmem
        · rename_i hlast
          refine ⟨hm.paired.remove hmem hi hcache fun name => ?_, hdeleted⟩
          obtain ⟨m, hin⟩ := List.exists_mem_of_ne_nil _ hlast
          obtain ⟨hin, hsame⟩ := List.mem_filter.mp hin
          exact ⟨fun hname => ⟨hname, fun _ => ⟨m, hin, of_decide_eq_true hsame⟩⟩, fun h => h.1⟩

end Caches

namespace CoreDatabase

open Caches

variable {s t : CoreDatabase} {metric m : Metric} {rows : List Metric} {id : String}
  {failsAt loadFailsAt : Option ℕ} {batch : List MetricData} {row : MetricData}

/-! ## Tables -/

theorem replaceRow_nodup (hnd : (rows.map Metric.id).Nodup) (metric : Metric) :
    ((replaceRow metric rows).map Metric.id).Nodup := by
  rw [replaceRow, List.map_append, List.nodup_append]
  refine ⟨(List.filter_sublist.map _).nodup hnd, by simp, ?_⟩
  intro id hid _ hlast heq
  obtain ⟨m, hm, rfl⟩ := List.mem_map.mp hid
  simp only [List.map_cons, List.map_nil, List.mem_singleton] at hlast
  exact of_decide_eq_true (List.mem_filter.mp hm).2 (heq.trans hlast)

theorem mem_replaceRow : m ∈ replaceRow metric rows ↔
    (m ∈ rows ∧ m.id ≠ metric.id) ∨ m = metric := by
  simp [replaceRow]

/-- A change of rows that keeps their IDs. -/
theorem map_ids {f : Metric → Metric} (hf : ∀ m, (f m).id = m.id) :
    (rows.map f).map Metric.id = rows.map Metric.id := by
  rw [List.map_map]
  exact List.map_congr_left fun m _ => hf m

theorem updateRow_ids (metric : Metric) :
    (updateRow metric rows).map Metric.id = rows.map Metric.id := by
  apply map_ids
  intro m
  split
  · rename_i heq
    exact heq.symm
  · rfl

theorem mem_updateRow (hin : metric.id ∈ rows.map Metric.id) : m ∈ updateRow metric rows ↔
    (m ∈ rows ∧ m.id ≠ metric.id) ∨ m = metric := by
  constructor
  · intro hm
    obtain ⟨old, hold, rfl⟩ := List.mem_map.mp hm
    split
    · exact .inr rfl
    · rename_i hne
      exact .inl ⟨hold, hne⟩
  · intro hm
    rcases hm with ⟨hm, hne⟩ | rfl
    · exact List.mem_map.mpr ⟨m, hm, if_neg hne⟩
    · obtain ⟨old, hold, heq⟩ := List.mem_map.mp hin
      exact List.mem_map.mpr ⟨old, hold, if_pos heq⟩

theorem mem_raiseTimestamp (hnd : (rows.map Metric.id).Nodup) (hmetric : metric ∈ rows)
    {timestamp : ℤ} (hlt : metric.lastTimestamp < timestamp) :
    m ∈ raiseTimestamp metric.id timestamp rows ↔
      (m ∈ rows ∧ m.id ≠ metric.id) ∨ m = { metric with lastTimestamp := timestamp } := by
  have hsame : ∀ old ∈ rows, old.id = metric.id → old = metric :=
    fun old hold => List.inj_on_of_nodup_map hnd hold hmetric
  constructor
  · intro hm
    obtain ⟨old, hold, rfl⟩ := List.mem_map.mp hm
    by_cases heq : old.id = metric.id
    · obtain rfl := hsame old hold heq
      exact .inr (if_pos ⟨rfl, hlt⟩)
    · rw [if_neg fun h => heq h.1]
      exact .inl ⟨hold, heq⟩
  · intro hm
    rcases hm with ⟨hm, hne⟩ | rfl
    · exact List.mem_map.mpr ⟨m, hm, if_neg fun h => hne h.1⟩
    · exact List.mem_map.mpr ⟨metric, hmetric, if_pos ⟨rfl, hlt⟩⟩

/-! ## Operations -/

/-- The IDs of the table are distinct, and the maps are empty or show it. -/
structure Good (s : CoreDatabase) : Prop where
  ids : (s.metric.map Metric.id).Nodup
  follow : Follow s.metric s.caches

theorem Good.coherent (h : s.Good) : s.Coherent := by
  rcases h.follow with hempty | hm
  · constructor
    · intro hne
      rw [hempty] at hne
      exact absurd rfl hne
    · simp [hempty]
  · exact ⟨fun _ id timestamp => by simp only [hm.metrics], hm.paired.instances⟩

theorem Good.setCaches {caches : Caches} (h : s.Good) (hc : Follow s.metric caches) :
    Good { s with caches := caches } := ⟨h.ids, hc⟩

/-- A metric is put into the table and into the cache. -/
theorem Good.puts {commits : Bool} {data : List (String × ℤ)} (h : s.Good)
    (hg : s.Puts metric rows commits failsAt) (hnd : (rows.map Metric.id).Nodup)
    (hrows : ∀ m, m ∈ rows ↔ (m ∈ s.metric ∧ m.id ≠ metric.id) ∨ m = metric) :
    (s.endTransaction commits rows data
      (s.caches.updateMetricCache rows failsAt metric)).Good := by
  obtain ⟨hcommits, hnamed, hload, hkeep⟩ := hg
  obtain ⟨c, hc, hm⟩ := updateMetricCache_mirrors h.follow hnamed hnd hload hkeep hrows
  rw [hc, endTransaction, if_pos hcommits]
  exact ⟨hnd, .inr hm⟩

theorem Good.addMetric {inserts commits : Bool} (h : s.Good)
    (hg : s.Follows (.addMetric metric inserts commits failsAt)) :
    (s.addMetric metric inserts commits failsAt).Good := by
  unfold CoreDatabase.addMetric
  split
  · exact h
  · rename_i hinserts
    exact h.puts (hg (by simpa using hinserts)) (replaceRow_nodup h.ids metric)
      fun _ => mem_replaceRow

theorem any_id : (rows.any fun other => other.id = id) = true ↔ id ∈ rows.map Metric.id := by
  simp

theorem Good.updateMetric {updates commits : Bool} (h : s.Good)
    (hg : s.Follows (.updateMetric metric updates commits failsAt)) :
    (s.updateMetric metric updates commits failsAt).Good := by
  unfold CoreDatabase.updateMetric
  split
  · exact h
  · rename_i hupdates
    simp only [Bool.or_eq_true, Bool.not_eq_true', not_or, Bool.not_eq_false] at hupdates
    have hin := any_id.mp hupdates.2
    have hids : (updateRow metric s.metric).map Metric.id = s.metric.map Metric.id :=
      updateRow_ids metric
    exact h.puts (hg hupdates.1 hin) (hids.symm ▸ h.ids) fun _ => mem_updateRow hin

theorem Good.deleteMetric {deletes commits : Bool} {failsAgainAt : Option ℕ} (h : s.Good)
    (hg : s.Follows (.deleteMetric id deletes commits failsAt failsAgainAt)) :
    (s.deleteMetric id deletes commits failsAt failsAgainAt).Good := by
  unfold CoreDatabase.deleteMetric
  split
  · exact h
  · rename_i hdeletes
    simp only [Bool.or_eq_true, Bool.not_eq_true', not_or, Bool.not_eq_false] at hdeletes
    obtain ⟨hcommits, hload⟩ := hg hdeletes.1 (any_id.mp hdeletes.2)
    obtain ⟨c, hc, hf⟩ := removeMetricFromCache_follow h.follow h.ids failsAgainAt hload
    simp only [hc, endTransaction]
    rw [if_pos hcommits]
    exact ⟨(List.filter_sublist.map _).nodup h.ids, hf⟩

/-! ## Batches -/

/-- What one row of a batch does: nothing if it is there already, and else it loads the
cache if it has to, and raises the timestamp of its metric if it is later. -/
theorem Good.addMetricData (h : s.Good) (hid : row.metricId ∈ s.metric.map Metric.id)
    (hload : s.caches.metricCache = [] → row.key ∉ s.metricData → Loads s.metric loadFailsAt) :
    ∃ t, s.addMetricData loadFailsAt row = .ok t ∧ t.Good ∧
      t.metric.map Metric.id = s.metric.map Metric.id ∧
      (row.key ∈ s.metricData ∧ t = s ∨
        row.key ∉ s.metricData ∧ t.metricData = row.key :: s.metricData ∧
          t.caches.metricCache ≠ [] ∧
          (t.metric = s.metric ∨
            ∃ metric ∈ s.metric, metric.id = row.metricId ∧ metric.lastTimestamp < row.timestamp)) := by
  have hany := any_id.mpr hid
  unfold CoreDatabase.addMetricData
  simp only [hany, Bool.not_true, Bool.false_eq_true, if_false]
  split
  · rename_i hin
    exact ⟨s, rfl, h, rfl, .inl ⟨hin, rfl⟩⟩
  · rename_i hnew
    have hmirrors : Mirrors s.metric (s.caches.getMetricCache s.metric loadFailsAt) := by
      rcases h.follow.cases with hempty | ⟨hne, hm⟩
      · have hl := hload (by rw [hempty]) hnew
        rw [hempty]
        exact loadMetricCache_mirrors h.ids hl
      · rw [getMetricCache_of_ne hne]
        exact hm
    generalize s.caches.getMetricCache s.metric loadFailsAt = c at hmirrors
    cases hfind : c.metricCache.find? fun metric => metric.id = row.metricId with
    | none =>
      obtain ⟨metric, hmetric, heq⟩ := List.mem_map.mp hid
      have hno := List.find?_eq_none.mp hfind metric ((hmirrors.metrics metric).mpr hmetric)
      exact absurd (decide_eq_true heq) hno
    | some metric =>
      have hmem := List.mem_of_find?_eq_some hfind
      have hrow : metric.id = row.metricId := by simpa using List.find?_some hfind
      have hmetric := (hmirrors.metrics metric).mp hmem
      have hne : c.metricCache ≠ [] := List.ne_nil_of_mem hmem
      simp only
      split
      · exact ⟨_, rfl, ⟨h.ids, .inr hmirrors⟩, rfl, .inr ⟨hnew, rfl, hne, .inl rfl⟩⟩
      · rename_i hle
        have hlt := Int.not_le.mp hle
        have hraise : (s.metric.any fun other =>
            other.id = metric.id ∧ other.lastTimestamp < row.timestamp) = true :=
          List.any_eq_true.mpr ⟨metric, hmetric, decide_eq_true ⟨rfl, hlt⟩⟩
        have hids : (raiseTimestamp metric.id row.timestamp s.metric).map Metric.id =
            s.metric.map Metric.id := raiseTimestamp_ids metric.id row.timestamp s.metric
        obtain ⟨c', hc', hm'⟩ : ∃ c', c.updateMetricCache
            (raiseTimestamp metric.id row.timestamp s.metric) loadFailsAt
            { metric with lastTimestamp := row.timestamp } = .ok c' ∧
            Mirrors (raiseTimestamp metric.id row.timestamp s.metric) c' :=
          updateMetricCache_mirrors (.inr hmirrors)
          (hmirrors.paired.named metric hmem) (hids ▸ h.ids) (fun hnil => absurd hnil hne)
          (fun m hm heq => ⟨_, mem_put.mpr (.inr rfl), by
            rw [List.inj_on_of_nodup_map h.ids ((hmirrors.metrics m).mp hm) hmetric heq]⟩)
          (fun m => mem_raiseTimestamp h.ids hmetric hlt)
        rw [if_pos hraise, hc']
        refine ⟨_, rfl, ⟨hids ▸ h.ids, .inr hm'⟩, hids, .inr ⟨hnew, rfl, ?_, ?_⟩⟩
        · have hin : { metric with lastTimestamp := row.timestamp } ∈ c'.metricCache :=
            (hm'.metrics _).mpr ((mem_raiseTimestamp h.ids hmetric hlt).mpr (.inr rfl))
          exact List.ne_nil_of_mem hin
        · exact .inr ⟨metric, hmetric, hrow, hlt⟩

theorem addMetricData_unknown (hid : row.metricId ∉ s.metric.map Metric.id) :
    s.addMetricData loadFailsAt row = .error s.caches := by
  have hany : (s.metric.any fun metric => metric.id = row.metricId) = false :=
    Bool.eq_false_iff.mpr fun h => hid (any_id.mp h)
  simp only [CoreDatabase.addMetricData, hany, Bool.not_false, if_true]

theorem addMetricDataRows_cons (hfails : failsAt ≠ some 0) :
    s.addMetricDataRows loadFailsAt failsAt (row :: batch) =
      match s.addMetricData loadFailsAt row with
      | .ok t => addMetricDataRows loadFailsAt (failsAt.map Nat.pred) batch t
      | .error caches => .error caches := by
  rcases failsAt with _ | _ | k
  · rfl
  · exact absurd rfl hfails
  · rfl

theorem processed_cons {ids : List String} (hfails : failsAt ≠ some 0) :
    processed ids failsAt (row :: batch) =
      if row.metricId ∈ ids then row :: processed ids (failsAt.map Nat.pred) batch else [] := by
  rcases failsAt with _ | _ | k
  · rfl
  · exact absurd rfl hfails
  · rfl

/-- What a batch of rows leaves: with the rows up to a failure none of which raised a
timestamp the table is as it was, and the maps still follow it. -/
def Leaves (s : CoreDatabase) (rows : List MetricData) : Except Caches CoreDatabase → Prop
  | .ok t => t.Good ∧ (¬ Raises s.metric s.metricData rows → t.metric = s.metric)
  | .error caches => ¬ Raises s.metric s.metricData rows → Follow s.metric caches

theorem Good.addMetricDataRows (h : s.Good)
    (hload : s.caches.metricCache = [] →
      (∃ row ∈ processed (s.metric.map Metric.id) failsAt batch, row.key ∉ s.metricData) →
      Loads s.metric loadFailsAt) :
    s.Leaves (processed (s.metric.map Metric.id) failsAt batch)
      (s.addMetricDataRows loadFailsAt failsAt batch) := by
  induction batch generalizing s failsAt with
  | nil =>
    rcases failsAt with _ | _ | k
    · exact ⟨h, fun _ => rfl⟩
    · exact fun _ => h.follow
    · exact ⟨h, fun _ => rfl⟩
  | cons row batch ih =>
    by_cases hfails : failsAt = some 0
    · subst hfails
      exact fun _ => h.follow
    rw [addMetricDataRows_cons hfails]
    rw [processed_cons hfails] at hload ⊢
    by_cases hid : row.metricId ∈ s.metric.map Metric.id
    · rw [if_pos hid] at hload ⊢
      obtain ⟨t, ht, hgood, hids, hrow⟩ := h.addMetricData hid
        fun hnil hnew => hload hnil ⟨row, List.mem_cons_self, hnew⟩
      rw [ht]
      rcases hrow with ⟨hin, rfl⟩ | ⟨hnew, hdata, hne, hraise⟩
      · -- The row is there already.
        have hrest := @ih _ (failsAt.map Nat.pred) h fun hnil hrows =>
          hload hnil (hrows.imp fun _ hr => ⟨List.mem_cons_of_mem _ hr.1, hr.2⟩)
        unfold Leaves at hrest ⊢
        simpa only [Raises, if_pos hin] using hrest
      · have hrest := @ih _ (failsAt.map Nat.pred) hgood fun hnil => absurd hnil hne
        rw [hids] at hrest
        unfold Leaves at hrest ⊢
        simp only [Raises, if_neg hnew, not_or]
        rcases hraise with hsame | hraise
        · simp only [hsame, hdata] at hrest
          split
          · rename_i u hu
            simp only [hu] at hrest
            exact ⟨hrest.1, fun hno => hrest.2 hno.2⟩
          · rename_i caches hu
            simp only [hu] at hrest
            exact fun hno => hrest hno.2
        · split
          · rename_i u hu
            simp only [hu] at hrest
            exact ⟨hrest.1, fun hno => absurd hraise hno.1⟩
          · exact fun hno => absurd hraise hno.1
    · rw [addMetricData_unknown hid]
      exact fun _ => h.follow

/-- A batch all of whose rows are processed does not fail. -/
theorem addMetricDataRows_ok (h : s.Good)
    (hload : s.caches.metricCache = [] → (∃ row ∈ batch, row.key ∉ s.metricData) →
      Loads s.metric loadFailsAt)
    (hall : processed (s.metric.map Metric.id) failsAt batch = batch)
    (hlen : ∀ k ∈ failsAt, batch.length < k) :
    ∃ t, s.addMetricDataRows loadFailsAt failsAt batch = .ok t := by
  have hfails : failsAt ≠ some 0 := fun heq => absurd (hlen 0 heq) (Nat.not_lt_zero _)
  induction batch generalizing s failsAt with
  | nil =>
    rcases failsAt with _ | _ | k
    · exact ⟨s, rfl⟩
    · exact absurd rfl hfails
    · exact ⟨s, rfl⟩
  | cons row batch ih =>
    rw [processed_cons hfails] at hall
    split at hall
    · rename_i hid
      obtain ⟨t, ht, hgood, hids, hrow⟩ := h.addMetricData hid
        fun hnil hnew => hload hnil ⟨row, List.mem_cons_self, hnew⟩
      have hlen' : ∀ k ∈ failsAt.map Nat.pred, batch.length < k := by
        intro k hk
        obtain ⟨j, hj, rfl⟩ := Option.map_eq_some_iff.mp hk
        have hlt := hlen j hj
        rw [List.length_cons] at hlt
        exact Nat.lt_pred_of_succ_lt hlt
      have hfails' : failsAt.map Nat.pred ≠ some 0 :=
        fun heq => absurd (hlen' 0 heq) (Nat.not_lt_zero _)
      rw [addMetricDataRows_cons hfails, ht]
      refine ih hgood ?_ (hids.symm ▸ (List.cons.inj hall).2) hlen' hfails'
      intro hnil hrows
      rcases hrow with ⟨-, rfl⟩ | ⟨-, -, hne, -⟩
      · exact hload hnil (hrows.imp fun _ hr => ⟨List.mem_cons_of_mem _ hr.1, hr.2⟩)
      · exact absurd hnil hne
    · cases hall

theorem Good.addMetricDataBatch {commits : Bool} (h : s.Good)
    (hg : s.Follows (.addMetricDataBatch batch failsAt commits loadFailsAt)) :
    (s.addMetricDataBatch batch failsAt commits loadFailsAt).Good := by
  unfold CoreDatabase.addMetricDataBatch
  split
  · exact h
  obtain ⟨hload, hdone⟩ := hg
  have hleaves := h.addMetricDataRows hload
  rcases hdone with ⟨hall, hlen, hcommits⟩ | hno
  · rw [hall] at hload
    obtain ⟨t, ht⟩ := addMetricDataRows_ok h hload hall hlen
    rw [ht] at hleaves ⊢
    simp only [endTransaction]
    rw [if_pos hcommits]
    exact ⟨hleaves.1.ids, hleaves.1.follow⟩
  · split
    · rename_i t ht
      rw [ht] at hleaves
      simp only [endTransaction]
      split
      · exact ⟨hleaves.1.ids, hleaves.1.follow⟩
      · exact h.setCaches (hleaves.2 hno ▸ hleaves.1.follow)
    · rename_i caches ht
      rw [ht] at hleaves
      exact h.setCaches (hleaves hno)

/-- An operation that follows keeps the maps with the table. -/
theorem Good.act {a : Action} (h : s.Good) (hg : s.Follows a) : (s.act a).Good := by
  cases a with
  | getAllMetrics failsAt => exact h.setCaches (h.follow.getMetricCache h.ids hg)
  | getAllInstances failsAt =>
    simp only [CoreDatabase.act]
    split
    · rename_i hnil
      exact h.setCaches (load_follow h.ids (hg hnil))
    · exact h
  | addMetric metric inserts commits failsAt => exact h.addMetric hg
  | updateMetric metric updates commits failsAt => exact h.updateMetric hg
  | deleteMetric id deletes commits failsAt failsAgainAt => exact h.deleteMetric hg
  | addMetricDataBatch batch failsAt commits loadFailsAt => exact h.addMetricDataBatch hg

instance (rows : List Metric) (failsAt : Option ℕ) : Decidable (Loads rows failsAt) :=
  inferInstanceAs (Decidable (_ ∧ _))

instance (rows : List Metric) (failsAt : Option ℕ) : Decidable (LoadsNone rows failsAt) :=
  inferInstanceAs (Decidable (_ ∨ ∃ metric ∈ rows.head?, ¬ metric.Named))

instance (s : CoreDatabase) (metric : Metric) (rows : List Metric) (commits : Bool)
    (failsAt : Option ℕ) : Decidable (s.Puts metric rows commits failsAt) :=
  inferInstanceAs (Decidable (_ ∧ _ ∧ _ ∧ _))

instance decidableRaises (rows : List Metric) :
    (data : List (String × ℤ)) → (batch : List MetricData) → Decidable (Raises rows data batch)
  | _, [] => inferInstanceAs (Decidable False)
  | data, row :: batch =>
    have := decidableRaises rows data batch
    have := decidableRaises rows (row.key :: data) batch
    inferInstanceAs (Decidable (if row.key ∈ data then Raises rows data batch
      else (∃ metric ∈ rows, metric.id = row.metricId ∧ metric.lastTimestamp < row.timestamp) ∨
        Raises rows (row.key :: data) batch))

instance (s : CoreDatabase) : (a : Action) → Decidable (s.Follows a)
  | .getAllMetrics _ | .getAllInstances _ => inferInstanceAs (Decidable (_ → _ ∨ _))
  | .addMetric metric _ commits failsAt =>
    inferInstanceAs (Decidable (_ → s.Puts metric (replaceRow metric s.metric) commits failsAt))
  | .updateMetric metric _ commits failsAt =>
    inferInstanceAs (Decidable (_ → _ → s.Puts metric (updateRow metric s.metric) commits failsAt))
  | .deleteMetric id _ _ failsAt _ =>
    inferInstanceAs (Decidable (_ → _ → _ ∧ (_ → Loads (deleteRow id s.metric) failsAt ∨
      LoadsNone (deleteRow id s.metric) failsAt)))
  | .addMetricDataBatch batch failsAt _ loadFailsAt =>
    inferInstanceAs (Decidable ((_ → (∃ row ∈ processed (s.metric.map Metric.id) failsAt batch,
      row.key ∉ s.metricData) → Loads s.metric loadFailsAt) ∧ ((_ ∧ _ ∧ _) ∨ ¬ Raises _ _ _)))

end CoreDatabase

/-- In a run all of whose operations follow, the maps are coherent with the table in every
state it passes through. -/
theorem metric_cache_coherent {tr : List (CoreDatabase × CoreDatabase.Action)} {s : CoreDatabase}
    (h : Run CoreDatabase.system tr s) (hg : ∀ p ∈ tr, p.1.Follows p.2) :
    ∀ t ∈ statesOf tr s, t.Coherent := by
  refine h.forall_states (I := CoreDatabase.Good) (Q := CoreDatabase.Coherent)
    (G := CoreDatabase.Follows) ?_ ?_ ?_ hg
  · intro s hinit
    exact ⟨hinit.1, .inl hinit.2⟩
  · intro a s t hs hfollows hn
    exact Option.some.inj hn ▸ hs.act hfollows
  · exact fun _ hs => hs.coherent

def exampleMetric (id instance' : String) : Metric := ⟨id, some instance', some "server", 0⟩

/-- A table with two metrics, as the application finds it. -/
def exampleDatabase : CoreDatabase :=
  ⟨[exampleMetric "a" "i", exampleMetric "b" "j"], [], ⟨[], []⟩⟩

/-- The cache is loaded, a batch raises a timestamp, another one fails at its first row, a
metric is added with an instance of its own, and it is deleted. -/
def followingOperations : List CoreDatabase.Action :=
  [.getAllMetrics (some 0), .getAllMetrics none,
    .addMetricDataBatch [⟨"a", 1, 5⟩, ⟨"a", 1, 6⟩, ⟨"a", 2, 4⟩] none true none,
    .addMetricDataBatch [⟨"c", 1, 7⟩, ⟨"a", 3, 7⟩] none true none,
    .addMetric (exampleMetric "c" "k") true true none, .deleteMetric "c" true true none none]

theorem metric_cache_coherent_following :
    ∃ tr s, Run CoreDatabase.system tr s ∧
      s.metric = [⟨"a", some "i", some "server", 5⟩, exampleMetric "b" "j"] ∧
      ∀ t ∈ statesOf tr s, t.Coherent := by
  have hinit : CoreDatabase.system.init exampleDatabase := ⟨by decide, rfl⟩
  have hexec : ∃ s, CoreDatabase.system.exec followingOperations exampleDatabase = some s ∧
      s.metric = [⟨"a", some "i", some "server", 5⟩, exampleMetric "b" "j"] := ⟨_, rfl, by decide⟩
  obtain ⟨s, hs, hmetric⟩ := hexec
  have hrun := (Run.init hinit).exec_trace hs
  exact ⟨_, s, hrun, hmetric, metric_cache_coherent hrun (by decide)⟩

/-- A batch with a row of an unknown metric is rolled back after it has raised a timestamp
in the cache; a metric that goes to another instance leaves its old one behind; and a load
that fails at the second row leaves the first. -/
theorem metric_cache_not_coherent :
    (∃ s, CoreDatabase.system.exec [.addMetricDataBatch [⟨"a", 1, 5⟩, ⟨"c", 1, 6⟩] none true none]
        exampleDatabase = some s ∧ Reachable CoreDatabase.system s ∧ ¬ s.Coherent) ∧
    (∃ s, CoreDatabase.system.exec
        [.getAllMetrics none, .updateMetric (exampleMetric "a" "k") true true none]
        exampleDatabase = some s ∧ Reachable CoreDatabase.system s ∧ ¬ s.Coherent) ∧
    ∃ s, CoreDatabase.system.exec [.getAllMetrics (some 1)] exampleDatabase = some s ∧
      Reachable CoreDatabase.system s ∧ ¬ s.Coherent := by
  have hinit : CoreDatabase.system.init exampleDatabase := ⟨by decide, rfl⟩
  have hreach : ∀ a, Reachable CoreDatabase.system (exampleDatabase.act a) :=
    fun a => .step a (.init hinit) rfl
  refine ⟨⟨_, rfl, hreach _, ?_⟩, ⟨_, rfl, .step _ (hreach (.getAllMetrics none)) rfl, ?_⟩,
    ⟨_, rfl, hreach _, ?_⟩⟩
  · intro hc
    have hmetrics := (hc.metrics (by decide) "a" 5).mp ⟨⟨"a", some "i", some "server", 5⟩, by decide⟩
    revert hmetrics
    decide
  · intro hc
    have hnames := (hc.instances "i").mp (by decide)
    revert hnames
    decide
  · intro hc
    have hmetrics := (hc.metrics (by decide) "b" 0).mpr ⟨exampleMetric "b" "j", by decide⟩
    revert hmetrics
    decide

end NumentaApps.MobileCore
