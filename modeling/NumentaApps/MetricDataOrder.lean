import NumentaApps.MetricStreamer
import NumentaApps.TransitionSystem

/-!
# The order of metric_data

Any number of streamers, each with a cache of its own, store batches for any
number of metrics. Row ids are contiguous whatever they do; the timestamps stay
increasing exactly as long as no streamer accepts a sample against a stale tail
and the timestamp column keeps the accepted samples apart.
-/
namespace NumentaApps.Runtime
open TransitionSystem Repository

structure Stores (Uid T C V : Type) where
  db : Database Uid C V
  streamers : ℕ → MetricStreamer Uid T

namespace Stores

inductive Action (Uid T V : Type) where
  | createMetric (uid : Uid)
  | setMetricStatus (uid : Uid) (status : MetricStatus)
  | commit (streamer : ℕ) (now : ℤ) (uid : Uid) (data : List (T × V))
  | abort (streamer : ℕ) (now : ℤ) (uid : Uid) (data : List (T × V)) (point : AbortPoint)

variable {Uid T C V : Type} [LinearOrder T] [LinearOrder C] [DecidableEq Uid]

def act (col : DatetimeColumn T C) : Action Uid T V → Stores Uid T C V → Option (Stores Uid T C V)
  | .createMetric uid, s =>
    match s.db uid with
    | some _ => none
    | none => some { s with db := s.db.set uid ⟨.unmonitored, 0, []⟩ }
  | .setMetricStatus uid status, s =>
    (s.db uid).map fun m => { s with db := s.db.set uid { m with status := status } }
  | .commit i now uid data, s =>
    (s.db uid).map fun m =>
      let r := (s.streamers i).storeData col now uid data m
      { db := s.db.set uid r.metric, streamers := Function.update s.streamers i r.streamer }
  | .abort i now uid data point, s =>
    (s.db uid).map fun m =>
      let st := (s.streamers i).abortedAttempt col now uid data m point
      { s with streamers := Function.update s.streamers i st }

/-- The tail timestamp the scrub of a store starts from. -/
def tailOf (col : DatetimeColumn T C) (i : ℕ) (now : ℤ) (uid : Uid) (m : Metric C V)
    (s : Stores Uid T C V) : Option T :=
  ((s.streamers i).getTailMetricRowTimestamp col now uid m).1

/-- The first sample that a store accepts is kept newer than the newest row, and
the accepted samples are kept apart. -/
def InOrder (col : DatetimeColumn T C) (s : Stores Uid T C V) : Action Uid T V → Prop
  | .commit i now uid data => ∀ m, s.db uid = some m → m.status ≠ .error →
      (∀ r ∈ m.rows.getLast?,
        ∀ x ∈ (MetricStreamer.scrubDataSamples (s.tailOf col i now uid m) data).head?,
          r.timestamp < col.keep x.1) ∧
      ((MetricStreamer.scrubDataSamples (s.tailOf col i now uid m) data).map
        fun x => col.keep x.1).Nodup
  | _ => True

def Contiguous (s : Stores Uid T C V) : Prop := ∀ uid m, s.db uid = some m → m.Contiguous

def Increasing (s : Stores Uid T C V) : Prop := ∀ uid m, s.db uid = some m → m.Increasing

end Stores

section

variable {Uid T C V : Type} [LinearOrder T] [LinearOrder C]

def storesSystem [DecidableEq Uid] (col : DatetimeColumn T C) :
    System (Stores Uid T C V) (Stores.Action Uid T V) where
  init s := s.Contiguous ∧ s.Increasing
  next := Stores.act col

end

namespace Stores

variable {Uid T C V : Type} [LinearOrder T] [LinearOrder C] [DecidableEq Uid]
variable {col : DatetimeColumn T C} {s t : Stores Uid T C V}

/-- A store keeps a metric in order exactly when its first accepted sample is newer
than the newest row and the accepted ones are kept apart. -/
theorem storeData_increasing {st : MetricStreamer Uid T} {now : ℤ} {uid : Uid} {data : List (T × V)}
    {m : Metric C V} :
    (st.storeData col now uid data m).metric.Increasing ↔ m.Increasing ∧ (m.status ≠ .error →
      (∀ r ∈ m.rows.getLast?, ∀ x ∈ (MetricStreamer.scrubDataSamples
          (st.getTailMetricRowTimestamp col now uid m).1 data).head?, r.timestamp < col.keep x.1) ∧
        ((MetricStreamer.scrubDataSamples (st.getTailMetricRowTimestamp col now uid m).1 data).map
          fun x => col.keep x.1).Nodup) := by
  have hsorted := (MetricStreamer.scrub_spec (st.getTailMetricRowTimestamp col now uid m).1 data).1
  rw [MetricStreamer.storeData_metric]
  split
  · rename_i he
    simp [he]
  · rename_i he
    rw [addMetricData_increasing]
    refine and_congr_right fun hm => ?_
    have hnewer := hm.all_newer col hsorted
    have hkeep := col.pairwise_keep_iff hsorted
    simp only [List.map_map, Function.comp_def, Prod.snd_swap, List.forall_mem_map, hkeep, hnewer]
    constructor
    · exact fun h _ => ⟨h.2, h.1⟩
    · exact fun h => ⟨(h he).2, (h he).1⟩

theorem act_contiguous {a : Action Uid T V} (h : s.Contiguous) (ht : s.act col a = some t) :
    t.Contiguous := by
  cases a with
  | createMetric uid =>
    simp only [act] at ht
    split at ht
    · cases ht
    · cases ht
      intro uid' m' hm'
      rcases Database.set_cases hm' with ⟨-, rfl⟩ | ⟨-, hm'⟩
      · simp [Metric.Contiguous]
      · exact h uid' m' hm'
  | setMetricStatus uid status =>
    obtain ⟨m, hm, rfl⟩ := Option.map_eq_some_iff.mp ht
    intro uid' m' hm'
    rcases Database.set_cases hm' with ⟨-, rfl⟩ | ⟨-, hm'⟩
    · exact h uid m hm
    · exact h uid' m' hm'
  | commit i now uid data =>
    obtain ⟨m, hm, rfl⟩ := Option.map_eq_some_iff.mp ht
    intro uid' m' hm'
    rcases Database.set_cases hm' with ⟨-, rfl⟩ | ⟨-, hm'⟩
    · exact MetricStreamer.storeData_contiguous (h uid m hm)
    · exact h uid' m' hm'
  | abort i now uid data point =>
    obtain ⟨m, hm, rfl⟩ := Option.map_eq_some_iff.mp ht
    exact h

omit [LinearOrder T] in
theorem increasing_set_iff {Q : Prop} {uid : Uid} {m m' : Metric C V}
    {streamers : ℕ → MetricStreamer Uid T} (hm : s.db uid = some m)
    (h : m'.Increasing ↔ m.Increasing ∧ Q) :
    Increasing ⟨s.db.set uid m', streamers⟩ ↔ s.Increasing ∧ Q := by
  constructor
  · intro hnew
    obtain ⟨hold, hq⟩ := h.mp (hnew uid m' (s.db.set_self uid m'))
    refine ⟨fun uid' m₁ hm₁ => ?_, hq⟩
    by_cases hu : uid' = uid
    · subst hu
      obtain rfl : m = m₁ := Option.some.inj (hm.symm.trans hm₁)
      exact hold
    · exact hnew uid' m₁ ((s.db.set_of_ne m' hu).trans hm₁)
  · rintro ⟨hs, hq⟩ uid' m₁ hm₁
    rcases Database.set_cases hm₁ with ⟨-, rfl⟩ | ⟨-, hm₁⟩
    · exact h.mpr ⟨hs uid m hm, hq⟩
    · exact hs uid' m₁ hm₁

/-- A step leaves the metrics in order exactly when they were and the step is in
order. -/
theorem act_increasing {a : Action Uid T V} (ht : s.act col a = some t) :
    t.Increasing ↔ s.Increasing ∧ s.InOrder col a := by
  cases a with
  | createMetric uid =>
    simp only [act] at ht
    split at ht
    · cases ht
    · rename_i hnone
      cases ht
      simp only [InOrder, and_true]
      constructor
      · intro h uid' m' hm'
        have hu : uid' ≠ uid := by
          rintro rfl
          simp [hnone] at hm'
        exact h uid' m' ((s.db.set_of_ne _ hu).trans hm')
      · intro h uid' m' hm'
        rcases Database.set_cases hm' with ⟨-, rfl⟩ | ⟨-, hm'⟩
        · exact List.Pairwise.nil
        · exact h uid' m' hm'
  | setMetricStatus uid status =>
    obtain ⟨m, hm, rfl⟩ := Option.map_eq_some_iff.mp ht
    exact increasing_set_iff hm (and_iff_left trivial).symm
  | commit i now uid data =>
    obtain ⟨m, hm, rfl⟩ := Option.map_eq_some_iff.mp ht
    refine increasing_set_iff hm (storeData_increasing.trans (and_congr_right fun _ => ?_))
    constructor
    · intro h m' hm'
      obtain rfl : m = m' := Option.some.inj (hm.symm.trans hm')
      exact h
    · exact fun h => h m hm
  | abort i now uid data point =>
    obtain ⟨m, hm, rfl⟩ := Option.map_eq_some_iff.mp ht
    exact (and_iff_left trivial).symm

end Stores

variable {Uid T C V : Type} [LinearOrder T] [LinearOrder C] [DecidableEq Uid]

/-- In every run the row ids are contiguous from 1 to last_rowid, and the
timestamps are increasing in rowid order exactly when every store of the run was
in order. -/
theorem metricData_ordered_iff {col : DatetimeColumn T C}
    {tr : List (Stores Uid T C V × Stores.Action Uid T V)} {s : Stores Uid T C V}
    (h : Run (storesSystem col) tr s) :
    (∀ uid m, s.db uid = some m → m.rows.map (·.rowid) = List.range' 1 m.lastRowid) ∧
      ((∀ uid m, s.db uid = some m → m.rows.Pairwise fun a b => a.timestamp < b.timestamp) ↔
        ∀ p ∈ tr, p.1.InOrder col p.2) := by
  induction h with
  | init h =>
    refine ⟨h.1, fun _ => by simp, fun _ => h.2⟩
  | @step tr s t a hs ht ih =>
    refine ⟨Stores.act_contiguous ih.1 ht, (Stores.act_increasing ht).trans ?_⟩
    rw [show s.Increasing ↔ ∀ p ∈ tr, p.1.InOrder col p.2 from ih.2]
    simp only [List.mem_append, List.mem_singleton]
    constructor
    · rintro ⟨hold, hnew⟩ p (hp | rfl)
      · exact hold p hp
      · exact hnew
    · exact fun hall => ⟨fun p hp => hall p (.inl hp), hall (s, a) (.inr rfl)⟩

/-- Two streamers of one metric: the first stores the sample of second 10, the
second that of second 30, and the first, whose tail is still 10, that of second 20. -/
def staleTailRun : List (Stores.Action Bool ℤ ℤ) :=
  [.createMetric true, .commit 0 1443000000000000 true [(10000000, 1)], .commit 1 1443000001000000 true [(30000000, 3)],
    .commit 0 1443000002000000 true [(20000000, 2)]]

def noStores : Stores Bool ℤ ℤ ℤ := ⟨fun _ => none, fun _ => .initial Bool ℤ⟩

theorem noStores_init : (storesSystem DatetimeColumn.seconds).init noStores :=
  ⟨fun _ _ h => (by cases h), fun _ _ h => (by cases h)⟩

theorem staleTailRun_exec :
    ∃ s, (storesSystem DatetimeColumn.seconds).exec staleTailRun noStores = some s ∧
      s.db true = some ⟨.unmonitored, 3, [⟨1, 10, 1⟩, ⟨2, 30, 3⟩, ⟨3, 20, 2⟩]⟩ := ⟨_, rfl, rfl⟩

/-- The metric_data rows of a reachable state need not be in order. -/
theorem metricData_not_ordered :
    ¬ ∀ s : Stores Bool ℤ ℤ ℤ, Reachable (storesSystem DatetimeColumn.seconds) s → ∀ uid m,
      s.db uid = some m → m.rows.map (·.rowid) = List.range' 1 m.lastRowid ∧
        m.rows.Pairwise fun a b => a.timestamp < b.timestamp := by
  intro h
  obtain ⟨s, hs, hdb⟩ := staleTailRun_exec
  have hrows := (h s (Reachable.exec (.init noStores_init) hs) true _ hdb).2
  exact absurd hrows (by decide)

theorem metricData_ordered_iff_stale :
    ∃ tr s, Run (storesSystem DatetimeColumn.seconds) tr s ∧ tr.map Prod.snd = staleTailRun ∧
      ((∀ uid m, s.db uid = some m → m.rows.Pairwise fun a b => a.timestamp < b.timestamp) ↔
        ∀ p ∈ tr, p.1.InOrder DatetimeColumn.seconds p.2) := by
  obtain ⟨s, hs, -⟩ := staleTailRun_exec
  obtain ⟨tr, hr, htr⟩ := Run.exec (.init noStores_init) hs
  exact ⟨tr, s, hr, htr, (metricData_ordered_iff hr).2⟩

end NumentaApps.Runtime
