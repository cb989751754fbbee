import Mathlib.Data.List.Range
import Mathlib.Data.List.Sort
import Mathlib.Order.Basic

/-!
# The metric and metric_data tables

A metric row with its data rows, and the repository functions that allocate row
ids and insert samples. Timestamps go through the column that stores them: a
sample has a timestamp of its own type, a row what the column keeps of it.
-/
namespace NumentaApps.Repository

inductive MetricStatus where
  | unmonitored | active | createPending | error | pendingData
  deriving DecidableEq, Repr

/-- A `DATETIME` column: what it keeps of a timestamp, and the timestamp it gives
back. Reading back a kept timestamp loses nothing more. -/
structure DatetimeColumn (T C : Type) [LinearOrder T] [LinearOrder C] where
  keep : T → C
  read : C → T
  keep_mono : Monotone keep
  keep_read : ∀ c, keep (read c) = c

/-- Whole seconds, kept of a timestamp in microseconds. -/
def DatetimeColumn.seconds : DatetimeColumn ℤ ℤ where
  keep t := t / 1000000
  read c := c * 1000000
  keep_mono _ _ h := Int.ediv_le_ediv (by decide) h
  keep_read c := Int.mul_ediv_cancel c (by decide)

structure MetricDataRow (τ V : Type) where
  rowid : ℕ
  timestamp : τ
  metricValue : V
  deriving DecidableEq, Repr

structure Metric (C V : Type) where
  status : MetricStatus
  lastRowid : ℕ
  rows : List (MetricDataRow C V)
  deriving DecidableEq, Repr

abbrev Database (Uid C V : Type) := Uid → Option (Metric C V)

section

variable {T C V Uid : Type}

/-- The data row of a metric with the given rowid, the key of the table. -/
def Metric.rowAt (rowid : ℕ) (m : Metric C V) : Option (MetricDataRow C V) :=
  m.rows.find? fun r => r.rowid = rowid

/-- All the rows of a metric in ascending order of rowid. -/
def Metric.getMetricData (m : Metric C V) : List (MetricDataRow C V) :=
  m.rows.insertionSort fun a b => a.rowid ≤ b.rowid

/-- The resulting last_rowid, and the metric with it. -/
def incrementMetricRowid (amount : ℕ) (m : Metric C V) : ℕ × Metric C V :=
  (m.lastRowid + amount, { m with lastRowid := m.lastRowid + amount })

def Database.set [DecidableEq Uid] (uid : Uid) (m : Metric C V) (db : Database Uid C V) :
    Database Uid C V := Function.update db uid (some m)

@[simp] theorem Database.set_self [DecidableEq Uid] (db : Database Uid C V) (uid : Uid)
    (m : Metric C V) : db.set uid m uid = some m := Function.update_self ..

theorem Database.set_of_ne [DecidableEq Uid] (db : Database Uid C V) {uid uid' : Uid}
    (m : Metric C V) (h : uid' ≠ uid) : db.set uid m uid' = db uid' := Function.update_of_ne h ..

theorem Database.set_cases [DecidableEq Uid] {db : Database Uid C V} {uid uid' : Uid} {m m' : Metric C V}
    (h : db.set uid m uid' = some m') : (uid' = uid ∧ m' = m) ∨ (uid' ≠ uid ∧ db uid' = some m') := by
  unfold Database.set at h
  by_cases hu : uid' = uid
  · subst hu
    rw [Function.update_self] at h
    exact .inl ⟨rfl, (Option.some.inj h).symm⟩
  · rw [Function.update_of_ne hu] at h
    exact .inr ⟨hu, h⟩

/-! ## Keys and order -/

/-- The rowids are the keys of the rows and none is beyond last_rowid. -/
structure Metric.Keyed (m : Metric C V) : Prop where
  nodup : (m.rows.map (·.rowid)).Nodup
  le : ∀ r ∈ m.rows, r.rowid ≤ m.lastRowid

def Metric.Contiguous (m : Metric C V) : Prop :=
  m.rows.map (·.rowid) = List.range' 1 m.lastRowid

def Metric.Increasing [LT C] (m : Metric C V) : Prop :=
  m.rows.Pairwise fun a b => a.timestamp < b.timestamp

theorem Metric.Keyed.rowAt_of_mem {m : Metric C V} (h : m.Keyed) {r : MetricDataRow C V}
    (hr : r ∈ m.rows) : m.rowAt r.rowid = some r := by
  unfold Metric.rowAt
  cases hf : m.rows.find? (fun r' => r'.rowid = r.rowid) with
  | none => simpa using List.find?_eq_none.mp hf r hr
  | some r' =>
    have hid : r'.rowid = r.rowid := by simpa using List.find?_some hf
    rw [List.inj_on_of_nodup_map h.nodup (List.mem_of_find?_eq_some hf) hr hid]

theorem Metric.Contiguous.keyed {m : Metric C V} (h : m.Contiguous) : m.Keyed := by
  refine ⟨h ▸ List.nodup_range', fun r hr => ?_⟩
  have hmem : r.rowid ∈ m.rows.map (·.rowid) := List.mem_map_of_mem hr
  rw [h, List.mem_range'_1] at hmem
  omega

/-- Contiguous rows are read back in the order of the table. -/
theorem Metric.Contiguous.getMetricData_eq {m : Metric C V} (h : m.Contiguous) :
    m.getMetricData = m.rows := by
  have hlt : (m.rows.map (·.rowid)).Pairwise (· < ·) := h ▸ List.pairwise_lt_range'
  refine List.Pairwise.insertionSort_eq ?_
  rw [List.pairwise_map] at hlt
  exact hlt.imp fun hab => hab.le

/-- The rows an insert makes of some samples, after a given last_rowid. -/
def rowsAfter (lastRowid : ℕ) (data : List (V × T)) : List (MetricDataRow T V) :=
  (data.zipIdx (lastRowid + 1)).map fun p => ⟨p.2, p.1.2, p.1.1⟩

@[simp] theorem rowsAfter_nil (n : ℕ) : rowsAfter n ([] : List (V × T)) = [] := rfl

@[simp] theorem rowsAfter_cons (n : ℕ) (x : V × T) (data : List (V × T)) :
    rowsAfter n (x :: data) = ⟨n + 1, x.2, x.1⟩ :: rowsAfter (n + 1) data := rfl

@[simp] theorem rowsAfter_eq_nil {n : ℕ} {data : List (V × T)} : rowsAfter n data = [] ↔ data = [] := by
  simp [rowsAfter]

theorem rowsAfter_rowids (n : ℕ) (data : List (V × T)) :
    (rowsAfter n data).map (·.rowid) = List.range' (n + 1) data.length := by
  induction data generalizing n with
  | nil => rfl
  | cons x data ih => simp [ih, List.range'_succ]

theorem rowsAfter_timestamps (n : ℕ) (data : List (V × T)) :
    (rowsAfter n data).map (·.timestamp) = data.map Prod.snd := by
  induction data generalizing n with
  | nil => rfl
  | cons x data ih => simp [ih]

/-- The last row of an insert has the new last_rowid and the last timestamp. -/
theorem rowsAfter_getLast? (n : ℕ) (data : List (V × T)) (x : V × T) :
    (rowsAfter n (data ++ [x])).getLast? = some ⟨n + data.length + 1, x.2, x.1⟩ := by
  induction data generalizing n with
  | nil => rfl
  | cons y data ih =>
    rw [List.cons_append, rowsAfter_cons, List.getLast?_cons, ih]
    simp
    omega

end

variable {T C V : Type} [LinearOrder T] [LinearOrder C]

/-- What the column keeps of a row. -/
def DatetimeColumn.keepRow (col : DatetimeColumn T C) (r : MetricDataRow T V) : MetricDataRow C V :=
  ⟨r.rowid, col.keep r.timestamp, r.metricValue⟩

/-- The rows made of the samples, in ascending order of rowid, as they were passed
to the insert, and the metric with the rows inserted. -/
def addMetricData (col : DatetimeColumn T C) (data : List (V × T)) (m : Metric C V) :
    List (MetricDataRow T V) × Metric C V :=
  if data = [] then ([], m)
  else
    let (lastRowid, m) := incrementMetricRowid data.length m
    let rows := (data.zipIdx (lastRowid - data.length + 1)).map fun p =>
      (⟨p.2, p.1.2, p.1.1⟩ : MetricDataRow T V)
    (rows, { m with rows := m.rows ++ rows.map col.keepRow })

theorem map_keepRow_rowids (col : DatetimeColumn T C) (rows : List (MetricDataRow T V)) :
    (rows.map col.keepRow).map (·.rowid) = rows.map (·.rowid) := by
  simp [DatetimeColumn.keepRow]

theorem addMetricData_eq (col : DatetimeColumn T C) (data : List (V × T)) (m : Metric C V) :
    addMetricData col data m = (rowsAfter m.lastRowid data,
      { m with
        lastRowid := m.lastRowid + data.length
        rows := m.rows ++ (rowsAfter m.lastRowid data).map col.keepRow }) := by
  unfold addMetricData
  split
  · rename_i h
    subst h
    simp [rowsAfter]
  · simp [incrementMetricRowid, rowsAfter]

theorem addMetricData_contiguous {m : Metric C V} (h : m.Contiguous) (col : DatetimeColumn T C)
    (data : List (V × T)) : (addMetricData col data m).2.Contiguous := by
  rw [addMetricData_eq]
  unfold Metric.Contiguous at h ⊢
  rw [List.map_append, map_keepRow_rowids, h, rowsAfter_rowids, Nat.add_comm m.lastRowid 1,
    List.range'_append_1]

theorem addMetricData_keyed {m : Metric C V} (h : m.Keyed) (col : DatetimeColumn T C)
    (data : List (V × T)) : (addMetricData col data m).2.Keyed := by
  rw [addMetricData_eq]
  have hnew : ∀ r ∈ (rowsAfter m.lastRowid data).map col.keepRow,
      m.lastRowid < r.rowid ∧ r.rowid ≤ m.lastRowid + data.length := by
    intro r hr
    have hmem : r.rowid ∈ ((rowsAfter m.lastRowid data).map col.keepRow).map (·.rowid) :=
      List.mem_map_of_mem hr
    rw [map_keepRow_rowids, rowsAfter_rowids, List.mem_range'_1] at hmem
    omega
  constructor
  · rw [List.map_append, List.nodup_append]
    refine ⟨h.nodup, ?_, ?_⟩
    · rw [map_keepRow_rowids, rowsAfter_rowids]
      exact List.nodup_range'
    · rintro _ ha _ hb rfl
      obtain ⟨r, hr, hrr⟩ := List.mem_map.mp ha
      obtain ⟨r', hr', hrr'⟩ := List.mem_map.mp hb
      have hle := h.le r hr
      have hlt := (hnew r' hr').1
      omega
  · intro r hr
    rcases List.mem_append.mp hr with hr | hr
    · exact (h.le r hr).trans (Nat.le_add_right _ _)
    · exact (hnew r hr).2

/-- The row with the new last_rowid is the last one inserted. -/
theorem rowAt_addMetricData {m : Metric C V} (h : m.Keyed) (col : DatetimeColumn T C)
    (data : List (V × T)) (x : V × T) :
    (addMetricData col (data ++ [x]) m).2.rowAt (addMetricData col (data ++ [x]) m).2.lastRowid =
      some ⟨m.lastRowid + data.length + 1, col.keep x.2, x.1⟩ := by
  have hk := addMetricData_keyed h col (data ++ [x])
  rw [addMetricData_eq] at hk ⊢
  have hlast := List.mem_of_getLast? (rowsAfter_getLast? m.lastRowid data x)
  have hrow : col.keepRow ⟨m.lastRowid + data.length + 1, x.2, x.1⟩ ∈
      m.rows ++ (rowsAfter m.lastRowid (data ++ [x])).map col.keepRow :=
    List.mem_append_right _ (List.mem_map_of_mem hlast)
  have hid : m.lastRowid + (data ++ [x]).length = m.lastRowid + data.length + 1 := by
    simp [Nat.add_assoc]
  have hat := hk.rowAt_of_mem hrow
  simp only [hid]
  exact hat

/-- An insert keeps the timestamps increasing exactly when the first inserted
row is newer than every row and the inserted ones are increasing. -/
theorem addMetricData_increasing (col : DatetimeColumn T C) (data : List (V × T)) (m : Metric C V) :
    (addMetricData col data m).2.Increasing ↔
      m.Increasing ∧ (data.map (fun x => col.keep x.2)).Pairwise (· < ·) ∧
        ∀ r ∈ m.rows, ∀ x ∈ data, r.timestamp < col.keep x.2 := by
  have hts : ((rowsAfter m.lastRowid data).map col.keepRow).map (·.timestamp) =
      data.map (fun x => col.keep x.2) := by
    have hmap := congrArg (List.map col.keep) (rowsAfter_timestamps m.lastRowid data)
    simpa [DatetimeColumn.keepRow, Function.comp_def] using hmap
  have hnew : ((rowsAfter m.lastRowid data).map col.keepRow).Pairwise
      (fun a b => a.timestamp < b.timestamp) ↔ (data.map (fun x => col.keep x.2)).Pairwise (· < ·) := by
    rw [← hts]
    simp only [List.pairwise_map]
  have hmem : ∀ c, (∃ r ∈ (rowsAfter m.lastRowid data).map col.keepRow, r.timestamp = c) ↔
      ∃ x ∈ data, col.keep x.2 = c := by
    intro c
    have hiff : c ∈ ((rowsAfter m.lastRowid data).map col.keepRow).map (·.timestamp) ↔
        c ∈ data.map (fun x => col.keep x.2) := by rw [hts]
    simpa only [List.mem_map] using hiff
  rw [addMetricData_eq]
  unfold Metric.Increasing
  rw [List.pairwise_append, hnew]
  refine and_congr_right fun _ => and_congr_right fun _ => ?_
  constructor
  · intro h r hr x hx
    obtain ⟨r', hr', heq⟩ := (hmem (col.keep x.2)).mpr ⟨x, hx, rfl⟩
    exact heq ▸ h r hr r' hr'
  · intro h r hr r' hr'
    obtain ⟨x, hx, heq⟩ := (hmem r'.timestamp).mp ⟨r', hr', rfl⟩
    exact heq ▸ h r hr x hx

/-- The first of several increasing samples decides against the rows before. -/
theorem Metric.Increasing.all_newer {m : Metric C V} (h : m.Increasing) (col : DatetimeColumn T C)
    {data : List (T × V)} (hd : (data.map Prod.fst).Pairwise (· < ·)) :
    (∀ r ∈ m.rows, ∀ x ∈ data, r.timestamp < col.keep x.1) ↔
      ∀ r ∈ m.rows.getLast?, ∀ x ∈ data.head?, r.timestamp < col.keep x.1 := by
  constructor
  · intro hall r hr x hx
    exact hall r (List.mem_of_getLast? hr) x (List.mem_of_head? hx)
  · intro hfirst r hr x hx
    obtain ⟨rest, last, hrows⟩ := (List.eq_nil_or_concat' m.rows).resolve_left (List.ne_nil_of_mem hr)
    have hlast : m.rows.getLast? = some last := by simp [hrows]
    have hle : r.timestamp ≤ last.timestamp := by
      unfold Metric.Increasing at h
      rw [hrows, List.pairwise_append] at h
      rw [hrows] at hr
      rcases List.mem_append.mp hr with hr | hr
      · exact (h.2.2 r hr last (List.mem_singleton_self _)).le
      · rw [List.mem_singleton.mp hr]
    cases data with
    | nil => cases hx
    | cons y data =>
      have hy : y.1 ≤ x.1 := by
        rw [List.map_cons, List.pairwise_cons] at hd
        rcases List.mem_cons.mp hx with rfl | hx
        · exact le_refl _
        · exact (hd.1 x.1 (List.mem_map_of_mem hx)).le
      exact hle.trans_lt ((hfirst last hlast y rfl).trans_le (col.keep_mono hy))

/-- Increasing timestamps are kept increasing when they are kept apart. -/
theorem DatetimeColumn.pairwise_keep_iff (col : DatetimeColumn T C) {data : List (T × V)}
    (hd : (data.map Prod.fst).Pairwise (· < ·)) :
    (data.map fun x => col.keep x.1).Pairwise (· < ·) ↔ (data.map fun x => col.keep x.1).Nodup := by
  constructor
  · exact fun h => h.imp fun hab => hab.ne
  · intro h
    have hle : (data.map fun x => col.keep x.1).Pairwise (· ≤ ·) := by
      rw [List.pairwise_map] at hd ⊢
      exact hd.imp fun hab => col.keep_mono hab.le
    exact (hle.and h).imp fun hab => lt_of_le_of_ne hab.1 hab.2

end NumentaApps.Repository
