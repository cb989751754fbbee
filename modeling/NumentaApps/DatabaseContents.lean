import NumentaApps.DatabaseService

/-!
# What the database holds

The database as files, metrics and models and, for each metric, its data and the results of
its model by index. The puts change just what they put, and a range read returns a sequence
from its offset on.
-/
namespace NumentaApps.Unicorn.DatabaseService

open KeyRange

abbrev Contents (V : Type) := (l : Sublevel) → Id l → Option (Document V)

/-- Indices are written with thirteen digits. -/
def Bounded : (l : Sublevel) → Id l → Prop
  | .file, _ | .metric, _ | .model, _ => True
  | .metricData, x | .modelData, x => x.2 < 10 ^ 13

structure Represents {V : Type} (db : Database V) (c : Contents V) : Prop where
  holds : ∀ l, Holds (keyOf l) (db l) (c l)
  bounded : ∀ l x, (c l x).isSome → Bounded l x

variable {V : Type} {db : Database V} {c : Contents V} {l : Sublevel}

/-! ## Keys -/

theorem dataKey_inj {x y : MetricId × ℕ} (hx : x.2 < 10 ^ 13) (hy : y.2 < 10 ^ 13)
    (h : dataKey x = dataKey y) : x = y := by
  have hlength : x.1.text.length = y.1.text.length := by
    rw [x.1.length_text, y.1.length_text]
  obtain ⟨hid, hindex⟩ := List.append_inj h hlength
  have hdigits := congrArg (Nat.ofDigitChars 10 · 0) (List.cons.inj hindex).2
  simp only [ofDigitChars_indexString hx, ofDigitChars_indexString hy] at hdigits
  exact Prod.ext (MetricId.text_inj hid) hdigits

theorem keyOf_inj {x y : Id l} (hx : Bounded l x) (hy : Bounded l y)
    (h : keyOf l x = keyOf l y) : x = y := by
  cases l with
  | file => exact HashId.ext h
  | metric => exact MetricId.text_inj h
  | model => exact MetricId.text_inj h
  | metricData => exact dataKey_inj hx hy h
  | modelData => exact dataKey_inj hx hy h

/-- What comes after an identifier is below the sentinel. -/
theorem separator_lt (s : Key) : '!' :: s < ['\u00ff'] :=
  List.cons_lt_cons_iff.mpr (.inl (by decide))

theorem separator_le_iff {i j : ℕ} (hi : i < 10 ^ 13) (hj : j < 10 ^ 13) :
    '!' :: indexString i ≤ '!' :: indexString j ↔ i ≤ j := by
  rw [← not_lt, List.cons_lt_cons_iff, indexString_lt_iff hj hi, ← not_lt]
  simp only [lt_irrefl, false_or, true_and]

theorem dataKey_lt_iff (metricId : MetricId) {i j : ℕ} (hi : i < 10 ^ 13) (hj : j < 10 ^ 13) :
    dataKey (metricId, i) < dataKey (metricId, j) ↔ i < j := by
  rw [dataKey, dataKey, generateMetricDataId, generateMetricDataId, append_lt_append_left_iff,
    List.cons_lt_cons_iff, indexString_lt_iff hi hj]
  simp only [lt_irrefl, false_or, true_and]

/-- The keys of the data of a metric, from some text after the identifier on. -/
theorem dataKey_within {metricId : MetricId} {x : MetricId × ℕ} {s : Key} :
    metricId.text ++ s ≤ dataKey x ∧ dataKey x < endOf metricId.text ↔
      x.1 = metricId ∧ s ≤ '!' :: indexString x.2 := by
  have hlength : metricId.text.length = x.1.text.length := by
    rw [metricId.length_text, x.1.length_text]
  rw [dataKey, generateMetricDataId, within_iff hlength (separator_lt _)]
  exact and_congr_left fun _ => ⟨MetricId.text_inj, congrArg MetricId.text⟩

/-! ## Puts -/

def Contents.put (c : Contents V) (l : Sublevel) (x : Id l) (document : Document V) :
    Contents V := Function.update c l (Function.update (c l) x (some document))

/-- The records of a call one after another, or none of them. -/
def Contents.putAll (valid : Sublevel → Document V → Bool) (l : Sublevel)
    (records : List (Id l × Document V)) (c : Contents V) : Contents V :=
  if records.all fun r => valid l r.2 then records.foldl (fun c r => c.put l r.1 r.2) c else c

theorem represents_empty : Represents (Database.empty V) fun _ _ => none :=
  ⟨fun _ => holds_empty, fun _ _ h => by cases h⟩

theorem Represents.put (h : Represents db c) (x : Id l) (hx : Bounded l x)
    (document : Document V) :
    Represents (Function.update db l ((db l).put (keyOf l x) document)) (c.put l x document) := by
  constructor
  · intro l'
    by_cases hl : l' = l
    · subst hl
      rw [Function.update_self, Contents.put, Function.update_self]
      exact (h.holds l').put x document fun y hy => keyOf_inj (h.bounded l' y hy) hx
    · rw [Function.update_of_ne hl, Contents.put, Function.update_of_ne hl]
      exact h.holds l'
  · intro l' y hy
    by_cases hl : l' = l
    · subst hl
      rw [Contents.put, Function.update_self] at hy
      by_cases hyx : y = x
      · exact hyx ▸ hx
      · rw [Function.update_of_ne hyx] at hy
        exact h.bounded l' y hy
    · rw [Contents.put, Function.update_of_ne hl] at hy
      exact h.bounded l' y hy

theorem Represents.putBatch (h : Represents db c) (valid : Sublevel → Document V → Bool)
    {records : List (Id l × Document V)} (hrecords : ∀ r ∈ records, Bounded l r.1) :
    Represents (putBatch valid l records db) (c.putAll valid l records) := by
  have hputs : ∀ (map : OrderedMap Key (Document V)) (c : Contents V),
      Represents (Function.update db l map) c → Represents
        (Function.update db l (records.foldl (fun map r => map.put (keyOf l r.1) r.2) map))
        (records.foldl (fun c r => c.put l r.1 r.2) c) := by
    induction records with
    | nil => exact fun _ _ h => h
    | cons r records ih =>
      intro map c hmap
      have hput := hmap.put r.1 (hrecords r List.mem_cons_self) r.2
      rw [Function.update_self, Function.update_idem] at hput
      exact ih (fun r hr => hrecords r (List.mem_cons_of_mem _ hr)) _ _ hput
  rw [DatabaseService.putBatch, Contents.putAll]
  split
  · refine hputs (db l) c ?_
    rwa [Function.update_eq_self]
  · exact h

/-- The indices of a call are below the limit. -/
def Put.Bounded (op : Put V) : Prop := ∀ r ∈ op.records.2, DatabaseService.Bounded op.records.1 r.1

def Contents.apply (valid : Sublevel → Document V → Bool) (op : Put V) (c : Contents V) :
    Contents V := c.putAll valid op.records.1 op.records.2

theorem Represents.apply (h : Represents db c) (valid : Sublevel → Document V → Bool)
    {op : Put V} (hop : op.Bounded) : Represents (op.apply valid db) (c.apply valid op) :=
  h.putBatch valid hop

/-! ## Reads -/

/-- The records of one metric from an offset on, in the order of their indices. -/
structure IsSequence (records : MetricId × ℕ → Option (Document V)) (metricId : MetricId)
    (offset : ℕ) (read : List (ℕ × Document V)) : Prop where
  increasing : read.Pairwise fun p q => p.1 < q.1
  mem_iff : ∀ i document, (i, document) ∈ read ↔
    offset ≤ i ∧ records (metricId, i) = some document

theorem read_sequence {map : OrderedMap Key (Document V)}
    {records : MetricId × ℕ → Option (Document V)} (h : Holds dataKey map records)
    (hbounded : ∀ x, (records x).isSome → x.2 < 10 ^ 13) {metricId : MetricId} {offset : ℕ}
    {s : Key} (hs : ∀ i, i < 10 ^ 13 → (s ≤ '!' :: indexString i ↔ offset ≤ i)) :
    ∃ read, (map.range (metricId.text ++ s) (endOf metricId.text)).map Prod.snd =
        read.map Prod.snd ∧ IsSequence records metricId offset read := by
  have hread := @Holds.read _ _ _ _ _ _ _ _ _ h (metricId.text ++ s) (endOf metricId.text)
    (fun i => (metricId, i)) (fun i => offset ≤ i)
    (fun x _ hfrom hto => ⟨x.2, Prod.ext (dataKey_within.mp ⟨hfrom, hto⟩).1.symm rfl⟩)
    (fun i hi => by
      rw [dataKey_within, hs i (hbounded _ hi)]
      exact and_iff_right rfl)
    (fun i j hi hj => dataKey_lt_iff metricId (hbounded _ hi) (hbounded _ hj))
  obtain ⟨read, hvalues, hincreasing, hmem⟩ := hread
  exact ⟨read, hvalues.symm, hincreasing, hmem⟩

theorem getModelData_sequence (h : Represents db c) (metricId : MetricId) {offset : Option ℕ}
    (hoffset : offset.getD 0 < 10 ^ 13) :
    ∃ read, IsSequence (c .modelData) metricId (offset.getD 0) read ∧
      getModelData metricId offset db = read.map fun r =>
        ["naive_time", "metric_value", "anomaly_score"].map r.2 := by
  obtain ⟨read, hvalues, hsequence⟩ := @read_sequence _ _ _ (h.holds .modelData)
    (h.bounded .modelData) metricId (offset.getD 0) ('!' :: indexString (offset.getD 0))
    fun i hi => separator_le_iff hoffset hi
  refine ⟨read, hsequence, ?_⟩
  have hrows := congrArg
    (List.map (["naive_time", "metric_value", "anomaly_score"].map · )) hvalues
  rwa [List.map_map, List.map_map] at hrows

theorem getMetricData_sequence (h : Represents db c) (metricId : MetricId) :
    ∃ read, IsSequence (c .metricData) metricId 0 read ∧
      getMetricData metricId db = read.map fun r => ["naive_time", "metric_value"].map r.2 := by
  obtain ⟨read, hvalues, hsequence⟩ := @read_sequence _ _ _ (h.holds .metricData)
    (h.bounded .metricData) metricId 0 [] fun i _ =>
      iff_of_true (not_lt.mp (List.not_lt_nil _)) (Nat.zero_le i)
  refine ⟨read, hsequence, ?_⟩
  rw [List.append_nil] at hvalues
  have hrows := congrArg (List.map (["naive_time", "metric_value"].map · )) hvalues
  rwa [List.map_map, List.map_map] at hrows

end NumentaApps.Unicorn.DatabaseService
