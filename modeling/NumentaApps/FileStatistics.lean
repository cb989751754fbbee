import NumentaApps.CsvReaders
import NumentaApps.SampleStatistics
import Mathlib.Analysis.Real.Sqrt
import Mathlib.Data.List.Forall2

/-!
# The statistics of a file

One pass over the records of a file keeps a running mean and a sum of squares for each field, and
one count of records for all of them. Numbers are exact.
-/
namespace NumentaApps.Unicorn.FileStatistics
open NumericLiteral (jsNumber maxValue minValue)

/-- The text of a cell, which is not one of an infinite number. -/
structure Cell where
  text : String
  finite : ∀ negative, jsNumber text ≠ .infinite negative

/-- `Number`; none where it gives `NaN`. -/
def Cell.number (cell : Cell) : Option ℚ := (jsNumber cell.text).value

/-- An object that the CSV parser gives, with its fields by name. Setting `__proto__` to a text does
not make a field. -/
structure Record where
  cells : List (String × Cell)
  nodup : (cells.map Prod.fst).Nodup
  own : "__proto__" ∉ cells.map Prod.fst

/-- The names of what every object inherits from `Object.prototype`. -/
def objectPrototype : List String :=
  ["constructor", "__defineGetter__", "__defineSetter__", "hasOwnProperty", "__lookupGetter__",
    "__lookupSetter__", "isPrototypeOf", "propertyIsEnumerable", "toString", "valueOf", "__proto__",
    "toLocaleString"]

structure FieldStats (R : Type) where
  min : ℚ
  max : ℚ
  sum : ℚ
  mean : ℚ
  variance : ℚ
  stdev : R

structure Stats (R : Type) where
  count : ℕ
  fields : String → Option (FieldStats R)

section Code
variable {R : Type} [Zero R]

/-- What a field begins with. -/
def initialStats (val : ℚ) : FieldStats R := ⟨maxValue, minValue, 0, val, 0, 0⟩

/-- The statistics of a field after a value in the record of a number. -/
def FieldStats.add (count : ℕ) (val : ℚ) (stats : FieldStats R) : FieldStats R :=
  let stats := { stats with
    min := if val < stats.min then val else stats.min
    max := if val > stats.max then val else stats.max
    sum := stats.sum + val }
  if 1 < count then
    let oldMean := stats.mean
    let newMean := oldMean + (val - oldMean) / count
    { stats with
      mean := newMean
      variance := stats.variance + (val - oldMean) * (val - newMean) }
  else stats

def updateField (count : ℕ) (fields : String → Option (FieldStats R)) (entry : String × Cell) :
    String → Option (FieldStats R) :=
  match entry.2.number with
  | none => fields
  | some val =>
    -- `name in fields` is true of what is inherited, and that is updated instead of a field
    if entry.1 ∈ objectPrototype then fields
    else Function.update fields entry.1
      (some (((fields entry.1).getD (initialStats val)).add count val))

def updateStats (stats : Stats R) (data : Record) : Stats R :=
  { count := stats.count + 1
    fields := data.cells.foldl (updateField (stats.count + 1)) stats.fields }

/-- What is done when all has been read. -/
def finishField (sqrt : ℚ → R) (count : ℕ) (stats : FieldStats R) : FieldStats R :=
  if 1 < count then
    let variance := stats.variance / (count - 1 : ℕ)
    { stats with variance := variance, stdev := sqrt variance }
  else stats

/-- What the callback is given, with a square root. -/
def getStatistics (sqrt : ℚ → R) (records : List Record) : Stats R :=
  let stats := records.foldl updateStats ⟨0, fun _ => none⟩
  { stats with fields := fun name => (stats.fields name).map (finishField sqrt stats.count) }

end Code

/-! ## What the statistics are meant to be -/

/-- The number in a cell that is not missing. -/
def Cell.value (cell : Cell) : Option ℚ :=
  if FileService.isNA (some cell.text) then none else cell.number

def Record.cell (data : Record) (name : String) : Option Cell := data.cells.lookup name

/-- The numeric values of a field. -/
def values (name : String) (records : List Record) : List ℚ :=
  records.filterMap fun data => (data.cell name).bind Cell.value

noncomputable def sqrt (x : ℚ) : ℝ := √(x : ℝ)

/-- The statistics of the values of a field; none where it has none. -/
noncomputable def statisticsOf (values : List ℚ) : Option (FieldStats ℝ) :=
  if values = [] then none
  else some
    { min := values.min?.getD 0
      max := values.max?.getD 0
      sum := values.sum
      mean := SampleStatistics.mean values
      variance := SampleStatistics.variance values
      stdev := sqrt (SampleStatistics.variance values) }

/-- The number of records, and for each field the statistics of its values. -/
def IsStatistics (records : List Record) (stats : Stats ℝ) : Prop :=
  stats.count = records.length ∧ ∀ name, stats.fields name = statisticsOf (values name records)

/-! ## One value more -/

section Add
variable {R : Type} (count : ℕ) (val : ℚ) (stats : FieldStats R)

theorem FieldStats.add_min :
    (stats.add count val).min = Min.min stats.min val := by
  rw [FieldStats.add]
  by_cases hless : val < stats.min
  · simp only [if_pos hless, min_eq_right hless.le]
    split <;> rfl
  · simp only [if_neg hless, min_eq_left (not_lt.mp hless)]
    split <;> rfl

theorem FieldStats.add_max :
    (stats.add count val).max = Max.max stats.max val := by
  rw [FieldStats.add]
  by_cases hless : stats.max < val
  · simp only [gt_iff_lt, if_pos hless, max_eq_right hless.le]
    split <;> rfl
  · simp only [gt_iff_lt, if_neg hless, max_eq_left (not_lt.mp hless)]
    split <;> rfl

theorem FieldStats.add_sum :
    (stats.add count val).sum = stats.sum + val := by
  rw [FieldStats.add]
  split <;> rfl

theorem FieldStats.add_stdev :
    (stats.add count val).stdev = stats.stdev := by
  rw [FieldStats.add]
  split <;> rfl

theorem FieldStats.add_mean (hcount : 1 < count) :
    (stats.add count val).mean = stats.mean + (val - stats.mean) / count := by
  rw [FieldStats.add, if_pos hcount]

theorem FieldStats.add_variance (hcount : 1 < count) :
    (stats.add count val).variance =
      stats.variance + (val - stats.mean) * (val - (stats.mean + (val - stats.mean) / count)) := by
  rw [FieldStats.add, if_pos hcount]

/-- A value that is the mean changes neither the mean nor the variance. -/
theorem FieldStats.add_of_eq (h : stats.mean = val) :
    (stats.add count val).mean = val ∧ (stats.add count val).variance = stats.variance := by
  rw [FieldStats.add, h]
  split
  · simp
  · exact ⟨rfl, rfl⟩

end Add

/-! ## One field of the records -/

section Field
variable {R : Type} [Zero R] {name : String} {records : List Record} {data : Record}

def reading (name : String) (data : Record) : Option ℚ :=
  if name ∈ objectPrototype then none else (data.cell name).bind Cell.number

/-- What the code takes for the numbers of a field. -/
def readings (name : String) (records : List Record) : List ℚ := records.filterMap (reading name)

/-- The statistics of a field after a record. -/
def stepField (count : ℕ) (old : Option (FieldStats R)) (val : Option ℚ) : Option (FieldStats R) :=
  match val with
  | none => old
  | some val => some ((old.getD (initialStats val)).add count val)

theorem updateField_inherited (h : name ∈ objectPrototype) (count : ℕ)
    (fields : String → Option (FieldStats R)) (cell : Cell) :
    updateField count fields (name, cell) = fields := by
  rw [updateField]
  cases cell.number with
  | none => rfl
  | some val => exact if_pos h

theorem updateField_self (h : name ∉ objectPrototype) (count : ℕ)
    (fields : String → Option (FieldStats R)) (cell : Cell) :
    updateField count fields (name, cell) name = stepField count (fields name) cell.number := by
  rw [updateField]
  cases cell.number with
  | none => rfl
  | some val =>
    simp only [if_neg h]
    exact Function.update_self _ _ _

theorem updateField_of_ne (count : ℕ) (fields : String → Option (FieldStats R)) {other : String}
    (cell : Cell) (h : name ≠ other) : updateField count fields (other, cell) name = fields name := by
  rw [updateField]
  cases cell.number with
  | none => rfl
  | some val =>
    simp only
    split
    · rfl
    · exact Function.update_of_ne h _ _

theorem foldl_updateField (count : ℕ) {cells : List (String × Cell)}
    (hnodup : (cells.map Prod.fst).Nodup) (fields : String → Option (FieldStats R)) :
    cells.foldl (updateField count) fields name = stepField count (fields name)
      (if name ∈ objectPrototype then none else (cells.lookup name).bind Cell.number) := by
  induction cells generalizing fields with
  | nil =>
    rw [List.lookup_nil, Option.bind_none, ite_self]
    rfl
  | cons entry cells ih =>
    obtain ⟨other, cell⟩ := entry
    obtain ⟨hnotMem, hnodup⟩ := List.nodup_cons.mp hnodup
    rw [List.foldl_cons, ih hnodup]
    by_cases hinherited : name ∈ objectPrototype
    · rw [if_pos hinherited, if_pos hinherited]
      by_cases h : name = other
      · subst h
        rw [updateField_inherited hinherited]
      · rw [updateField_of_ne count fields cell h]
    rw [if_neg hinherited, if_neg hinherited]
    by_cases h : name = other
    · subst h
      have hlookup : cells.lookup name = none := by
        apply List.lookup_eq_none_iff.mpr
        intro entry hentry
        apply bne_iff_ne.mpr
        intro heq
        exact hnotMem (List.mem_map.mpr ⟨entry, hentry, heq.symm⟩)
      rw [updateField_self hinherited, hlookup, List.lookup_cons_self]
      rfl
    · rw [updateField_of_ne count fields cell h, List.lookup_cons, beq_false_of_ne h]

def statsAfter (records : List Record) : Stats R := records.foldl updateStats ⟨0, fun _ => none⟩

theorem statsAfter_append (records : List Record) (data : Record) :
    (statsAfter (records ++ [data]) : Stats R) = updateStats (statsAfter records) data := by
  rw [statsAfter, List.foldl_append]
  rfl

theorem statsAfter_count (records : List Record) :
    (statsAfter records : Stats R).count = records.length := by
  induction records using List.reverseRecOn with
  | nil => rfl
  | append_singleton records data ih =>
    rw [statsAfter_append, List.length_append, ← ih]
    rfl

theorem statsAfter_fields (records : List Record) (data : Record) :
    (statsAfter (records ++ [data]) : Stats R).fields name =
      stepField (records.length + 1) ((statsAfter records).fields name) (reading name data) := by
  rw [statsAfter_append, ← statsAfter_count (R := R) records]
  exact foldl_updateField _ data.nodup _

theorem readings_append (records : List Record) (data : Record) :
    readings name (records ++ [data]) = readings name records ++ (reading name data).toList := by
  rw [readings, readings, List.filterMap_append]
  cases h : reading name data with
  | none => simp [h]
  | some val => simp [h]

/-- The first three statistics of a field are those of its readings. -/
structure Folded (vals : List ℚ) (stats : FieldStats R) : Prop where
  min : stats.min = vals.foldl min maxValue
  max : stats.max = vals.foldl max minValue
  sum : stats.sum = vals.sum
  stdev : stats.stdev = 0

theorem Folded.add {vals : List ℚ} {stats : FieldStats R} (h : Folded vals stats) (count : ℕ)
    (val : ℚ) : Folded (vals ++ [val]) (stats.add count val) where
  min := by rw [stats.add_min, h.min, List.foldl_append]; rfl
  max := by rw [stats.add_max, h.max, List.foldl_append]; rfl
  sum := by rw [stats.add_sum, h.sum, List.sum_append, List.sum_singleton]
  stdev := (stats.add_stdev count val).trans h.stdev

theorem folded_initial (val : ℚ) : Folded [] (initialStats val : FieldStats R) := ⟨rfl, rfl, rfl, rfl⟩

theorem statsAfter_none : (statsAfter records : Stats R).fields name = none ↔
    readings name records = [] := by
  induction records using List.reverseRecOn with
  | nil => exact iff_of_true rfl rfl
  | append_singleton records data ih =>
    rw [statsAfter_fields, readings_append]
    cases reading name data with
    | none => simpa [stepField] using ih
    | some val => simp [stepField]

theorem statsAfter_folded {stats : FieldStats R}
    (h : (statsAfter records).fields name = some stats) : Folded (readings name records) stats := by
  induction records using List.reverseRecOn generalizing stats with
  | nil => cases h
  | append_singleton records data ih =>
    rw [statsAfter_fields] at h
    rw [readings_append]
    cases hval : reading name data with
    | none =>
      rw [hval] at h
      rw [Option.toList_none, List.append_nil]
      exact ih h
    | some val =>
      rw [hval] at h
      obtain rfl := Option.some.inj h
      cases hold : (statsAfter records : Stats R).fields name with
      | none =>
        rw [Option.toList_some, statsAfter_none.mp hold]
        exact (folded_initial val).add _ val
      | some old => exact (ih hold).add _ val

/-- With equal readings the shared count makes no difference. -/
theorem statsAfter_constant {stats : FieldStats R} {c : ℚ} (hconstant : ∀ val ∈ readings name records, val = c)
    (h : (statsAfter records).fields name = some stats) :
    stats.mean = c ∧ stats.variance = 0 := by
  induction records using List.reverseRecOn generalizing stats with
  | nil => cases h
  | append_singleton records data ih =>
    rw [readings_append] at hconstant
    have hearlier : ∀ val ∈ readings name records, val = c :=
      fun val hval => hconstant val (List.mem_append_left _ hval)
    rw [statsAfter_fields] at h
    cases hval : reading name data with
    | none =>
      rw [hval] at h
      exact ih hearlier h
    | some val =>
      rw [hval] at h hconstant
      obtain rfl : val = c := hconstant val (List.mem_append_right _ List.mem_cons_self)
      obtain rfl := Option.some.inj h
      cases hold : (statsAfter records : Stats R).fields name with
      | none => exact FieldStats.add_of_eq _ val (initialStats val) rfl
      | some old =>
        obtain ⟨hmean, hvariance⟩ := ih hearlier hold
        obtain ⟨hmean', hvariance'⟩ := FieldStats.add_of_eq (records.length + 1) val old hmean
        exact ⟨hmean', hvariance'.trans hvariance⟩

/-- With a reading in every record the recurrence is that of the mean and the squares. -/
theorem statsAfter_complete {stats : FieldStats R}
    (hcomplete : ∀ data ∈ records, (reading name data).isSome)
    (h : (statsAfter records).fields name = some stats) :
    stats.mean = SampleStatistics.mean (readings name records) ∧
      stats.variance = SampleStatistics.squares (readings name records) := by
  induction records using List.reverseRecOn generalizing stats with
  | nil => cases h
  | append_singleton records data ih =>
    have hearlier : ∀ data ∈ records, (reading name data).isSome :=
      fun other hother => hcomplete other (List.mem_append_left _ hother)
    have hlength : (readings name records).length = records.length :=
      List.filterMap_length_eq_length.mpr hearlier
    obtain ⟨val, hval⟩ := Option.isSome_iff_exists.mp
      (hcomplete data (List.mem_append_right _ List.mem_cons_self))
    rw [statsAfter_fields, hval] at h
    rw [readings_append, hval, Option.toList_some]
    obtain rfl := Option.some.inj h
    cases hold : (statsAfter records : Stats R).fields name with
    | none =>
      rw [statsAfter_none.mp hold]
      obtain ⟨hmean, hvariance⟩ := FieldStats.add_of_eq (records.length + 1) val
        (initialStats val : FieldStats R) rfl
      rw [List.nil_append, SampleStatistics.squares_singleton]
      refine ⟨hmean.trans ?_, hvariance⟩
      exact (SampleStatistics.mean_replicate Nat.one_pos val).symm
    | some old =>
      obtain ⟨hmean, hvariance⟩ := ih hearlier hold
      have hne : readings name records ≠ [] := by
        intro hnil
        rw [statsAfter_none.mpr hnil] at hold
        cases hold
      have hcount : 1 < records.length + 1 := by
        rw [← hlength]
        exact Nat.succ_lt_succ (List.length_pos_iff.mpr hne)
      rw [Option.getD_some, old.add_mean _ val hcount, old.add_variance _ val hcount, hmean,
        hvariance, SampleStatistics.squares_append hne, SampleStatistics.mean_append hne, hlength]
      exact ⟨rfl, rfl⟩

/-- Records without a reading leave the statistics of the field. -/
theorem statsAfter_append_of_none {later : List Record}
    (h : ∀ data ∈ later, reading name data = none) :
    (statsAfter (records ++ later) : Stats R).fields name = (statsAfter records).fields name := by
  induction later using List.reverseRecOn with
  | nil => rw [List.append_nil]
  | append_singleton later data ih =>
    rw [← List.append_assoc, statsAfter_fields,
      h data (List.mem_append_right _ List.mem_cons_self)]
    exact ih fun other hother => h other (List.mem_append_left _ hother)

theorem getStatistics_fields (sqrt : ℚ → R) (records : List Record) :
    (getStatistics sqrt records).fields name =
      ((statsAfter records).fields name).map (finishField sqrt records.length) := by
  rw [← statsAfter_count (R := R) records]
  rfl

end Field

/-! ## Complete fields -/

/-- No missing cell of a field counts as a number. -/
def NoneCounted (name : String) (records : List Record) : Prop :=
  ∀ data ∈ records, ∀ cell ∈ data.cell name, FileService.isNA (some cell.text) → cell.number = none

/-- A field has values in all records, or no two that differ, and no missing cell counts. -/
structure Complete (name : String) (records : List Record) : Prop where
  noneCounted : NoneCounted name records
  all : (values name records).length = records.length ∨
    ∀ x ∈ values name records, ∀ y ∈ values name records, x = y

/-- No values under the name of what is inherited, and complete fields under all others. -/
structure Legible (records : List Record) : Prop where
  inherited : ∀ name ∈ objectPrototype, values name records = []
  complete : ∀ name, name ∉ objectPrototype → Complete name records

/-- Some value of a field is on the right side of what its extremes begin with. -/
def Bounded (name : String) (records : List Record) : Prop :=
  values name records ≠ [] → (∃ x ∈ values name records, x ≤ maxValue) ∧
    ∃ x ∈ values name records, minValue ≤ x

section Complete
variable {name : String} {records : List Record}

theorem reading_eq (hname : name ∉ objectPrototype) (h : NoneCounted name records) {data : Record}
    (hdata : data ∈ records) : reading name data = (data.cell name).bind Cell.value := by
  rw [reading, if_neg hname]
  cases hcell : data.cell name with
  | none => rfl
  | some cell =>
    rw [Option.bind_some, Option.bind_some, Cell.value]
    split
    · rename_i hmissing
      exact h data hdata cell hcell hmissing
    · rfl

theorem readings_eq (hname : name ∉ objectPrototype) (h : NoneCounted name records) :
    readings name records = values name records :=
  List.filterMap_congr fun _ hdata => reading_eq hname h hdata

/-- The mean and the squares of a complete field are right. -/
theorem Complete.moments {R : Type} [Zero R] {stats : FieldStats R} (h : Complete name records)
    (hname : name ∉ objectPrototype)
    (hstats : (statsAfter records).fields name = some stats) :
    stats.mean = SampleStatistics.mean (values name records) ∧
      stats.variance = SampleStatistics.squares (values name records) := by
  have hreadings := readings_eq hname h.noneCounted
  have hne : values name records ≠ [] := by
    intro hnil
    rw [statsAfter_none.mpr (hreadings.trans hnil)] at hstats
    cases hstats
  obtain hall | hequal := h.all
  · rw [← hreadings] at hall ⊢
    exact statsAfter_complete (List.filterMap_length_eq_length.mp hall) hstats
  · obtain ⟨c, hc⟩ := List.exists_mem_of_ne_nil _ hne
    have hconstant : ∀ x ∈ values name records, x = c := fun x hx => hequal x hx c hc
    obtain ⟨hmean, hsquares, -⟩ := SampleStatistics.constant_moments hne hconstant
    rw [hmean, hsquares]
    exact statsAfter_constant (hreadings ▸ hconstant) hstats

theorem Complete.finish {stats : FieldStats ℝ} (h : Complete name records)
    (hname : name ∉ objectPrototype)
    (hstats : (statsAfter records).fields name = some stats) :
    finishField sqrt records.length stats =
      { min := (values name records).foldl min maxValue
        max := (values name records).foldl max minValue
        sum := (values name records).sum
        mean := SampleStatistics.mean (values name records)
        variance := SampleStatistics.variance (values name records)
        stdev := sqrt (SampleStatistics.variance (values name records)) } := by
  obtain ⟨hmin, hmax, hsum, hstdev⟩ := statsAfter_folded hstats
  obtain ⟨hmean, hsquares⟩ := h.moments hname hstats
  have hreadings := readings_eq hname h.noneCounted
  rw [hreadings] at hmin hmax hsum
  have hne : values name records ≠ [] := by
    intro hnil
    rw [statsAfter_none.mpr (hreadings.trans hnil)] at hstats
    cases hstats
  have hvariance : SampleStatistics.variance (values name records) =
      if 1 < records.length then stats.variance / (records.length - 1 : ℕ) else 0 := by
    rw [hsquares]
    obtain hall | hequal := h.all
    · rw [← hall, SampleStatistics.variance]
      by_cases hone : 1 < (values name records).length
      · rw [if_neg (not_le.mpr hone), if_pos hone, Nat.cast_sub hone.le, Nat.cast_one]
      · rw [if_pos (not_lt.mp hone), if_neg hone]
    · obtain ⟨c, hc⟩ := List.exists_mem_of_ne_nil _ hne
      obtain ⟨-, hzero, hvariance⟩ :=
        SampleStatistics.constant_moments hne fun x hx => hequal x hx c hc
      rw [hzero, hvariance, zero_div, ite_self]
  rw [hvariance, finishField]
  by_cases hone : 1 < records.length
  · simp only [if_pos hone, hmin, hmax, hsum, hmean]
  · have hzero : stats.variance = 0 := by
      rw [hsquares]
      have hlength : (values name records).length ≤ 1 :=
        (List.length_filterMap_le _ _).trans (not_lt.mp hone)
      obtain ⟨c, hc⟩ := List.length_eq_one_iff.mp
        (le_antisymm hlength (List.length_pos_iff.mpr hne))
      rw [hc, SampleStatistics.squares_singleton]
    have hsqrt : sqrt 0 = 0 := by rw [sqrt, Rat.cast_zero, Real.sqrt_zero]
    simp only [if_neg hone]
    obtain ⟨_, _, _, _, _, _⟩ := stats
    simp only at hmin hmax hsum hmean hstdev hzero
    rw [hmin, hmax, hsum, hmean, hstdev, hzero, hsqrt]

theorem Complete.fields_iff (h : Complete name records) (hname : name ∉ objectPrototype) :
    (getStatistics sqrt records).fields name = statisticsOf (values name records) ↔
      Bounded name records := by
  have hreadings := readings_eq hname h.noneCounted
  rw [getStatistics_fields, statisticsOf]
  by_cases hnil : values name records = []
  · rw [if_pos hnil, statsAfter_none.mpr (hreadings.trans hnil)]
    exact iff_of_true rfl fun hne => absurd hnil hne
  · obtain ⟨stats, hstats⟩ : ∃ stats, (statsAfter records : Stats ℝ).fields name = some stats := by
      apply Option.ne_none_iff_exists'.mp
      intro hnone
      exact hnil (hreadings.symm.trans (statsAfter_none.mp hnone))
    have hmin := SampleStatistics.foldl_min_eq_iff hnil maxValue 0
    have hmax := SampleStatistics.foldl_max_eq_iff hnil minValue 0
    rw [if_neg hnil, hstats, Option.map_some, h.finish hname hstats, Bounded, ← hmin, ← hmax]
    constructor
    · intro heq _
      have heq := Option.some.inj heq
      exact ⟨congrArg FieldStats.min heq, congrArg FieldStats.max heq⟩
    · intro hboth
      obtain ⟨hleast, hgreatest⟩ := hboth hnil
      rw [hleast, hgreatest]

/-- What is inherited does not become a field. -/
theorem fields_inherited (h : name ∈ objectPrototype) :
    (getStatistics sqrt records).fields name = none := by
  have hreadings : readings name records = [] :=
    List.filterMap_eq_nil_iff.mpr fun _ _ => if_pos h
  rw [getStatistics_fields, statsAfter_none.mpr hreadings, Option.map_none]

/-- Values under such a name get no statistics. -/
theorem wrong_of_inherited (h : name ∈ objectPrototype) (hvalues : values name records ≠ []) :
    ¬ IsStatistics records (getStatistics sqrt records) := by
  rintro ⟨-, hfields⟩
  have hfield := hfields name
  rw [fields_inherited h, statisticsOf, if_neg hvalues] at hfield
  cases hfield

end Complete

/-! ## Other values in the same cells -/

/-- Whether a cell is missing and whether it counts as a number. -/
def Cell.kind (cell : Cell) : Bool × Bool := (FileService.isNA (some cell.text), cell.number.isSome)

/-- The same cells are present, missing and numeric. -/
def SamePattern (records records' : List Record) : Prop :=
  records.Forall₂ (fun data data' =>
    ∀ name, (data.cell name).map Cell.kind = (data'.cell name).map Cell.kind) records'

/-- A record with another number in its numeric cells. -/
def Record.fill (filler : Cell) (data : Record) : Record where
  cells := data.cells.map fun entry =>
    (entry.1, if entry.2.value.isSome then filler else entry.2)
  nodup := by
    rw [List.map_map]
    exact data.nodup
  own := by
    rw [List.map_map]
    exact data.own

def one : Cell := ⟨"1", by decide +kernel⟩

def two : Cell := ⟨"2", by decide +kernel⟩

theorem one_value : one.value = some 1 := by decide +kernel

theorem two_value : two.value = some 2 := by decide +kernel

section Fill
variable {name : String} {filler : Cell} {c : ℚ} {data : Record} {records : List Record}

theorem cell_fill : (data.fill filler).cell name =
    (data.cell name).map fun cell => if cell.value.isSome then filler else cell := by
  obtain ⟨cells, hnodup, hown⟩ := data
  rw [Record.cell, Record.cell, Record.fill]
  simp only
  clear hnodup hown
  induction cells with
  | nil => rfl
  | cons entry cells ih =>
    rw [List.map_cons, List.lookup_cons, List.lookup_cons]
    cases name == entry.1 with
    | true => rfl
    | false => exact ih

theorem number_of_value {cell : Cell} (h : cell.value = some c) :
    FileService.isNA (some cell.text) = false ∧ cell.number = some c := by
  rw [Cell.value] at h
  split at h
  · cases h
  · rename_i hna
    exact ⟨Bool.eq_false_iff.mpr hna, h⟩

theorem kind_fill (hfiller : filler.value = some c) :
    (data.cell name).map Cell.kind = ((data.fill filler).cell name).map Cell.kind := by
  rw [cell_fill]
  cases data.cell name with
  | none => rfl
  | some cell =>
    rw [Option.map_some, Option.map_some, Option.map_some]
    by_cases hvalue : cell.value.isSome
    · obtain ⟨x, hx⟩ := Option.isSome_iff_exists.mp hvalue
      obtain ⟨hna, hnumber⟩ := number_of_value hx
      obtain ⟨hna', hnumber'⟩ := number_of_value hfiller
      rw [if_pos hvalue, Cell.kind, Cell.kind, hna, hnumber, hna', hnumber']
      rfl
    · rw [if_neg hvalue]

theorem samePattern_fill (hfiller : filler.value = some c) :
    SamePattern records (records.map (Record.fill filler)) := by
  rw [SamePattern, List.forall₂_map_right_iff]
  exact List.forall₂_same.mpr fun data _ name => kind_fill hfiller

theorem value_fill (hfiller : filler.value = some c) :
    ((data.fill filler).cell name).bind Cell.value =
      ((data.cell name).bind Cell.value).map fun _ => c := by
  rw [cell_fill]
  cases data.cell name with
  | none => rfl
  | some cell =>
    rw [Option.map_some, Option.bind_some, Option.bind_some]
    cases hvalue : cell.value with
    | none => simpa using hvalue
    | some x => simpa using hfiller

theorem values_fill (hfiller : filler.value = some c) :
    values name (records.map (Record.fill filler)) = (values name records).map fun _ => c := by
  rw [values, values, List.filterMap_map, List.map_filterMap]
  exact List.filterMap_congr fun data _ => value_fill hfiller

/-- A missing cell stays as it is. -/
theorem reading_fill_of_missing {cell : Cell} (hname : name ∉ objectPrototype) (hcell : data.cell name = some cell)
    (hmissing : FileService.isNA (some cell.text)) :
    reading name (data.fill filler) = cell.number := by
  have hvalue : cell.value = none := by rw [Cell.value, if_pos hmissing]
  rw [reading, if_neg hname, cell_fill, hcell, Option.map_some, hvalue, Option.bind_some]
  rfl

theorem noneCounted_fill (hfiller : filler.value = some c) (h : NoneCounted name records) :
    NoneCounted name (records.map (Record.fill filler)) := by
  intro data' hdata' cell' hcell' hmissing
  obtain ⟨data, hdata, rfl⟩ := List.mem_map.mp hdata'
  rw [cell_fill] at hcell'
  obtain ⟨cell, hcell, rfl⟩ := Option.map_eq_some_iff.mp hcell'
  by_cases hvalue : cell.value.isSome
  · rw [if_pos hvalue] at hmissing
    rw [(number_of_value hfiller).1] at hmissing
    cases hmissing
  · rw [if_neg hvalue] at hmissing ⊢
    exact h data hdata cell hcell hmissing

theorem bounded_of_small (h : ∀ x ∈ values name records, x = 1 ∨ x = 2) :
    Bounded name records := by
  have hbounds : minValue ≤ 1 ∧ minValue ≤ 2 ∧ 1 ≤ maxValue ∧ 2 ≤ maxValue := by decide +kernel
  obtain ⟨hmin, hmin', hmax, hmax'⟩ := hbounds
  intro hne
  obtain ⟨x, hx⟩ := List.exists_mem_of_ne_nil _ hne
  obtain rfl | rfl := h x hx
  · exact ⟨⟨1, hx, hmax⟩, 1, hx, hmin⟩
  · exact ⟨⟨2, hx, hmax'⟩, 2, hx, hmin'⟩

theorem bounded_fill (hfiller : filler.value = some c) (hc : c = 1 ∨ c = 2) :
    Bounded name (records.map (Record.fill filler)) := by
  apply bounded_of_small
  intro x hx
  rw [values_fill hfiller] at hx
  obtain ⟨_, _, rfl⟩ := List.mem_map.mp hx
  exact hc

end Fill

section Incomplete
variable {name : String} {records : List Record}

/-- A missing cell that counts as a number stands out of numbers that are all another. -/
theorem wrong_of_counted {filler : Cell} {c z : ℚ} (hfiller : filler.value = some c)
    (hz : z ∈ readings name (records.map (Record.fill filler))) (hne : z ≠ c) :
    ¬ IsStatistics (records.map (Record.fill filler))
      (getStatistics sqrt (records.map (Record.fill filler))) := by
  rintro ⟨-, hfields⟩
  have hfield := hfields name
  obtain ⟨stats, hstats⟩ : ∃ stats, (statsAfter (records.map (Record.fill filler)) :
      Stats ℝ).fields name = some stats := by
    apply Option.ne_none_iff_exists'.mp
    intro hnone
    rw [statsAfter_none.mp hnone] at hz
    cases hz
  have hfolded := statsAfter_folded hstats
  rw [getStatistics_fields, hstats, Option.map_some, statisticsOf] at hfield
  split at hfield
  · cases hfield
  · rename_i hnil
    have hconstant : ∀ x ∈ values name (records.map (Record.fill filler)), x = c := by
      intro x hx
      rw [values_fill hfiller] at hx
      obtain ⟨_, _, rfl⟩ := List.mem_map.mp hx
      rfl
    obtain ⟨hleast, hgreatest⟩ := SampleStatistics.extremes_of_constant hnil hconstant 0
    have hmin : stats.min = c := by
      have h := congrArg FieldStats.min (Option.some.inj hfield)
      rw [finishField] at h
      split at h
      · exact h.trans hleast
      · exact h.trans hleast
    have hmax : stats.max = c := by
      have h := congrArg FieldStats.max (Option.some.inj hfield)
      rw [finishField] at h
      split at h
      · exact h.trans hgreatest
      · exact h.trans hgreatest
    apply hne
    apply le_antisymm
    · rw [← hmax, hfolded.max]
      exact SampleStatistics.le_foldl_max hz minValue
    · rw [← hmin, hfolded.min]
      exact SampleStatistics.foldl_min_le hz maxValue

/-- Where a missing cell counts as a number. -/
theorem exists_wrong_of_counted (hname : name ∉ objectPrototype)
    (h : ¬ NoneCounted name records) :
    ∃ records', SamePattern records records' ∧ (∀ name, Bounded name records') ∧
      ¬ IsStatistics records' (getStatistics sqrt records') := by
  simp only [NoneCounted, not_forall] at h
  obtain ⟨data, hdata, cell, hcell, hmissing, hnumber⟩ := h
  obtain ⟨z, hz⟩ := Option.ne_none_iff_exists'.mp hnumber
  have hmem : ∀ filler : Cell, z ∈ readings name (records.map (Record.fill filler)) := by
    intro filler
    refine List.mem_filterMap.mpr ⟨data.fill filler, List.mem_map_of_mem hdata, ?_⟩
    rw [reading_fill_of_missing hname hcell hmissing, hz]
  by_cases hone : z = 1
  · refine ⟨records.map (Record.fill two), samePattern_fill two_value,
      fun _ => bounded_fill two_value (.inr rfl), wrong_of_counted two_value (hmem two) ?_⟩
    rw [hone]
    norm_num
  · exact ⟨records.map (Record.fill one), samePattern_fill one_value,
      fun _ => bounded_fill one_value (.inl rfl), wrong_of_counted one_value (hmem one) hone⟩

theorem exists_last {α : Type} {p : α → Bool} {xs : List α} (h : ∃ x ∈ xs, p x) :
    ∃ before x after, xs = before ++ x :: after ∧ p x ∧ ∀ y ∈ after, p y = false := by
  induction xs with
  | nil =>
    obtain ⟨x, hx, -⟩ := h
    cases hx
  | cons head xs ih =>
    by_cases hlater : ∃ x ∈ xs, p x
    · obtain ⟨before, x, after, rfl, hx, hafter⟩ := ih hlater
      exact ⟨head :: before, x, after, rfl, hx, hafter⟩
    · obtain ⟨x, hx, hp⟩ := h
      obtain rfl | hx := List.mem_cons.mp hx
      · refine ⟨[], x, xs, rfl, hp, ?_⟩
        intro y hy
        exact Bool.eq_false_iff.mpr fun hp' => hlater ⟨y, hy, hp'⟩
      · exact absurd ⟨x, hx, hp⟩ hlater

variable {before after : List Record} {data : Record}

/-- All ones, then a two, then no more values. -/
def onesThenTwo (before : List Record) (data : Record) (after : List Record) : List Record :=
  before.map (Record.fill one) ++ [data.fill two] ++ after.map (Record.fill one)

theorem samePattern_onesThenTwo :
    SamePattern (before ++ data :: after) (onesThenTwo before data after) := by
  have hdata : SamePattern [data] [data.fill two] := @samePattern_fill two 2 [data] two_value
  have hbefore := @samePattern_fill one 1 before one_value
  have hafter := @samePattern_fill one 1 after one_value
  rw [List.append_cons before data after]
  exact List.rel_append (List.rel_append hbefore hdata) hafter

theorem values_append (records later : List Record) :
    values name (records ++ later) = values name records ++ values name later :=
  List.filterMap_append

theorem values_onesThenTwo (hdata : ((data.cell name).bind Cell.value).isSome)
    (hafter : values name after = []) : values name (onesThenTwo before data after) =
      List.replicate (values name before).length 1 ++ [2] := by
  obtain ⟨x, hx⟩ := Option.isSome_iff_exists.mp hdata
  have htwo : values name [data.fill two] = [2] := by
    have hvalue := @value_fill name two 2 data two_value
    rw [hx] at hvalue
    simp [values, hvalue]
  rw [onesThenTwo, values_append, values_append, values_fill one_value, values_fill one_value,
    htwo, hafter, List.map_const', List.map_nil, List.append_nil]

theorem bounded_onesThenTwo (other : String) : Bounded other (onesThenTwo before data after) := by
  apply bounded_of_small
  intro x hx
  rw [onesThenTwo, values_append, values_append, values_fill one_value, values_fill one_value] at hx
  obtain hx | hx := List.mem_append.mp hx
  · obtain hx | hx := List.mem_append.mp hx
    · obtain ⟨_, _, rfl⟩ := List.mem_map.mp hx
      exact .inl rfl
    · have hfill := @values_fill other two 2 [data] two_value
      rw [List.map_singleton] at hfill
      rw [hfill] at hx
      obtain ⟨_, _, rfl⟩ := List.mem_map.mp hx
      exact .inr rfl
  · obtain ⟨_, _, rfl⟩ := List.mem_map.mp hx
    exact .inl rfl

/-- The code divides by the number of records, not by that of the values. -/
theorem stats_onesThenTwo (hname : name ∉ objectPrototype) (hcounted : NoneCounted name (before ++ data :: after))
    (hdata : ((data.cell name).bind Cell.value).isSome) (hbefore : values name before ≠ [])
    (hafter : values name after = []) :
    ∃ stats : FieldStats ℝ,
      (statsAfter (onesThenTwo before data after)).fields name = some stats ∧
        stats.mean = 1 + 1 / (before.length + 1 : ℕ) ∧
          stats.variance = 1 - 1 / (before.length + 1 : ℕ) := by
  have hcountedBefore : NoneCounted name before :=
    fun other hother => hcounted other (List.mem_append_left _ hother)
  have hcountedAfter : NoneCounted name after := fun other hother =>
    hcounted other (List.mem_append_right _ (List.mem_cons_of_mem _ hother))
  have hcountedData : NoneCounted name [data] := by
    intro other hother
    obtain rfl := List.mem_singleton.mp hother
    exact hcounted _ (List.mem_append_right _ List.mem_cons_self)
  have hones : readings name (before.map (Record.fill one)) =
      (values name before).map fun _ => 1 := by
    rw [readings_eq hname (noneCounted_fill one_value hcountedBefore), values_fill one_value]
  have htwo : reading name (data.fill two) = some 2 := by
    have hmem : data.fill two ∈ [data].map (Record.fill two) := List.mem_cons_self
    obtain ⟨x, hx⟩ := Option.isSome_iff_exists.mp hdata
    rw [reading_eq hname (noneCounted_fill two_value hcountedData) hmem, value_fill two_value, hx]
    rfl
  have hnone : ∀ other ∈ after.map (Record.fill one), reading name other = none := by
    intro other hother
    rw [reading_eq hname (noneCounted_fill one_value hcountedAfter) hother]
    have hvalues : values name (after.map (Record.fill one)) = [] := by
      rw [values_fill one_value, hafter, List.map_nil]
    exact List.filterMap_eq_nil_iff.mp hvalues other hother
  obtain ⟨old, hold⟩ : ∃ old, (statsAfter (before.map (Record.fill one)) :
      Stats ℝ).fields name = some old := by
    apply Option.ne_none_iff_exists'.mp
    intro h
    have hnil := statsAfter_none.mp h
    rw [hones, List.map_eq_nil_iff] at hnil
    exact hbefore hnil
  obtain ⟨hmean, hvariance⟩ := statsAfter_constant (c := 1) (by simp [hones]) hold
  have hcount : 1 < (before.map (Record.fill one)).length + 1 := by
    rw [List.length_map]
    have hlength : 0 < before.length := by
      apply List.length_pos_iff.mpr
      rintro rfl
      exact hbefore rfl
    omega
  refine ⟨old.add ((before.map (Record.fill one)).length + 1) 2, ?_, ?_, ?_⟩
  · rw [onesThenTwo, statsAfter_append_of_none hnone, statsAfter_fields, hold, htwo]
    rfl
  · rw [old.add_mean _ 2 hcount, hmean, List.length_map]
    norm_num
  · rw [old.add_variance _ 2 hcount, hmean, hvariance, List.length_map]
    ring

/-- The mean asks for the last value in the record of its own number, the variance for no more
records than values. -/
theorem divisors_differ {b m n : ℕ} (hm : 0 < m) (hmore : m + 1 < n)
    (hmean : (1 : ℚ) + 1 / (b + 1 : ℕ) = 1 + (2 - 1) / (m + 1 : ℕ))
    (hvariance : (1 - 1 / ((b + 1 : ℕ) : ℚ)) / (n - 1 : ℕ) =
      (0 + (2 - 1) * (2 - (1 + (2 - 1) / ((m + 1 : ℕ) : ℚ)))) / ((m + 1 : ℕ) - 1)) : False := by
  have hb : ((b + 1 : ℕ) : ℚ) ≠ 0 := Nat.cast_ne_zero.mpr (Nat.succ_ne_zero b)
  have hm' : ((m + 1 : ℕ) : ℚ) ≠ 0 := Nat.cast_ne_zero.mpr (Nat.succ_ne_zero m)
  have hsame : ((b + 1 : ℕ) : ℚ) = (m + 1 : ℕ) := by
    have h := add_left_cancel hmean
    rw [show (2 - 1 : ℚ) = 1 by norm_num] at h
    exact inv_injective (by simpa using h)
  rw [hsame] at hvariance
  have hcast : (((n - 1 : ℕ) : ℚ)) = n - 1 := by
    rw [Nat.cast_sub (by omega), Nat.cast_one]
  have hmpos : (0 : ℚ) < m := by exact_mod_cast hm
  have hn : (0 : ℚ) < n - 1 := by
    have : ((1 : ℕ) : ℚ) < n := by exact_mod_cast (by omega : 1 < n)
    push_cast at this
    linarith
  have hleft : (1 - 1 / ((m + 1 : ℕ) : ℚ)) / (n - 1) = m / ((m + 1 : ℕ) * (n - 1)) := by
    push_cast at hm' ⊢
    field_simp
    ring
  have hright : (0 + (2 - 1) * (2 - (1 + (2 - 1) / ((m + 1 : ℕ) : ℚ)))) / ((m + 1 : ℕ) - 1) =
      1 / ((m + 1 : ℕ) : ℚ) := by
    push_cast at hm' ⊢
    rw [add_sub_cancel_right, div_eq_div_iff hmpos.ne' hm']
    field_simp
    ring
  rw [hcast, hleft, hright, div_eq_div_iff (mul_ne_zero hm' hn.ne') hm', one_mul] at hvariance
  have hequal : (m : ℚ) = n - 1 := mul_right_cancel₀ hm' (hvariance.trans (mul_comm _ _))
  have hequal : ((m + 1 : ℕ) : ℚ) = n := by
    push_cast
    linarith
  exact hmore.ne (Nat.cast_injective hequal)

theorem wrong_onesThenTwo (hname : name ∉ objectPrototype) (hcounted : NoneCounted name (before ++ data :: after))
    (hdata : ((data.cell name).bind Cell.value).isSome) (hbefore : values name before ≠ [])
    (hafter : values name after = [])
    (hfewer : (values name before).length + 1 < before.length + 1 + after.length) :
    ¬ IsStatistics (onesThenTwo before data after)
      (getStatistics sqrt (onesThenTwo before data after)) := by
  rintro ⟨-, hfields⟩
  have hfield := hfields name
  obtain ⟨stats, hstats, hmean, hvariance⟩ :=
    stats_onesThenTwo hname hcounted hdata hbefore hafter
  have hlength : (onesThenTwo before data after).length = before.length + 1 + after.length := by
    rw [onesThenTwo, List.length_append, List.length_append, List.length_map, List.length_map,
      List.length_singleton]
  have hpos : 0 < (values name before).length := List.length_pos_iff.mpr hbefore
  have hreplicate : List.replicate (values name before).length (1 : ℚ) ≠ [] := by
    rw [← List.length_pos_iff, List.length_replicate]
    exact hpos
  rw [getStatistics_fields, hstats, Option.map_some, values_onesThenTwo hdata hafter, statisticsOf,
    if_neg (List.append_ne_nil_of_right_ne_nil _ (List.cons_ne_nil _ _)), hlength, finishField,
    if_pos (by omega)] at hfield
  have hfield := Option.some.inj hfield
  have hmeans := congrArg FieldStats.mean hfield
  have hvariances := congrArg FieldStats.variance hfield
  simp only at hmeans hvariances
  rw [SampleStatistics.mean_append hreplicate, SampleStatistics.mean_replicate hpos,
    List.length_replicate, hmean] at hmeans
  rw [SampleStatistics.variance, if_neg (by simpa using hbefore),
    SampleStatistics.squares_append hreplicate, SampleStatistics.squares_replicate hpos,
    SampleStatistics.mean_append hreplicate, SampleStatistics.mean_replicate hpos,
    List.length_append, List.length_replicate, List.length_singleton, hvariance] at hvariances
  exact divisors_differ hpos hfewer hmeans hvariances

/-- Where a field has different values in some records only. -/
theorem exists_wrong_of_fewer (hname : name ∉ objectPrototype) (hcounted : NoneCounted name records)
    (hfewer : (values name records).length ≠ records.length)
    (hdiffer : ¬ ∀ x ∈ values name records, ∀ y ∈ values name records, x = y) :
    ∃ records', SamePattern records records' ∧ (∀ name, Bounded name records') ∧
      ¬ IsStatistics records' (getStatistics sqrt records') := by
  have hsome : ∃ data ∈ records, ((data.cell name).bind Cell.value).isSome := by
    by_contra hnone
    apply hdiffer
    intro x hx
    obtain ⟨data, hdata, hvalue⟩ := List.mem_filterMap.mp hx
    exact absurd ⟨data, hdata, Option.isSome_iff_exists.mpr ⟨x, hvalue⟩⟩ hnone
  obtain ⟨before, data, after, rfl, hdata, hafter⟩ := exists_last hsome
  have hnone : values name after = [] := by
    apply List.filterMap_eq_nil_iff.mpr
    intro other hother
    exact Option.not_isSome_iff_eq_none.mp (Bool.eq_false_iff.mp (hafter other hother))
  obtain ⟨x, hx⟩ := Option.isSome_iff_exists.mp hdata
  have hvalues : values name (before ++ data :: after) = values name before ++ [x] := by
    rw [values_append]
    rw [values] at hnone
    simp only [values, List.filterMap_cons, hx, hnone]
  have hbefore : values name before ≠ [] := by
    intro hnil
    apply hdiffer
    rw [hvalues, hnil]
    intro y hy z hz
    rw [List.nil_append] at hy hz
    exact (List.mem_singleton.mp hy).trans (List.mem_singleton.mp hz).symm
  have hle : (values name (before ++ data :: after)).length ≤ (before ++ data :: after).length :=
    List.length_filterMap_le _ _
  refine ⟨onesThenTwo before data after, samePattern_onesThenTwo, bounded_onesThenTwo,
    wrong_onesThenTwo hname hcounted hdata hbefore hnone ?_⟩
  rw [hvalues] at hle hfewer
  simp only [List.length_append, List.length_cons, List.length_nil] at hle hfewer
  omega

/-- Where a field cannot be told from what is inherited. -/
theorem exists_wrong_of_inherited (hname : name ∈ objectPrototype)
    (hvalues : values name records ≠ []) :
    ∃ records', SamePattern records records' ∧ (∀ name, Bounded name records') ∧
      ¬ IsStatistics records' (getStatistics sqrt records') := by
  refine ⟨records.map (Record.fill one), samePattern_fill one_value,
    fun _ => bounded_fill one_value (.inl rfl), wrong_of_inherited hname ?_⟩
  rw [values_fill one_value]
  exact mt List.map_eq_nil_iff.mp hvalues

end Incomplete

/-- A file with complete fields has the statistics it should have exactly where its extremes are
not hidden; for any other there are values in the same cells that have not. -/
theorem getStatistics_right_iff (records : List Record) :
    (Legible records →
        (IsStatistics records (getStatistics sqrt records) ↔ ∀ name, Bounded name records)) ∧
      (¬ Legible records →
        ∃ records', SamePattern records records' ∧ (∀ name, Bounded name records') ∧
          ¬ IsStatistics records' (getStatistics sqrt records')) := by
  constructor
  · intro hlegible
    constructor
    · rintro ⟨-, hfields⟩ name
      by_cases hname : name ∈ objectPrototype
      · exact fun hne => absurd (hlegible.inherited name hname) hne
      · exact ((hlegible.complete name hname).fields_iff hname).mp (hfields name)
    · intro hbounded
      refine ⟨statsAfter_count (R := ℝ) records, fun name => ?_⟩
      by_cases hname : name ∈ objectPrototype
      · rw [fields_inherited hname, hlegible.inherited name hname]
        rfl
      · exact ((hlegible.complete name hname).fields_iff hname).mpr (hbounded name)
  · intro hillegible
    by_cases hinherited : ∀ name ∈ objectPrototype, values name records = []
    · have hincomplete : ¬ ∀ name, name ∉ objectPrototype → Complete name records :=
        fun hcomplete => hillegible ⟨hinherited, hcomplete⟩
      push Not at hincomplete
      obtain ⟨name, hname, hfield⟩ := hincomplete
      by_cases hcounted : NoneCounted name records
      · have hall : ¬ ((values name records).length = records.length ∨
            ∀ x ∈ values name records, ∀ y ∈ values name records, x = y) :=
          fun hall => hfield ⟨hcounted, hall⟩
        obtain ⟨hfewer, hdiffer⟩ := not_or.mp hall
        exact exists_wrong_of_fewer hname hcounted hfewer hdiffer
      · exact exists_wrong_of_counted hname hcounted
    · push Not at hinherited
      obtain ⟨name, hname, hvalues⟩ := hinherited
      exact exists_wrong_of_inherited hname hvalues

def minusOne : Cell := ⟨"-1", by decide +kernel⟩

/-- The greatest of negative values is above them. -/
theorem max_of_negative :
    ¬ ∀ records : List Record, IsStatistics records (getStatistics sqrt records) := by
  intro h
  have hvalues : values "v" [⟨[("v", minusOne)], by decide, by decide⟩] = [-1] := by decide +kernel
  have hcomplete : Complete "v" [⟨[("v", minusOne)], by decide, by decide⟩] := by
    refine ⟨?_, .inl (congrArg List.length hvalues)⟩
    intro data hdata cell hcell hmissing
    obtain rfl := List.mem_singleton.mp hdata
    obtain rfl := Option.some.inj hcell
    exact absurd hmissing (by decide +kernel)
  have hbounded := (hcomplete.fields_iff (by decide)).mp ((h _).2 "v")
  obtain ⟨-, x, hx, hle⟩ := hbounded (by rw [hvalues]; exact List.cons_ne_nil _ _)
  rw [hvalues, List.mem_singleton] at hx
  rw [hx] at hle
  exact absurd hle (by decide +kernel)

end NumentaApps.Unicorn.FileStatistics
