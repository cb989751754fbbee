import NumentaApps.CsvReaders
import Mathlib.Data.List.Forall2
import Mathlib.Data.List.Nodup

/-!
# The readers of a CSV file read the same samples

Of a file that the validation accepts, the upload stores for each numeric metric what the
model runner consumes, and the parameter finder consumes the beginning of it. The readers
differ on cells padded with blanks, on literals of other bases and on rows that are too short,
which the validation does not reject.
-/
namespace NumentaApps.Unicorn
open NumericLiteral

theorem except_bind_ok {ε α β : Type} {x : Except ε α} {f : α → Except ε β} {b : β} :
    (x >>= f) = .ok b ↔ ∃ a, x = .ok a ∧ f a = .ok b := by
  cases x with
  | error e =>
    constructor
    · intro h
      cases h
    · rintro ⟨a, ha, -⟩
      cases ha
  | ok a =>
    constructor
    · intro h
      exact ⟨a, rfl, h⟩
    · rintro ⟨a', ha, h⟩
      cases ha
      exact h

theorem mapM_ok {ε α β : Type} {f : α → Except ε β} {g : α → β} {l : List α}
    (h : ∀ a ∈ l, f a = .ok (g a)) : l.mapM f = .ok (l.map g) := by
  induction l with
  | nil => rfl
  | cons a l ih =>
    rw [List.mapM_cons, h a List.mem_cons_self, ih fun b hb => h b (List.mem_cons_of_mem _ hb)]
    rfl

/-! ## Missing values -/

theorem naStrings_no_blank : ∀ s ∈ naStrings, ∀ c ∈ s.toList, isJsSpace c = false := by
  have hall : (naStrings.all fun s => s.toList.all fun c => !isJsSpace c) = true := by decide
  simpa only [List.all_eq_true, Bool.not_eq_true'] using hall

/-- A cell that is missing to the upload is missing to the validation. -/
theorem isNA_of_isNA {cell : String} (h : DatabaseService.isNA cell) :
    FileService.isNA (some cell) := by
  simp only [DatabaseService.isNA, decide_eq_true_eq, List.mem_map] at h
  obtain ⟨s, hs, heq⟩ := h
  have hfilter : (lowerCase cell).filter (fun c => !isJsSpace c) = s.toList := by
    rw [← heq, List.filter_eq_self]
    intro c hc
    rw [naStrings_no_blank s hs c hc]
    rfl
  simp only [FileService.isNA, decide_eq_true_eq, hfilter]
  exact List.mem_map_of_mem hs

/-- A cell of blanks only is missing. -/
theorem strip_ne_nil {cell : String} (h : FileService.isNA (some cell) = false) :
    strip isJsSpace cell.toList ≠ [] := by
  intro hstrip
  obtain ⟨blanks, hsplit, hblanks⟩ := dropWhile_eq_strip isJsSpace cell.toList
  rw [hstrip, List.nil_append] at hsplit
  have hall : ∀ c ∈ cell.toList, isJsSpace c := by
    intro c hc
    rw [← List.takeWhile_append_dropWhile (p := isJsSpace) (l := cell.toList), hsplit] at hc
    rcases List.mem_append.mp hc with hc | hc
    · exact List.mem_takeWhile_imp hc
    · exact hblanks c hc
  have hnil : (lowerCase cell).filter (fun c => !isJsSpace c) = [] := by
    rw [List.filter_eq_nil_iff]
    intro c hc
    obtain ⟨d, hd, rfl⟩ := List.mem_map.mp hc
    rw [isJsSpace_toLower (hall d hd), hall d hd]
    decide
  simp only [FileService.isNA, hnil, decide_eq_false_iff_not] at h
  exact h (by decide)

/-! ## Fields -/

namespace Library
variable {D : Type} {lib : Library D} {fileId : String} {fields : List Field}

def Recognized (field : Field) : Prop :=
  ∀ format ∈ field.format, format ∈ allTimestampFormatPyMappings.map Prod.fst

theorem recognized_of_guess {value format name uid : String} {index : ℕ} {type : FieldType}
    (h : lib.guessCompoundTimestampFormat value = some format) :
    Recognized ⟨index, name, type, some format, uid⟩ := by
  intro format' hformat
  cases hformat
  have hmem := List.mem_of_find?_eq_some h
  exact List.map_subset _ (List.subset_append_left _ _) hmem

theorem recognized_of_none {name uid : String} {index : ℕ} {type : FieldType} :
    Recognized ⟨index, name, type, none, uid⟩ := fun _ h => nomatch h

theorem guessFields_recognized {names : Option CsvRow} {values : CsvRow} {index metricX : ℕ}
    (h : lib.guessFields fileId names index metricX values = .ok fields) :
    ∀ field ∈ fields, Recognized field := by
  induction values generalizing index metricX fields with
  | nil =>
    cases h
    exact fun _ hmem => nomatch hmem
  | cons entry values ih =>
    have hcons : ∀ {field : Field} {rest : List Field} {i m : ℕ}, Recognized field →
        lib.guessFields fileId names i m values = .ok rest →
        ∀ f ∈ field :: rest, Recognized f := by
      intro field rest i m hfield hrest f hf
      rcases List.mem_cons.mp hf with rfl | hf
      · exact hfield
      · exact ih hrest f hf
    simp only [guessFields] at h
    split at h
    · exact ih h
    · split at h
      · rename_i format hguess
        obtain ⟨name, -, h⟩ := except_bind_ok.mp h
        obtain ⟨rest, hrest, h⟩ := except_bind_ok.mp h
        cases h
        exact hcons (recognized_of_guess hguess) hrest
      · split at h
        · obtain ⟨name, -, h⟩ := except_bind_ok.mp h
          obtain ⟨rest, hrest, h⟩ := except_bind_ok.mp h
          cases h
          exact hcons recognized_of_none hrest
        · split at h
          · obtain ⟨name, -, h⟩ := except_bind_ok.mp h
            obtain ⟨rest, hrest, h⟩ := except_bind_ok.mp h
            cases h
            exact hcons recognized_of_none hrest
          · exact ih h

theorem convertUnixTimestamp_recognized {values : CsvRow} {field : Field} (h : Recognized field) :
    Recognized (convertUnixTimestamp values field) := by
  unfold convertUnixTimestamp
  split
  · split
    · intro format hformat
      cases hformat
      split
      · decide
      · decide
    · exact h
  · exact h

/-- The fields come with the offset of a row of the file, and have formats of the table. -/
theorem getFieldsFrom_spec {lines : List CsvRow} {offset counter : ℕ} {headers : Option CsvRow}
    {r : GetFieldsResult} (h : lib.getFieldsFrom fileId offset counter headers lines = .ok r) :
    r.offset ≤ offset + lines.length ∧ r.error = fieldsError r.fields ∧
      ∀ field ∈ r.fields, Recognized field := by
  induction lines generalizing offset counter headers with
  | nil => cases h
  | cons values lines ih =>
    simp only [getFieldsFrom] at h
    obtain ⟨isHeader, -, h⟩ := except_bind_ok.mp h
    split at h
    · obtain ⟨hoffset, hrest⟩ := ih h
      exact ⟨by rw [List.length_cons]; omega, hrest⟩
    · obtain ⟨fields, hfields, h⟩ := except_bind_ok.mp h
      have hguess := guessFields_recognized hfields
      split at h
      · cases h
        refine ⟨Nat.le_add_right _ _, rfl, ?_⟩
        intro field hfield
        dsimp only at hfield
        split at hfield
        · obtain ⟨field', hmem, rfl⟩ := List.mem_map.mp hfield
          exact convertUnixTimestamp_recognized (hguess field' hmem)
        · exact hguess field hfield
      · obtain ⟨hoffset, hrest⟩ := ih h
        exact ⟨by rw [List.length_cons]; omega, hrest⟩

theorem mem_mappings {format : String} (h : format ∈ allTimestampFormatPyMappings.map Prod.fst) :
    ∃ py, datetimeFormat format = some py ∧ (format, py) ∈ allTimestampFormatPyMappings := by
  cases hlookup : datetimeFormat format with
  | none =>
    obtain ⟨⟨format', py⟩, hmem, rfl⟩ := List.mem_map.mp h
    have hne := List.lookup_eq_none_iff.mp hlookup (format', py) hmem
    exact absurd hne (by simp)
  | some py =>
    obtain ⟨l₁, l₂, hsplit, -⟩ := List.lookup_eq_some_iff.mp hlookup
    exact ⟨py, rfl, hsplit ▸ List.mem_append_right _ List.mem_cons_self⟩

/-- Fields without an error have one date, whose format the back end is given. -/
theorem timestampField_of_fields (herror : fieldsError fields = none)
    (hrecognized : ∀ field ∈ fields, Recognized field) :
    ∃ t format py, fields.find? (fun field => field.type = .date) = some t ∧
      t.format = some format ∧ datetimeFormat format = some py ∧
      (format, py) ∈ allTimestampFormatPyMappings := by
  unfold fieldsError at herror
  split at herror
  · rename_i t hdate
    have hfind : fields.find? (fun field => field.type = .date) = some t := by
      rw [← List.head?_filter]
      exact congrArg List.head? hdate
    cases hformat : t.format with
    | none =>
      rw [if_pos (by rw [hformat]; rfl)] at herror
      cases herror
    | some format =>
      have hmem := hrecognized t (List.mem_of_find?_eq_some hfind) format hformat
      obtain ⟨py, hpy, hmap⟩ := mem_mappings hmem
      exact ⟨t, format, py, hfind, hformat, hpy, hmap⟩
  · cases herror

/-! ## Validation -/

variable {rows : List CsvRow} {data row : CsvRow} {s : ValidationState} {offset : ℕ}

/-- A row that leaves no error is skipped as a header or has valid fields. -/
theorem validateRow_spec (h : (lib.validateRow fields offset s data).error = none) :
    s.error = none ∧
      (s.row < offset → (lib.validateRow fields offset s data).row = s.row + 1) ∧
      (offset ≤ s.row → offset ≤ (lib.validateRow fields offset s data).row ∧
        ∀ field ∈ fields, lib.validField data field) := by
  unfold validateRow at h ⊢
  dsimp only at h ⊢
  split at h
  · rename_i hskip
    rw [if_pos hskip]
    refine ⟨h, fun _ => rfl, fun hoffset => ?_⟩
    rcases hskip with hlt | ⟨herror, -⟩
    · omega
    · rw [show s.error = none from h] at herror
      cases herror
  · rename_i hskip
    split at h
    · rename_i herror
      rw [show s.error = none from h] at herror
      cases herror
    · rename_i herror
      rw [if_neg hskip, if_neg herror]
      have hnone : s.error = none := by
        cases he : s.error with
        | none => rfl
        | some message => exact absurd (by rw [he]; rfl) herror
      refine ⟨hnone, fun hlt => absurd (Or.inl hlt) hskip, fun hoffset => ⟨?_, ?_⟩⟩
      · dsimp only
        split
        · omega
        · exact hoffset
      · intro field hfield
        have hfind := List.find?_eq_none.mp (Option.map_eq_none_iff.mp h) field hfield
        simpa using hfind

theorem validate_fold (h : (rows.foldl (lib.validateRow fields offset) s).error = none) :
    s.error = none ∧ ∀ row ∈ rows.drop (offset - s.row), ∀ field ∈ fields,
      lib.validField row field := by
  induction rows generalizing s with
  | nil => exact ⟨h, by simp⟩
  | cons data rows ih =>
    rw [List.foldl_cons] at h
    obtain ⟨herror, hrows⟩ := ih h
    obtain ⟨hnone, hskip, hvalid⟩ := validateRow_spec herror
    refine ⟨hnone, ?_⟩
    by_cases hlt : s.row < offset
    · rw [hskip hlt] at hrows
      rw [show offset - s.row = (offset - (s.row + 1)) + 1 by omega, List.drop_succ_cons]
      exact hrows
    · obtain ⟨hle, hdata⟩ := hvalid (Nat.le_of_not_lt hlt)
      rw [Nat.sub_eq_zero_of_le hle] at hrows
      rw [Nat.sub_eq_zero_of_le (Nat.le_of_not_lt hlt)]
      intro row hrow
      rcases List.mem_cons.mp hrow with rfl | hrow
      · exact hdata
      · exact hrows row hrow

/-- What is accepted has the fields of a row, whose values are valid in all rows after the
offset. -/
theorem validate_spec {file : Validation} (h : lib.validate fileId rows = .ok file)
    (herror : file.error = none) :
    lib.getFields fileId rows = .ok ⟨none, file.fields, file.rowOffset⟩ ∧
      fieldsError file.fields = none ∧ (∀ field ∈ file.fields, Recognized field) ∧
      file.rowOffset ≤ rows.length ∧
      ∀ row ∈ rows.drop file.rowOffset, ∀ field ∈ file.fields, lib.validField row field := by
  obtain ⟨found, hfound, h⟩ := except_bind_ok.mp h
  cases h
  dsimp only at herror ⊢
  split at herror
  · cases herror
  · obtain ⟨hnone, hrows⟩ := validate_fold herror
    obtain ⟨hoffset, herr, hrecognized⟩ := getFieldsFrom_spec hfound
    rw [Nat.zero_add] at hoffset
    refine ⟨?_, herr ▸ hnone, hrecognized, hoffset, hrows⟩
    rw [hfound]
    cases found
    cases hnone
    rfl

end Library

/-! ## Samples -/

/-- The timestamp and the number of a row in which both are present. -/
def presentSample (timestampField valueField : Field) (row : CsvRow) : Option (String × Double) :=
  row[timestampField.index]?.bind fun timestamp => row[valueField.index]?.bind fun cell =>
    if FileService.isNA (some timestamp) || FileService.isNA (some cell) then none
    else some (timestamp, jsNumber cell)

/-- The samples of a metric in the rows after the offset. -/
def Validation.samples (file : Validation) (valueField : Field) (rows : List CsvRow) :
    List (String × Double) :=
  match file.fields.find? fun field => field.type = .date with
  | none => []
  | some timestampField =>
    (rows.drop file.rowOffset).filterMap (presentSample timestampField valueField)

/-- A missing value without blanks around it. -/
def Unpadded (cell : String) : Prop := FileService.isNA (some cell) → DatabaseService.isNA cell

/-- A decimal literal, with only such blanks around it as Python strips. -/
def PlainNumber (cell : String) : Prop :=
  (∀ c ∈ cell.toList, isJsSpace c → isPySpace c) ∧
    scanRadix (strip isJsSpace cell.toList) = none

instance : DecidablePred PlainNumber := fun cell =>
  have : Decidable (∀ c ∈ cell.toList, isJsSpace c → isPySpace c) := List.decidableBAll _ _
  inferInstanceAs (Decidable (_ ∧ _))

/-- A row that is long enough, without padded missing values, whose value of the metric is a decimal
literal. -/
structure PlainRow (fields : List Field) (field : Field) (row : CsvRow) : Prop where
  timestamp : ∀ t ∈ fields, t.type = .date → ∃ cell, row[t.index]? = some cell ∧ Unpadded cell
  cells : ∀ t ∈ fields, t.type = .date → FileService.isNA row[t.index]? = false →
    ∀ f ∈ fields, ∃ cell, row[f.index]? = some cell ∧ (f.type = .number → Unpadded cell)
  value : ∀ t ∈ fields, t.type = .date → FileService.isNA row[t.index]? = false →
    ∀ cell, row[field.index]? = some cell → FileService.isNA (some cell) = false → PlainNumber cell

/-- A file of plain rows, with names no longer than a metric's can be, and no other metric with the ID
of this one. -/
structure PlainFile (file : Validation) (field : Field) (rows : List CsvRow) : Prop where
  names : ∀ f ∈ file.fields, f.name.length ≤ 255
  ids : file.fields.filter (fun f => f.type = .number ∧ f.uid = field.uid) = [field]
  rows : ∀ row ∈ rows.drop file.rowOffset, PlainRow file.fields field row

namespace Library
variable {D : Type} (lib : Library D)

/-- A timestamp is parsed by the back end, and gives metric data that fits its schema. -/
structure ParsesTimestamp (format py timestamp : String) : Prop where
  parses : (lib.parseDatetime timestamp py).isSome
  long : 10 ≤ (lib.isoTimestamp timestamp format).length
  short : (lib.isoTimestamp timestamp format).length ≤ 32
  naive : (lib.naiveTime timestamp format).isSome

/-- What is assumed of the timestamps of a file: those that are present and valid in the format that
was found are parsed by both ends. -/
def TimestampsAgree (file : Validation) (rows : List CsvRow) : Prop :=
  ∀ row ∈ rows.drop file.rowOffset, ∀ t ∈ file.fields, t.type = .date → ∀ format py timestamp,
    t.format = some format → datetimeFormat format = some py → row[t.index]? = some timestamp →
      FileService.isNA (some timestamp) = false → lib.validDate timestamp format →
        lib.ParsesTimestamp format py timestamp

/-- The metric data of a sample. -/
def stored (format : String) (sample : String × Double) : MetricData :=
  ⟨lib.isoTimestamp sample.1 format, lib.naiveTime sample.1 format, sample.2⟩

/-- A sample as the back end reads it. -/
def Reads (py : String) (sample : String × Double) (read : D × Double) : Prop :=
  lib.parseDatetime sample.1 py = some read.1 ∧ sample.2 = read.2

/-- The metric data of a field in a row in which the timestamp and the value are present. -/
def dataOf (timestampField : Field) (format : String) (row : CsvRow) (f : Field) :
    Option MetricData :=
  row[timestampField.index]?.bind fun timestamp => row[f.index]?.bind fun cell =>
    if FileService.isNA (some timestamp) || FileService.isNA (some cell) then none
    else some (lib.metricData timestamp format cell)

/-- What is put for a field of a row. -/
def putOf (timestampField : Field) (format : String) (row : CsvRow) (f : Field) :
    Option (String × MetricData) :=
  if f.type = .number then
    (lib.dataOf timestampField format row f).map fun data => (f.uid, data)
  else none

variable {lib} {fields : List Field} {row : CsvRow} {t field f : Field}
  {format py timestamp : String}

theorem presentSample_of_missing (h : row[t.index]? = some timestamp)
    (hna : FileService.isNA (some timestamp)) : presentSample t field row = none := by
  simp only [presentSample, h, Option.bind_some, hna, Bool.true_or]
  cases row[field.index]? with
  | none => rfl
  | some cell => rfl

theorem presentSample_of_present {cell : String} (h : row[t.index]? = some timestamp)
    (hna : FileService.isNA (some timestamp) = false) (hcell : row[field.index]? = some cell) :
    presentSample t field row =
      if FileService.isNA (some cell) then none else some (timestamp, jsNumber cell) := by
  simp only [presentSample, h, hcell, Option.bind_some, hna, Bool.false_or]

theorem isNA_eq {cell : String} (h : Unpadded cell) :
    DatabaseService.isNA cell = FileService.isNA (some cell) :=
  Bool.eq_iff_iff.mpr ⟨isNA_of_isNA, h⟩

/-- A valid number that is plain is finite, and the same in three ways. -/
theorem number_of_valid {cell : String} (hcell : row[field.index]? = some cell)
    (hnumber : field.type = .number) (hvalid : lib.validField row field)
    (hna : FileService.isNA (some cell) = false) (hplain : PlainNumber cell) :
    (jsNumber cell).isFinite ∧ pyFloat cell = some (jsNumber cell) ∧
      jsParseFloat cell = jsNumber cell := by
  have hfinite : (jsNumber cell).isFinite := by
    simpa only [validField, hcell, hna, hnumber, Bool.false_or] using hvalid
  cases hvalue : jsNumber cell with
  | nan => rw [hvalue] at hfinite; cases hfinite
  | infinite negative => rw [hvalue] at hfinite; cases hfinite
  | finite negative magnitude =>
    obtain ⟨hpy, hjs⟩ := number_agrees hvalue (strip_ne_nil hna) hplain.1 hplain.2
    exact ⟨rfl, hpy, hjs⟩

/-- A valid number gives a finite one to `parseFloat`. -/
theorem parseFloat_of_valid {cell : String} (hcell : row[f.index]? = some cell)
    (hnumber : f.type = .number) (hvalid : lib.validField row f)
    (hna : FileService.isNA (some cell) = false) : (jsParseFloat cell).isFinite := by
  have hfinite : (jsNumber cell).isFinite := by
    simpa only [validField, hcell, hna, hnumber, Bool.false_or] using hvalid
  exact jsParseFloat_isFinite hfinite (strip_ne_nil hna)

theorem validDate_of_valid (hcell : row[t.index]? = some timestamp) (hdate : t.type = .date)
    (hformat : t.format = some format) (hvalid : lib.validField row t)
    (hna : FileService.isNA (some timestamp) = false) : lib.validDate timestamp format := by
  simpa only [validField, hcell, hna, hdate, hformat, Bool.false_or, Option.all_some] using hvalid

/-- What is shared by the readers of one row: its fields with the timestamp and the metric among
them, the formats, and a plain and valid row whose timestamp is parsed. -/
structure RowContext (lib : Library D) (fields : List Field) (t field : Field) (format py : String)
    (row : CsvRow) : Prop where
  find : fields.find? (fun field => field.type = .date) = some t
  hasFormat : t.format = some format
  plain : PlainRow fields field row
  valid : ∀ f ∈ fields, lib.validField row f
  parses : ∀ timestamp, row[t.index]? = some timestamp →
    FileService.isNA (some timestamp) = false → lib.ParsesTimestamp format py timestamp

theorem RowContext.date (h : RowContext lib fields t field format py row) :
    t ∈ fields ∧ t.type = .date := by
  have hdate := List.find?_some h.find
  exact ⟨List.mem_of_find?_eq_some h.find, by simpa using hdate⟩

/-! ## Upload -/

theorem uploadField_ok (h : RowContext lib fields t field format py row)
    (hcell : row[t.index]? = some timestamp) (hna : FileService.isNA (some timestamp) = false)
    (hf : f ∈ fields) :
    lib.uploadField t timestamp row f = .ok (lib.putOf t format row f) := by
  obtain ⟨hmem, hdate⟩ := h.date
  obtain ⟨cell, hvalue, hunpadded⟩ := h.plain.cells t hmem hdate (hcell ▸ hna) f hf
  simp only [uploadField, putOf, dataOf, hvalue, hcell, Option.bind_some, hna, Bool.false_or]
  by_cases hnumber : f.type = .number
  · rw [isNA_eq (hunpadded hnumber), if_pos hnumber]
    cases hmissing : FileService.isNA (some cell) with
    | true => simp [hnumber]
    | false =>
      have hfinite := parseFloat_of_valid hvalue hnumber (h.valid f hf) hmissing
      have htimestamp := h.parses timestamp hcell hna
      have hschema : (lib.metricData timestamp format cell).valid := by
        simp only [MetricData.valid, metricData, htimestamp.long, htimestamp.short,
          htimestamp.naive, hfinite, decide_true, Bool.and_self]
      simp [hnumber, h.hasFormat, hschema]
  · simp [hnumber]

/-- What is put for a row. -/
def putsOf (lib : Library D) (fields : List Field) (t : Field) (format : String) (row : CsvRow) :
    Option (List (String × MetricData)) :=
  if FileService.isNA row[t.index]? then none
  else some (fields.filterMap (lib.putOf t format row))

theorem uploadRow_ok (h : RowContext lib fields t field format py row) :
    lib.uploadRow fields row = .ok (lib.putsOf fields t format row) := by
  obtain ⟨hmem, hdate⟩ := h.date
  obtain ⟨timestamp, hcell, hunpadded⟩ := h.plain.timestamp t hmem hdate
  simp only [uploadRow, h.find, hcell, putsOf]
  rw [isNA_eq hunpadded]
  cases hna : FileService.isNA (some timestamp) with
  | true => rfl
  | false =>
    have hputs : (fields.map (lib.putOf t format row)).reduceOption =
        fields.filterMap (lib.putOf t format row) := List.filterMap_map
    rw [mapM_ok fun f hf => uploadField_ok h hcell hna hf]
    exact congrArg (fun puts => Except.ok (some puts)) hputs

/-- Of the puts of a row only those of a metric have its ID. -/
theorem filter_puts {g : Field → Option MetricData} (uid : String) :
    (fields.filterMap fun f => if f.type = .number then (g f).map fun data => (f.uid, data)
      else none).filter (fun put => put.1 = uid) =
      (fields.filter fun f => f.type = .number ∧ f.uid = uid).filterMap
        fun f => (g f).map fun data => (f.uid, data) := by
  induction fields with
  | nil => rfl
  | cons f fields ih =>
    by_cases hf : f.type = .number
    · by_cases huid : f.uid = uid
      · cases hg : g f with
        | none => simpa [hf, huid, hg] using ih
        | some data => simpa [hf, huid, hg] using ih
      · cases hg : g f with
        | none => simpa [hf, huid, hg] using ih
        | some data => simpa [hf, huid, hg] using ih
    · simpa [hf] using ih

/-- The data of the metric are those of its sample. -/
theorem dataOf_field (h : RowContext lib fields t field format py row) (hfield : field ∈ fields)
    (hnumber : field.type = .number) :
    lib.dataOf t format row field = (presentSample t field row).map (lib.stored format) := by
  obtain ⟨hmem, hdate⟩ := h.date
  obtain ⟨timestamp, hcell, -⟩ := h.plain.timestamp t hmem hdate
  simp only [dataOf, presentSample, hcell, Option.bind_some]
  cases hvalue : row[field.index]? with
  | none => rfl
  | some cell =>
    simp only [Option.bind_some]
    cases hna : FileService.isNA (some timestamp) with
    | true => simp
    | false =>
      cases hmissing : FileService.isNA (some cell) with
      | true => simp
      | false =>
        have hplain := h.plain.value t hmem hdate (hcell ▸ hna) cell hvalue hmissing
        obtain ⟨-, -, hparse⟩ := number_of_valid hvalue hnumber (h.valid field hfield) hmissing hplain
        simp [metricData, stored, hparse]

/-- Of what is put for a row, a metric has its sample. -/
theorem metricData_of_row (h : RowContext lib fields t field format py row)
    (hids : fields.filter (fun f => f.type = .number ∧ f.uid = field.uid) = [field])
    (hfield : field ∈ fields) (hnumber : field.type = .number) :
    ((((lib.putsOf fields t format row).getD []).filter
      fun put => put.1 = field.uid).getLast?).map Prod.snd =
      (presentSample t field row).map (lib.stored format) := by
  obtain ⟨hmem, hdate⟩ := h.date
  obtain ⟨timestamp, hcell, -⟩ := h.plain.timestamp t hmem hdate
  rw [← dataOf_field h hfield hnumber]
  cases hna : FileService.isNA (some timestamp) with
  | true =>
    rw [putsOf, hcell, if_pos hna, dataOf, hcell, Option.bind_some, hna]
    cases row[field.index]? with
    | none => rfl
    | some cell => rfl
  | false =>
    have hputs : (lib.putsOf fields t format row).getD [] = fields.filterMap fun f =>
        if f.type = .number then (lib.dataOf t format row f).map fun data => (f.uid, data)
        else none := by
      rw [putsOf, hcell, if_neg (by rw [hna]; decide), Option.getD_some]
      rfl
    rw [hputs, filter_puts, hids]
    cases hdata : lib.dataOf t format row field with
    | none => simp [hdata]
    | some data => simp [hdata]

/-! ## The back end -/

theorem sampleOf_ok {options : InputOptions} (h : RowContext lib fields t field format py row)
    (hfield : field ∈ fields) (hnumber : field.type = .number)
    (hvalue : options.valueIndex = field.index) (htimestamp : options.timestampIndex = t.index)
    (hformat : options.datetimeFormat = py) :
    ∃ sample, lib.sampleOf options row = .ok sample ∧
      Option.Rel (lib.Reads py) (presentSample t field row) sample := by
  obtain ⟨hmem, hdate⟩ := h.date
  obtain ⟨timestamp, hcell, hunpadded⟩ := h.plain.timestamp t hmem hdate
  simp only [sampleOf, hvalue, htimestamp, hformat, hcell]
  have hback : ∀ {cell : String}, Unpadded cell →
      Backend.isNA cell = FileService.isNA (some cell) := fun h => isNA_eq h
  rw [hback hunpadded]
  cases hna : FileService.isNA (some timestamp) with
  | true =>
    rw [presentSample_of_missing hcell hna]
    refine ⟨none, ?_, .none⟩
    cases row[field.index]? with
    | none => rfl
    | some value =>
      dsimp only
      split
      · rfl
      · rfl
  | false =>
    obtain ⟨cell, hcell', hunpadded'⟩ := h.plain.cells t hmem hdate (hcell ▸ hna) field hfield
    rw [presentSample_of_present hcell hna hcell', hcell']
    dsimp only
    rw [hback (hunpadded' hnumber)]
    cases hmissing : FileService.isNA (some cell) with
    | true => exact ⟨none, rfl, .none⟩
    | false =>
      obtain ⟨-, hpy, -⟩ := number_of_valid hcell' hnumber (h.valid field hfield) hmissing
        (h.plain.value t hmem hdate (hcell ▸ hna) cell hcell' hmissing)
      obtain ⟨d, hd⟩ := Option.isSome_iff_exists.mp (h.parses timestamp hcell hna).parses
      refine ⟨some (d, jsNumber cell), ?_, .some ⟨hd, rfl⟩⟩
      rw [hd, hpy]
      rfl

theorem runFrom_skip (options : InputOptions) (n : ℕ) (rows : List CsvRow) :
    lib.runFrom options n rows = lib.runFrom options 0 (rows.drop n) := by
  induction n generalizing rows with
  | zero => rfl
  | succ n ih =>
    cases rows with
    | nil => rfl
    | cons row rows => exact ih rows

/-- The model runner reads the samples of the rows, where each row is read without error. -/
theorem runFrom_ok {options : InputOptions} {rows : List CsvRow}
    {present : CsvRow → Option (String × Double)}
    (h : ∀ row ∈ rows, ∃ sample, lib.sampleOf options row = .ok sample ∧
      Option.Rel (lib.Reads py) (present row) sample) :
    ∃ data, lib.runFrom options 0 rows = .ok data ∧
      List.Forall₂ (lib.Reads py) (rows.filterMap present) data := by
  induction rows with
  | nil => exact ⟨[], rfl, .nil⟩
  | cons row rows ih =>
    obtain ⟨sample, hsample, hrel⟩ := h row List.mem_cons_self
    obtain ⟨data, hdata, hreads⟩ := ih fun row hrow => h row (List.mem_cons_of_mem _ hrow)
    refine ⟨sample.toList ++ data, ?_, ?_⟩
    · simp only [runFrom, hsample, hdata]
      rfl
    · rw [List.filterMap_cons]
      cases hpresent : present row with
      | none =>
        rw [hpresent] at hrel
        cases hrel
        exact hreads
      | some present =>
        rw [hpresent] at hrel
        cases hrel with
        | some hread => exact .cons hread hreads

/-- The parameter finder reads the beginning of what the model runner reads. -/
theorem readRows_of_runFrom {options : InputOptions} {rows : List CsvRow} {numRows : ℕ}
    {data : List (D × Double)} (h : lib.runFrom options 0 rows = .ok data)
    (hnum : numRows < maxNumRows) :
    lib.readRows options numRows rows =
      .ok ((data.take (maxNumRows - numRows)).map fun sample => (lib.useUtc sample.1, sample.2)) := by
  induction rows generalizing numRows data with
  | nil =>
    cases h
    rw [List.take_nil]
    rfl
  | cons row rows ih =>
    simp only [runFrom] at h
    obtain ⟨sample, hsample, h⟩ := except_bind_ok.mp h
    obtain ⟨emitted, hemitted, h⟩ := except_bind_ok.mp h
    cases h
    simp only [readRows, hsample]
    cases sample with
    | none => exact ih hemitted hnum
    | some sample =>
      have hsucc : maxNumRows - numRows = maxNumRows - (numRows + 1) + 1 := by omega
      simp only [Option.toList_some, List.singleton_append, hsucc, List.take_succ_cons,
        List.map_cons]
      by_cases hlast : maxNumRows ≤ numRows + 1
      · rw [Nat.sub_eq_zero_of_le hlast, List.take_zero, List.map_nil]
        exact if_pos hlast
      · refine (if_neg hlast).trans ?_
        rw [ih hemitted (Nat.lt_of_not_le hlast)]
        rfl

theorem readCSVFile_of_run {options : InputOptions} {rows : List CsvRow}
    {data : List (D × Double)} (h : lib.run options rows = .ok data)
    (hoffset : options.rowOffset ≤ rows.length) :
    lib.readCSVFile options rows =
      .ok ((data.take maxNumRows).map fun sample => (lib.useUtc sample.1, sample.2)) := by
  rw [readCSVFile, if_neg (Nat.not_lt.mpr hoffset)]
  rw [run, runFrom_skip] at h
  exact readRows_of_runFrom h (by decide)

/-! ## The readers -/

/-- The upload stores the samples of a metric, the model runner consumes them, and the parameter
finder consumes a part of them. -/
def ReadersAgree (lib : Library D) (fileId : String) (rows : List CsvRow) (file : Validation)
    (field : Field) (part : List (D × Double) → List (D × Double)) : Prop :=
  ∃ t format options upload data,
    file.fields.find? (fun field => field.type = .date) = some t ∧ t.format = some format ∧
    inputOptions file field = some options ∧ lib.uploadFile fileId rows = .ok upload ∧
    upload.getMetricData field.uid = (file.samples field rows).map (lib.stored format) ∧
    lib.run options rows = .ok data ∧
    List.Forall₂ (lib.Reads options.datetimeFormat) (file.samples field rows) data ∧
    lib.readCSVFile options rows =
      .ok ((part data).map fun sample => (lib.useUtc sample.1, sample.2))

theorem uploadFile_of_fields {rows : List CsvRow} {offset : ℕ}
    (hfields : lib.getFields fileId rows = .ok ⟨none, fields, offset⟩)
    (hnames : (fields.all fun field => field.name.length ≤ 255) = true) :
    lib.uploadFile fileId rows = ((rows.drop offset).mapM (lib.uploadRow fields) >>= fun records =>
      .ok ⟨offset, offset + records.countP Option.isSome, fields,
        records.map fun puts => puts.getD []⟩) := by
  unfold uploadFile
  rw [hfields]
  exact if_pos hnames

theorem uploadFile_ok {rows : List CsvRow} {file : Validation}
    (hfields : lib.getFields fileId rows = .ok ⟨none, file.fields, file.rowOffset⟩)
    (hplain : PlainFile file field rows)
    (hrows : ∀ row ∈ rows.drop file.rowOffset, RowContext lib file.fields t field format py row)
    (hfield : field ∈ file.fields) (hnumber : field.type = .number) :
    ∃ upload, lib.uploadFile fileId rows = .ok upload ∧
      upload.getMetricData field.uid =
        ((rows.drop file.rowOffset).filterMap (presentSample t field)).map (lib.stored format) := by
  have hupload := mapM_ok fun row hrow => uploadRow_ok (hrows row hrow)
  have hnames : (file.fields.all fun field => field.name.length ≤ 255) = true := by
    simpa only [List.all_eq_true, decide_eq_true_eq] using hplain.names
  let records := (rows.drop file.rowOffset).map (lib.putsOf file.fields t format)
  refine ⟨⟨file.rowOffset, file.rowOffset + records.countP Option.isSome, file.fields,
    records.map fun puts => puts.getD []⟩, ?_, ?_⟩
  · rw [uploadFile_of_fields hfields hnames, hupload]
    rfl
  · rw [Upload.getMetricData, List.filterMap_map, List.filterMap_map, List.map_filterMap]
    refine List.filterMap_congr fun row hrow => ?_
    exact metricData_of_row (hrows row hrow) hplain.ids hfield hnumber

/-- Of a plain file that is accepted, the upload stores each numeric metric, the model runner
reads the same samples, and the parameter finder as many of them as it can take. -/
theorem validated_readers_agree {rows : List CsvRow} {file : Validation}
    (hvalid : lib.validate fileId rows = .ok file) (herror : file.error = none)
    (hagree : lib.TimestampsAgree file rows) (hplain : PlainFile file field rows)
    (hfield : field ∈ file.fields) (hnumber : field.type = .number) :
    lib.ReadersAgree fileId rows file field (List.take maxNumRows) := by
  obtain ⟨hfields, hnone, hrecognized, hoffset, hrows⟩ := validate_spec hvalid herror
  obtain ⟨t, format, py, hfind, hformat, hpy, -⟩ := timestampField_of_fields hnone hrecognized
  have hmem := List.mem_of_find?_eq_some hfind
  have hdate : t.type = .date := by simpa using List.find?_some hfind
  have hcontext : ∀ row ∈ rows.drop file.rowOffset,
      RowContext lib file.fields t field format py row := by
    intro row hrow
    refine ⟨hfind, hformat, hplain.rows row hrow, hrows row hrow, fun timestamp hcell hna => ?_⟩
    exact hagree row hrow t hmem hdate format py timestamp hformat hpy hcell hna
      (validDate_of_valid hcell hdate hformat (hrows row hrow t hmem) hna)
  have hoptions : inputOptions file field =
      some ⟨file.rowOffset, t.index, field.index, py⟩ := by
    simp [inputOptions, hfind, hformat, hpy]
  have hsamples : file.samples field rows =
      (rows.drop file.rowOffset).filterMap (presentSample t field) := by
    rw [Validation.samples, hfind]
  obtain ⟨upload, hupload, hstored⟩ := uploadFile_ok hfields hplain hcontext hfield hnumber
  have hrow : ∀ row ∈ rows.drop file.rowOffset, ∃ sample,
      lib.sampleOf ⟨file.rowOffset, t.index, field.index, py⟩ row = .ok sample ∧
        Option.Rel (lib.Reads py) (presentSample t field row) sample :=
    fun row hrow => sampleOf_ok (hcontext row hrow) hfield hnumber rfl rfl rfl
  obtain ⟨data, hdata, hreads⟩ := runFrom_ok hrow
  have hrun : lib.run ⟨file.rowOffset, t.index, field.index, py⟩ rows = .ok data := by
    rw [run, runFrom_skip]
    exact hdata
  exact ⟨t, format, _, upload, data, hfind, hformat, hoptions, hupload, hsamples ▸ hstored, hrun,
    hsamples ▸ hreads, readCSVFile_of_run hrun hoffset⟩

end Library
end NumentaApps.Unicorn

namespace NumentaApps.Unicorn
open NumericLiteral

/-! ## Files of one day -/

/-- A library for one day. -/
def dayLibrary : Library ℤ where
  strictlyValid value format := value = "2015-01-01" && format = "YYYY-MM-DD"
  looselyValid _ _ := false
  dateParses _ := false
  currentTime _ := "2016-05-01"
  generateId seed :=
    if seed = "value" then "f32b67c7e26342af42efabc674d441dca0a281c5"
    else "a5a01b8fa531faad566300a7eedefd11c4d01fde"
  isoTimestamp _ _ := "2015-01-01T00:00:00.000000"
  naiveTime _ _ := some 1420070400000
  parseDatetime value format :=
    if value = "2015-01-01" ∧ format = "%Y-%m-%d" then some 1420070400 else none
  useUtc timestamp := timestamp

def dayFileId : String := "a704f771f026c4f8"

def dayRow : CsvRow := ["2015-01-01", "1"]

def valueField : Field := ⟨1, "value", .number, none, "a704f771f026c4f8!f32b67c7e26342af"⟩

def dayFields : List Field :=
  [⟨0, "timestamp", .date, some "YYYY-MM-DD", "a704f771f026c4f8!a5a01b8fa531faad"⟩, valueField]

/-- Rows that the upload throws at: a short one, and one with a padded missing value. -/
def thrownRows : List CsvRow := [["2015-01-01"], ["2015-01-01", " NA"]]

/-- Rows whose value Python does not read: one with another base, and one with a blank that Python does
not strip. -/
def raisedRows : List CsvRow := [["2015-01-01", "0x10"], ["2015-01-01", "\u00a01"]]

/-- Rows that the validation accepts. -/
def dayRows : List CsvRow := dayRow :: (thrownRows ++ raisedRows)

/-- A cell that is neither the day nor a number. -/
def IsWord (entry : String) : Prop :=
  trim entry = entry ∧ entry ≠ "2015-01-01" ∧ (jsNumber entry).isFinite = false

instance : DecidablePred IsWord := fun _ => inferInstanceAs (Decidable (_ ∧ _ ∧ _))

/-- The fields that are found in a row after a header. -/
def Guesses (header first : CsvRow) (fields : List Field) : Prop :=
  Library.containsNA first = false ∧
    dayLibrary.guessFields dayFileId (some header) 0 1 first = .ok fields ∧
    Library.dateFields fields ≠ [] ∧ Library.fieldsError fields = none

instance (header first : CsvRow) (fields : List Field) : Decidable (Guesses header first fields) :=
  inferInstanceAs (Decidable (_ ∧ _ ∧ _ ∧ _))

/-- A row whose timestamp is present and whose values are valid. -/
def AcceptsRow (fields : List Field) (row : CsvRow) : Prop :=
  ((fields.find? fun field => field.type = .date).any fun t => !FileService.isNA row[t.index]?) = true ∧
    fields.find? (fun field => !dayLibrary.validField row field) = none

instance (fields : List Field) : DecidablePred (AcceptsRow fields) := fun _ =>
  inferInstanceAs (Decidable (_ ∧ _))

theorem IsWord.not_timestamp {entry : String} (h : IsWord entry) :
    dayLibrary.guessCompoundTimestampFormat entry = none := by
  apply List.find?_eq_none.mpr
  intro format _
  simp [dayLibrary, h.2.1]

theorem resemblesHeaderRow_of_words {header : CsvRow} (hne : header ≠ [])
    (h : ∀ entry ∈ header, IsWord entry) : dayLibrary.resemblesHeaderRow header = .ok true := by
  have hdates : (header.countP fun entry =>
      (dayLibrary.guessCompoundTimestampFormat entry).isSome) = 0 := by
    apply List.countP_eq_zero.mpr
    intro entry hentry
    simp [(h entry hentry).not_timestamp]
  simp [Library.resemblesHeaderRow, hne, hdates]

theorem guessFields_of_words {header : CsvRow} (h : ∀ entry ∈ header, IsWord entry)
    (index metricX : ℕ) : dayLibrary.guessFields dayFileId none index metricX header = .ok [] := by
  induction header generalizing index with
  | nil => rfl
  | cons entry header ih =>
    obtain ⟨htrim, -, hnumber⟩ := h entry List.mem_cons_self
    have hrest := ih (fun entry hentry => h entry (List.mem_cons_of_mem _ hentry)) (index + 1)
    have hdate : dayLibrary.isDate entry = false := Bool.and_false _
    rw [Library.guessFields]
    simp only [htrim, (h entry List.mem_cons_self).not_timestamp, hnumber, hdate,
      Bool.false_eq_true, if_false, hrest, ite_self]

/-- A header of words, and a row with the fields of its names. -/
structure FieldsFound (header first : CsvRow) (fields : List Field) : Prop where
  ne_nil : header ≠ []
  words : ∀ entry ∈ header, IsWord entry
  guesses : Guesses header first fields

/-- What the library and the two readers of the server make of these rows. -/
theorem dayRows_evaluate :
    datetimeFormat "YYYY-MM-DD" = some "%Y-%m-%d" ∧
    ((∀ entry ∈ ["timestamp", "value"], IsWord entry) ∧
      Guesses ["timestamp", "value"] dayRow dayFields) ∧
    (∀ row ∈ dayRows, AcceptsRow dayFields row) ∧
    (∀ field ∈ dayFields, (dayRow[field.index]?.any fun cell =>
      !FileService.isNA (some cell) && (field.type = .number → PlainNumber cell)) = true) ∧
    presentSample ⟨0, "timestamp", .date, some "YYYY-MM-DD",
      "a704f771f026c4f8!a5a01b8fa531faad"⟩ valueField dayRow = some ("2015-01-01", jsNumber "1") ∧
    (∀ row ∈ thrownRows, (dayLibrary.uploadRow dayFields row).toOption.isNone) ∧
    ∀ row ∈ raisedRows, (dayLibrary.sampleOf ⟨1, 0, 1, "%Y-%m-%d"⟩ row).toOption.isNone := by
  decide +kernel

theorem dayFields_found : FieldsFound ["timestamp", "value"] dayRow dayFields :=
  ⟨List.cons_ne_nil _ _, dayRows_evaluate.2.1.1, dayRows_evaluate.2.1.2⟩

theorem dayLibrary_agrees {file : Validation} {rows : List CsvRow} :
    dayLibrary.TimestampsAgree file rows := by
  obtain ⟨hformat, -⟩ := dayRows_evaluate
  intro _ _ _ _ _ format py timestamp _ hpy _ _ hvalid
  have hday : timestamp = "2015-01-01" ∧ format = "YYYY-MM-DD" := by
    unfold Library.validDate at hvalid
    split at hvalid
    · cases hvalid
    · simpa [dayLibrary] using hvalid
  obtain ⟨rfl, rfl⟩ := hday
  obtain rfl := Option.some.inj (hformat.symm.trans hpy)
  exact ⟨by decide, by decide, by decide, by decide⟩

section FieldsFound

variable {header first : CsvRow} {fields : List Field}

theorem FieldsFound.getFields (h : FieldsFound header first fields) (rows : List CsvRow) :
    dayLibrary.getFields dayFileId (header :: first :: rows) = .ok ⟨none, fields, 1⟩ := by
  have hheader : dayLibrary.getFieldsFrom dayFileId 0 0 none (header :: first :: rows) =
      dayLibrary.getFieldsFrom dayFileId 1 1 (some header) (first :: rows) := by
    rw [Library.getFieldsFrom]
    simp [resemblesHeaderRow_of_words h.ne_nil h.words, guessFields_of_words h.words, bind,
      Except.bind]
  obtain ⟨hpresent, hguessed, hdated, herror⟩ := h.guesses
  rw [Library.getFields, hheader, Library.getFieldsFrom]
  simp [hguessed, hpresent, hdated, herror, bind, Except.bind]

theorem AcceptsRow.validateRow {row : CsvRow} (h : AcceptsRow fields row) {k : ℕ} (hk : 1 ≤ k)
    (warning : Option String) : ∃ warning',
      dayLibrary.validateRow fields 1 ⟨k, none, warning⟩ row = ⟨k + 1, none, warning'⟩ := by
  simp only [Library.validateRow, h.1, h.2, Nat.not_lt.mpr hk, Option.isSome_none,
    Bool.false_eq_true, false_and, or_false, if_false, if_true, Option.map_none]
  exact ⟨_, rfl⟩

theorem validate_accepts {rows : List CsvRow} (hrows : ∀ row ∈ rows, AcceptsRow fields row) {k : ℕ}
    (hk : 1 ≤ k) (warning : Option String) : ∃ warning',
      rows.foldl (dayLibrary.validateRow fields 1) ⟨k, none, warning⟩ =
        ⟨k + rows.length, none, warning'⟩ := by
  induction rows generalizing k warning with
  | nil => exact ⟨warning, rfl⟩
  | cons row rows ih =>
    obtain ⟨warning₁, hstep⟩ := (hrows row List.mem_cons_self).validateRow hk warning
    obtain ⟨warning₂, hrest⟩ := ih (fun row hrow => hrows row (List.mem_cons_of_mem _ hrow))
      (Nat.le_succ_of_le hk) warning₁
    refine ⟨warning₂, ?_⟩
    rw [List.foldl_cons, hstep, hrest, List.length_cons]
    congr 1
    omega

/-- A file of accepted rows is accepted if it is long enough. -/
theorem FieldsFound.validate (h : FieldsFound header first fields) {rows : List CsvRow}
    (hfirst : AcceptsRow fields first) (hrows : ∀ row ∈ rows, AcceptsRow fields row)
    (hlength : 398 ≤ rows.length) : ∃ file,
      dayLibrary.validate dayFileId (header :: first :: rows) = .ok file ∧
        file.error = none ∧ file.fields = fields ∧ file.rowOffset = 1 := by
  have hheader : dayLibrary.validateRow fields 1 ⟨0, none, none⟩ header = ⟨1, none, none⟩ := by
    simp [Library.validateRow]
  obtain ⟨warning, hfold⟩ :=
    validate_accepts (List.forall_mem_cons.mpr ⟨hfirst, hrows⟩) (Nat.le_refl 1) none
  have hstate : (header :: first :: rows).foldl (dayLibrary.validateRow fields 1) ⟨0, none, none⟩ =
      ⟨1 + (first :: rows).length, none, warning⟩ := by
    rw [List.foldl_cons, hheader, hfold]
  unfold Library.validate
  rw [h.getFields]
  refine ⟨_, rfl, ?_, rfl, rfl⟩
  simp only [hstate, List.length_cons]
  rw [if_neg]
  omega

end FieldsFound

/-- A header, a row, and more rows. -/
def dayFile (rows : List CsvRow) : List CsvRow := ["timestamp", "value"] :: dayRow :: rows

theorem dayFile_validate {rows : List CsvRow} (hrows : ∀ row ∈ rows, row ∈ dayRows)
    (hlength : 398 ≤ rows.length) : ∃ file, dayLibrary.validate dayFileId (dayFile rows) = .ok file ∧
      file.error = none ∧ file.fields = dayFields ∧ file.rowOffset = 1 := by
  obtain ⟨-, -, haccepts, -⟩ := dayRows_evaluate
  exact dayFields_found.validate (haccepts dayRow List.mem_cons_self)
    (fun row hrow => haccepts row (hrows row hrow)) hlength

theorem valueField_mem : valueField ∈ dayFields := List.mem_cons_of_mem _ List.mem_cons_self

theorem dayRow_plain : PlainRow dayFields valueField dayRow := by
  obtain ⟨-, -, -, hcells, -⟩ := dayRows_evaluate
  have hcell : ∀ field ∈ dayFields, ∃ cell, dayRow[field.index]? = some cell ∧ Unpadded cell ∧
      (field.type = .number → PlainNumber cell) := by
    intro field hfield
    obtain ⟨cell, hcell, hplain⟩ := (Option.any_eq_true _ _).mp (hcells field hfield)
    simp only [Bool.and_eq_true, Bool.not_eq_true', decide_eq_true_eq] at hplain
    refine ⟨cell, hcell, fun hna => ?_, hplain.2⟩
    rw [hplain.1] at hna
    cases hna
  constructor
  · intro t ht hdate
    obtain ⟨cell, hget, hunpadded, -⟩ := hcell t ht
    exact ⟨cell, hget, hunpadded⟩
  · intro t ht hdate hpresent f hf
    obtain ⟨cell, hget, hunpadded, -⟩ := hcell f hf
    exact ⟨cell, hget, fun _ => hunpadded⟩
  · intro t ht hdate hpresent cell hvalue _
    obtain ⟨cell', hget, -, hliteral⟩ := hcell valueField valueField_mem
    cases hget.symm.trans hvalue
    exact hliteral rfl

theorem dayFile_plain {n : ℕ} {file : Validation} (hfields : file.fields = dayFields)
    (hoffset : file.rowOffset = 1) :
    PlainFile file valueField (dayFile (List.replicate n dayRow)) := by
  constructor
  · rw [hfields]
    decide
  · rw [hfields]
    decide
  · rw [hfields, hoffset]
    intro row hrow
    have hday : row = dayRow := by
      rcases List.mem_cons.mp hrow with rfl | hrow
      · rfl
      · exact List.eq_of_mem_replicate hrow
    exact hday ▸ dayRow_plain

/-- Of a file of four hundred rows the readers agree on the column of values. -/
theorem validated_readers_agree_day : ∃ file,
    dayLibrary.validate dayFileId (dayFile (List.replicate 399 dayRow)) = .ok file ∧
      dayLibrary.ReadersAgree dayFileId (dayFile (List.replicate 399 dayRow)) file valueField
        (List.take maxNumRows) := by
  have hday : ∀ row ∈ List.replicate 399 dayRow, row ∈ dayRows := fun row hrow =>
    List.eq_of_mem_replicate hrow ▸ List.mem_cons_self
  obtain ⟨file, hvalid, herror, hfields, hoffset⟩ :=
    dayFile_validate hday (by rw [List.length_replicate]; decide)
  exact ⟨file, hvalid, Library.validated_readers_agree hvalid herror dayLibrary_agrees
    (dayFile_plain hfields hoffset) (hfields ▸ valueField_mem) rfl⟩

/-! ## Files that the readers do not agree on -/

theorem exists_ok_of_mapM {ε α β : Type} {f : α → Except ε β} {l : List α} {bs : List β}
    (h : l.mapM f = .ok bs) : ∀ a ∈ l, ∃ b, f a = .ok b := by
  induction l generalizing bs with
  | nil => exact fun _ hmem => nomatch hmem
  | cons a l ih =>
    rw [List.mapM_cons] at h
    obtain ⟨b, hb, h⟩ := except_bind_ok.mp h
    obtain ⟨bs', hbs, -⟩ := except_bind_ok.mp h
    intro a' ha'
    rcases List.mem_cons.mp ha' with rfl | ha'
    · exact ⟨b, hb⟩
    · exact ih hbs a' ha'

theorem exists_ok_of_runFrom {D : Type} {lib : Library D} {options : InputOptions}
    {rows : List CsvRow} {data : List (D × Double)} (h : lib.runFrom options 0 rows = .ok data) :
    ∀ row ∈ rows, ∃ sample, lib.sampleOf options row = .ok sample := by
  induction rows generalizing data with
  | nil => exact fun _ hmem => nomatch hmem
  | cons row rows ih =>
    rw [Library.runFrom] at h
    obtain ⟨sample, hsample, h⟩ := except_bind_ok.mp h
    obtain ⟨emitted, hemitted, -⟩ := except_bind_ok.mp h
    intro row' hrow
    rcases List.mem_cons.mp hrow with rfl | hrow
    · exact ⟨sample, hsample⟩
    · exact ih hemitted row' hrow

/-- With more rows than the parameter finder takes it does not read all of them. -/
theorem not_agree_of_length {D : Type} {lib : Library D} {fileId : String} {rows : List CsvRow}
    {file : Validation} {field : Field} (hoffset : file.rowOffset ≤ rows.length)
    (hlength : maxNumRows < (file.samples field rows).length) :
    ¬ lib.ReadersAgree fileId rows file field id := by
  rintro ⟨t, format, options, upload, data, -, -, hoptions, -, -, hrun, hreads, hfinder⟩
  have hrow : options.rowOffset = file.rowOffset := by
    simp only [inputOptions, Option.bind_eq_bind, Option.bind_eq_some_iff,
      Option.some.injEq] at hoptions
    obtain ⟨_, -, _, -, rfl⟩ := hoptions
    rfl
  rw [Library.readCSVFile_of_run hrun (hrow ▸ hoffset)] at hfinder
  have heq := congrArg List.length (Except.ok.inj hfinder)
  rw [List.length_map, List.length_map, List.length_take, id_eq, ← hreads.length_eq] at heq
  omega

theorem samples_dayFile {n : ℕ} {file : Validation} (hfields : file.fields = dayFields)
    (hoffset : file.rowOffset = 1) :
    (file.samples valueField (dayFile (List.replicate n dayRow))).length = n + 1 := by
  obtain ⟨-, -, -, -, hsample, -⟩ := dayRows_evaluate
  have hfind : dayFields.find? (fun field => field.type = .date) =
      some ⟨0, "timestamp", .date, some "YYYY-MM-DD", "a704f771f026c4f8!a5a01b8fa531faad"⟩ := by
    decide
  rw [Validation.samples, hfields, hfind, hoffset]
  change (List.filterMap _ (List.replicate (n + 1) dayRow)).length = n + 1
  rw [List.filterMap_replicate_of_some hsample, List.length_replicate]

theorem not_agree_of_thrown {rows : List CsvRow} {file : Validation} {row : CsvRow}
    (hthrown : row ∈ thrownRows) (hrow : row ∈ rows) :
    ¬ dayLibrary.ReadersAgree dayFileId (dayFile rows) file valueField id := by
  rintro ⟨t, format, options, upload, data, -, -, -, hupload, -⟩
  have hnames : (dayFields.all fun field => field.name.length ≤ 255) = true := by decide
  rw [dayFile, Library.uploadFile_of_fields (dayFields_found.getFields rows) hnames] at hupload
  obtain ⟨records, hrecords, -⟩ := except_bind_ok.mp hupload
  obtain ⟨puts, hputs⟩ := exists_ok_of_mapM hrecords row (List.mem_cons_of_mem _ hrow)
  obtain ⟨-, -, -, -, -, hthrows, -⟩ := dayRows_evaluate
  have hnone := hthrows row hthrown
  rw [hputs] at hnone
  cases hnone

theorem not_agree_of_raised {rows : List CsvRow} {file : Validation}
    (hfields : file.fields = dayFields) (hoffset : file.rowOffset = 1) {row : CsvRow}
    (hraised : row ∈ raisedRows) (hrow : row ∈ rows) :
    ¬ dayLibrary.ReadersAgree dayFileId (dayFile rows) file valueField id := by
  rintro ⟨t, format, options, upload, data, -, -, hoptions, -, -, hrun, -⟩
  have hvalue : inputOptions file valueField = some ⟨1, 0, 1, "%Y-%m-%d"⟩ := by
    rw [inputOptions, hfields, hoffset]
    decide +kernel
  obtain rfl := Option.some.inj (hvalue.symm.trans hoptions)
  rw [Library.run, Library.runFrom_skip] at hrun
  obtain ⟨sample, hsample⟩ := exists_ok_of_runFrom hrun row (List.mem_cons_of_mem _ hrow)
  obtain ⟨-, -, -, -, -, -, hraises⟩ := dayRows_evaluate
  have hnone := hraises row hraised
  rw [hsample] at hnone
  cases hnone

/-- The readers disagree on a numeric metric of an accepted file. -/
def ReadersDisagreeOn (rows : List CsvRow) : Prop :=
  ∃ file field, dayLibrary.validate dayFileId rows = .ok file ∧ file.error = none ∧
    field ∈ file.fields ∧ field.type = .number ∧
    ¬ dayLibrary.ReadersAgree dayFileId rows file field id

/-! ### Names -/

/-- A name that is longer than a metric's can be. -/
def longName : String := String.ofList (List.replicate 256 'v')

def longField : Field := ⟨1, longName, .number, none, "a704f771f026c4f8!a5a01b8fa531faad"⟩

def longFields : List Field :=
  [⟨0, "timestamp", .date, some "YYYY-MM-DD", "a704f771f026c4f8!a5a01b8fa531faad"⟩, longField]

theorem longField_mem : longField ∈ longFields := List.mem_cons_of_mem _ List.mem_cons_self

theorem longFields_evaluate :
    (strip isJsSpace (List.replicate 256 'v') = List.replicate 256 'v' ∧
      (scanRadix (List.replicate 256 'v')).isNone ∧ (scanNumeral (List.replicate 256 'v')).isNone) ∧
    (IsWord "timestamp" ∧ longName ≠ "2015-01-01") ∧
    Guesses ["timestamp", longName] dayRow longFields ∧ AcceptsRow longFields dayRow := by
  decide +kernel

/-- A cell without blanks around it in which no number is scanned. -/
theorem isWord_of_scans {entry : String} {cs : List Char} (hlist : entry.toList = cs) (hne : cs ≠ [])
    (hstrip : strip isJsSpace cs = cs) (hradix : (scanRadix cs).isNone)
    (hnumeral : (scanNumeral cs).isNone) (hday : entry ≠ "2015-01-01") : IsWord entry := by
  refine ⟨?_, hday, ?_⟩
  · rw [trim, hlist, hstrip, ← hlist, String.ofList_toList]
  · simp only [jsNumber, hlist, hstrip, hne, Option.isNone_iff_eq_none.mp hradix,
      Option.isNone_iff_eq_none.mp hnumeral, if_false]
    rfl

theorem longName_isWord : IsWord longName := by
  obtain ⟨⟨hstrip, hradix, hnumeral⟩, ⟨-, hday⟩, -⟩ := longFields_evaluate
  exact isWord_of_scans String.toList_ofList (List.cons_ne_nil _ _) hstrip hradix hnumeral hday

theorem longFields_found : FieldsFound ["timestamp", longName] dayRow longFields := by
  obtain ⟨-, ⟨hword, -⟩, hguesses, -⟩ := longFields_evaluate
  exact ⟨List.cons_ne_nil _ _,
    List.forall_mem_cons.mpr ⟨hword, List.forall_mem_singleton.mpr longName_isWord⟩, hguesses⟩

theorem longNames : (longFields.all fun field => field.name.length ≤ 255) = false := by
  have hlength : longName.length = 256 := String.length_ofList.trans List.length_replicate
  simp [longFields, longField, hlength]

theorem readersDisagreeOn_long :
    ReadersDisagreeOn (["timestamp", longName] :: dayRow :: List.replicate 398 dayRow) := by
  obtain ⟨-, -, -, haccepts⟩ := longFields_evaluate
  obtain ⟨file, hvalid, herror, hfields, -⟩ := longFields_found.validate haccepts
    (fun row hrow => List.eq_of_mem_replicate hrow ▸ haccepts) (List.length_replicate).ge
  refine ⟨file, longField, hvalid, herror, hfields ▸ longField_mem, rfl, ?_⟩
  rintro ⟨t, format, options, upload, data, -, -, -, hupload, -⟩
  unfold Library.uploadFile at hupload
  rw [longFields_found.getFields] at hupload
  obtain ⟨found, hok, hupload⟩ := except_bind_ok.mp hupload
  cases hok
  simp only [longNames] at hupload
  cases hupload

/-- Two columns of one name. -/
def twiceFields : List Field := dayFields ++ [{ valueField with index := 2 }]

def twiceRow : CsvRow := ["2015-01-01", "1", "2"]

def twicePuts : List (String × MetricData) :=
  ["1", "2"].map fun cell =>
    (valueField.uid, dayLibrary.metricData "2015-01-01" "YYYY-MM-DD" cell)

/-- The value that is kept of a row is that of the second column. -/
theorem twiceFields_evaluate :
    ((∀ entry ∈ ["timestamp", "value", "value"], IsWord entry) ∧
      Guesses ["timestamp", "value", "value"] twiceRow twiceFields) ∧
    AcceptsRow twiceFields twiceRow ∧
    (twiceFields.all fun field => field.name.length ≤ 255) = true ∧
    (twiceFields.find? fun field => field.type = .date) =
      some ⟨0, "timestamp", .date, some "YYYY-MM-DD", "a704f771f026c4f8!a5a01b8fa531faad"⟩ ∧
    dayLibrary.uploadRow twiceFields twiceRow = .ok (some twicePuts) ∧
    ((twicePuts.filter fun put => put.1 = valueField.uid).getLast?.map Prod.snd).map
      MetricData.metricValue = some (jsNumber "2") ∧
    presentSample ⟨0, "timestamp", .date, some "YYYY-MM-DD",
      "a704f771f026c4f8!a5a01b8fa531faad"⟩ valueField twiceRow =
        some ("2015-01-01", jsNumber "1") ∧ jsNumber "1" ≠ jsNumber "2" := by
  decide +kernel

theorem readersDisagreeOn_twice :
    ReadersDisagreeOn (["timestamp", "value", "value"] :: twiceRow :: List.replicate 398 twiceRow) := by
  obtain ⟨⟨hwords, hguesses⟩, haccepts, hnames, hfind, hputs, hlast, hsample, hne⟩ :=
    twiceFields_evaluate
  have hfound : FieldsFound ["timestamp", "value", "value"] twiceRow twiceFields :=
    ⟨List.cons_ne_nil _ _, hwords, hguesses⟩
  obtain ⟨data, hkept, htwo⟩ := Option.map_eq_some_iff.mp hlast
  have hrows : ∀ row ∈ List.replicate 398 twiceRow, row = twiceRow :=
    fun row hrow => List.eq_of_mem_replicate hrow
  obtain ⟨file, hvalid, herror, hfields, hoffset⟩ := hfound.validate haccepts
    (fun row hrow => hrows row hrow ▸ haccepts) (List.length_replicate).ge
  refine ⟨file, valueField, hvalid, herror, ?_, rfl, ?_⟩
  · rw [hfields]
    exact List.mem_append_left _ valueField_mem
  rintro ⟨t, format, options, upload, read, -, -, -, hupload, hstored, -⟩
  generalize List.replicate 398 twiceRow = rest at *
  have hrecords : (twiceRow :: rest).mapM (dayLibrary.uploadRow twiceFields) =
      .ok ((twiceRow :: rest).map fun _ => some twicePuts) := by
    apply mapM_ok
    intro row hrow
    rcases List.mem_cons.mp hrow with rfl | hrow
    · exact hputs
    · rw [hrows row hrow, hputs]
  rw [Library.uploadFile_of_fields (hfound.getFields rest) hnames, List.drop_one,
    List.tail_cons, hrecords] at hupload
  cases hupload
  rw [Validation.samples, hfields, hfind, hoffset] at hstored
  have hhead := congrArg (fun all => all.head?.map MetricData.metricValue) hstored
  simp only [Upload.getMetricData, List.map_cons, Option.getD_some, List.filterMap_cons, hkept,
    List.drop_one, List.tail_cons, hsample, Library.stored, List.head?_cons, Option.map_some, htwo,
    Option.some.injEq] at hhead
  exact hne hhead.symm

/-- The parameter finder does not read a long file to its end. A short row and a padded missing value
are thrown at by the upload, and a literal of another base or a blank of JavaScript alone ends the model
runner. A long name is refused by the upload, and of two columns of one name it keeps the second. -/
theorem validated_readers_disagree :
    ReadersDisagreeOn (dayFile (List.replicate 20000 dayRow)) ∧
      (∀ row ∈ thrownRows ++ raisedRows,
        ReadersDisagreeOn (dayFile (List.replicate 398 dayRow ++ [row]))) ∧
      ReadersDisagreeOn (["timestamp", longName] :: dayRow :: List.replicate 398 dayRow) ∧
      ReadersDisagreeOn
        (["timestamp", "value", "value"] :: twiceRow :: List.replicate 398 twiceRow) := by
  have hday : ∀ (n : ℕ) (last : List CsvRow), last ⊆ dayRows →
      ∀ row ∈ List.replicate n dayRow ++ last, row ∈ dayRows := by
    intro n last hlast row hrow
    rcases List.mem_append.mp hrow with hrow | hrow
    · exact List.eq_of_mem_replicate hrow ▸ List.mem_cons_self
    · exact hlast hrow
  have haccepted : ∀ (n : ℕ) (last : List CsvRow), last ⊆ dayRows → 398 ≤ n →
      ∃ file, dayLibrary.validate dayFileId (dayFile (List.replicate n dayRow ++ last)) =
        .ok file ∧ file.error = none ∧ file.fields = dayFields ∧ file.rowOffset = 1 := by
    intro n last hlast hn
    apply dayFile_validate (hday n last hlast)
    rw [List.length_append, List.length_replicate]
    omega
  refine ⟨?_, fun row hrow => ?_, readersDisagreeOn_long, readersDisagreeOn_twice⟩
  · obtain ⟨file, hvalid, herror, hfields, hoffset⟩ :=
      haccepted 20000 [] (List.nil_subset _) (by decide)
    rw [List.append_nil] at hvalid
    refine ⟨file, valueField, hvalid, herror, hfields ▸ valueField_mem, rfl,
      not_agree_of_length ?_ ?_⟩
    · rw [hoffset, dayFile, List.length_cons]
      omega
    · rw [samples_dayFile hfields hoffset]
      decide
  · have hlast : [row] ⊆ dayRows := by
      rintro _ hmem
      rw [List.mem_singleton.mp hmem]
      exact List.mem_cons_of_mem _ hrow
    obtain ⟨file, hvalid, herror, hfields, hoffset⟩ := haccepted 398 [row] hlast (Nat.le_refl _)
    have hlater : row ∈ List.replicate 398 dayRow ++ [row] :=
      List.mem_append_right _ (List.mem_singleton_self _)
    refine ⟨file, valueField, hvalid, herror, hfields ▸ valueField_mem, rfl, ?_⟩
    rcases List.mem_append.mp hrow with hthrown | hraised
    · exact not_agree_of_thrown hthrown hlater
    · exact not_agree_of_raised hfields hoffset hraised hlater

end NumentaApps.Unicorn
