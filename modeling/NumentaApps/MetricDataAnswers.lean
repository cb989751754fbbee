import NumentaApps.MetricDataWire

/-!
# The two answers of the metric data handler

What is read out of the stream and out of the document for a metric: its rows, in the order of the
result, up to the limit. The stream counts the rows of a metric by an integer of which it takes the
length, so that it fails on the first row when there is a limit.
-/
namespace NumentaApps.HTMIT
open JsonReader
open MetricDataHandler MetricDataParser

variable {Double : Type}

/-- The rows of a metric that an answer is to have. -/
def firstRows (limit : ℕ) (uid : String) (result : List (MetricDataRow Double)) :
    List (MetricDataRow Double) :=
  let rows := result.filter fun row => row.uid = uid
  if limit = 0 then rows else rows.take limit

/-! ## Reading the stream -/

def tupleUid : List (Packed Double) → Option String
  | .raw uid :: _ => some uid
  | _ => none

def readTuple : List (Packed Double) → Option (MetricData Double)
  | [.raw uid, .integer timestamp, .double value, .double score, .integer rowid] =>
    some ⟨some uid, timestamp * 1000, value, score, rowid⟩
  | _ => none

/-- The tuples of a metric, after the names. -/
def streamRows (uid : String) (stream : List (List (Packed Double))) :
    List (Option (MetricData Double)) :=
  (stream.tail.filter fun tuple => tupleUid tuple = some uid).map readTuple

/-! ## Reading the document -/

def field (name : String) : Json → Option Json
  | .object fields => fields.lookup name
  | _ => none

def elements : Option Json → List Json
  | some (.array items) => items
  | _ => []

def isOfMetric (uid : String) (metric : Json) : Bool :=
  match field "uid" metric with
  | some (.string text) => text = uid
  | _ => false

def readRecord (scalars : Scalars Double) (uid : String) : Json → Option (MetricData Double)
  | .array [.string text, .number value, .number score, .number rowid] =>
    match DataUtils.parseHTMDate text, scalars.parseDouble value, scalars.parseDouble score,
        scalars.parseLong rowid with
    | .ok (some timestamp), some value, some score, some rowid =>
      some ⟨some uid, timestamp, value, score, rowid⟩
    | _, _, _, _ => none
  | _ => none

/-- The records of a metric: of the metric of the request, or found by its uid. -/
def documentRows (scalars : Scalars Double) (metricId : Option String) (uid : String)
    (document : Json) : List (Option (MetricData Double)) :=
  let records := match metricId with
    | some id => if id = uid then elements (field "data" document) else []
    | none => elements (((elements (field "metrics" document)).find? (isOfMetric uid)).bind
        (field "data"))
  records.map (readRecord scalars uid)

/-- Both answers have the rows of every metric, and neither raises. -/
structure SameData (scalars : Scalars Double) (metricId : Option String) (limit : ℕ)
    (result : List (MetricDataRow Double)) : Prop where
  streams : octetStreamRaises limit result = none
  stream : ∀ uid, streamRows uid (octetStream limit result) =
    (firstRows limit uid result).map fun row => some (received id row)
  sends : ∃ document, Sends scalars limit result metricId document
  document : ∀ document, Sends scalars limit result metricId document → ∀ uid,
    documentRows scalars metricId uid document =
      (firstRows limit uid result).map fun row => some (received id row)

/-! ## The stream -/

theorem octetStreamRaises_eq_none_iff (limit : ℕ) (result : List (MetricDataRow Double)) :
    octetStreamRaises limit result = none ↔ limit = 0 ∨ result = [] := by
  constructor
  · intro h
    by_cases hlimit : limit = 0
    · exact .inl hlimit
    · right
      cases result with
      | nil => rfl
      | cons row result =>
        simp only [octetStreamRaises, resultTuples, underCounter, if_neg hlimit, lenOfInt,
          Except.map] at h
        cases h
  · rintro (rfl | rfl)
    · rw [octetStreamRaises, resultTuples_unlimited]
    · rfl

theorem readTuple_resultTuple (row : MetricDataRow Double) :
    readTuple (resultTuple row) = some (received id row) := by
  rw [resultTuple, readTuple, ← received_timestamp id]
  rfl

theorem streamRows_resultTuples (uid : String) (result : List (MetricDataRow Double)) :
    streamRows uid (names.map .raw :: result.map resultTuple) =
      (result.filter fun row => row.uid = uid).map fun row => some (received id row) := by
  have hfilter : (result.map resultTuple).filter (fun tuple => tupleUid tuple = some uid) =
      (result.filter fun row => row.uid = uid).map resultTuple := by
    rw [List.filter_map]
    congr 1
    apply List.filter_congr
    intro row _
    simp [tupleUid, resultTuple]
  rw [streamRows, List.tail_cons, hfilter, List.map_map]
  apply List.map_congr_left
  intro row _
  exact readTuple_resultTuple row

/-! ## The documents -/

section Documents

variable {scalars : Scalars Double} {limit : ℕ}

theorem readRecord_of_isRecord {row : MetricDataRow Double} {item : Json}
    (h : IsRecord scalars row item) :
    readRecord scalars row.uid item = some (received id row) := by
  obtain ⟨text, htext, rfl⟩ := h
  have hrowid := scalars.parseLong_repr row.rowid (lt_of_lt_of_le row.rowid_lt (by decide))
  simp only [readRecord, DataUtils.parseHTMDate_strftime row.isDate htext, scalars.parseDouble_repr,
    hrowid]
  rw [← received_timestamp id]
  rfl

theorem map_readRecord {uid : String} {rows : List (MetricDataRow Double)} {records : List Json}
    (h : List.Forall₂ (IsRecord scalars) rows records) (huid : ∀ row ∈ rows, row.uid = uid) :
    records.map (readRecord scalars uid) = rows.map fun row => some (received id row) := by
  induction h with
  | nil => rfl
  | cons hrow hrows ih =>
    obtain ⟨hfirst, hrest⟩ := List.forall_mem_cons.mp huid
    rw [List.map_cons, List.map_cons, ih hrest, ← hfirst, readRecord_of_isRecord hrow]

theorem firstRows_uid {uid : String} {result : List (MetricDataRow Double)} :
    ∀ row ∈ firstRows limit uid result, row.uid = uid := by
  intro row hrow
  have hmem : row ∈ result.filter fun row => row.uid = uid := by
    simp only [firstRows] at hrow
    split at hrow
    · exact hrow
    · exact List.mem_of_mem_take hrow
  exact of_decide_eq_true (List.mem_filter.mp hmem).2

/-- A row more is one row more of its metric, up to the limit. -/
theorem firstRows_concat (uid : String) (done : List (MetricDataRow Double))
    (row : MetricDataRow Double) :
    firstRows limit uid (done ++ [row]) =
      if row.uid = uid ∧ UnderLimit limit (firstRows limit uid done).length then
        firstRows limit uid done ++ [row]
      else firstRows limit uid done := by
  simp only [firstRows, List.filter_append, List.filter_singleton]
  by_cases huid : row.uid = uid
  · simp only [huid, decide_true, cond_true, true_and]
    by_cases hlimit : limit = 0
    · rw [if_pos hlimit, if_pos hlimit, if_pos (.inl hlimit)]
    · rw [if_neg hlimit, if_neg hlimit, List.length_take]
      split
      · next hunder =>
        have hlt : (done.filter fun row => row.uid = uid).length < limit := by
          have := hunder.resolve_left hlimit
          omega
        rw [List.take_of_length_le (by simp; omega), List.take_of_length_le (by omega)]
      · next hover =>
        have hle : limit ≤ (done.filter fun row => row.uid = uid).length := by
          by_contra hlt
          exact hover (.inr (by omega))
        rw [List.take_append_of_le_length hle]
  · simp [huid]

theorem lookup_entry (uid : String) (metric : String × List Json)
    (output : List (String × List Json)) :
    (metric :: output).lookup uid = if metric.1 = uid then some metric.2 else output.lookup uid := by
  rw [List.lookup_cons]
  by_cases huid : metric.1 = uid
  · rw [if_pos huid, huid, beq_self_eq_true]
  · rw [if_neg huid, beq_eq_false_iff_ne.mpr (Ne.symm huid)]

theorem lookup_addRecord (uid uid' : String) (record : Json)
    (output : List (String × List Json)) :
    ((addRecord limit uid record output).lookup uid').getD [] =
      if uid = uid' ∧ UnderLimit limit ((output.lookup uid').getD []).length then
        (output.lookup uid').getD [] ++ [record]
      else (output.lookup uid').getD [] := by
  induction output with
  | nil =>
    rw [addRecord, lookup_entry]
    by_cases huid : uid = uid' <;> simp [huid]
  | cons metric output ih =>
    rw [addRecord, lookup_entry uid' metric]
    by_cases hkey : metric.1 = uid
    · subst hkey
      rw [if_pos rfl, lookup_entry]
      by_cases huid : metric.1 = uid' <;> simp [huid]
    · rw [if_neg hkey, lookup_entry]
      by_cases huid : metric.1 = uid'
      · have hne : uid ≠ uid' := fun h => hkey (huid.trans h.symm)
        simp [huid, hne]
      · rw [if_neg huid, if_neg huid]
        exact ih

/-- Every metric has the records of its rows. -/
def HasRecords (scalars : Scalars Double) (limit : ℕ) (done : List (MetricDataRow Double))
    (output : List (String × List Json)) : Prop :=
  ∀ uid, List.Forall₂ (IsRecord scalars) (firstRows limit uid done) ((output.lookup uid).getD [])

theorem HasRecords.addRecord {done : List (MetricDataRow Double)}
    {output : List (String × List Json)} (h : HasRecords scalars limit done output)
    {row : MetricDataRow Double} {record : Json} (hrecord : IsRecord scalars row record) :
    HasRecords scalars limit (done ++ [row]) (addRecord limit row.uid record output) := by
  intro uid
  rw [firstRows_concat, lookup_addRecord, (h uid).length_eq]
  split
  · exact List.rel_append (h uid) (.cons hrecord .nil)
  · exact h uid

theorem addRecord_nodup {uid : String} {record : Json} {output : List (String × List Json)}
    (h : (output.map Prod.fst).Nodup) :
    ((addRecord limit uid record output).map Prod.fst).Nodup ∧
      ∀ key ∈ (addRecord limit uid record output).map Prod.fst,
        key = uid ∨ key ∈ output.map Prod.fst := by
  induction output with
  | nil =>
    refine ⟨List.pairwise_singleton _ _, fun key hkey => ?_⟩
    exact .inl (List.mem_singleton.mp hkey)
  | cons metric output ih =>
    obtain ⟨hfresh, hrest⟩ := List.nodup_cons.mp h
    rw [addRecord]
    split
    · next hkey =>
      subst hkey
      exact ⟨h, fun key hkey => .inr hkey⟩
    · next hkey =>
      obtain ⟨hnodup, hmem⟩ := ih hrest
      refine ⟨List.nodup_cons.mpr ⟨fun hold => ?_, hnodup⟩, fun key hold => ?_⟩
      · rcases hmem metric.1 hold with huid | hold
        · exact hkey huid
        · exact hfresh hold
      · rcases List.mem_cons.mp hold with rfl | hold
        · exact .inr List.mem_cons_self
        · exact (hmem key hold).imp_right (List.mem_cons_of_mem _)

/-- The dictionary at the end of the loop. -/
theorem outputFrom_hasRecords {result done : List (MetricDataRow Double)}
    {output output' : List (String × List Json)}
    (houtput : outputFrom scalars limit output result = .ok output')
    (hrecords : HasRecords scalars limit done output) (hnodup : (output.map Prod.fst).Nodup) :
    HasRecords scalars limit (done ++ result) output' ∧ (output'.map Prod.fst).Nodup := by
  induction result generalizing output done with
  | nil =>
    obtain rfl := Except.ok.inj houtput
    rw [List.append_nil]
    exact ⟨hrecords, hnodup⟩
  | cons row result ih =>
    rw [outputFrom] at houtput
    cases hrecord : recordTuple scalars row with
    | error e =>
      rw [hrecord] at houtput
      cases houtput
    | ok record =>
      rw [hrecord] at houtput
      have hrest := ih houtput (hrecords.addRecord (isRecord_of_recordTuple hrecord))
        (addRecord_nodup hnodup).1
      rwa [List.append_assoc] at hrest

/-- With every key once, the order of a dictionary does not matter. -/
theorem lookup_perm {values output : List (String × List Json)} (horder : output.Perm values)
    (hnodup : (output.map Prod.fst).Nodup) (uid : String) :
    values.lookup uid = output.lookup uid := by
  have hmem : ∀ {entries : List (String × List Json)}, (entries.map Prod.fst).Nodup → ∀ data,
      entries.lookup uid = some data ↔ (uid, data) ∈ entries := by
    intro entries hentries data
    induction entries with
    | nil => simp
    | cons entry entries ih =>
      obtain ⟨hfresh, hrest⟩ := List.nodup_cons.mp hentries
      rw [lookup_entry]
      by_cases huid : entry.1 = uid
      · subst huid
        rw [if_pos rfl]
        constructor
        · intro h
          obtain rfl := Option.some.inj h
          exact List.mem_cons_self
        · intro h
          rcases List.mem_cons.mp h with heq | h
          · rw [← heq]
          · exact absurd (List.mem_map.mpr ⟨_, h, rfl⟩) hfresh
      · rw [if_neg huid, List.mem_cons]
        refine (ih hrest).trans ⟨.inr, fun h => h.resolve_left fun heq => huid ?_⟩
        rw [← heq]
  apply Option.ext
  intro data
  rw [hmem ((horder.map Prod.fst).nodup_iff.mp hnodup), hmem hnodup, horder.mem_iff]

/-- The two fields of an object are found in either order. -/
theorem field_pair {name name' : String} {value value' object : Json} (hne : name ≠ name')
    (h : Json.Same (.object [(name, value), (name', value')]) object) :
    ∃ found found', Json.Same value found ∧ Json.Same value' found' ∧
      field name object = some found ∧ field name' object = some found' := by
  obtain ⟨found, found', hfound, hfound', rfl | rfl⟩ := same_object_pair h
  · refine ⟨found, found', hfound, hfound', ?_, ?_⟩
    · simp [field]
    · simp [field, List.lookup_cons, beq_eq_false_iff_ne.mpr (Ne.symm hne)]
  · refine ⟨found, found', hfound, hfound', ?_, ?_⟩
    · simp [field, List.lookup_cons, beq_eq_false_iff_ne.mpr hne]
    · simp [field]

theorem isOfMetric_same {metric : String × List Json} {item : Json}
    (h : Json.Same (metricObject metric) item) (uid : String) :
    isOfMetric uid item = decide (metric.1 = uid) ∧
      ∃ records, List.Forall₂ Json.Same metric.2 records ∧
        field "data" item = some (.array records) := by
  obtain ⟨found, found', hfound, hfound', huid, hdata⟩ := field_pair (by decide) h
  obtain rfl := same_string hfound
  obtain ⟨records, hrecords, rfl⟩ := same_array hfound'
  refine ⟨?_, records, hrecords, hdata⟩
  rw [isOfMetric, huid]

/-- What is found in the document by the uid is what the dictionary has. -/
theorem elements_find {values : List (String × List Json)} {items : List Json}
    (h : List.Forall₂ Json.Same (values.map metricObject) items) (uid : String) :
    List.Forall₂ Json.Same ((values.lookup uid).getD [])
      (elements ((items.find? (isOfMetric uid)).bind (field "data"))) := by
  induction values generalizing items with
  | nil =>
    cases h
    exact .nil
  | cons metric values ih =>
    obtain _ | ⟨hitem, hitems⟩ := h
    obtain ⟨huid, records, hrecords, hdata⟩ := isOfMetric_same hitem uid
    rw [lookup_entry, List.find?_cons, huid]
    by_cases heq : metric.1 = uid
    · rw [if_pos heq, decide_eq_true heq, Option.bind_some, hdata]
      exact hrecords
    · rw [if_neg heq, decide_eq_false heq]
      exact ih hitems

theorem documentRows_sent {metricId : Option String} {scored : List (MetricDataRow Double)}
    {document : Json}
    (h : Sends scalars limit (getMetricData metricId scored) metricId document) (uid : String) :
    documentRows scalars metricId uid document =
      (firstRows limit uid (getMetricData metricId scored)).map fun row =>
        some (received id row) := by
  cases h with
  | @metrics output values document houtput horder hdocument =>
    obtain ⟨found, found', hfound, -, hmetrics, -⟩ := field_pair (by decide) hdocument
    obtain ⟨items, hitems, rfl⟩ := same_array hfound
    have hstart : HasRecords scalars limit [] [] := fun uid => by simp [firstRows]
    obtain ⟨hrecords, hnodup⟩ := outputFrom_hasRecords houtput hstart List.nodup_nil
    have hentry := hrecords uid
    rw [← lookup_perm horder hnodup] at hentry
    simp only [documentRows, hmetrics, elements]
    exact map_readRecord (forall₂_same hentry (elements_find hitems uid)) firstRows_uid
  | @data metricId records document hrecords hdocument =>
    obtain ⟨found, found', -, hfound', -, hdata⟩ := field_pair (by decide) hdocument
    obtain ⟨items, hitems, rfl⟩ := same_array hfound'
    have hsent := forall₂_same (recordTuples_forall₂ hrecords) hitems
    simp only [documentRows, hdata, elements]
    by_cases huid : metricId = uid
    · subst huid
      have hall : (getMetricData (some metricId) scored).filter (fun row => row.uid = metricId) =
          getMetricData (some metricId) scored := by
        apply List.filter_eq_self.mpr
        intro row hrow
        exact decide_eq_true (getMetricData_uid row hrow)
      have hrows : firstRows limit metricId (getMetricData (some metricId) scored) =
          if limit = 0 then getMetricData (some metricId) scored
          else (getMetricData (some metricId) scored).take limit := by
        simp only [firstRows, hall]
      rw [← hrows] at hsent
      rw [if_pos rfl]
      exact map_readRecord hsent firstRows_uid
    · have hnone : (getMetricData (some metricId) scored).filter (fun row => row.uid = uid) =
          [] := by
        apply List.filter_eq_nil_iff.mpr
        intro row hrow
        rw [getMetricData_uid row hrow]
        simpa using huid
      simp [firstRows, hnone, huid]

/-! ## The dates of a document -/

theorem year_of_isRecord {row : MetricDataRow Double} {record : Json}
    (h : IsRecord scalars row record) : 1900 ≤ row.timestamp.year := by
  obtain ⟨text, htext, -⟩ := h
  rw [strftime] at htext
  split at htext
  · cases htext
  · omega

theorem years_of_records {rows : List (MetricDataRow Double)} {records : List Json}
    (h : List.Forall₂ (IsRecord scalars) rows records) : ∀ row ∈ rows, 1900 ≤ row.timestamp.year := by
  induction h with
  | nil => exact fun row hrow => absurd hrow List.not_mem_nil
  | cons hrow hrows ih => exact List.forall_mem_cons.mpr ⟨year_of_isRecord hrow, ih⟩

theorem years_of_outputFrom {result : List (MetricDataRow Double)}
    {output output' : List (String × List Json)}
    (h : outputFrom scalars limit output result = .ok output') :
    ∀ row ∈ result, 1900 ≤ row.timestamp.year := by
  induction result generalizing output with
  | nil => exact fun row hrow => absurd hrow List.not_mem_nil
  | cons row result ih =>
    rw [outputFrom] at h
    cases hrecord : recordTuple scalars row with
    | error e =>
      rw [hrecord] at h
      cases h
    | ok record =>
      rw [hrecord] at h
      exact List.forall_mem_cons.mpr ⟨year_of_isRecord (isRecord_of_recordTuple hrecord), ih h⟩

/-- Without a limit every date is written. -/
theorem years_of_sends {metricId : Option String} {result : List (MetricDataRow Double)}
    {document : Json} (h : Sends scalars 0 result metricId document) :
    ∀ row ∈ result, 1900 ≤ row.timestamp.year := by
  cases h with
  | metrics houtput horder hdocument => exact years_of_outputFrom houtput
  | data hrecords hdocument =>
    rw [if_pos rfl] at hrecords
    exact years_of_records (recordTuples_forall₂ hrecords)

end Documents

/-- With a limit the stream ends with the first row, and no document has a date of before 1900. -/
theorem answers_agree_iff (scalars : Scalars Double) (metricId : Option String) (limit : ℕ)
    (scored : List (MetricDataRow Double)) :
    SameData scalars metricId limit (getMetricData metricId scored) ↔
      (limit = 0 ∨ getMetricData metricId scored = []) ∧
        ∀ row ∈ getMetricData metricId scored, 1900 ≤ row.timestamp.year := by
  constructor
  · intro h
    have hlimit := (octetStreamRaises_eq_none_iff _ _).mp h.streams
    refine ⟨hlimit, ?_⟩
    obtain ⟨document, hdocument⟩ := h.sends
    rcases hlimit with rfl | hnil
    · exact years_of_sends hdocument
    · rw [hnil]
      exact fun row hrow => absurd hrow List.not_mem_nil
  · rintro ⟨hlimit, hyears⟩
    refine ⟨(octetStreamRaises_eq_none_iff _ _).mpr hlimit, ?_, ?_, ?_⟩
    · intro uid
      rcases hlimit with rfl | hnil
      · rw [octetStream, resultTuples_unlimited, streamRows_resultTuples, firstRows, if_pos rfl]
      · rw [hnil]
        simp [firstRows, octetStream, resultTuples, streamRows]
    · exact exists_sends scalars limit metricId hyears
    · exact fun document hdocument uid => documentRows_sent hdocument uid

/-- Two rows of a metric and one of another are asked for with a limit of two. -/
theorem answers_disagree :
    ¬ SameData halves none 2 (getMetricData none sampleRows) := by
  intro h
  have hraised : octetStreamRaises 2 (getMetricData none sampleRows) = some .typeError := by decide
  rw [h.streams] at hraised
  cases hraised

end NumentaApps.HTMIT
