import NumentaApps.JsonParse
import NumentaApps.JsonText
import NumentaApps.Strptime

/-!
# The output of a model process

The model runner prints each result as a line of JSON. The service gets the output of the process
in data events, which may cut it anywhere, and reads each event's lines on their own.
-/
namespace NumentaApps.Unicorn.ModelOutput
open JsonParse (Json parse isNumber isNumberChar utf16)
open JsonText (FloatText)

/-! ## The model runner -/

/-- `%0*d`. -/
def padded (width n : ℕ) : List Char := (Nat.toDigits 10 n).leftpad width '0'

def offsetText : Option ℤ → List Char
  | none => []
  | some offset =>
    let minutes := offset.natAbs / 60
    (if offset < 0 then '-' else '+') :: (padded 2 (minutes / 60) ++ ':' :: padded 2 (minutes % 60))

def isoformat (t : DateTime) : List Char :=
  padded 4 t.year ++ '-' :: padded 2 t.month ++ '-' :: padded 2 t.day ++ 'T' :: padded 2 t.hour ++
    ':' :: padded 2 t.minute ++ ':' :: padded 2 t.second ++
    (if t.microsecond = 0 then [] else '.' :: padded 6 t.microsecond) ++ offsetText t.utcoffset

/-- The `repr` of a finite float, which is a number of JSON. -/
structure FloatNumber extends FloatText where
  number : isNumber text.toList

/-- A data row with the anomaly probability computed for it. -/
structure InferenceRecord where
  timestamp : DateTime
  metricValue : FloatNumber
  anomalyProbability : FloatNumber

def InferenceRecord.line (record : InferenceRecord) : List Char :=
  (JsonText.dumps (.list [.string (String.ofList (isoformat record.timestamp)),
    .float record.metricValue.toFloatText,
    .float record.anomalyProbability.toFloatText])).toList

def emitOutputMessage (record : InferenceRecord) : List Char := record.line ++ ['\n']

/-- What the runner prints for records one after the other. -/
def stdout (records : List InferenceRecord) : List Char := records.flatMap emitOutputMessage

/-! ## The handler of the data events -/

/-- The functions of moment.js that the service calls, with moments `M` and their values `T`, and
the conversion of a value to a string. A value is none where it is undefined. -/
structure MomentLibrary (M T : Type) where
  toText : Option Json → List ℕ
  parseZone : Option Json → M
  utc : Option Json → M
  format : M → String → List ℕ
  utcWithFormat : List ℕ → String → M
  valueOf : M → T

variable {M T : Type} (moment : MomentLibrary M T)

/-- The characters that a dot of a regular expression does not match. -/
def isLineTerminator (unit : ℕ) : Bool := [0x0a, 0x0d, 0x2028, 0x2029].contains unit

/-- `/.*T.*(\+|\-|Z).*/.test`. -/
def testTimeZone (units : List ℕ) : Bool :=
  units.tails.any fun tail =>
    tail.head? = some 'T'.toNat &&
      (tail.tail.takeWhile fun unit => !isLineTerminator unit).any fun unit =>
        ['+', '-', 'Z'].any fun c => c.toNat = unit

def hasTimeZone : Option Json → Bool
  | some (.string units) => testTimeZone units
  | timestamp => testTimeZone (moment.toText timestamp)

def parseIsoTimestampFallbackUtc (timestamp : Option Json) : M × Bool :=
  let zone := hasTimeZone moment timestamp
  (if zone then moment.parseZone timestamp else moment.utc timestamp, zone)

def getNaiveTime (m : M) : T :=
  let noZoneFormat := "YYYY-MM-DDTHH:mm:ss.SSSSSS"
  moment.valueOf (moment.utcWithFormat (moment.format m noZoneFormat) noZoneFormat)

structure ModelData (T : Type) where
  isoTimestamp : Option Json
  naiveTime : T
  metricValue : Option Json
  anomalyScore : Option Json

inductive Raised where
  | syntaxError
  | typeError
  deriving DecidableEq, Repr

/-- The characters of a string as an iteration gives them. -/
def codePoints : List ℕ → List (List ℕ)
  | [] => []
  | [unit] => [[unit]]
  | high :: low :: units =>
    if (0xd800 ≤ high ∧ high < 0xdc00) ∧ 0xdc00 ≤ low ∧ low < 0xe000 then
      [high, low] :: codePoints units
    else [high] :: codePoints (low :: units)

/-- The items of a value that a destructuring takes. -/
def iterate : Json → Except Raised (List Json)
  | .array items => .ok items
  | .string units => .ok ((codePoints units).map .string)
  | _ => .error .typeError

def modelDataOf (line : List Char) : Except Raised (ModelData T) := do
  match parse line with
  | none => .error .syntaxError
  | some json =>
    let items ← iterate json
    .ok {
      isoTimestamp := items[0]?
      naiveTime := getNaiveTime moment (parseIsoTimestampFallbackUtc moment items[0]?).1
      metricValue := items[1]?
      anomalyScore := items[2]? }

/-- What is emitted for lines, from an index on, and what was raised if that ended it. -/
def emitLines (index : ℕ) : List (List Char) → List (ℕ × ModelData T) × Option Raised
  | [] => ([], none)
  | line :: lines =>
    if line = [] then emitLines index lines
    else
      match modelDataOf moment line with
      | .error raised => ([], some raised)
      | .ok modelData =>
        let rest := emitLines (index + 1) lines
        ((index, modelData) :: rest.1, rest.2)

def onData (index : ℕ) (data : List Char) : List (ℕ × ModelData T) × Option Raised :=
  emitLines moment index (data.splitOn '\n')

/-- What is emitted and what is raised in the events one after the other. -/
def onEvents (index : ℕ) : List (List Char) → List (ℕ × ModelData T) × List Raised
  | [] => ([], [])
  | data :: events =>
    let first := onData moment index data
    -- an exception ends the handler of its event only
    let rest := onEvents (index + first.1.length) events
    (first.1 ++ rest.1, first.2.toList ++ rest.2)

/-! ## The results of the records -/

def modelData (record : InferenceRecord) : ModelData T :=
  let timestamp := some (.string ((isoformat record.timestamp).map Char.toNat))
  { isoTimestamp := timestamp
    naiveTime := getNaiveTime moment (parseIsoTimestampFallbackUtc moment timestamp).1
    metricValue := some (.number record.metricValue.text.toList)
    anomalyScore := some (.number record.anomalyProbability.text.toList) }

/-- One result for each record, in order and with its index. -/
def results (index : ℕ) (records : List InferenceRecord) : List (ℕ × ModelData T) :=
  (records.zipIdx index).map fun record => (record.2, modelData moment record.1)

/-! ## The text of a line -/

def isIsoChar (c : Char) : Bool := c.isDigit || "-T:.+".toList.contains c

theorem isIsoChar_digit {c : Char} (h : c.isDigit) : isIsoChar c := by
  rw [isIsoChar, h]
  rfl

theorem isIsoChar_padded {width n : ℕ} {c : Char} (h : c ∈ padded width n) : isIsoChar c := by
  rw [padded, List.leftpad] at h
  obtain hzero | hdigit := List.mem_append.mp h
  · obtain rfl := List.eq_of_mem_replicate hzero
    decide
  · exact isIsoChar_digit (Nat.isDigit_of_mem_toDigits (by decide) (by decide) hdigit)

theorem isIsoChar_offsetText {offset : Option ℤ} {c : Char} (h : c ∈ offsetText offset) :
    isIsoChar c := by
  cases offset with
  | none => cases h
  | some offset =>
    simp only [offsetText, List.mem_cons, List.mem_append] at h
    obtain hsign | hhours | rfl | hminutes := h
    · split at hsign
      · rw [hsign]
        decide
      · rw [hsign]
        decide
    · exact isIsoChar_padded hhours
    · decide
    · exact isIsoChar_padded hminutes

theorem isIsoChar_isoformat {t : DateTime} {c : Char} (h : c ∈ isoformat t) : isIsoChar c := by
  simp only [isoformat, List.mem_append, List.mem_cons] at h
  obtain (((((((h | rfl | h) | rfl | h) | rfl | h) | rfl | h) | rfl | h)) | h) | h := h
  · exact isIsoChar_padded h
  · decide
  · exact isIsoChar_padded h
  · decide
  · exact isIsoChar_padded h
  · decide
  · exact isIsoChar_padded h
  · decide
  · exact isIsoChar_padded h
  · decide
  · exact isIsoChar_padded h
  · split at h
    · cases h
    · obtain rfl | h := List.mem_cons.mp h
      · decide
      · exact isIsoChar_padded h
  · exact isIsoChar_offsetText h

theorem toNat_isIsoChar {c : Char} (h : isIsoChar c) :
    43 ≤ c.toNat ∧ c.toNat ≤ 84 ∧ c.toNat ≠ 44 := by
  rw [isIsoChar, Bool.or_eq_true] at h
  obtain hdigit | hother := h
  · obtain ⟨hleast, hmost⟩ := NumericLiteral.digit_range hdigit
    omega
  · have hall : "-T:.+".toList.all (fun c => 43 ≤ c.toNat ∧ c.toNat ≤ 84 ∧ c.toNat ≠ 44) := by
      decide
    exact of_decide_eq_true (List.all_eq_true.mp hall c (List.contains_iff_mem.mp hother))

theorem ne_of_toNat_ne {c d : Char} (h : c.toNat ≠ d.toNat) : c ≠ d := by
  intro heq
  exact h (congrArg Char.toNat heq)

theorem plain_of_isIsoChar {c : Char} (h : isIsoChar c) : JsonParse.Plain c := by
  obtain ⟨hleast, hmost, -⟩ := toNat_isIsoChar h
  have hquote : '"'.toNat = 34 := rfl
  have hbackslash : '\\'.toNat = 92 := rfl
  refine ⟨ne_of_toNat_ne ?_, ne_of_toNat_ne ?_, ?_⟩ <;> omega

theorem utf16_of_isIsoChar {c : Char} (h : isIsoChar c) : utf16 c = [c.toNat] := by
  obtain ⟨-, hmost, -⟩ := toNat_isIsoChar h
  rw [utf16, if_pos (by omega)]

theorem escape_of_isIsoChar {c : Char} (h : isIsoChar c) : JsonText.escape c = [c] := by
  obtain ⟨hleast, hmost, -⟩ := toNat_isIsoChar h
  obtain ⟨hquote, hbackslash, hcontrol⟩ := plain_of_isIsoChar h
  have hother : ∀ d : Char, d.toNat < 32 → c ≠ d := by
    intro d hd
    exact ne_of_toNat_ne (by omega)
  have hprintable : ' ' ≤ c ∧ c ≤ '~' := by
    refine ⟨Char.le_def.mpr (UInt32.le_iff_toNat_le.mpr ?_),
      Char.le_def.mpr (UInt32.le_iff_toNat_le.mpr ?_)⟩
    · exact hcontrol
    · exact hmost.trans (by decide)
  rw [JsonText.escape, if_neg hbackslash, if_neg hquote, if_neg (hother _ (by decide)),
    if_neg (hother _ (by decide)), if_neg (hother _ (by decide)), if_neg (hother _ (by decide)),
    if_neg (hother _ (by decide)), if_pos hprintable]

theorem flatMap_eq_map {α β : Type} {f : α → List β} {g : α → β} {xs : List α}
    (h : ∀ x ∈ xs, f x = [g x]) : xs.flatMap f = xs.map g := by
  induction xs with
  | nil => rfl
  | cons x xs ih =>
    rw [List.flatMap_cons, h x List.mem_cons_self, ih fun y hy => h y (List.mem_cons_of_mem x hy)]
    rfl

theorem quoted_isoformat (t : DateTime) :
    JsonText.quoted (String.ofList (isoformat t)) = '"' :: (isoformat t ++ ['"']) := by
  have hescape : (isoformat t).flatMap JsonText.escape = isoformat t := by
    rw [flatMap_eq_map (g := id), List.map_id]
    intro c hc
    exact escape_of_isIsoChar (isIsoChar_isoformat hc)
  rw [JsonText.quoted, String.toList_ofList, hescape]

/-- The line without its brackets, after the timestamp. -/
def numbersText (record : InferenceRecord) : List Char :=
  ',' :: ' ' :: (record.metricValue.text.toList ++
    ',' :: ' ' :: record.anomalyProbability.text.toList)

theorem line_eq (record : InferenceRecord) : record.line =
    '[' :: '"' :: (isoformat record.timestamp ++ '"' :: (numbersText record ++ [']'])) := by
  rw [InferenceRecord.line, JsonText.dumps, String.toList_ofList]
  simp only [JsonText.Value.text, JsonText.itemsText, quoted_isoformat, numbersText]
  simp

/-! ## A line is read -/

theorem isNumberChar_of_mem (x : FloatText) {c : Char} (h : c ∈ x.text.toList) :
    isNumberChar c := by
  have hchar := List.all_eq_true.mp x.characters c h
  rw [Bool.or_eq_true] at hchar
  rw [isNumberChar, Bool.or_eq_true]
  apply hchar.imp_right
  intro hmem
  have hall : "+-.e".toList.all (fun c => "+-.eE".toList.contains c) := by decide
  exact List.all_eq_true.mp hall c (List.contains_iff_mem.mp hmem)

theorem value_float {fuel : ℕ} (x : FloatNumber) {c : Char} (hc : isNumberChar c = false)
    (rest : List Char) :
    JsonParse.value (fuel + 1) (' ' :: (x.text.toList ++ c :: rest)) =
      some (.number x.text.toList, c :: rest) := by
  rw [JsonParse.value_space]
  apply JsonParse.value_number x.number
  · intro d hd
    exact isNumberChar_of_mem x.toFloatText hd
  · intro d hd
    obtain rfl := Option.some.inj hd
    exact hc

theorem parse_line (record : InferenceRecord) : parse record.line =
    some (.array [.string ((isoformat record.timestamp).map Char.toNat),
      .number record.metricValue.text.toList, .number record.anomalyProbability.text.toList]) := by
  rw [line_eq]
  apply JsonParse.parse_array
  obtain ⟨fuel, hfuel⟩ : ∃ fuel, 2 * ('[' :: '"' :: (isoformat record.timestamp ++
      '"' :: (numbersText record ++ [']']))).length = fuel + 4 := by
    refine ⟨2 * (isoformat record.timestamp ++ '"' :: (numbersText record ++ [']'])).length, ?_⟩
    simp only [List.length_cons]
    omega
  have hstamp := @JsonParse.value_string (fuel + 2) (isoformat record.timestamp)
    (fun c hc => plain_of_isIsoChar (isIsoChar_isoformat hc)) (numbersText record ++ [']'])
  rw [flatMap_eq_map (g := Char.toNat) fun c hc => utf16_of_isIsoChar (isIsoChar_isoformat hc)]
    at hstamp
  have hvalue := @value_float (fuel + 1) record.metricValue ',' (by decide)
    (' ' :: (record.anomalyProbability.text.toList ++ [']']))
  have hscore := @value_float fuel record.anomalyProbability ']' (by decide) []
  have hnumbers : numbersText record ++ [']'] = ',' :: ' ' :: (record.metricValue.text.toList ++
      ',' :: ' ' :: (record.anomalyProbability.text.toList ++ [']'])) := by
    simp [numbersText]
  rw [hfuel]
  rw [hnumbers] at hstamp ⊢
  exact JsonParse.items_comma hstamp
    (JsonParse.items_comma hvalue (JsonParse.items_last hscore))

theorem modelDataOf_line (record : InferenceRecord) :
    modelDataOf moment record.line = .ok (modelData moment record) := by
  rw [modelDataOf, parse_line]
  rfl

/-! ## A part of a line is not -/

theorem bracket_notMem_line (record : InferenceRecord) :
    ']' ∉ isoformat record.timestamp ++ '"' :: numbersText record := by
  have hfloat : ∀ x : FloatNumber, ']' ∉ x.text.toList := by
    intro x h
    exact absurd (isNumberChar_of_mem x.toFloatText h) (by decide)
  have hstamp : ']' ∉ isoformat record.timestamp := by
    intro h
    exact absurd (isIsoChar_isoformat h) (by decide)
  simp [numbersText, hfloat, hstamp]

theorem newline_notMem_line (record : InferenceRecord) : '\n' ∉ record.line :=
  JsonText.newline_notMem_dumps _

theorem line_ne_nil (record : InferenceRecord) : record.line ≠ [] := by
  rw [line_eq]
  exact List.cons_ne_nil _ _

/-- The beginning of a line is no JSON text. -/
theorem parse_part {record : InferenceRecord} {part more : List Char}
    (hline : record.line = part ++ more) (hpart : part ≠ []) (hmore : more ≠ []) :
    parse part = none := by
  cases part with
  | nil => exact absurd rfl hpart
  | cons c part =>
    rw [line_eq, List.cons_append] at hline
    obtain ⟨rfl, htail⟩ := List.cons.inj hline
    by_contra hsome
    obtain ⟨json, hjson⟩ := Option.ne_none_iff_exists'.mp hsome
    have hmem := JsonParse.bracket_mem_of_parse hjson
    obtain ⟨init, last, rfl⟩ : ∃ init last, more = init ++ [last] :=
      ⟨more.dropLast, more.getLast hmore, (List.dropLast_append_getLast hmore).symm⟩
    have hinit : '"' :: (isoformat record.timestamp ++ '"' :: numbersText record) ++ [']'] =
        part ++ init ++ [last] := by
      simpa using htail
    obtain ⟨hbody, -⟩ := List.append_inj' hinit rfl
    have hbracket : ']' ∈ '"' :: (isoformat record.timestamp ++ '"' :: numbersText record) := by
      rw [hbody]
      exact List.mem_append_left init hmem
    obtain hquote | hbracket := List.mem_cons.mp hbracket
    · exact absurd hquote (by decide)
    · exact bracket_notMem_line record hbracket

/-! ## The lines of an event -/

/-- The lines of an event that are read. -/
def texts (data : List Char) : List (List Char) := (data.splitOn '\n').filter (· ≠ [])

theorem texts_newline (data : List Char) : texts ('\n' :: data) = texts data := by
  have hsplit := List.splitOn_append_cons_self (a := '\n') [] data
  rw [texts, ← List.nil_append ('\n' :: data), hsplit, List.filter_append]
  rfl

theorem texts_part {part : List Char} (hnewline : '\n' ∉ part) (hpart : part ≠ []) :
    texts part = [part] := by
  rw [texts, List.splitOn_eq_singleton hnewline]
  simp [hpart]

theorem texts_line {part data : List Char} (hnewline : '\n' ∉ part) (hpart : part ≠ []) :
    texts (part ++ '\n' :: data) = part :: texts data := by
  have hfirst := texts_part hnewline hpart
  rw [texts] at hfirst
  rw [texts, List.splitOn_append_cons_self, List.filter_append, hfirst]
  rfl

theorem emitLines_filter (index : ℕ) (lines : List (List Char)) :
    emitLines moment index (lines.filter (· ≠ [])) = emitLines moment index lines := by
  induction lines generalizing index with
  | nil => rfl
  | cons line lines ih =>
    by_cases hline : line = []
    · rw [List.filter_cons_of_neg (by simp [hline]), ih, emitLines.eq_def _ _ (line :: lines)]
      simp only
      rw [if_pos hline]
    · rw [List.filter_cons_of_pos (by simp [hline]), emitLines, emitLines, if_neg hline,
        if_neg hline, ih]

theorem onData_eq (index : ℕ) (data : List Char) :
    onData moment index data = emitLines moment index (texts data) :=
  (emitLines_filter moment index _).symm

theorem results_append (index : ℕ) (done rest : List InferenceRecord) :
    results moment index (done ++ rest) =
      results moment index done ++ results moment (index + done.length) rest := by
  rw [results, List.zipIdx_append, List.map_append]
  rfl

theorem results_length (index : ℕ) (records : List InferenceRecord) :
    (results moment index records).length = records.length := by
  rw [results, List.length_map, List.length_zipIdx]

theorem emitLines_records (index : ℕ) (records : List InferenceRecord) (lines : List (List Char)) :
    emitLines moment index (records.map InferenceRecord.line ++ lines) =
      (results moment index records ++
          (emitLines moment (index + records.length) lines).1,
        (emitLines moment (index + records.length) lines).2) := by
  induction records generalizing index with
  | nil => rfl
  | cons record records ih =>
    rw [List.map_cons, List.cons_append, emitLines, if_neg (line_ne_nil record), modelDataOf_line]
    simp only
    rw [ih, List.length_cons, Nat.add_right_comm, ← Nat.add_assoc]
    rfl

/-! ## Where an event may end -/

/-- What is still to come is whole lines, maybe after the newline of the line before. -/
def WholeLines (records : List InferenceRecord) (toCome : List Char) : Prop :=
  ∃ rest, rest <:+ records ∧ (toCome = stdout rest ∨ toCome = '\n' :: stdout rest)

/-- No boundary of the events is within the text of a line. -/
def CutBetweenLines (records : List InferenceRecord) (events : List (List Char)) : Prop :=
  ∀ later, later <:+ events → WholeLines records later.flatten

/-- An event, and what comes after it, in the output of records. -/
inductive Event (records : List InferenceRecord) (data toCome : List Char) : Prop where
  | whole (done rest : List InferenceRecord) (hrecords : records = done ++ rest)
      (htoCome : toCome = stdout rest ∨ toCome = '\n' :: stdout rest)
      (htexts : texts data = done.map InferenceRecord.line)
  | within (done rest : List InferenceRecord) (record : InferenceRecord) (part more : List Char)
      (hrecords : records = done ++ record :: rest)
      (hline : record.line = part ++ more) (hpart : part ≠ []) (hmore : more ≠ [])
      (htoCome : toCome = more ++ '\n' :: stdout rest)
      (htexts : texts data = done.map InferenceRecord.line ++ [part])

theorem stdout_cons (record : InferenceRecord) (records : List InferenceRecord) :
    stdout (record :: records) = record.line ++ '\n' :: stdout records := by
  rw [stdout, List.flatMap_cons, emitOutputMessage, List.append_assoc]
  rfl

variable {records : List InferenceRecord} {data toCome : List Char}

theorem Event.of_newline (h : Event records data toCome) : Event records ('\n' :: data) toCome := by
  cases h with
  | whole done rest hrecords htoCome htexts =>
    exact .whole done rest hrecords htoCome ((texts_newline data).trans htexts)
  | within done rest record part more hrecords hline hpart hmore htoCome htexts =>
    exact .within done rest record part more hrecords hline hpart hmore htoCome
      ((texts_newline data).trans htexts)

theorem Event.of_line (record : InferenceRecord) (h : Event records data toCome) :
    Event (record :: records) (record.line ++ '\n' :: data) toCome := by
  have hline := @texts_line record.line data (newline_notMem_line record) (line_ne_nil record)
  cases h with
  | whole done rest hrecords htoCome htexts =>
    refine .whole (record :: done) rest (by rw [hrecords]; rfl) htoCome ?_
    rw [hline, htexts]
    rfl
  | within done rest record' part more hrecords hline' hpart hmore htoCome htexts =>
    refine .within (record :: done) rest record' part more (by rw [hrecords]; rfl) hline' hpart
      hmore htoCome ?_
    rw [hline, htexts]
    rfl

theorem event_of_stdout (h : stdout records = data ++ toCome) : Event records data toCome := by
  induction records generalizing data with
  | nil =>
    obtain ⟨rfl, rfl⟩ := List.append_eq_nil_iff.mp h.symm
    exact .whole [] [] rfl (.inl rfl) rfl
  | cons record records ih =>
    rw [stdout_cons] at h
    obtain ⟨tail, hdata, htail⟩ | ⟨more, hline, htoCome⟩ := List.append_eq_append_iff.mp h
    · rw [hdata]
      cases tail with
      | nil =>
        rw [List.append_nil]
        have htexts := texts_part (newline_notMem_line record) (line_ne_nil record)
        exact .whole [record] records rfl (.inr htail.symm) htexts
      | cons c tail =>
        obtain ⟨rfl, hrest⟩ := List.cons.inj htail
        exact .of_line record (ih hrest)
    · by_cases hpart : data = []
      · subst hpart
        refine .whole [] (record :: records) rfl (.inl ?_) rfl
        rw [htoCome, stdout_cons, hline, List.nil_append]
      · by_cases hmore : more = []
        · subst hmore
          rw [List.append_nil] at hline
          rw [← hline]
          have htexts := texts_part (newline_notMem_line record) (line_ne_nil record)
          exact .whole [record] records rfl (.inr htoCome) htexts
        · have hnewline : '\n' ∉ data := by
            intro hmem
            apply newline_notMem_line record
            rw [hline]
            exact List.mem_append_left more hmem
          exact .within [] records record data more rfl hline hpart hmore htoCome
            (texts_part hnewline hpart)

/-- An event is of whole lines or ends within one. -/
theorem event_of_remaining
    (h : data ++ toCome = stdout records ∨ data ++ toCome = '\n' :: stdout records) :
    Event records data toCome := by
  obtain h | h := h
  · exact event_of_stdout h.symm
  · cases data with
    | nil => exact .whole [] records rfl (.inr h) rfl
    | cons c data =>
      obtain ⟨rfl, hrest⟩ := List.cons.inj h
      exact .of_newline (event_of_stdout hrest.symm)

theorem length_stdout_le {rest : List InferenceRecord} (h : rest <:+ records) :
    (stdout rest).length ≤ (stdout records).length := by
  obtain ⟨done, rfl⟩ := h
  rw [stdout, stdout, List.flatMap_append, List.length_append]
  omega

/-- What comes after an event that ends within a line. -/
theorem not_wholeLines {record : InferenceRecord} {rest : List InferenceRecord}
    {part more : List Char} (hrecords : record :: rest <:+ records)
    (hline : record.line = part ++ more) (hpart : part ≠ []) (hmore : more ≠ []) :
    ¬ WholeLines records (more ++ '\n' :: stdout rest) := by
  rintro ⟨others, hothers, heq⟩
  have hparts := congrArg List.length hline
  have hpartLength := List.length_pos_iff.mpr hpart
  have hmoreLength := List.length_pos_iff.mpr hmore
  rw [List.length_append] at hparts
  have hcons := congrArg List.length (stdout_cons record rest)
  simp only [List.length_append, List.length_cons] at hcons
  have hlength : (stdout others).length ≤ more.length + 1 + (stdout rest).length ∧
      more.length + (stdout rest).length ≤ (stdout others).length := by
    obtain heq | heq := heq
    · have heq := congrArg List.length heq
      simp only [List.length_append, List.length_cons] at heq
      omega
    · have heq := congrArg List.length heq
      simp only [List.length_append, List.length_cons] at heq
      omega
  -- the lines to come are neither fewer nor more than those after the record
  obtain hle | hle := List.suffix_or_suffix_of_suffix hothers hrecords
  · obtain rfl | hle := List.suffix_cons_iff.mp hle
    · omega
    · have := length_stdout_le hle
      omega
  · have := length_stdout_le hle
    omega

theorem cutBetweenLines_cons {events : List (List Char)} :
    CutBetweenLines records (data :: events) ↔
      WholeLines records (data ++ events.flatten) ∧ CutBetweenLines records events := by
  constructor
  · intro h
    refine ⟨h _ (List.suffix_refl _), ?_⟩
    intro later hlater
    exact h later (hlater.trans (List.suffix_cons data events))
  · rintro ⟨hfirst, hrest⟩ later hlater
    obtain rfl | hlater := List.suffix_cons_iff.mp hlater
    · exact hfirst
    · exact hrest later hlater

/-- The records to come are the last of all, and the newline of the one before may be to come. -/
theorem onEvents_remaining {all : List InferenceRecord} (events : List (List Char)) (index : ℕ)
    {records : List InferenceRecord} (hall : records <:+ all)
    (h : events.flatten = stdout records ∨ events.flatten = '\n' :: stdout records) :
    (CutBetweenLines all events →
        onEvents moment index events = (results moment index records, [])) ∧
      ((onEvents moment index events).2 = [] → CutBetweenLines all events) := by
  induction events generalizing index records with
  | nil =>
    obtain rfl : records = [] := by
      cases records with
      | nil => rfl
      | cons record records =>
        rw [stdout_cons, List.flatten_nil] at h
        simp at h
    refine ⟨fun _ => rfl, ?_⟩
    intro _ later hlater
    obtain rfl := List.suffix_nil.mp hlater
    exact ⟨[], List.nil_suffix, .inl rfl⟩
  | cons data events ih =>
    have hwhole : WholeLines all (data ++ events.flatten) := ⟨records, hall, h⟩
    rw [cutBetweenLines_cons]
    cases event_of_remaining h with
    | whole done rest hrecords htoCome htexts =>
      have hfirst : onData moment index data = (results moment index done, none) := by
        have hlines := emitLines_records moment index done []
        rw [List.append_nil] at hlines
        rw [onData_eq, htexts, hlines]
        simp [emitLines]
      have hrest : rest <:+ all := (hrecords ▸ List.suffix_append done rest).trans hall
      obtain ⟨hcut, hback⟩ := ih (index + done.length) hrest htoCome
      rw [onEvents, hfirst]
      simp only [results_length, Option.toList_none, List.nil_append]
      constructor
      · rintro ⟨-, hevents⟩
        rw [hcut hevents, hrecords, results_append]
      · intro hraised
        exact ⟨hwhole, hback hraised⟩
    | within done rest record part more hrecords hline hpart hmore htoCome htexts =>
      have hraised : (onData moment index data).2 = some .syntaxError := by
        rw [onData_eq, htexts, emitLines_records, emitLines, if_neg hpart, modelDataOf,
          parse_part hline hpart hmore]
      have hrest : record :: rest <:+ all := (hrecords ▸ List.suffix_append done _).trans hall
      constructor
      · rintro ⟨-, hevents⟩
        have hlater := hevents events (List.suffix_refl events)
        rw [htoCome] at hlater
        exact absurd hlater (not_wholeLines hrest hline hpart hmore)
      · intro hnone
        rw [onEvents, hraised] at hnone
        cases hnone

/-- All results come and nothing is raised exactly where no event ends within a line. -/
theorem results_emitted_iff {events : List (List Char)} (h : events.flatten = stdout records) :
    onEvents moment 0 events = (results moment 0 records, []) ↔
      CutBetweenLines records events := by
  obtain ⟨hcut, hback⟩ := onEvents_remaining moment events 0 (List.suffix_refl records) (.inl h)
  refine ⟨?_, hcut⟩
  intro heq
  exact hback (congrArg Prod.snd heq)

/-! ## A record at noon -/

/-- The moment at noon of the first day of 2016. -/
def noonMoment : MomentLibrary ℤ ℤ where
  toText _ := []
  parseZone _ := 1451649600000
  utc _ := 1451649600000
  format _ _ := "2016-01-01T12:00:00.000000".toList.map Char.toNat
  utcWithFormat _ _ := 1451649600000
  valueOf := id

def noonRecord : InferenceRecord where
  timestamp := ⟨2016, 1, 1, 12, 0, 0, 0, none⟩
  metricValue := ⟨⟨"1.5", by decide⟩, by decide⟩
  anomalyProbability := ⟨⟨"0.0", by decide⟩, by decide⟩

/-- The newline comes in an event of its own. -/
theorem results_emitted_noon :
    onEvents noonMoment 0 [noonRecord.line, ['\n']] = (results noonMoment 0 [noonRecord], []) ↔
      CutBetweenLines [noonRecord] [noonRecord.line, ['\n']] :=
  results_emitted_iff noonMoment rfl

/-- The line comes in two events. -/
theorem cut_line_raises :
    ¬ ∀ (records : List InferenceRecord) (events : List (List Char)),
      events.flatten = stdout records →
        onEvents noonMoment 0 events = (results noonMoment 0 records, []) := by
  intro h
  have hraised := congrArg Prod.snd
    (h [noonRecord] [noonRecord.line.take 20, noonRecord.line.drop 20 ++ ['\n']] (by decide +kernel))
  revert hraised
  decide +kernel

end NumentaApps.Unicorn.ModelOutput
