import NumentaApps.MetricDataParser
import Mathlib.Algebra.Order.BigOperators.Group.List
import Mathlib.Algebra.Order.Group.Nat

/-!
# The wire format of the metric data

What the parser delivers of a stream or of a document is what the handler has put there.
-/
namespace NumentaApps.HTMIT
open JsonReader
open OrderedChoice (Group ways matchPrefix matchPrefix_cons candidates_run_head)
open NumericLiteral (digitsValue)
open Unicorn (DateTime daysInMonth daysBeforeMonth dayNumber epochDay isLeapYear)
open MetricDataHandler

/-! ## Dates -/

theorem digitChar_spec : ∀ d < 10, (Nat.digitChar d).isDigit ∧ (Nat.digitChar d).toNat = d + 48 := by
  decide

theorem isDigit_zeroPadded {width n : ℕ} : ∀ c ∈ zeroPadded width n, c.isDigit := by
  induction width generalizing n with
  | zero =>
    intro c hc
    cases hc
  | succ width ih =>
    intro c hc
    rcases List.mem_append.mp hc with hc | hc
    · exact ih c hc
    · obtain rfl := List.mem_singleton.mp hc
      exact (digitChar_spec (n % 10) (Nat.mod_lt n (by omega))).1

theorem digitsValue_zeroPadded (width n : ℕ) :
    digitsValue (zeroPadded width n) = n % 10 ^ width := by
  induction width generalizing n with
  | zero => rw [pow_zero, Nat.mod_one]; rfl
  | succ width ih =>
    have hlast := (digitChar_spec (n % 10) (Nat.mod_lt n (by omega))).2
    have hdigits : digitsValue (zeroPadded (width + 1) n) =
        10 * digitsValue (zeroPadded width (n / 10)) + ((Nat.digitChar (n % 10)).toNat - 48) := by
      rw [digitsValue, zeroPadded, List.foldl_append]
      rfl
    rw [hdigits, ih, hlast, pow_succ', Nat.mod_mul]
    omega

theorem zeroPadded_ne_nil {width n : ℕ} : zeroPadded (width + 1) n ≠ [] :=
  List.append_ne_nil_of_right_ne_nil _ (List.cons_ne_nil _ _)

theorem daysInMonth_le (year month : ℕ) : daysInMonth year month ≤ 31 := by
  rw [daysInMonth]
  split
  · split <;> omega
  · split <;> omega

theorem daysBeforeMonth_le (year month : ℕ) : daysBeforeMonth year month ≤ (month - 1) * 31 := by
  have hsum := List.sum_le_card_nsmul ((List.range (month - 1)).map fun m => daysInMonth year (m + 1))
    31 fun days hdays => by
      obtain ⟨m, -, rfl⟩ := List.mem_map.mp hdays
      exact daysInMonth_le year (m + 1)
  rw [List.length_map, List.length_range] at hsum
  exact hsum

namespace DataUtils

variable {width n : ℕ} {c : Char} {rest rest' : List Char} {part : DatePart} {parts : List DatePart}
  {found : List (DatePart × List Char)}

def IsNumber (text : List Char) : Prop := text ≠ [] ∧ ∀ c ∈ text, c.isDigit

theorem isNumber_zeroPadded (width n : ℕ) : IsNumber (zeroPadded (width + 1) n) :=
  ⟨zeroPadded_ne_nil, isDigit_zeroPadded⟩

/-- A number is read by its group up to the literal after it. -/
theorem match_number {text : List Char} (hgroup : part.group = .run Char.isDigit)
    (htext : IsNumber text) (hrest : ∀ c ∈ rest.head?, c.isDigit = false)
    (htail : matchPrefix DatePart.group parts rest = some (found, rest')) :
    matchPrefix DatePart.group (part :: parts) (text ++ rest) =
      some ((part, text) :: found, rest') := by
  apply matchPrefix_cons _ htail
  rw [hgroup]
  exact candidates_run_head htext.1 htext.2 hrest

theorem match_literal (htail : matchPrefix DatePart.group parts rest = some (found, rest')) :
    matchPrefix DatePart.group (.literal c :: parts) (c :: rest) =
      some ((.literal c, [c]) :: found, rest') := by
  apply matchPrefix_cons _ htail
  simp [DatePart.group, Group.candidates, OrderedChoice.matchClasses]

theorem match_any (hc : isLineTerminator c = false)
    (htail : matchPrefix DatePart.group parts rest = some (found, rest')) :
    matchPrefix DatePart.group (.any :: parts) (c :: rest) = some ((.any, [c]) :: found, rest') := by
  apply matchPrefix_cons _ htail
  simp [DatePart.group, Group.candidates, OrderedChoice.matchClasses, hc]

theorem dateGroups_of_match {cs : List Char}
    (h : matchPrefix DatePart.group dateFormatRegex cs = some (found, [])) :
    dateGroups cs = some found := by
  obtain ⟨others, hways⟩ := List.head?_eq_some_iff.mp h
  rw [dateGroups, hways, List.find?_cons_of_pos rfl]
  rfl

/-- The groups of a text of six numbers. -/
theorem dateGroups_numbers {year month day hour minute second : List Char}
    (hc : isLineTerminator c = false) (hyear : IsNumber year) (hmonth : IsNumber month)
    (hday : IsNumber day) (hdigit : c.isDigit = false) (hhour : IsNumber hour)
    (hminute : IsNumber minute) (hsecond : IsNumber second) :
    dateGroups (year ++ '-' :: (month ++ '-' :: (day ++ c :: (hour ++ ':' ::
      (minute ++ ':' :: second))))) =
      some [(.year, year), (.literal '-', ['-']), (.month, month), (.literal '-', ['-']), (.day, day),
        (.any, [c]), (.hour, hour), (.literal ':', [':']), (.minute, minute), (.literal ':', [':']),
        (.second, second)] := by
  have hstop : ∀ (c : Char) (cs : List Char), c.isDigit = false →
      ∀ d ∈ (c :: cs).head?, d.isDigit = false := by
    intro c cs hc d hd
    obtain rfl := Option.some.inj hd
    exact hc
  have hlast : matchPrefix DatePart.group [.second] (second ++ []) = some ([(.second, second)], []) :=
    match_number rfl hsecond (fun _ hc => by cases hc) rfl
  rw [List.append_nil] at hlast
  apply dateGroups_of_match
  apply match_number rfl hyear (hstop _ _ rfl)
  apply match_literal
  apply match_number rfl hmonth (hstop _ _ rfl)
  apply match_literal
  apply match_number rfl hday (hstop _ _ hdigit)
  apply match_any hc
  apply match_number rfl hhour (hstop _ _ rfl)
  apply match_literal
  apply match_number rfl hminute (hstop _ _ rfl)
  apply match_literal
  exact hlast

/-- The groups of a date as it is written. -/
def writtenGroups (t : DateTime) : List (DatePart × List Char) :=
  [(.year, zeroPadded 4 t.year), (.literal '-', ['-']), (.month, zeroPadded 2 t.month),
    (.literal '-', ['-']), (.day, zeroPadded 2 t.day), (.any, [' ']), (.hour, zeroPadded 2 t.hour),
    (.literal ':', [':']), (.minute, zeroPadded 2 t.minute), (.literal ':', [':']),
    (.second, zeroPadded 2 t.second)]

theorem dateGroups_written (t : DateTime) :
    dateGroups (zeroPadded 4 t.year ++ '-' :: (zeroPadded 2 t.month ++ '-' ::
      (zeroPadded 2 t.day ++ ' ' :: (zeroPadded 2 t.hour ++ ':' ::
        (zeroPadded 2 t.minute ++ ':' :: zeroPadded 2 t.second))))) = some (writtenGroups t) :=
  dateGroups_numbers rfl (isNumber_zeroPadded _ _) (isNumber_zeroPadded _ _)
    (isNumber_zeroPadded _ _) rfl (isNumber_zeroPadded _ _) (isNumber_zeroPadded _ _)
    (isNumber_zeroPadded _ _)

theorem groupValue_of_lookup {groups : List (DatePart × List Char)} {value : ℕ}
    (h : groups.lookup part = some (zeroPadded width value)) (hvalue : value < 10 ^ width)
    (hint : value < 2 ^ 31) : groupValue groups part = .ok value := by
  have hdigits : digitsValue (zeroPadded width value) = value := by
    rw [digitsValue_zeroPadded, Nat.mod_eq_of_lt hvalue]
  rw [groupValue, h, Option.getD_some, parseInt, hdigits, if_pos hint]

/-! ## The calendar -/

theorem isLeapYear_mod (year : ℕ) : isLeapYear (year % 400) = isLeapYear year := by
  simp only [isLeapYear, Nat.mod_mod_of_dvd year (by decide : (4 : ℕ) ∣ 400),
    Nat.mod_mod_of_dvd year (by decide : (100 : ℕ) ∣ 400), Nat.mod_mod]

theorem daysBeforeMonth_mod (year month : ℕ) :
    daysBeforeMonth (year % 400) month = daysBeforeMonth year month := by
  simp only [daysBeforeMonth, daysInMonth, isLeapYear_mod]

/-- From 1583 on the calendar of Java is that of Python. -/
theorem calendarDay_eq {year month day : ℕ} (hyear : 1582 < year) :
    calendarDay year month day = dayNumber year month 1 + ((day : ℤ) - 1) := by
  have hmod : ((year : ℤ) % 400).toNat = year % 400 := by omega
  rw [calendarDay, if_pos (Or.inl (by omega)), gregorianDay, hmod, daysBeforeMonth_mod, gregorianYear,
    dayNumber]
  omega

theorem getTime_eq {t : DateTime} (hyear : 1900 ≤ t.year) (hmonth : 1 ≤ t.month ∧ t.month ≤ 12) :
    getTime t.year ((t.month : ℤ) - 1) t.day t.hour t.minute t.second = timegm t * 1000 := by
  have hmonths : (((t.month : ℤ) - 1) % 12).toNat + 1 = t.month := by omega
  have hyears : (t.year : ℤ) + ((t.month : ℤ) - 1) / 12 = t.year := by omega
  rw [getTime, hmonths, hyears, calendarDay_eq (by omega), timegm]
  omega

/-- The client reads the date that the server has written. -/
theorem parseHTMDate_strftime {t : DateTime} {text : String} (hdate : t.IsDate)
    (h : strftime t = .ok text) : parseHTMDate text = .ok (some (timegm t * 1000)) := by
  obtain ⟨⟨-, hyear⟩, hmonth, ⟨-, hday⟩, hhour, hminute, hsecond, -⟩ := hdate
  have hdays := daysInMonth_le t.year t.month
  rw [strftime] at h
  split at h
  · cases h
  · rename_i hpast
    obtain rfl := Except.ok.inj h
    have hyear' : groupValue (writtenGroups t) .year = .ok t.year :=
      groupValue_of_lookup rfl (by omega) (by omega)
    have hmonth' : groupValue (writtenGroups t) .month = .ok t.month :=
      groupValue_of_lookup rfl (by omega) (by omega)
    have hday' : groupValue (writtenGroups t) .day = .ok t.day :=
      groupValue_of_lookup rfl (by omega) (by omega)
    have hhour' : groupValue (writtenGroups t) .hour = .ok t.hour :=
      groupValue_of_lookup rfl (by omega) (by omega)
    have hminute' : groupValue (writtenGroups t) .minute = .ok t.minute :=
      groupValue_of_lookup rfl (by omega) (by omega)
    have hsecond' : groupValue (writtenGroups t) .second = .ok t.second :=
      groupValue_of_lookup rfl (by omega) (by omega)
    rw [parseHTMDate, String.toList_ofList, dateGroups_written]
    simp only [hyear', hmonth', hday', hhour', hminute', hsecond']
    exact congrArg (fun time => Except.ok (some time)) (getTime_eq (by omega) hmonth)

end DataUtils

/-! ## Times -/

theorem timegm_eq (t : DateTime) (hday : 1 ≤ t.day) :
    t.localTime = timegm t * 1000000 + t.microsecond := by
  have hdays : dayNumber t.year t.month t.day = dayNumber t.year t.month 1 + (t.day - 1) := by
    rw [dayNumber, dayNumber]
    omega
  rw [DateTime.localTime, timegm, hdays]
  push_cast [Nat.cast_sub hday]
  omega

/-- No product of longs overflows. -/
theorem timegm_range {t : DateTime} (hdate : t.IsDate) :
    -2 ^ 40 ≤ timegm t ∧ timegm t < 2 ^ 40 := by
  obtain ⟨⟨-, hyear⟩, ⟨hmonth, hmonth'⟩, ⟨hday, hday'⟩, hhour, hminute, hsecond, -⟩ := hdate
  have hdays := daysInMonth_le t.year t.month
  have hmonths := daysBeforeMonth_le t.year t.month
  have hepoch : epochDay = 719528 := by decide
  rw [timegm, dayNumber, hepoch]
  omega

variable {Double Single : Type} {scalars : Scalars Double} {toFloat : Double → Single}

/-- The row as the client has it. -/
def received (toFloat : Double → Single) (row : MetricDataRow Double) : MetricData Single where
  metricId := some row.uid
  timestamp := row.timestamp.localTime / 1000
  metricValue := toFloat row.metricValue
  anomalyScore := toFloat row.anomalyScore
  rowid := row.rowid

theorem received_timestamp (toFloat : Double → Single) (row : MetricDataRow Double) :
    (received toFloat row).timestamp = timegm row.timestamp * 1000 := by
  have htime := timegm_eq row.timestamp row.isDate.2.2.1.1
  have hwhole := row.wholeSecond
  have hmillis : (received toFloat row).timestamp = row.timestamp.localTime / 1000 := rfl
  rw [hmillis, htime, hwhole]
  omega

/-! ## The stream of tuples -/

theorem underLimit_zero (count : ℕ) : UnderLimit 0 count := Or.inl rfl

theorem resultTuples_unlimited (counts : String → ℕ) (result : List (MetricDataRow Double)) :
    resultTuples 0 counts result = (result.map resultTuple, none) := by
  induction result generalizing counts with
  | nil => rfl
  | cons row result ih =>
    rw [resultTuples, show underCounter 0 (counts row.uid) = .ok true from rfl]
    simp only [ih, List.map_cons]

namespace Unpacker

variable (unpacker : Unpacker toFloat)

theorem unpackRow_resultTuple (row : MetricDataRow Double) (messages : List (List (Packed Double))) :
    unpacker.unpackRow (unpacker.inside (resultTuple row) messages) =
      .ok (received toFloat row, unpacker.before messages) := by
  obtain ⟨hlow, hhigh⟩ := timegm_range row.isDate
  have hrowid := row.rowid_lt
  have hmillis : (timegm row.timestamp * 1000).bmod (2 ^ 64) = (received toFloat row).timestamp := by
    rw [received_timestamp]
    apply Int.bmod_eq_of_le <;> omega
  have hlong := unpacker.readLong_integer (timegm row.timestamp)
    [.double row.metricValue, .double row.anomalyScore, .integer row.rowid] messages (by omega)
    (by omega)
  have hint := unpacker.readInt_integer row.rowid [] messages (by omega) (by omega)
  rw [unpackRow, resultTuple, unpacker.readString_raw]
  simp only [bind, Except.bind, pure, Except.pure, hlong, unpacker.readFloat_double, hint,
    unpacker.readArrayEnd_inside, hmillis]
  rfl

theorem unpackRows_resultTuples (result : List (MetricDataRow Double))
    (delivered : List (MetricData Single)) {fuel : ℕ} (hfuel : result.length < fuel) :
    unpacker.unpackRows fuel delivered (unpacker.before (result.map resultTuple)) =
      some (.error .endOfFile, delivered ++ result.map (received toFloat)) := by
  induction result generalizing delivered fuel with
  | nil =>
    obtain ⟨fuel, rfl⟩ := Nat.exists_eq_succ_of_ne_zero (Nat.ne_zero_of_lt hfuel)
    rw [List.map_nil, unpackRows, unpacker.readArrayBegin_nil, List.map_nil, List.append_nil]
  | cons row result ih =>
    obtain ⟨fuel, rfl⟩ := Nat.exists_eq_succ_of_ne_zero (Nat.ne_zero_of_lt hfuel)
    have hsize : (resultTuple row).length ≠ 6 := fun h => absurd h (by simp [resultTuple])
    have hrest := ih (delivered ++ [received toFloat row]) (Nat.lt_of_succ_lt_succ hfuel)
    rw [List.map_cons, unpackRows, unpacker.readArrayBegin_cons]
    simp only [if_neg hsize, unpackRow_resultTuple, hrest, List.append_assoc, List.map_cons,
      List.cons_append, List.nil_append]

/-- The stream is delivered row for row. -/
theorem unpackMessage_octetStream (result : List (MetricDataRow Double)) {fuel : ℕ}
    (hfuel : result.length < fuel) :
    unpacker.unpackMessage fuel (unpacker.before (octetStream 0 result)) =
      some (.ok (), result.map (received toFloat)) := by
  rw [unpackMessage, octetStream, unpacker.skip_before, resultTuples_unlimited]
  simp only [unpackRows_resultTuples unpacker result [] hfuel]
  rfl

end Unpacker

/-! ## The rows of a document -/

namespace MetricDataParser

/-- The row with the ID that the parser knows. -/
def asRow (toFloat : Double → Single) (metricId : Option String) (row : MetricDataRow Double) :
    MetricData Single :=
  { received toFloat row with metricId }

/-- The parser notifies the caller of rows, or keeps them. -/
def withRows (parser : MetricDataParser Single) (rows : List (MetricData Single)) :
    MetricDataParser Single :=
  if parser.metricId.isSome then { parser with delivered := parser.delivered ++ rows }
  else { parser with data := parser.data ++ rows }

theorem withRows_nil (parser : MetricDataParser Single) : parser.withRows [] = parser := by
  rw [withRows, List.append_nil, List.append_nil, ite_self]

theorem withRows_metricId (parser : MetricDataParser Single) (rows : List (MetricData Single)) :
    (parser.withRows rows).metricId = parser.metricId := by
  rw [withRows]
  split <;> rfl

theorem withRows_append (parser : MetricDataParser Single) (rows rows' : List (MetricData Single)) :
    (parser.withRows rows).withRows rows' = parser.withRows (rows ++ rows') := by
  rw [withRows, withRows_metricId, withRows, withRows]
  by_cases h : parser.metricId.isSome
  · simp only [if_pos h, List.append_assoc]
  · simp only [if_neg h, List.append_assoc]

/-- The record of a row, as it is sent. -/
def IsRecord (scalars : Scalars Double) (row : MetricDataRow Double) (item : Json) : Prop :=
  ∃ text, strftime row.timestamp = .ok text ∧
    item = .array [.string text, .number (scalars.repr row.metricValue),
      .number (scalars.repr row.anomalyScore), .number row.rowid.repr]

theorem isRecord_of_recordTuple {row : MetricDataRow Double} {record : Json}
    (h : recordTuple scalars row = .ok record) : IsRecord scalars row record := by
  rw [recordTuple] at h
  cases htext : strftime row.timestamp with
  | error e =>
    rw [htext] at h
    cases h
  | ok text =>
    rw [htext] at h
    exact ⟨text, htext, (Except.ok.inj h).symm⟩

/-- There is nothing in a record to be sent in another order. -/
theorem IsRecord.same {row : MetricDataRow Double} {record item : Json}
    (h : IsRecord scalars row record) (hsame : Json.Same record item) :
    IsRecord scalars row item := by
  obtain ⟨text, htext, rfl⟩ := h
  obtain ⟨items, hitems, rfl⟩ := same_array hsame
  obtain _ | ⟨h₁, _ | ⟨h₂, _ | ⟨h₃, _ | ⟨h₄, _ | _⟩⟩⟩⟩ := hitems
  rw [same_string h₁, same_number h₂, same_number h₃, same_number h₄]
  exact ⟨text, htext, rfl⟩

theorem forall₂_same {rows : List (MetricDataRow Double)} {records items : List Json}
    (h : List.Forall₂ (IsRecord scalars) rows records)
    (hsame : List.Forall₂ Json.Same records items) :
    List.Forall₂ (IsRecord scalars) rows items := by
  induction h generalizing items with
  | nil =>
    cases hsame
    exact .nil
  | cons hrow hrows ih =>
    obtain _ | ⟨hitem, hitems⟩ := hsame
    exact .cons (hrow.same hitem) (ih hitems)

theorem parseRecord_record (scalars : Scalars Double) (toFloat : Double → Single)
    {row : MetricDataRow Double} {text : String} (htext : strftime row.timestamp = .ok text) (parser : MetricDataParser Single)
    (rest : List Token) :
    parseRecord scalars toFloat parser (.string text :: .number (scalars.repr row.metricValue) ::
      .number (scalars.repr row.anomalyScore) :: .number row.rowid.repr :: rest) =
      .ok (parser.withRows [asRow toFloat parser.metricId row], rest) := by
  have hrow : (⟨parser.metricId, timegm row.timestamp * 1000, toFloat row.metricValue,
      toFloat row.anomalyScore, row.rowid⟩ : MetricData Single) =
      asRow toFloat parser.metricId row := by
    rw [asRow, ← received_timestamp toFloat]
    rfl
  have hrowid := scalars.parseLong_repr row.rowid (lt_of_lt_of_le row.rowid_lt (by decide))
  simp only [parseRecord, nextDouble, nextLong, nextString, bind, Except.bind, pure, Except.pure,
    DataUtils.parseHTMDate_strftime row.isDate htext, scalars.parseDouble_repr, hrowid, hrow]
  rw [withRows]
  split <;> rfl

theorem parseRow_record {row : MetricDataRow Double} {item : Json}
    (h : IsRecord scalars row item) (parser : MetricDataParser Single) (rest : List Token) :
    parseRow scalars toFloat parser (item.tokens ++ rest) =
      .ok (parser.withRows [asRow toFloat parser.metricId row], rest) := by
  obtain ⟨text, htext, rfl⟩ := h
  have hrecord := parseRecord_record scalars toFloat htext parser
    (.bracket .endArray :: rest)
  have hloop : whileHasNext (parseRecord scalars toFloat) (rest.length + 5) parser
      (.string text :: .number (scalars.repr row.metricValue) ::
        .number (scalars.repr row.anomalyScore) :: .number row.rowid.repr ::
        .bracket .endArray :: rest) =
      .ok (parser.withRows [asRow toFloat parser.metricId row], .bracket .endArray :: rest) :=
    (whileHasNext_pass rfl hrecord).trans (whileHasNext_stop rfl (Nat.succ_pos _))
  have htokens : (Json.array [.string text, .number (scalars.repr row.metricValue),
      .number (scalars.repr row.anomalyScore), .number row.rowid.repr]).tokens ++ rest =
      .bracket .beginArray :: .string text :: .number (scalars.repr row.metricValue) ::
        .number (scalars.repr row.anomalyScore) :: .number row.rowid.repr ::
        .bracket .endArray :: rest := by
    simp only [Json.tokens, itemTokens, List.cons_append, List.nil_append]
  rw [htokens, parseRow]
  refine (?_ : (whileHasNext (parseRecord scalars toFloat) (rest.length + 5) parser _ >>= _) = _)
  rw [hloop]
  rfl

/-- All records of an array are read, whether the ID is known or not. -/
theorem parseData_records {rows : List (MetricDataRow Double)} {items : List Json}
    (h : List.Forall₂ (IsRecord scalars) rows items) (parser : MetricDataParser Single)
    (rest : List Token) :
    parseData scalars toFloat parser ((Json.array items).tokens ++ rest) =
      .ok (withRows { parser with data := [] } (rows.map (asRow toFloat parser.metricId)), rest) := by
  have hlength : items.length < (itemTokens items ++ .bracket .endArray :: rest).length := by
    have hitems := length_le_itemTokens items
    rw [List.length_append, List.length_cons]
    omega
  have hrows : ∃ parser', whileHasNext (parseRow scalars toFloat)
      (itemTokens items ++ .bracket .endArray :: rest).length { parser with data := [] }
      (itemTokens items ++ .bracket .endArray :: rest) = .ok (parser', .bracket .endArray :: rest) ∧
      parser' = withRows { parser with data := [] }
        (([] ++ rows).map (asRow toFloat parser.metricId)) := by
    refine whileHasNext_items (I := fun p done => p = withRows { parser with data := [] }
      (done.map (asRow toFloat parser.metricId))) h ?_ rfl hlength (withRows_nil _).symm
    rintro p done row item rest hrow rfl
    refine ⟨_, parseRow_record hrow _ rest, ?_⟩
    rw [withRows_metricId, withRows_append, List.map_append]
    rfl
  obtain ⟨parser', hloop, rfl⟩ := hrows
  rw [Json.tokens, List.cons_append, List.append_assoc, parseData]
  refine (?_ : (whileHasNext (parseRow scalars toFloat) _ { parser with data := [] } _ >>= _) = _)
  rw [List.singleton_append, hloop, List.nil_append]
  rfl

/-! ## The object of a metric -/

theorem parseMetric_pair {parser parser₁ parser₂ : MetricDataParser Single} {name name' : String}
    {value value' : Json} {rest : List Token}
    (hfield : parseMetricField scalars toFloat { parser with metricId := none }
      (.name name :: (value.tokens ++ .name name' :: (value'.tokens ++ .bracket .endObject :: rest))) =
      .ok (parser₁, .name name' :: (value'.tokens ++ .bracket .endObject :: rest)))
    (hfield' : parseMetricField scalars toFloat parser₁
      (.name name' :: (value'.tokens ++ .bracket .endObject :: rest)) =
      .ok (parser₂, .bracket .endObject :: rest)) :
    parseMetric scalars toFloat parser
      ((Json.object [(name, value), (name', value')]).tokens ++ rest) =
      .ok (notifyKept parser₂, rest) := by
  have hloop := whileHasNext_pair hfield hfield' (two_lt_fieldTokens name name' value value' rest)
  rw [Json.tokens, List.cons_append, List.append_assoc, parseMetric]
  refine (?_ : (whileHasNext (parseMetricField scalars toFloat) _ _ _ >>= _) = _)
  rw [List.singleton_append, hloop]
  rfl

theorem parseMetricField_uid (parser : MetricDataParser Single) (uid : String) (rest : List Token) :
    parseMetricField scalars toFloat parser (.name "uid" :: ((Json.string uid).tokens ++ rest)) =
      .ok ({ parser with metricId := some uid }, rest) := by
  rw [Json.tokens]
  rfl

theorem parseMetricField_data {rows : List (MetricDataRow Double)} {items : List Json}
    (h : List.Forall₂ (IsRecord scalars) rows items) (parser : MetricDataParser Single)
    (rest : List Token) :
    parseMetricField scalars toFloat parser
      (.name "data" :: ((Json.array items).tokens ++ rest)) =
      .ok (withRows { parser with data := [] } (rows.map (asRow toFloat parser.metricId)), rest) :=
  parseData_records h parser rest

/-- The rows of a metric are delivered with its ID, whichever field comes first. -/
theorem parseMetric_object {uid : String} {rows : List (MetricDataRow Double)} {records : List Json}
    {item : Json} (h : List.Forall₂ (IsRecord scalars) rows records)
    (hsame : Json.Same (metricObject (uid, records)) item) (parser : MetricDataParser Single)
    (rest : List Token) :
    ∃ parser', parseMetric scalars toFloat parser (item.tokens ++ rest) = .ok (parser', rest) ∧
      parser'.delivered = parser.delivered ++ rows.map (asRow toFloat (some uid)) := by
  obtain ⟨uid', data, huid, hdata, horder⟩ := same_object_pair hsame
  obtain ⟨items, hitems, rfl⟩ := same_array hdata
  obtain rfl := same_string huid
  have hrows : List.Forall₂ (IsRecord scalars) rows items := forall₂_same h hitems
  rcases horder with rfl | rfl
  · -- The ID is known when the rows come, and none are kept.
    refine ⟨_, parseMetric_pair (parseMetricField_uid _ _ _) (parseMetricField_data hrows _ _), ?_⟩
    exact List.append_nil _
  · -- The rows are kept until the ID has come.
    refine ⟨_, parseMetric_pair (parseMetricField_data hrows _ _) (parseMetricField_uid _ _ _), ?_⟩
    have hkept : ([] ++ rows.map (asRow toFloat none)).map
        (fun row : MetricData Single => { row with metricId := some uid }) =
        rows.map (asRow toFloat (some uid)) := by
      rw [List.nil_append, List.map_map]
      rfl
    exact congrArg (parser.delivered ++ ·) hkept

/-! ## The documents -/

theorem parseBody_pair {parser parser₁ parser₂ : MetricDataParser Single} {name name' : String}
    {value value' : Json} {rest : List Token}
    (hfield : parseField scalars toFloat parser
      (.name name :: (value.tokens ++ .name name' :: (value'.tokens ++ .bracket .endObject :: rest))) =
      .ok (parser₁, .name name' :: (value'.tokens ++ .bracket .endObject :: rest)))
    (hfield' : parseField scalars toFloat parser₁
      (.name name' :: (value'.tokens ++ .bracket .endObject :: rest)) =
      .ok (parser₂, .bracket .endObject :: rest)) :
    parseBody scalars toFloat parser
      ((Json.object [(name, value), (name', value')]).tokens ++ rest) = .ok (parser₂, rest) := by
  have hloop := whileHasNext_pair hfield hfield' (two_lt_fieldTokens name name' value value' rest)
  rw [Json.tokens, List.cons_append, List.append_assoc, parseBody]
  refine (?_ : (whileHasNext (parseField scalars toFloat) _ _ _ >>= _) = _)
  rw [List.singleton_append, hloop]
  rfl

/-- The names of the columns are not for the parser. -/
theorem parseField_names (parser : MetricDataParser Single) (value : Json) (rest : List Token) :
    parseField scalars toFloat parser (.name "names" :: (value.tokens ++ rest)) =
      .ok (parser, rest) := by
  have hskip := skipValue_tokens value rest
  refine (?_ : (skipValue (value.tokens ++ rest) >>= _) = _)
  rw [hskip]
  rfl

theorem parseField_data {rows : List (MetricDataRow Double)} {items : List Json}
    (h : List.Forall₂ (IsRecord scalars) rows items) (parser : MetricDataParser Single)
    (rest : List Token) :
    parseField scalars toFloat parser (.name "data" :: ((Json.array items).tokens ++ rest)) =
      .ok (withRows { parser with data := [] } (rows.map (asRow toFloat parser.metricId)), rest) :=
  parseData_records h parser rest

/-- The document for one metric is read in either order. -/
theorem parse_data {rows : List (MetricDataRow Double)} {records : List Json} {document : Json}
    {id : String} (h : List.Forall₂ (IsRecord scalars) rows records)
    (hsame : Json.Same (.object [("names", recordNames), ("data", .array records)]) document) :
    parse scalars toFloat (some id) document.tokens =
      .ok (rows.map (asRow toFloat (some id))) := by
  obtain ⟨names', data, -, hdata, horder⟩ := same_object_pair hsame
  obtain ⟨items, hitems, rfl⟩ := same_array hdata
  have hrows : List.Forall₂ (IsRecord scalars) rows items := forall₂_same h hitems
  have hbody : parseBody scalars toFloat ⟨some id, [], []⟩ (document.tokens ++ []) =
      .ok (withRows ⟨some id, [], []⟩ (rows.map (asRow toFloat (some id))), []) := by
    rcases horder with rfl | rfl
    · exact parseBody_pair (parseField_names _ _ _) (parseField_data hrows _ _)
    · exact parseBody_pair (parseField_data hrows _ _) (parseField_names _ _ _)
  rw [List.append_nil] at hbody
  rw [parse, hbody]
  rfl

/-! ## The document for all metrics -/

/-- A metric with its rows and the object that is sent for it. -/
def IsMetric (scalars : Scalars Double) (metric : String × List (MetricDataRow Double))
    (item : Json) : Prop :=
  ∃ records, List.Forall₂ (IsRecord scalars) metric.2 records ∧
    Json.Same (metricObject (metric.1, records)) item

/-- The rows of a metric, as they are delivered. -/
def deliveredRows (toFloat : Double → Single) (metric : String × List (MetricDataRow Double)) :
    List (MetricData Single) :=
  metric.2.map (asRow toFloat (some metric.1))

theorem parseMetrics_items {metrics : List (String × List (MetricDataRow Double))}
    {items : List Json} (h : List.Forall₂ (IsMetric scalars) metrics items)
    (parser : MetricDataParser Single) (rest : List Token) :
    ∃ parser', parseMetrics scalars toFloat parser ((Json.array items).tokens ++ rest) =
      .ok (parser', rest) ∧
      parser'.delivered = parser.delivered ++ metrics.flatMap (deliveredRows toFloat) := by
  have hlength : items.length < (itemTokens items ++ .bracket .endArray :: rest).length := by
    have hitems := length_le_itemTokens items
    rw [List.length_append, List.length_cons]
    omega
  have hmetrics : ∃ parser', whileHasNext (parseMetric scalars toFloat)
      (itemTokens items ++ .bracket .endArray :: rest).length parser
      (itemTokens items ++ .bracket .endArray :: rest) = .ok (parser', .bracket .endArray :: rest) ∧
      parser'.delivered =
        parser.delivered ++ ([] ++ metrics).flatMap (deliveredRows toFloat) := by
    refine whileHasNext_items (I := fun (p : MetricDataParser Single) done => p.delivered =
      parser.delivered ++ done.flatMap (deliveredRows toFloat)) h ?_ rfl hlength
      (List.append_nil _).symm
    intro p done metric item rest hmetric hdone
    obtain ⟨records, hrecords, hsame⟩ := hmetric
    obtain ⟨p', hparse, hdelivered⟩ := parseMetric_object hrecords hsame p rest
    refine ⟨p', hparse, ?_⟩
    rw [hdelivered, hdone, List.flatMap_append, List.append_assoc, List.flatMap_singleton]
    rfl
  obtain ⟨parser', hloop, hdelivered⟩ := hmetrics
  refine ⟨parser', ?_, hdelivered⟩
  rw [Json.tokens, List.cons_append, List.append_assoc, parseMetrics]
  refine (?_ : (whileHasNext (parseMetric scalars toFloat) _ parser _ >>= _) = _)
  rw [List.singleton_append, hloop]
  rfl

/-- The document for all metrics is read in either order, object by object. -/
theorem parse_metrics {metrics : List (String × List (MetricDataRow Double))} {values : List Json}
    {document : Json}
    (h : ∀ items, List.Forall₂ Json.Same values items → List.Forall₂ (IsMetric scalars) metrics items)
    (hsame : Json.Same (.object [("metrics", .array values), ("names", recordNames)]) document) :
    parse scalars toFloat none document.tokens =
      .ok (metrics.flatMap (deliveredRows toFloat)) := by
  obtain ⟨array, names', harray, -, horder⟩ := same_object_pair hsame
  obtain ⟨items, hitems, rfl⟩ := same_array harray
  have hmetrics : ∀ rest, ∃ parser', parseMetrics scalars toFloat ⟨none, [], []⟩
      ((Json.array items).tokens ++ rest) = .ok (parser', rest) ∧
      parser'.delivered = [] ++ metrics.flatMap (deliveredRows toFloat) :=
    fun rest => parseMetrics_items (h items hitems) ⟨none, [], []⟩ rest
  have hbody : ∃ parser', parseBody scalars toFloat ⟨none, [], []⟩ (document.tokens ++ []) =
      .ok (parser', []) ∧ parser'.delivered = metrics.flatMap (deliveredRows toFloat) := by
    rcases horder with rfl | rfl
    · obtain ⟨parser', hparse, hdelivered⟩ :=
        hmetrics (.name "names" :: (names'.tokens ++ .bracket .endObject :: []))
      exact ⟨parser', parseBody_pair hparse (parseField_names _ _ _), hdelivered⟩
    · obtain ⟨parser', hparse, hdelivered⟩ := hmetrics (.bracket .endObject :: [])
      exact ⟨parser', parseBody_pair (parseField_names _ _ _) hparse, hdelivered⟩
  obtain ⟨parser', hparse, hdelivered⟩ := hbody
  rw [List.append_nil] at hparse
  rw [parse, hparse]
  exact congrArg Except.ok hdelivered

end MetricDataParser

/-! ## The rows of each metric -/

open MetricDataParser

/-- An entry of the dictionary, with the rows that it is made of. -/
def IsEntry (scalars : Scalars Double) (metric : String × List (MetricDataRow Double))
    (entry : String × List Json) : Prop :=
  entry.1 = metric.1 ∧ List.Forall₂ (IsRecord scalars) metric.2 entry.2

def addRow (row : MetricDataRow Double) :
    List (String × List (MetricDataRow Double)) → List (String × List (MetricDataRow Double))
  | [] => [(row.uid, [row])]
  | metric :: metrics =>
    if metric.1 = row.uid then (row.uid, metric.2 ++ [row]) :: metrics
    else metric :: addRow row metrics

theorem addRow_entries {metrics : List (String × List (MetricDataRow Double))}
    {output : List (String × List Json)} {row : MetricDataRow Double} {record : Json}
    (h : List.Forall₂ (IsEntry scalars) metrics output) (hrecord : IsRecord scalars row record) :
    List.Forall₂ (IsEntry scalars) (addRow row metrics) (addRecord 0 row.uid record output) := by
  induction h with
  | nil =>
    rw [addRow, addRecord, if_pos (underLimit_zero _)]
    exact .cons ⟨rfl, .cons hrecord .nil⟩ .nil
  | @cons metric entry metrics output hentry hentries ih =>
    rw [addRow, addRecord, if_pos (underLimit_zero _), hentry.1]
    split
    · exact .cons ⟨rfl, List.rel_append hentry.2 (.cons hrecord .nil)⟩ hentries
    · exact .cons hentry ih

/-- The rows of a metric among those of all. -/
def ofMetric (id : Option String) (rows : List (MetricDataRow Double)) :
    List (MetricDataRow Double) :=
  rows.filter fun row => some row.uid = id

/-- The metrics have the rows of a result, each its own in their order. -/
structure Grouped (metrics : List (String × List (MetricDataRow Double)))
    (result : List (MetricDataRow Double)) : Prop where
  nodup : metrics.Pairwise fun metric metric' => metric.1 ≠ metric'.1
  uid : ∀ metric ∈ metrics, ∀ row ∈ metric.2, row.uid = metric.1
  rows : ∀ id, metrics.flatMap (fun metric => ofMetric id metric.2) = ofMetric id result

theorem ofMetric_append (id : Option String) (rows rows' : List (MetricDataRow Double)) :
    ofMetric id (rows ++ rows') = ofMetric id rows ++ ofMetric id rows' :=
  List.filter_append _ _

theorem ofMetric_eq_nil {id : Option String} {metric : String × List (MetricDataRow Double)}
    (huid : ∀ row ∈ metric.2, row.uid = metric.1) (h : some metric.1 ≠ id) :
    ofMetric id metric.2 = [] := by
  apply List.filter_eq_nil_iff.mpr
  intro row hrow
  rw [huid row hrow]
  simpa using h

theorem mem_addRow {metrics : List (String × List (MetricDataRow Double))}
    {row : MetricDataRow Double} {metric : String × List (MetricDataRow Double)}
    (h : metric ∈ addRow row metrics) :
    metric ∈ metrics ∨ (metric.1 = row.uid ∧ ∀ r ∈ metric.2, r = row ∨
      ∃ old ∈ metrics, old.1 = row.uid ∧ r ∈ old.2) := by
  induction metrics with
  | nil =>
    obtain rfl := List.mem_singleton.mp h
    exact Or.inr ⟨rfl, fun r hr => Or.inl (List.mem_singleton.mp hr)⟩
  | cons first metrics ih =>
    rw [addRow] at h
    split at h
    · rename_i huid
      rcases List.mem_cons.mp h with rfl | h
      · refine Or.inr ⟨rfl, fun r hr => ?_⟩
        rcases List.mem_append.mp hr with hr | hr
        · exact Or.inr ⟨first, List.mem_cons_self, huid, hr⟩
        · exact Or.inl (List.mem_singleton.mp hr)
      · exact Or.inl (List.mem_cons_of_mem _ h)
    · rcases List.mem_cons.mp h with rfl | h
      · exact Or.inl List.mem_cons_self
      · rcases ih h with h | ⟨huid, hrows⟩
        · exact Or.inl (List.mem_cons_of_mem _ h)
        · refine Or.inr ⟨huid, fun r hr => (hrows r hr).imp_right ?_⟩
          rintro ⟨old, hold, hr⟩
          exact ⟨old, List.mem_cons_of_mem _ hold, hr⟩

theorem addRow_rows {metrics : List (String × List (MetricDataRow Double))}
    (hnodup : metrics.Pairwise fun metric metric' => metric.1 ≠ metric'.1)
    (huid : ∀ metric ∈ metrics, ∀ row ∈ metric.2, row.uid = metric.1) (row : MetricDataRow Double)
    (id : Option String) :
    (addRow row metrics).flatMap (fun metric => ofMetric id metric.2) =
      metrics.flatMap (fun metric => ofMetric id metric.2) ++ ofMetric id [row] := by
  induction metrics with
  | nil => exact List.append_nil _
  | cons metric metrics ih =>
    obtain ⟨hmetric, hmetrics⟩ := List.pairwise_cons.mp hnodup
    obtain ⟨huid', huids⟩ := List.forall_mem_cons.mp huid
    rw [addRow]
    split
    · rename_i hrow
      rw [List.flatMap_cons, List.flatMap_cons, ofMetric_append, List.append_assoc,
        List.append_assoc]
      congr 1
      by_cases hid : some row.uid = id
      · -- The other metrics have no rows of this one.
        have hothers : metrics.flatMap (fun metric => ofMetric id metric.2) = [] := by
          apply List.flatMap_eq_nil_iff.mpr
          intro other hother
          apply ofMetric_eq_nil (huids other hother)
          rw [← hid, ← hrow]
          exact fun h => hmetric other hother (Option.some.inj h).symm
        rw [hothers, List.append_nil, List.nil_append]
      · have hnone : ofMetric id [row] = [] := by
          rw [ofMetric, List.filter_singleton]
          simp [hid]
        rw [hnone, List.append_nil, List.nil_append]
    · rw [List.flatMap_cons, List.flatMap_cons, ih hmetrics huids, List.append_assoc]

theorem addRow_nodup {metrics : List (String × List (MetricDataRow Double))}
    (h : metrics.Pairwise fun metric metric' => metric.1 ≠ metric'.1) (row : MetricDataRow Double) :
    (addRow row metrics).Pairwise fun metric metric' => metric.1 ≠ metric'.1 := by
  induction metrics with
  | nil => exact List.pairwise_singleton _ _
  | cons metric metrics ih =>
    obtain ⟨hmetric, hmetrics⟩ := List.pairwise_cons.mp h
    rw [addRow]
    split
    · rename_i hrow
      exact List.pairwise_cons.mpr ⟨fun other hother => hrow ▸ hmetric other hother, hmetrics⟩
    · rename_i hrow
      refine List.pairwise_cons.mpr ⟨fun other hother => ?_, ih hmetrics⟩
      rcases mem_addRow hother with hother | ⟨huid, -⟩
      · exact hmetric other hother
      · exact fun heq => hrow (heq.trans huid)

theorem Grouped.addRow {metrics : List (String × List (MetricDataRow Double))}
    {done : List (MetricDataRow Double)} (h : Grouped metrics done) (row : MetricDataRow Double) :
    Grouped (addRow row metrics) (done ++ [row]) where
  nodup := addRow_nodup h.nodup row
  uid := by
    intro metric hmetric r hr
    rcases mem_addRow hmetric with hmetric | ⟨huid, hrows⟩
    · exact h.uid metric hmetric r hr
    · rcases hrows r hr with rfl | ⟨old, hold, hkey, hr⟩
      · exact huid.symm
      · rw [h.uid old hold r hr, hkey, huid]
  rows id := by rw [addRow_rows h.nodup h.uid, h.rows, ofMetric_append]

theorem outputFrom_grouped {result : List (MetricDataRow Double)}
    {output output' : List (String × List Json)}
    {metrics : List (String × List (MetricDataRow Double))} {done : List (MetricDataRow Double)}
    (houtput : outputFrom scalars 0 output result = .ok output')
    (hentries : List.Forall₂ (IsEntry scalars) metrics output) (hgrouped : Grouped metrics done) :
    ∃ metrics', List.Forall₂ (IsEntry scalars) metrics' output' ∧
      Grouped metrics' (done ++ result) := by
  induction result generalizing output metrics done with
  | nil =>
    obtain rfl := Except.ok.inj houtput
    exact ⟨metrics, hentries, by rwa [List.append_nil]⟩
  | cons row result ih =>
    rw [outputFrom] at houtput
    cases hrecord : recordTuple scalars row with
    | error e =>
      rw [hrecord] at houtput
      cases houtput
    | ok record =>
      rw [hrecord] at houtput
      have hrest := ih houtput (addRow_entries hentries (isRecord_of_recordTuple hrecord))
        (hgrouped.addRow row)
      rwa [List.append_assoc] at hrest

/-- An order does not matter where no two of the parts are there. -/
theorem flatMap_eq_of_perm {α β : Type} {f : α → List β} {l l' : List α} (h : l.Perm l')
    (hf : l.Pairwise fun a b => f a = [] ∨ f b = []) : l.flatMap f = l'.flatMap f := by
  induction h with
  | nil => rfl
  | cons a h ih => rw [List.flatMap_cons, List.flatMap_cons, ih (List.pairwise_cons.mp hf).2]
  | swap a b l =>
    have hab := (List.pairwise_cons.mp hf).1 a List.mem_cons_self
    simp only [List.flatMap_cons]
    rcases hab with hb | ha
    · rw [hb, List.nil_append, List.nil_append]
    · rw [ha, List.nil_append, List.nil_append]
  | trans h h' ih ih' => exact (ih hf).trans (ih' (h.pairwise hf fun h => h.symm))

/-- What is delivered of a metric are its rows, in whatever order the metrics come. -/
theorem Grouped.delivered {metrics metrics' : List (String × List (MetricDataRow Double))}
    {result : List (MetricDataRow Double)} (h : Grouped metrics result)
    (horder : metrics.Perm metrics') (id : Option String) :
    (metrics'.flatMap (deliveredRows toFloat)).filter (fun data => data.metricId = id) =
      (ofMetric id result).map (received toFloat) := by
  have hmetric : ∀ metric ∈ metrics', (deliveredRows toFloat metric).filter
      (fun data => data.metricId = id) = (ofMetric id metric.2).map (received toFloat) := by
    intro metric hmetric
    have huid := h.uid metric (horder.mem_iff.mpr hmetric)
    have hrows : deliveredRows toFloat metric = metric.2.map (received toFloat) := by
      apply List.map_congr_left
      intro row hrow
      rw [asRow, ← huid row hrow]
      rfl
    rw [hrows, List.filter_map]
    rfl
  have hdisjoint : metrics.Pairwise fun metric metric' =>
      ofMetric id metric.2 = [] ∨ ofMetric id metric'.2 = [] := by
    refine h.nodup.imp_of_mem fun {metric metric'} hm hm' hne => ?_
    by_cases hid : some metric.1 = id
    · refine Or.inr (ofMetric_eq_nil (h.uid metric' hm') fun hid' => hne ?_)
      exact Option.some.inj (hid.trans hid'.symm)
    · exact Or.inl (ofMetric_eq_nil (h.uid metric hm) hid)
  calc (metrics'.flatMap (deliveredRows toFloat)).filter (fun data => data.metricId = id)
      = metrics'.flatMap fun metric =>
          (deliveredRows toFloat metric).filter fun data => data.metricId = id := by
        rw [List.filter_flatMap]
    _ = metrics'.flatMap fun metric => (ofMetric id metric.2).map (received toFloat) :=
        List.flatMap_congr hmetric
    _ = (metrics'.flatMap fun metric => ofMetric id metric.2).map (received toFloat) := by
        rw [List.map_flatMap]
    _ = (metrics.flatMap fun metric => ofMetric id metric.2).map (received toFloat) := by
        rw [flatMap_eq_of_perm horder hdisjoint]
    _ = (ofMetric id result).map (received toFloat) := by rw [h.rows id]

theorem recordTuples_forall₂ {rows : List (MetricDataRow Double)} {records : List Json}
    (h : recordTuples scalars rows = .ok records) :
    List.Forall₂ (IsRecord scalars) rows records := by
  induction rows generalizing records with
  | nil =>
    obtain rfl := Except.ok.inj h
    exact .nil
  | cons row rows ih =>
    rw [recordTuples] at h
    cases hrecord : recordTuple scalars row with
    | error e =>
      rw [hrecord] at h
      cases h
    | ok record =>
      cases hrecords : recordTuples scalars rows with
      | error e =>
        rw [hrecord, hrecords] at h
        cases h
      | ok records' =>
        rw [hrecord, hrecords] at h
        obtain rfl := Except.ok.inj h
        exact .cons (isRecord_of_recordTuple hrecord) (ih hrecords)

theorem isMetric_values {metrics : List (String × List (MetricDataRow Double))}
    {values : List (String × List Json)} {items : List Json}
    (h : List.Forall₂ (fun entry metric => IsEntry scalars metric entry) values metrics)
    (hitems : List.Forall₂ Json.Same (values.map metricObject) items) :
    List.Forall₂ (IsMetric scalars) metrics items := by
  induction h generalizing items with
  | nil =>
    cases hitems
    exact .nil
  | @cons entry metric values metrics hentry hentries ih =>
    obtain _ | ⟨hitem, hitems⟩ := hitems
    refine .cons ⟨entry.2, hentry.2, ?_⟩ (ih hitems)
    rw [← hentry.1]
    exact hitem

theorem getMetricData_uid {id : String} {scored : List (MetricDataRow Double)} :
    ∀ row ∈ getMetricData (some id) scored, row.uid = id := by
  intro row hrow
  have hid := (List.mem_filter.mp hrow).2
  exact (of_decide_eq_true hid).symm

/-- Whatever document is sent, each metric gets its rows in their order. -/
theorem parse_sent {metricId : Option String} {scored : List (MetricDataRow Double)}
    {document : Json} (h : Sends scalars 0 (getMetricData metricId scored) metricId document) :
    ∃ delivered, parse scalars toFloat metricId document.tokens = .ok delivered ∧
      ∀ id, delivered.filter (fun data => data.metricId = id) =
        (ofMetric id (getMetricData metricId scored)).map (received toFloat) := by
  cases h with
  | metrics houtput horder hdocument =>
    obtain ⟨metrics, hentries, hgrouped⟩ := outputFrom_grouped houtput .nil
      (⟨.nil, fun _ h => (by cases h), fun _ => rfl⟩ : Grouped [] [])
    obtain ⟨metrics', hentries', hperm⟩ := List.perm_comp_forall₂ horder.symm
      (List.Forall₂.flip hentries)
    exact ⟨_, parse_metrics (fun items hitems => isMetric_values hentries' hitems) hdocument,
      hgrouped.delivered hperm.symm⟩
  | data hrecords hdocument =>
    rename_i id records
    refine ⟨_, parse_data (recordTuples_forall₂ hrecords) hdocument, fun id' => ?_⟩
    have hrows : (getMetricData (some id) scored).map (asRow toFloat (some id)) =
        (getMetricData (some id) scored).map (received toFloat) := by
      apply List.map_congr_left
      intro row hrow
      rw [asRow, ← getMetricData_uid row hrow]
      rfl
    rw [if_pos rfl, hrows, List.filter_map]
    rfl

/-! ## Documents are sent -/

theorem recordTuple_ok (scalars : Scalars Double) {row : MetricDataRow Double} (h : 1900 ≤ row.timestamp.year) :
    ∃ record, recordTuple scalars row = .ok record := by
  rw [recordTuple, strftime, if_neg (by omega)]
  exact ⟨_, rfl⟩

theorem recordTuples_ok (scalars : Scalars Double) {rows : List (MetricDataRow Double)}
    (h : ∀ row ∈ rows, 1900 ≤ row.timestamp.year) :
    ∃ records, recordTuples scalars rows = .ok records := by
  induction rows with
  | nil => exact ⟨[], rfl⟩
  | cons row rows ih =>
    obtain ⟨hrow, hrows⟩ := List.forall_mem_cons.mp h
    obtain ⟨record, hrecord⟩ := recordTuple_ok scalars hrow
    obtain ⟨records, hrecords⟩ := ih hrows
    rw [recordTuples, hrecord, hrecords]
    exact ⟨_, rfl⟩

theorem outputFrom_ok (scalars : Scalars Double) {limit : ℕ} {rows : List (MetricDataRow Double)}
    (h : ∀ row ∈ rows, 1900 ≤ row.timestamp.year) (output : List (String × List Json)) :
    ∃ output', outputFrom scalars limit output rows = .ok output' := by
  induction rows generalizing output with
  | nil => exact ⟨output, rfl⟩
  | cons row rows ih =>
    obtain ⟨hrow, hrows⟩ := List.forall_mem_cons.mp h
    obtain ⟨record, hrecord⟩ := recordTuple_ok scalars hrow
    rw [outputFrom, hrecord]
    exact ih hrows _

/-- A document is sent for all rows of this and of the last century. -/
theorem exists_sends (scalars : Scalars Double) (limit : ℕ) (metricId : Option String)
    {rows : List (MetricDataRow Double)} (h : ∀ row ∈ rows, 1900 ≤ row.timestamp.year) :
    ∃ document, Sends scalars limit rows metricId document := by
  cases metricId with
  | none =>
    obtain ⟨output, houtput⟩ := outputFrom_ok scalars h []
    exact ⟨_, .metrics houtput (List.Perm.refl output) (Json.Same.refl _)⟩
  | some id =>
    have hsent : ∀ row ∈ (if limit = 0 then rows else rows.take limit),
        1900 ≤ row.timestamp.year := by
      intro row hrow
      split at hrow
      · exact h row hrow
      · exact h row (List.mem_of_mem_take hrow)
    obtain ⟨records, hrecords⟩ := recordTuples_ok scalars hsent
    exact ⟨_, .data hrecords (Json.Same.refl _)⟩

/-- The client takes the stream for the result, row for row, and out of any document that the
server may send for it the rows of each metric in their order. -/
theorem wire_format_agrees (scalars : Scalars Double) (unpacker : Unpacker toFloat)
    (metricId : Option String) (scored : List (MetricDataRow Double)) :
    (∀ fuel, (getMetricData metricId scored).length < fuel →
      unpacker.unpackMessage fuel
          (unpacker.before (octetStream 0 (getMetricData metricId scored))) =
        some (.ok (), (getMetricData metricId scored).map (received toFloat))) ∧
    (∀ document, Sends scalars 0 (getMetricData metricId scored) metricId document →
      ∃ delivered, parse scalars toFloat metricId document.tokens = .ok delivered ∧
        ∀ id, delivered.filter (fun data => data.metricId = id) =
          (ofMetric id (getMetricData metricId scored)).map (received toFloat)) ∧
    ((∀ row ∈ getMetricData metricId scored, 1900 ≤ row.timestamp.year) →
      ∃ document, Sends scalars 0 (getMetricData metricId scored) metricId document) :=
  ⟨fun _ hfuel => unpacker.unpackMessage_octetStream _ hfuel, fun _ h => parse_sent h,
    exists_sends scalars 0 metricId⟩

/-- An unpacker of messages that are in memory. -/
def bufferUnpacker (toFloat : Double → Single) : Unpacker toFloat where
  State := Option (List (Packed Double)) × List (List (Packed Double))
  before messages := (none, messages)
  inside message messages := (some message, messages)
  skip
    | (none, _ :: messages) => .ok (none, messages)
    | (none, []) => .error .endOfFile
    | (some (_ :: message), messages) => .ok (some message, messages)
    | (some [], _) => .error .messageType
  readArrayBegin
    | (none, message :: messages) => .ok (message.length, some message, messages)
    | (none, []) => .error .endOfFile
    | (some _, _) => .error .messageType
  readArrayEnd
    | (some _, messages) => .ok (none, messages)
    | (none, _) => .error .messageType
  readString
    | (some (.raw text :: message), messages) => .ok (text, some message, messages)
    | _ => .error .messageType
  readLong
    | (some (.integer n :: message), messages) => .ok (n, some message, messages)
    | _ => .error .messageType
  readInt
    | (some (.integer n :: message), messages) => .ok (n, some message, messages)
    | _ => .error .messageType
  readFloat
    | (some (.double d :: message), messages) => .ok (toFloat d, some message, messages)
    | _ => .error .messageType
  skip_before _ _ := rfl
  readArrayBegin_nil := rfl
  readArrayBegin_cons _ _ := rfl
  readArrayEnd_inside _ := rfl
  readString_raw _ _ _ := rfl
  readLong_integer _ _ _ _ _ := rfl
  readInt_integer _ _ _ _ _ := rfl
  readFloat_double _ _ _ := rfl

/-- Doubles that are zero or a half, with the numbers of JSON. -/
def halves : Scalars Bool where
  repr half := if half then "0.5" else "0.0"
  parseDouble text := if text = "0.5" then some true else if text = "0.0" then some false else none
  parseLong text :=
    if text.toList.all Char.isDigit then some (Nat.ofDigitChars 10 text.toList 0 : ℤ) else none
  parseDouble_repr half := by cases half <;> rfl
  parseLong_repr n _ := by
    have hdigits : (Nat.toDigits 10 n).all Char.isDigit = true := List.all_eq_true.mpr
      fun c hc => Nat.isDigit_of_mem_toDigits (by omega) (by omega) hc
    rw [Nat.toList_repr, if_pos hdigits, Nat.ofDigitChars_toDigits (by omega) (by omega)]

def sampleTime : DateTime := ⟨2014, 1, 30, 0, 10, 0, 0, none⟩

def sampleRow (uid : String) (rowid : ℕ) (hrowid : rowid < 2 ^ 31) : MetricDataRow Bool where
  uid := uid
  timestamp := sampleTime
  metricValue := false
  anomalyScore := true
  rowid := rowid
  isDate := by decide
  wholeSecond := rfl
  rowid_lt := hrowid

/-- Two metrics, the rows of one between those of the other. -/
def sampleRows : List (MetricDataRow Bool) :=
  [sampleRow "cpu" 3 (by decide), sampleRow "disk" 7 (by decide), sampleRow "cpu" 2 (by decide)]

theorem wire_format_agrees_sample :
    (bufferUnpacker id).unpackMessage 4
        ((bufferUnpacker id).before (octetStream 0 (getMetricData none sampleRows))) =
      some (.ok (), (getMetricData none sampleRows).map (received id)) ∧
    ∃ document delivered, Sends halves 0 (getMetricData none sampleRows) none document ∧
      parse halves id none document.tokens = .ok delivered ∧
      delivered.filter (fun data => data.metricId = some "cpu") =
        (ofMetric (some "cpu") (getMetricData none sampleRows)).map (received id) := by
  obtain ⟨hstream, hdocument, hsent⟩ := wire_format_agrees halves (bufferUnpacker id) none sampleRows
  have hyears : ∀ row ∈ getMetricData none sampleRows, 1900 ≤ row.timestamp.year := by
    intro row hrow
    have hmem : row ∈ sampleRows := (List.mem_filter.mp hrow).1
    simp only [sampleRows, List.mem_cons, List.not_mem_nil, or_false] at hmem
    rcases hmem with rfl | rfl | rfl <;> decide
  obtain ⟨document, hsends⟩ := hsent hyears
  obtain ⟨delivered, hparse, hdelivered⟩ := hdocument document hsends
  exact ⟨hstream 4 (by decide), document, delivered, hsends, hparse, hdelivered _⟩

end NumentaApps.HTMIT
