import NumentaApps.MetricValues
import NumentaApps.MetricDataWire
import Mathlib.Data.List.Sort

/-!
# What the cache of the metric values answers

A call that finds values of its range answers from them alone. Otherwise it goes through all pages of
its query, also after its callback has stopped.
-/
namespace NumentaApps.Taurus
open UtcCalendar TransitionSystem CallbackDelivery
open HTMIT (DataUtils.parseHTMDate DataUtils.IsNumber DataUtils.groupValue DataUtils.parseInt)
open KeyRange (OrderedMap OrderedMap.mem_put)

/-! ### Timestamps -/

theorem isLeapYear_cast {year : ℤ} (hyear : 1582 < year) :
    Unicorn.isLeapYear (year % 400).toNat = isLeapYear year := by
  rw [Bool.eq_iff_iff, isLeapYear_iff]
  simp only [Unicorn.isLeapYear, Bool.or_eq_true, Bool.and_eq_true, decide_eq_true_eq]
  omega

theorem daysBeforeMonth_eq {year : ℤ} (hyear : 1582 < year) {month : ℕ} (hmonth : month < 13) :
    (Unicorn.daysBeforeMonth (year % 400).toNat month : ℤ) =
      ((monthLengths year).take (month - 1)).sum := by
  have hall : ∀ leap, ∀ month < 13, ((((List.range (month - 1)).map fun m =>
      if m + 1 = 2 then (if leap = true then 29 else 28)
      else if m + 1 ∈ [4, 6, 9, 11] then 30 else 31).sum : ℕ) : ℤ) =
      (List.take (month - 1)
        [31, if leap = true then 29 else 28, 31, 30, 31, 30, 31, 31, 30, 31, 30, 31]).sum := by
    decide
  have heq := hall (isLeapYear year) month hmonth
  rw [monthLengths, if_neg (show year ≠ 1582 by omega)]
  simp only [Unicorn.daysBeforeMonth, Unicorn.daysInMonth, isLeapYear_cast hyear]
  exact heq

theorem calendarDay_date {day : ℤ} (hyear : 1582 < yearOfDay day) :
    HTMIT.DataUtils.calendarDay (yearOfDay day) (dateOf day).1 (dateOf day).2 - Unicorn.epochDay =
      day := by
  obtain ⟨hmonth, hmonth', _, _, hday, _⟩ := monthAndDay_dayOfYear day
  have hbefore := daysBeforeMonth_eq hyear hmonth'
  have hepoch : (Unicorn.epochDay : ℤ) = 719528 := by decide
  rw [dateOf_of_lt hyear, HTMIT.DataUtils.calendarDay, if_pos (.inl hyear),
    HTMIT.DataUtils.gregorianDay, hbefore, hepoch, HTMIT.DataUtils.gregorianYear]
  have hfirst : firstDay (yearOfDay day) = 365 * (yearOfDay day - 1970) + ((yearOfDay day - 1) / 4 -
      (yearOfDay day - 1) / 100 + (yearOfDay day - 1) / 400 - 477) := by
    rw [firstDay, if_pos hyear]
  have hsub : dayOfYear day = day - firstDay (yearOfDay day) + 1 := rfl
  omega

theorem isNumber_padded (width n : ℕ) : DataUtils.IsNumber (padded width n) := by
  refine ⟨?_, fun _ => isDigit_padded⟩
  have hpos : 0 < (Nat.toDigits 10 n).length := Nat.length_toDigits_pos
  rw [padded, List.leftpad]
  apply List.append_ne_nil_of_right_ne_nil
  exact List.ne_nil_of_length_pos hpos

theorem groupValue_padded {groups : List (HTMIT.DataUtils.DatePart × List Char)}
    {part : HTMIT.DataUtils.DatePart} {width n : ℕ} (h : groups.lookup part = some (padded width n))
    (hn : n < 2 ^ 31) : DataUtils.groupValue groups part = .ok n := by
  have hvalue : NumericLiteral.digitsValue (padded width n) = n := padded_value width n
  rw [DataUtils.groupValue, h, Option.getD_some, DataUtils.parseInt, hvalue, if_pos hn]

/-- The client reads the time that the server has written. -/
theorem parseHTMDate_timestamp {time : ℤ} {text : String} (h : IsTimestamp time text) :
    DataUtils.parseHTMDate text = .ok (some time) := by
  obtain ⟨rfl, hwhole, hyear, hyear'⟩ := h
  obtain ⟨hmonth, hmonth', hpos, hdate⟩ := dateOf_bounds (time / 86400000)
  have hday := calendarDay_date hyear
  have heq := yearOfEra_eq (show 0 < yearOfDay (time / 86400000) by omega)
  simp only [timestampText, dateText, List.append_assoc, List.cons_append]
  generalize dateOf (time / 86400000) = date at *
  rw [DataUtils.parseHTMDate, String.toList_ofList, HTMIT.DataUtils.dateGroups_numbers rfl
    (isNumber_padded _ _) (isNumber_padded _ _) (isNumber_padded _ _) rfl (isNumber_padded _ _)
    (isNumber_padded _ _) (isNumber_padded _ _)]
  simp only []
  rw [groupValue_padded rfl (by omega), groupValue_padded rfl (by omega),
    groupValue_padded rfl (by omega), groupValue_padded rfl (by omega),
    groupValue_padded rfl (by omega), groupValue_padded rfl (by omega)]
  refine congrArg (fun t => Except.ok (some t)) ?_
  have hmonths : (((date.1 : ℤ) - 1) % 12).toNat + 1 = date.1 := by omega
  have hyears : (yearOfDay (time / 86400000)) + ((date.1 : ℤ) - 1) / 12 = yearOfDay (time / 86400000) := by
    omega
  rw [HTMIT.DataUtils.getTime, heq, hyears, hmonths, Int.toNat_of_nonneg (by omega), hday]
  omega

/-! ### The values of the table -/

variable {Single : Type} {parseFloat : String → Single} {table : MetricDataTable}
  {client client' : TaurusClient Single} {call : GetMetricValues Single}

def MetricDataTable.values (parseFloat : String → Single) (table : MetricDataTable) (uid : String) :
    List (MetricValue Single) := (table.items uid).filterMap fun item => item.read parseFloat

theorem read_eq {item : MetricDataItem} {time : ℤ} (h : IsTimestamp time item.timestamp) :
    item.read parseFloat =
      some (time, ⟨parseFloat item.metricValue, parseFloat item.anomalyScore⟩) := by
  rw [MetricDataItem.read, parseHTMDate_timestamp h]

theorem IsTimestamp.fourDigits {time : ℤ} {text : String} (h : IsTimestamp time text) :
    FourDigits (time / 86400000) := by
  obtain ⟨_, _, hyear, hyear'⟩ := h
  exact ⟨by omega, hyear'⟩

/-- Texts in their order are times in theirs. -/
theorem values_ascending (parseFloat : String → Single) (table : MetricDataTable) (uid : String) :
    (table.values parseFloat uid).Pairwise fun e e' => e.1 < e'.1 := by
  rw [MetricDataTable.values, List.pairwise_filterMap]
  refine (table.ascending uid).imp_of_mem ?_
  intro item item' hitem hitem' hbefore e he e' he'
  obtain ⟨time, htime⟩ := table.written uid item hitem
  obtain ⟨time', htime'⟩ := table.written uid item' hitem'
  rw [read_eq htime, Option.some.injEq] at he
  rw [read_eq htime', Option.some.injEq] at he'
  have hwhole := htime.2.1
  have hwhole' := htime'.2.1
  rw [htime.1, htime'.1, String.toList_ofList, String.toList_ofList,
    before_timestampText htime.fourDigits htime'.fourDigits] at hbefore
  rw [← he, ← he']
  simp only
  omega

/-- A time is that of one value. -/
theorem eq_of_ascending {rows : List (MetricValue Single)} {e e' : MetricValue Single}
    (h : rows.Pairwise fun e e' => e.1 < e'.1) (he : e ∈ rows) (he' : e' ∈ rows) (heq : e.1 = e'.1) :
    e = e' := by
  have hall : ∀ x ∈ rows, ∀ y ∈ rows, x.1 = y.1 → x = y := by
    intro x hx y hy
    apply List.Pairwise.forall_of_forall_of_flip _ _ _ hx hy
    · exact fun _ _ _ => rfl
    · exact h.imp fun hlt heq => absurd heq (ne_of_lt hlt)
    · exact h.imp fun hlt heq => absurd heq (ne_of_gt hlt)
  exact hall e he e' he' heq

namespace GetMetricValues

def inRange (call : GetMetricValues Single) (e : MetricValue Single) : Bool :=
  call.fromTime ≤ e.1 && e.1 ≤ call.toTime

/-- What a call is to be answered with. -/
def rangeValues (parseFloat : String → Single) (call : GetMetricValues Single)
    (table : MetricDataTable) : List (MetricValue Single) :=
  inOrder call.ascending ((table.values parseFloat call.modelId).filter call.inRange)

def pageValues (parseFloat : String → Single) (page : List MetricDataItem) :
    List (MetricValue Single) := page.filterMap fun item => item.read parseFloat

def queryValues (parseFloat : String → Single) (call : GetMetricValues Single)
    (table : MetricDataTable) : List (MetricValue Single) :=
  pageValues parseFloat (call.queryItems table)

/-- The values of the pages of the query. -/
def pages (parseFloat : String → Single) (call : GetMetricValues Single) (table : MetricDataTable) :
    List (List (MetricValue Single)) :=
  (paginate call.pageSizes (call.queryItems table)).map (pageValues parseFloat)

theorem flatten_pages : (call.pages parseFloat table).flatten = call.queryValues parseFloat table := by
  have hflatten : ∀ l : List (List MetricDataItem),
      (l.map (pageValues parseFloat)).flatten = pageValues parseFloat l.flatten :=
    fun _ => List.filterMap_flatten.symm
  rw [pages, hflatten, flatten_paginate, queryValues]

end GetMetricValues

theorem inOrder_filter {α : Type} (ascending : Bool) (p : α → Bool) (rows : List α) :
    inOrder ascending (rows.filter p) = (inOrder ascending rows).filter p := by
  cases ascending with
  | false => exact List.filter_reverse.symm
  | true => rfl

theorem mem_inOrder {α : Type} {ascending : Bool} {x : α} {rows : List α} :
    x ∈ inOrder ascending rows ↔ x ∈ rows := by
  cases ascending with
  | false => exact List.mem_reverse
  | true => exact Iff.rfl

namespace GetMetricValues

/-- The years of the bounds have four digits in their texts. -/
def FourDigitYears (call : GetMetricValues Single) : Prop :=
  FourDigits (call.fromTime / 86400000) ∧ FourDigits (call.toTime / 86400000)

/-- The range of the query, whose bounds are texts to the second. -/
def inSeconds (call : GetMetricValues Single) (e : MetricValue Single) : Bool :=
  call.fromTime / 1000 * 1000 ≤ e.1 && e.1 ≤ call.toTime

/-- A value of the second of `from` is not earlier than `from`; or it is the last in the order of the
call, and the callback stops before. -/
def FirstSecond (parseFloat : String → Single) (call : GetMetricValues Single)
    (table : MetricDataTable) : Prop :=
  ∀ e ∈ table.values parseFloat call.modelId, e.1 = call.fromTime / 1000 * 1000 →
    e.1 = call.fromTime ∨
      (call.ascending = false ∧ stops call.callback [] (call.rangeValues parseFloat table) = true)

theorem queryValues_eq (hyears : call.FourDigitYears) :
    call.queryValues parseFloat table =
      inOrder call.ascending ((table.values parseFloat call.modelId).filter call.inSeconds) := by
  have hfilter : ((table.items call.modelId).filter fun item =>
      call.timestampCondition.holds item.timestamp.toList).filterMap (fun item => item.read parseFloat) =
      (table.values parseFloat call.modelId).filter call.inSeconds := by
    rw [MetricDataTable.values, List.filter_filterMap, List.filterMap_filter]
    apply List.filterMap_congr
    intro item hitem
    obtain ⟨time, htime⟩ := table.written call.modelId item hitem
    have hwhole := htime.2.1
    have hafter := before_timestampText htime.fourDigits hyears.1
    have hbefore := before_timestampText hyears.2 htime.fourDigits
    rw [read_eq htime, htime.1, timestampCondition, Condition.holds,
      String.toList_ofList, Option.filter_some]
    congr 1
    simp only [inSeconds, eq_iff_iff, Bool.and_eq_true, Bool.not_eq_true',
      decide_eq_true_eq, ← Bool.not_eq_true, hafter, hbefore]
    omega
  rw [queryValues, ← hfilter, queryItems, pageValues]
  cases call.ascending with
  | false => exact List.filterMap_reverse
  | true => rfl

theorem mem_values_whole {e : MetricValue Single} {uid : String}
    (h : e ∈ table.values parseFloat uid) : e.1 % 1000 = 0 := by
  obtain ⟨item, hitem, hread⟩ := List.mem_filterMap.mp h
  obtain ⟨time, htime⟩ := table.written uid item hitem
  rw [read_eq htime, Option.some.injEq] at hread
  exact hread ▸ htime.2.1

theorem filter_inSeconds (h : ∀ e ∈ table.values parseFloat call.modelId,
    e.1 = call.fromTime / 1000 * 1000 → e.1 = call.fromTime) :
    (table.values parseFloat call.modelId).filter call.inSeconds =
      (table.values parseFloat call.modelId).filter call.inRange := by
  apply List.filter_congr
  intro e he
  have hsecond := h e he
  have hwhole := mem_values_whole he
  rw [Bool.eq_iff_iff]
  simp only [inSeconds, inRange, Bool.and_eq_true, decide_eq_true_eq]
  omega

/-- A value of the second of `from` that is earlier comes before those of the range. -/
theorem filter_inSeconds_cons {e : MetricValue Single} (hle : call.fromTime ≤ call.toTime)
    (he : e ∈ table.values parseFloat call.modelId) (hsecond : e.1 = call.fromTime / 1000 * 1000)
    (hne : e.1 ≠ call.fromTime) :
    (table.values parseFloat call.modelId).filter call.inSeconds =
      e :: (table.values parseFloat call.modelId).filter call.inRange := by
  have hvalues := values_ascending parseFloat table call.modelId
  apply List.Pairwise.eq_of_mem_iff (hvalues.filter _) (List.pairwise_cons.mpr ⟨?_, hvalues.filter _⟩)
  · intro e'
    simp only [List.mem_filter, List.mem_cons, inSeconds, inRange, Bool.and_eq_true,
      decide_eq_true_eq]
    constructor
    · intro ⟨he', hfrom, hto⟩
      have hwhole := mem_values_whole he'
      by_cases heq : e'.1 = e.1
      · exact .inl (eq_of_ascending hvalues he' he heq)
      · exact .inr ⟨he', by omega, hto⟩
    · rintro (rfl | ⟨he', hfrom, hto⟩)
      · exact ⟨he, by omega, by omega⟩
      · exact ⟨he', by omega, hto⟩
  · intro e' he'
    have hrange := (List.mem_filter.mp he').2
    simp only [inRange, Bool.and_eq_true, decide_eq_true_eq] at hrange
    omega

/-- The query delivers the values of the range exactly if it gives no value before it. -/
theorem deliver_query_iff (hyears : call.FourDigitYears) (hle : call.fromTime ≤ call.toTime) :
    deliver call.callback [] (call.queryValues parseFloat table) =
        deliver call.callback [] (call.rangeValues parseFloat table) ↔
      call.FirstSecond parseFloat table := by
  rw [queryValues_eq hyears]
  by_cases hall : ∀ e ∈ table.values parseFloat call.modelId,
      e.1 = call.fromTime / 1000 * 1000 → e.1 = call.fromTime
  · rw [filter_inSeconds hall]
    exact iff_of_true rfl fun e he hsecond => .inl (hall e he hsecond)
  push Not at hall
  obtain ⟨e, he, hsecond, hne⟩ := hall
  have hfirst : call.FirstSecond parseFloat table ↔ call.ascending = false ∧
      stops call.callback [] (call.rangeValues parseFloat table) = true := by
    refine ⟨fun h => (h e he hsecond).resolve_left hne, fun h e' _ _ => .inr h⟩
  rw [filter_inSeconds_cons hle he hsecond hne, hfirst]
  have houtside : e ∉ deliver call.callback [] (call.rangeValues parseFloat table) := by
    intro hmem
    have hrange := (List.mem_filter.mp (mem_inOrder.mp ((deliver_isPrefix _).subset hmem))).2
    simp only [inRange, Bool.and_eq_true, decide_eq_true_eq] at hrange
    omega
  cases hascending : call.ascending with
  | true =>
    refine iff_of_false (fun heq => houtside ?_) fun h => by cases h.1
    rw [← heq, inOrder, if_pos rfl, deliver_cons]
    exact List.mem_cons_self
  | false =>
    have happend : inOrder false (e :: (table.values parseFloat call.modelId).filter call.inRange) =
        call.rangeValues parseFloat table ++ [e] := by
      rw [rangeValues, hascending]
      exact List.reverse_cons
    rw [happend, and_iff_right rfl]
    cases hstops : stops call.callback [] (call.rangeValues parseFloat table) with
    | true => exact iff_of_true (deliver_append_of_stops hstops) rfl
    | false =>
      refine iff_of_false (fun heq => houtside ?_) Bool.false_ne_true
      rw [← heq, deliver_append_of_continued hstops, deliver_shift, deliver_cons]
      exact List.mem_append_right _ List.mem_cons_self

end GetMetricValues

/-! ### Loading -/

theorem exists_read {uid : String} : ∀ item ∈ table.items uid,
    ∃ value : MetricValue Single, item.read parseFloat = some value := by
  intro item hitem
  obtain ⟨time, htime⟩ := table.written uid item hitem
  exact ⟨_, read_eq htime⟩

namespace GetMetricValues

/-- A page adds values to the cache, and is delivered until the callback stops. -/
theorem loadPage_spec {items : List MetricDataItem}
    (hread : ∀ item ∈ items, ∃ value : MetricValue Single, item.read parseFloat = some value)
    (s : Loading Single) : ∃ cache, call.loadPage parseFloat items s =
      some ⟨cache, deliver call.callback s.done (pageValues parseFloat items)⟩ ∧
      ∀ e ∈ cache.entries, e ∈ s.cache.entries ∨ e ∈ pageValues parseFloat items := by
  induction items generalizing s with
  | nil => exact ⟨s.cache, rfl, fun e he => .inl he⟩
  | cons item items ih =>
    obtain ⟨⟨value, hvalue⟩, hitems⟩ := List.forall_mem_cons.mp hread
    have hvalues : pageValues parseFloat (item :: items) = value :: pageValues parseFloat items :=
      List.filterMap_cons_some hvalue
    have hput : ∀ e ∈ (s.cache.put value.1 value.2).entries, e ∈ s.cache.entries ∨ e = value := by
      intro e he
      rcases OrderedMap.mem_put.mp he with heq | ⟨hold, _⟩
      · exact .inr heq
      · exact .inl hold
    rw [loadPage, hvalue, hvalues]
    simp only [deliver]
    split
    · obtain ⟨cache, hcache, hentries⟩ := ih hitems ⟨s.cache.put value.1 value.2, s.done ++ [value]⟩
      refine ⟨cache, hcache, fun e he => ?_⟩
      rcases hentries e he with hold | hnew
      · rcases hput e hold with hold | rfl
        · exact .inl hold
        · exact .inr List.mem_cons_self
      · exact .inr (List.mem_cons_of_mem _ hnew)
    · refine ⟨_, rfl, fun e he => ?_⟩
      rcases hput e he with hold | rfl
      · exact .inl hold
      · exact .inr List.mem_cons_self

theorem loadPages_spec {pages : List (List MetricDataItem)}
    (hread : ∀ item ∈ pages.flatten, ∃ value : MetricValue Single, item.read parseFloat = some value)
    (s : Loading Single) : ∃ cache, call.loadPages parseFloat pages s =
      some ⟨cache, deliverPages call.callback s.done (pages.map (pageValues parseFloat))⟩ ∧
      ∀ e ∈ cache.entries, e ∈ s.cache.entries ∨ e ∈ pageValues parseFloat pages.flatten := by
  induction pages generalizing s with
  | nil => exact ⟨s.cache, rfl, fun e he => .inl he⟩
  | cons page pages ih =>
    have hpage : ∀ item ∈ page, ∃ value : MetricValue Single, item.read parseFloat = some value :=
      fun item hitem => hread item (List.mem_append_left _ hitem)
    have hpages : ∀ item ∈ pages.flatten,
        ∃ value : MetricValue Single, item.read parseFloat = some value :=
      fun item hitem => hread item (List.mem_append_right _ hitem)
    obtain ⟨cache, hcache, hentries⟩ := @loadPage_spec _ parseFloat call _ hpage s
    obtain ⟨cache', hcache', hentries'⟩ :=
      ih hpages ⟨cache, deliver call.callback s.done (pageValues parseFloat page)⟩
    refine ⟨cache', ?_, fun e he => ?_⟩
    · rw [loadPages, hcache, Option.bind_some, hcache']
      rfl
    · rw [List.flatten_cons, pageValues, List.filterMap_append, List.mem_append]
      rcases hentries' e he with hold | hnew
      · rcases hentries e hold with hold | hnew
        · exact .inl hold
        · exact .inr (.inl hnew)
      · exact .inr (.inr hnew)

/-- What is queried is in the table. -/
theorem mem_values_of_query {e : MetricValue Single} (h : e ∈ call.queryValues parseFloat table) :
    e ∈ table.values parseFloat call.modelId := by
  obtain ⟨item, hitem, hread⟩ := List.mem_filterMap.mp h
  exact List.mem_filterMap.mpr ⟨item, (List.mem_filter.mp (mem_inOrder.mp hitem)).1, hread⟩

end GetMetricValues

namespace TaurusClient

/-- The values that are kept are those of the table. -/
def Sound (parseFloat : String → Single) (table : MetricDataTable) (client : TaurusClient Single) :
    Prop :=
  ∀ modelId, ∀ e ∈ (client.cacheOf modelId).entries, e ∈ table.values parseFloat modelId

theorem cacheOf_withCache (client : TaurusClient Single) (modelId modelId' : String)
    (cache : OrderedMap ℤ (CachedMetricValue Single)) :
    (client.withCache modelId cache).cacheOf modelId' =
      if modelId' = modelId then cache else client.cacheOf modelId' := by
  simp only [cacheOf, withCache, Function.update_apply]
  split <;> rfl

theorem Sound.withCache (h : Sound parseFloat table client) {modelId : String}
    {cache : OrderedMap ℤ (CachedMetricValue Single)}
    (hcache : ∀ e ∈ cache.entries, e ∈ table.values parseFloat modelId) :
    Sound parseFloat table (client.withCache modelId cache) := by
  intro modelId' e he
  rw [cacheOf_withCache] at he
  split at he
  · next heq =>
    rw [heq]
    exact hcache e he
  · exact h modelId' e he

/-- What is kept of a range, as part of all its values. -/
theorem inOrder_subMap (h : Sound parseFloat table client) :
    inOrder call.ascending (call.subMap (client.cacheOf call.modelId)) =
      (call.rangeValues parseFloat table).filter
        fun e => e.1 ∈ (client.cacheOf call.modelId).entries.map Prod.fst := by
  have hvalues := values_ascending parseFloat table call.modelId
  rw [GetMetricValues.rangeValues, ← inOrder_filter]
  congr 1
  apply List.Pairwise.eq_of_mem_iff ((client.cacheOf call.modelId).sorted.filter _)
    ((hvalues.filter _).filter _)
  intro e
  simp only [List.mem_filter, GetMetricValues.inRange, decide_eq_true_eq, List.mem_map]
  constructor
  · intro ⟨he, hrange⟩
    exact ⟨⟨h _ e he, hrange⟩, e, he, rfl⟩
  · intro ⟨⟨he, hrange⟩, e', he', heq⟩
    have hsame := eq_of_ascending hvalues (h _ e' he') he heq
    exact ⟨hsame ▸ he', hrange⟩

/-- What is to hold of a call: it gives its callback the values of the range, up to the one at which it
returns false. -/
def Operation.Answers (parseFloat : String → Single) (table : MetricDataTable)
    (client : TaurusClient Single) : Operation Single → Prop
  | .getMetricValues call => ∃ client' out,
      client.getMetricValues parseFloat table call = some (client', out) ∧
        Delivered call.callback (call.rangeValues parseFloat table) out
  | .clearCache => True

/-- If values of the range are kept, then so are all that are to be delivered. Otherwise the years of
the bounds have four digits, no value before the range is queried and delivered, and the callback stops
on the last page with values if it does. -/
def Operation.Meets (parseFloat : String → Single) (table : MetricDataTable)
    (client : TaurusClient Single) : Operation Single → Prop
  | .getMetricValues call =>
    if call.subMap (client.cacheOf call.modelId) = [] then
      call.FourDigitYears ∧ call.FirstSecond parseFloat table ∧
        StopsLast call.callback [] (call.pages parseFloat table)
    else ∀ e ∈ deliver call.callback [] (call.rangeValues parseFloat table),
      e.1 ∈ (client.cacheOf call.modelId).entries.map Prod.fst
  | .clearCache => True

/-- The years of the bounds have four digits where the table is queried. -/
def Operation.QueriesFourDigits (client : TaurusClient Single) : Operation Single → Prop
  | .getMetricValues call =>
    call.subMap (client.cacheOf call.modelId) = [] → call.FourDigitYears
  | .clearCache => True

theorem Operation.Meets.queriesFourDigits {a : Operation Single}
    (h : a.Meets parseFloat table client) : a.QueriesFourDigits client := by
  cases a with
  | clearCache => trivial
  | getMetricValues call =>
    intro hcached
    rw [Operation.Meets, if_pos hcached] at h
    exact h.1

/-- What a call delivers, and that it keeps values of the table only. -/
theorem getMetricValues_spec (h : Sound parseFloat table client) (hle : call.fromTime ≤ call.toTime) :
    ∃ client', client.getMetricValues parseFloat table call = some (client',
      if call.subMap (client.cacheOf call.modelId) = [] then
        deliverPages call.callback [] (call.pages parseFloat table)
      else deliver call.callback [] ((call.rangeValues parseFloat table).filter
        fun e => e.1 ∈ (client.cacheOf call.modelId).entries.map Prod.fst)) ∧
      Sound parseFloat table client' := by
  simp only [getMetricValues]
  rw [if_neg (by omega)]
  by_cases hcached : call.subMap (client.cacheOf call.modelId) = []
  · have hread : ∀ item ∈ (paginate call.pageSizes (call.queryItems table)).flatten,
        ∃ value : MetricValue Single, item.read parseFloat = some value := by
      rw [flatten_paginate]
      intro item hitem
      exact exists_read item (List.mem_filter.mp (mem_inOrder.mp hitem)).1
    obtain ⟨cache, hcache, hentries⟩ :=
      GetMetricValues.loadPages_spec hread ⟨client.cacheOf call.modelId, []⟩
    rw [if_neg (by simpa using hcached), if_pos hcached, hcache]
    refine ⟨_, rfl, h.withCache fun e he => ?_⟩
    rcases hentries e he with hold | hnew
    · exact h _ e hold
    · rw [flatten_paginate] at hnew
      exact GetMetricValues.mem_values_of_query hnew
  · rw [if_pos hcached, if_neg hcached, inOrder_subMap h]
    exact ⟨_, rfl, h.withCache fun e he => h _ e he⟩

theorem le_of_next
    (h : (system parseFloat table).next (.getMetricValues call) client = some client') :
    call.fromTime ≤ call.toTime := by
  by_contra hlt
  simp only [system, getMetricValues] at h
  rw [if_pos (by omega)] at h
  cases h

theorem answers_iff (h : Sound parseFloat table client) {a : Operation Single}
    (hnext : (system parseFloat table).next a client = some client')
    (hyears : a.QueriesFourDigits client) :
    a.Answers parseFloat table client ↔ a.Meets parseFloat table client := by
  cases a with
  | clearCache => exact Iff.rfl
  | getMetricValues call =>
    obtain ⟨client', hcall, _⟩ := getMetricValues_spec h (le_of_next hnext)
    simp only [Operation.Answers, Operation.Meets, hcall, Option.some.injEq, Prod.mk.injEq,
      delivered_iff]
    trans (if call.subMap (client.cacheOf call.modelId) = [] then
        deliverPages call.callback [] (call.pages parseFloat table)
      else deliver call.callback [] ((call.rangeValues parseFloat table).filter
        fun e => e.1 ∈ (client.cacheOf call.modelId).entries.map Prod.fst)) =
      deliver call.callback [] (call.rangeValues parseFloat table)
    · constructor
      · rintro ⟨_, _, ⟨_, rfl⟩, heq⟩
        exact heq
      · intro heq
        exact ⟨client', _, ⟨rfl, rfl⟩, heq⟩
    · split
      · next hcached =>
        have hfour := hyears hcached
        rw [deliverPages_eq_deliver_iff, GetMetricValues.flatten_pages,
          GetMetricValues.deliver_query_iff hfour (le_of_next hnext), and_iff_right hfour]
      · simp only [deliver_filter_iff, decide_eq_true_eq]

theorem sound_init : ∀ client, (system parseFloat table).init client → Sound parseFloat table client := by
  rintro client rfl modelId e he
  cases he

theorem sound_next {a : Operation Single} (h : Sound parseFloat table client)
    (hnext : (system parseFloat table).next a client = some client') :
    Sound parseFloat table client' := by
  cases a with
  | clearCache =>
    obtain rfl := Option.some.inj hnext
    intro modelId e he
    cases he
  | getMetricValues call =>
    obtain ⟨client₁, hcall, hsound⟩ := getMetricValues_spec h (le_of_next hnext)
    simp only [system, hcall, Option.map_some, Option.some.injEq] at hnext
    rwa [← hnext]

/-- In every run whose calls meet their condition when they are made, all calls are answered as by the
table; and where the years of the bounds have four digits, a call is answered so only if it does. -/
theorem calls_answered_iff (parseFloat : String → Single) (table : MetricDataTable)
    {tr : List (TaurusClient Single × Operation Single)} (h : Run (system parseFloat table) tr client) :
    ((∀ p ∈ tr, p.2.Meets parseFloat table p.1) → ∀ p ∈ tr, p.2.Answers parseFloat table p.1) ∧
      ∀ p ∈ tr, p.2.QueriesFourDigits p.1 →
        (p.2.Answers parseFloat table p.1 ↔ p.2.Meets parseFloat table p.1) := by
  have hsteps := @Run.forall_steps _ _ (system parseFloat table) (fun _ _ => True)
    (Sound parseFloat table)
    (fun client a _ => a.QueriesFourDigits client →
      (a.Answers parseFloat table client ↔ a.Meets parseFloat table client))
    sound_init (fun _ _ _ hI _ hnext => sound_next hI hnext)
    (fun _ _ _ hI _ hnext => answers_iff hI hnext) _ _ h
    fun _ _ => trivial
  have hall : ∀ p ∈ tr, p.2.QueriesFourDigits p.1 →
      (p.2.Answers parseFloat table p.1 ↔ p.2.Meets parseFloat table p.1) := by
    intro p hp
    obtain ⟨_, _, hiff⟩ := hsteps p hp
    exact hiff
  exact ⟨fun hmeets p hp => (hall p hp (hmeets p hp).queriesFourDigits).mpr (hmeets p hp), hall⟩

/-! ### Two calls -/

/-- Two values of the metric M at the beginning of 2015, five minutes apart. -/
def newYearTable : MetricDataTable where
  items uid := if uid = "M" then
    [⟨"2015-01-01T00:00:00", "1", "0.5"⟩, ⟨"2015-01-01T00:05:00", "2", "0.5"⟩] else []
  written := by
    intro uid item hitem
    split at hitem
    · rcases List.mem_pair.mp hitem with rfl | rfl
      · exact ⟨1420070400000, by decide +kernel, by decide, by decide +kernel, by decide +kernel⟩
      · exact ⟨1420070700000, by decide +kernel, by decide, by decide +kernel, by decide +kernel⟩
    · cases hitem
  ascending := by
    intro uid
    split
    · exact List.pairwise_pair.mpr (by decide +kernel)
    · exact .nil

/-- From the first value to a time, all of them. -/
def untilTime (time : ℤ) : GetMetricValues ℕ :=
  ⟨"M", 1420070400000, time, true, fun _ => true, []⟩

/-- The whole range is asked for at once. -/
theorem calls_answered_whole : ∃ tr client, Run (system String.length newYearTable) tr client ∧
    ∀ p ∈ tr, p.2.QueriesFourDigits p.1 ∧ p.2.Answers String.length newYearTable p.1 := by
  obtain ⟨client, hclient⟩ := Option.isSome_iff_exists.mp (show ((system String.length newYearTable).next
    (.getMetricValues (untilTime 1420070700000)) ⟨fun _ => none⟩).isSome = true by decide +kernel)
  have hrun := (Run.init rfl).step _ hclient
  have hyears : (untilTime 1420070700000).FourDigitYears :=
    ⟨⟨by decide +kernel, by decide +kernel⟩, ⟨by decide +kernel, by decide +kernel⟩⟩
  refine ⟨_, _, hrun, fun p hp => ?_⟩
  obtain rfl := List.mem_singleton.mp hp
  refine ⟨fun _ => hyears, ?_⟩
  refine ((calls_answered_iff String.length newYearTable hrun).2 _ hp fun _ => hyears).mpr ?_
  rw [Operation.Meets, if_pos (by decide +kernel)]
  exact ⟨hyears, fun e _ hsecond => .inl hsecond, stopsLast_of_continued (by decide +kernel)⟩

/-- The first value is asked for, and then both: what is kept of the range is taken for all of it. -/
theorem second_value_missed : ∃ tr client, Run (system String.length newYearTable) tr client ∧
    ¬ ∀ p ∈ tr, p.2.Answers String.length newYearTable p.1 := by
  obtain ⟨client, hclient⟩ := Option.isSome_iff_exists.mp (show ((system String.length newYearTable).next
    (.getMetricValues (untilTime 1420070400000)) ⟨fun _ => none⟩).isSome = true by decide +kernel)
  have hsecond : (((system String.length newYearTable).next
      (.getMetricValues (untilTime 1420070400000)) ⟨fun _ => none⟩).bind fun client =>
        (client.getMetricValues String.length newYearTable (untilTime 1420070700000)).map Prod.snd) =
      some [(1420070400000, ⟨1, 3⟩)] := by decide +kernel
  rw [hclient, Option.bind_some] at hsecond
  obtain ⟨⟨client', out⟩, hcall, rfl⟩ := Option.map_eq_some_iff.mp hsecond
  have hnext : (system String.length newYearTable).next
      (.getMetricValues (untilTime 1420070700000)) client = some client' := by
    simp only [system, hcall, Option.map_some]
  refine ⟨_, _, ((Run.init rfl).step _ hclient).step _ hnext, fun hall => ?_⟩
  obtain ⟨_, out, hout, hdelivered⟩ := hall (client, .getMetricValues (untilTime 1420070700000))
    (List.mem_append_right _ (List.mem_singleton_self _))
  rw [hcall, Option.some.injEq, Prod.mk.injEq] at hout
  rw [← hout.2, delivered_iff] at hdelivered
  exact absurd hdelivered (by decide +kernel)

end TaurusClient

end NumentaApps.Taurus
