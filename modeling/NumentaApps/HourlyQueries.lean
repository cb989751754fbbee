import NumentaApps.TaurusClient
import NumentaApps.CalendarTexts

/-!
# The hours that are asked for

`TaurusClient.getAllInstanceData` issues a query for each date, and `getAllInstanceDataForDate` puts it
into words: conditions on the keys of the index, which are texts.
-/
namespace NumentaApps.Taurus
open UtcCalendar

variable {V : Type}

/-- What `getAllInstanceDataForDate` is called with. -/
structure HourlyQuery where
  day : ℤ
  fromHour : ℤ
  toHour : ℤ

inductive Condition where
  | eq (value : List Char)
  | between (low high : List Char)

def Condition.holds : Condition → List Char → Bool
  | .eq value, text => text = value
  | .between low high, text => !before text low && !before high text

def hourText (hour : ℤ) : List Char :=
  if 9 < hour then Nat.toDigits 10 hour.toNat else '0' :: Nat.toDigits 10 hour.toNat

def HourlyQuery.keyConditions (q : HourlyQuery) : List (String × Condition) :=
  [("date", .eq (dateText q.day)),
    ("hour", if q.fromHour = q.toHour then .eq (hourText q.fromHour)
      else .between (hourText q.fromHour) (hourText q.toHour))]

/-- The calls of `getAllInstanceData`. -/
def hourlyQueries (fromTime toTime : ℤ) (ascending : Bool) : List HourlyQuery :=
  let fromDay := dayOfYear (dayOf fromTime)
  let toDay := dayOfYear (dayOf toTime)
  if fromDay = toDay then [⟨dayOf fromTime, hourOfDay fromTime, hourOfDay toTime⟩]
  else
    let date := if ascending then dayOf fromTime else dayOf toTime
    let interval := if ascending then 1 else -1
    (List.range (totalDays fromDay toDay + 1).toNat).map fun (i : ℕ) => ⟨date + i * interval, 0, 23⟩

/-- The keys of the items of an hour, as the server writes them. -/
def hourlyItem (day : ℤ) (hour : ℕ) (name : String) : List Char :=
  if name = "date" then dateText day else if name = "hour" then padded 2 hour else []

def selects (conditions : List (String × Condition)) (item : String → List Char) : Bool :=
  conditions.all fun c => c.2.holds (item c.1)

def HourlyQuery.Asks (q : HourlyQuery) (hour : ℤ) : Prop :=
  q.day = hour / 24 ∧ q.fromHour ≤ hour % 24 ∧ hour % 24 ≤ q.toHour

/-! ### The conditions on the keys -/

section Conditions
variable {q : HourlyQuery} {day hour : ℤ} {h : ℕ}

theorem hourText_eq (hnonneg : 0 ≤ hour) (hlt : hour < 24) : hourText hour = padded 2 hour.toNat := by
  have hall : ∀ n < 24, hourText (n : ℕ) = padded 2 n := by decide +kernel
  have heq := hall hour.toNat (by omega)
  rwa [Int.toNat_of_nonneg hnonneg] at heq

theorem before_hours {a b : ℕ} (ha : a < 24) (hb : b < 24) :
    before (padded 2 a) (padded 2 b) = true ↔ a < b :=
  before_padded (by decide) (by omega) (by omega)

theorem hourlyItem_date (day : ℤ) (h : ℕ) : hourlyItem day h "date" = dateText day := rfl

theorem hourlyItem_hour (day : ℤ) (h : ℕ) : hourlyItem day h "hour" = padded 2 h := rfl

/-- The hours of a query are hours of a day. -/
structure HourlyQuery.InDay (q : HourlyQuery) : Prop where
  from_nonneg : 0 ≤ q.fromHour
  from_lt : q.fromHour < 24
  to_nonneg : 0 ≤ q.toHour
  to_lt : q.toHour < 24

theorem selects_keyConditions (hq : q.InDay) (hh : h < 24) :
    selects q.keyConditions (hourlyItem day h) = true ↔
      dateText day = dateText q.day ∧ q.fromHour ≤ h ∧ h ≤ q.toHour := by
  obtain ⟨hfrom, hfrom', hto, hto'⟩ := hq
  have hbefore := before_hours hh (show q.fromHour.toNat < 24 by omega)
  have hafter := before_hours (show q.toHour.toNat < 24 by omega) hh
  simp only [selects, HourlyQuery.keyConditions, List.all_cons, List.all_nil, Bool.and_true,
    Bool.and_eq_true, hourText_eq hfrom hfrom', hourText_eq hto hto', hourlyItem_date,
    hourlyItem_hour]
  apply and_congr
  · simp [Condition.holds]
  · split
    · next heq =>
      have hinj : padded 2 h = padded 2 q.fromHour.toNat ↔ h = q.fromHour.toNat :=
        ⟨padded_inj, fun h => by rw [h]⟩
      simp only [Condition.holds, decide_eq_true_eq]
      rw [hinj]
      omega
    · simp only [Condition.holds, Bool.and_eq_true, Bool.not_eq_true']
      rw [← Bool.not_eq_true, ← Bool.not_eq_true, hbefore, hafter]
      omega

/-- In our era the key of a date is of that date only. -/
def HourlyQuery.SelectsHours (q : HourlyQuery) : Prop :=
  0 < yearOfDay q.day → ∀ day, 0 < yearOfDay day → ∀ hour : ℕ, hour < 24 →
    (selects q.keyConditions (hourlyItem day hour) = true ↔ q.Asks (day * 24 + hour))

theorem selectsHours (hq : q.InDay) : q.SelectsHours := by
  intro hera day hera' hour hhour
  rw [selects_keyConditions hq hhour, dateText_inj hera' hera, HourlyQuery.Asks]
  have hday : (day * 24 + hour) / 24 = day := by omega
  have hmod : (day * 24 + hour) % 24 = hour := by omega
  rw [hday, hmod, eq_comm]

end Conditions

/-- What is received for a date are the hours that the conditions select. -/
theorem getAllInstanceDataForDate_eq (table : ℤ → List (String × V)) {q : HourlyQuery} (hq : q.InDay)
    (ascending : Bool) :
    getAllInstanceDataForDate table q.day q.fromHour q.toHour ascending =
      let hours := (List.range 24).filter fun hour => selects q.keyConditions (hourlyItem q.day hour)
      (if ascending then hours else hours.reverse).flatMap fun (hour : ℕ) =>
        (table (q.day * 24 + hour)).map (createInstanceData (q.day * 24 + hour)) := by
  have hfilter : ((List.range 24).filter fun (hour : ℕ) =>
      decide (q.fromHour ≤ hour ∧ hour ≤ q.toHour)) =
      (List.range 24).filter fun hour => selects q.keyConditions (hourlyItem q.day hour) := by
    apply List.filter_congr
    intro hour hhour
    rw [Bool.eq_iff_iff, decide_eq_true_eq, selects_keyConditions hq (List.mem_range.mp hhour)]
    exact ⟨fun h => ⟨rfl, h⟩, fun h => h.2⟩
  rw [getAllInstanceDataForDate, hfilter]

/-- The calls, one after the other, are what `getAllInstanceData` does. -/
theorem getAllInstanceData_eq (table : ℤ → List (String × V)) (fromTime toTime : ℤ)
    (ascending : Bool) :
    getAllInstanceData table fromTime toTime ascending =
      (hourlyQueries fromTime toTime ascending).flatMap fun q =>
        getAllInstanceDataForDate table q.day q.fromHour q.toHour ascending := by
  simp only [getAllInstanceData, hourlyQueries]
  split
  · rw [List.flatMap_singleton]
  · rw [List.flatMap_map]

/-! ### The queries of a range -/

/-- All hours from the first to the last are asked for, none of them twice, date by date, with
conditions that select the hours asked for. -/
structure AsksHours (fromTime toTime : ℤ) (ascending : Bool) (queries : List HourlyQuery) : Prop where
  covers : ∀ hour, hourOf fromTime ≤ hour → hour ≤ hourOf toTime → ∃ q ∈ queries, q.Asks hour
  once : queries.Pairwise fun q q' => ∀ hour, ¬ (q.Asks hour ∧ q'.Asks hour)
  ordered : queries.Pairwise fun q q' => if ascending then q.day < q'.day else q'.day < q.day
  selects : ∀ q ∈ queries, q.SelectsHours

/-- The days from one to the other are counted right by their numbers in the year. -/
def YearTurnCounted (fromTime toTime : ℤ) : Prop :=
  yearOfDay (dayOf fromTime) = yearOfDay (dayOf toTime) ∨
    (yearOfDay (dayOf toTime) = yearOfDay (dayOf fromTime) + 1 ∧
      isLeapYear (yearOfDay (dayOf fromTime)) = false ∧
      dayOfYear (dayOf toTime) < dayOfYear (dayOf fromTime))

variable {fromTime toTime : ℤ} {ascending : Bool}

theorem hourOfDay_bounds (time : ℤ) : 0 ≤ hourOfDay time ∧ hourOfDay time < 24 := by
  simp only [hourOfDay]
  omega

theorem hourOf_day (time : ℤ) : hourOf time / 24 = dayOf time := by
  simp only [hourOf, dayOf, millisPerDay, millisPerHour, millisPerMinute]
  omega

theorem days_apart (hle : fromTime ≤ toTime) (hdays : toTime - fromTime < 365 * millisPerDay) :
    dayOf fromTime ≤ dayOf toTime ∧ dayOf toTime ≤ dayOf fromTime + 365 ∧
      hourOf fromTime ≤ hourOf toTime := by
  simp only [hourOf, dayOf, millisPerDay, millisPerHour, millisPerMinute] at *
  omega

/-- As many days, one after the other. -/
def daysFrom (date days : ℤ) (ascending : Bool) : List HourlyQuery :=
  (List.range (days + 1).toNat).map fun (i : ℕ) => ⟨date + i * if ascending then 1 else -1, 0, 23⟩

theorem hourlyQueries_of_eq (h : dayOfYear (dayOf fromTime) = dayOfYear (dayOf toTime)) :
    hourlyQueries fromTime toTime ascending =
      [⟨dayOf fromTime, hourOfDay fromTime, hourOfDay toTime⟩] := if_pos h

theorem hourlyQueries_of_ne (h : dayOfYear (dayOf fromTime) ≠ dayOfYear (dayOf toTime)) :
    hourlyQueries fromTime toTime ascending =
      daysFrom (if ascending then dayOf fromTime else dayOf toTime)
        (totalDays (dayOfYear (dayOf fromTime)) (dayOfYear (dayOf toTime))) ascending := if_neg h

theorem hourlyQueries_inDay : ∀ q ∈ hourlyQueries fromTime toTime ascending, q.InDay := by
  have hfrom := hourOfDay_bounds fromTime
  have hto := hourOfDay_bounds toTime
  by_cases hsame : dayOfYear (dayOf fromTime) = dayOfYear (dayOf toTime)
  · rw [hourlyQueries_of_eq hsame]
    exact List.forall_mem_singleton.mpr ⟨hfrom.1, hfrom.2, hto.1, hto.2⟩
  · rw [hourlyQueries_of_ne hsame]
    exact List.forall_mem_map.mpr fun i _ => ⟨by simp, by simp, by simp, by simp⟩

theorem daysFrom_ordered (date days : ℤ) (ascending : Bool) :
    (daysFrom date days ascending).Pairwise fun q q' =>
      if ascending then q.day < q'.day else q'.day < q.day := by
  rw [daysFrom, List.pairwise_map]
  refine List.pairwise_lt_range.imp fun {i j} hlt => ?_
  cases ascending with
  | false =>
    simp only [Bool.false_eq_true, if_false]
    omega
  | true =>
    simp only [if_true]
    omega

theorem hourlyQueries_ordered : (hourlyQueries fromTime toTime ascending).Pairwise fun q q' =>
    if ascending then q.day < q'.day else q'.day < q.day := by
  by_cases hsame : dayOfYear (dayOf fromTime) = dayOfYear (dayOf toTime)
  · rw [hourlyQueries_of_eq hsame]
    exact List.pairwise_singleton _ _
  · rw [hourlyQueries_of_ne hsame]
    exact daysFrom_ordered _ _ _

/-- Different days have no hour in common. -/
theorem asks_once {queries : List HourlyQuery}
    (h : queries.Pairwise fun q q' => if ascending then q.day < q'.day else q'.day < q.day) :
    queries.Pairwise fun q q' => ∀ hour, ¬ (q.Asks hour ∧ q'.Asks hour) := by
  refine h.imp fun {q q'} hlt hour => ?_
  intro ⟨⟨hday, _⟩, hday', _⟩
  rw [hday, hday', ite_self] at hlt
  exact Int.lt_irrefl _ hlt

/-- The days that are asked for, up from the first or down from the last. -/
theorem daysFrom_asks_iff {date days hour : ℤ} : (∃ q ∈ daysFrom date days ascending, q.Asks hour) ↔
    if ascending then date ≤ hour / 24 ∧ hour / 24 ≤ date + days
    else date - days ≤ hour / 24 ∧ hour / 24 ≤ date := by
  simp only [daysFrom, List.mem_map, List.mem_range, HourlyQuery.Asks]
  cases ascending with
  | false =>
    simp only [Bool.false_eq_true, if_false]
    constructor
    · rintro ⟨q, ⟨i, hi, rfl⟩, hday, _⟩
      simp only at hday
      omega
    · intro ⟨hfirst, hlast⟩
      refine ⟨_, ⟨(date - hour / 24).toNat, by omega, rfl⟩, ?_⟩
      simp only
      omega
  | true =>
    simp only [if_true]
    constructor
    · rintro ⟨q, ⟨i, hi, rfl⟩, hday, _⟩
      simp only at hday
      omega
    · intro ⟨hfirst, hlast⟩
      refine ⟨_, ⟨(hour / 24 - date).toNat, by omega, rfl⟩, ?_⟩
      simp only
      omega

/-- So many days cover the range if they are not too few. -/
theorem daysFrom_covers_iff {days : ℤ} (hle : hourOf fromTime ≤ hourOf toTime) :
    (∀ hour, hourOf fromTime ≤ hour → hour ≤ hourOf toTime →
      ∃ q ∈ daysFrom (if ascending then dayOf fromTime else dayOf toTime) days ascending, q.Asks hour) ↔
      dayOf toTime - dayOf fromTime ≤ days := by
  have hfrom := hourOf_day fromTime
  have hto := hourOf_day toTime
  simp only [daysFrom_asks_iff]
  constructor
  · intro h
    have hfirst := h _ (Int.le_refl _) hle
    have hlast := h _ hle (Int.le_refl _)
    cases ascending with
    | false =>
      simp only [Bool.false_eq_true, if_false] at hfirst
      omega
    | true =>
      simp only [if_true] at hlast
      omega
  · intro h hour hge hle'
    cases ascending with
    | false =>
      simp only [Bool.false_eq_true, if_false]
      omega
    | true =>
      simp only [if_true]
      omega

/-- The count of the days is right, but for those that go from a leap year into the next. -/
theorem totalDays_covers_iff (hle : dayOf fromTime ≤ dayOf toTime)
    (hdays : dayOf toTime ≤ dayOf fromTime + 365) :
    dayOf toTime - dayOf fromTime ≤
        totalDays (dayOfYear (dayOf fromTime)) (dayOfYear (dayOf toTime)) ↔
      YearTurnCounted fromTime toTime := by
  by_cases hyear : yearOfDay (dayOf fromTime) = yearOfDay (dayOf toTime)
  · have hsub := dayOfYear_sub hyear
    refine iff_of_true ?_ (.inl hyear)
    simp only [totalDays]
    rw [if_neg (by omega)]
    omega
  · simp only [totalDays, YearTurnCounted, hyear, false_or]
    by_cases hnext : yearOfDay (dayOf toTime) = yearOfDay (dayOf fromTime) + 1
    · have hsub := dayOfYear_sub_next hnext
      cases hleap : isLeapYear (yearOfDay (dayOf fromTime)) with
      | true =>
        have hlength := daysInYear_of_leap hleap
        rw [if_pos (by omega)]
        exact iff_of_false (by omega) fun h => Bool.noConfusion h.2.1
      | false =>
        obtain ⟨hshort, hlength⟩ := daysInYear_of_not_leap hleap
        split
        · next hlt => exact iff_of_true (by omega) ⟨hnext, rfl, by omega⟩
        · next hge => exact iff_of_false (by omega) fun h => by omega
    · -- the calendar changes in between
      have hlater : yearOfDay (dayOf fromTime) + 1 < yearOfDay (dayOf toTime) := by
        by_contra hge
        have hlt := lt_of_yearOfDay_lt
          (show yearOfDay (dayOf toTime) < yearOfDay (dayOf fromTime) by omega)
        omega
      have hfirst := firstDay_add_le (Int.lt_succ (yearOfDay (dayOf fromTime)))
      have hsecond := firstDay_add_le hlater
      refine iff_of_false ?_ fun h => hnext h.1
      simp only [dayOfYear]
      split_ifs <;> omega

/-- On one day the hours between are asked for; a day of the next year is missed. -/
theorem sameNumber_covers_iff (hhours : hourOf fromTime ≤ hourOf toTime)
    (heq : dayOfYear (dayOf fromTime) = dayOfYear (dayOf toTime)) :
    (∀ hour, hourOf fromTime ≤ hour → hour ≤ hourOf toTime →
      ∃ q ∈ [HourlyQuery.mk (dayOf fromTime) (hourOfDay fromTime) (hourOfDay toTime)], q.Asks hour) ↔
      YearTurnCounted fromTime toTime := by
  have hfrom := hourOf_day fromTime
  have hto := hourOf_day toTime
  simp only [List.mem_singleton, exists_eq_left, HourlyQuery.Asks, hourOfDay]
  constructor
  · intro h
    have hlast := (h _ hhours (Int.le_refl _)).1
    refine .inl ?_
    rw [hlast, hto]
  · intro hcounted hour hge hle'
    have hyear := hcounted.resolve_right fun h => absurd heq (Int.ne_of_gt h.2.2)
    have hsub := dayOfYear_sub hyear
    omega

/-- All hours of a range of less than 365 days are asked for exactly where the turn of the year is
counted right. -/
theorem hourlyQueries_asks_iff (hle : fromTime ≤ toTime)
    (hdays : toTime - fromTime < 365 * millisPerDay) :
    AsksHours fromTime toTime ascending (hourlyQueries fromTime toTime ascending) ↔
      YearTurnCounted fromTime toTime := by
  obtain ⟨hday, hbound, hhours⟩ := days_apart hle hdays
  have hordered := @hourlyQueries_ordered fromTime toTime ascending
  have hcovers : (∀ hour, hourOf fromTime ≤ hour → hour ≤ hourOf toTime →
      ∃ q ∈ hourlyQueries fromTime toTime ascending, q.Asks hour) ↔
      YearTurnCounted fromTime toTime := by
    by_cases hsame : dayOfYear (dayOf fromTime) = dayOfYear (dayOf toTime)
    · rw [hourlyQueries_of_eq hsame]
      exact sameNumber_covers_iff hhours hsame
    · rw [hourlyQueries_of_ne hsame, daysFrom_covers_iff hhours]
      exact totalDays_covers_iff hday hbound
  constructor
  · intro h
    exact hcovers.mp h.covers
  · intro h
    exact ⟨hcovers.mpr h, asks_once hordered, hordered,
      fun q hq => selectsHours (hourlyQueries_inDay q hq)⟩

/-- Two weeks over the end of 2015. -/
theorem hourlyQueries_asks_newYear :
    AsksHours 1451001600000 1452211200000 true (hourlyQueries 1451001600000 1452211200000 true) :=
  (hourlyQueries_asks_iff (by decide) (by decide)).mpr (.inr (by decide +kernel))

/-- From noon to noon over the end of the leap year 2016: only its last day is asked for. -/
theorem leapYear_last_day_missed :
    ¬ AsksHours 1483185600000 1483272000000 true (hourlyQueries 1483185600000 1483272000000 true) := by
  intro h
  obtain ⟨q, hq, hday, _⟩ := h.covers 412020 (by decide) (by decide)
  have hqueries : hourlyQueries 1483185600000 1483272000000 true = [⟨17166, 0, 23⟩] := rfl
  rw [hqueries] at hq
  rw [List.mem_singleton.mp hq] at hday
  exact absurd hday (by decide)

end NumentaApps.Taurus
