import NumentaApps.UtcCalendar
import Mathlib.Algebra.Order.Group.Nat
import Mathlib.Data.List.Basic

/-!
# The market calendar

Instants are milliseconds since 1970. The time zone is a fixed number of seconds ahead of UTC. Times
of day are written `HHMMSS`, as in the source, and ranges hold both of their ends. The loops run on
fuel.
-/
namespace NumentaApps.Taurus
open UtcCalendar

def secondMillis : ℤ := 1000

def hourMillis : ℤ := 3600 * secondMillis

def dayMillis : ℤ := 24 * hourMillis

/-- The digits of `HHMMSS` are a time of day. -/
structure IsClock (hhmmss : ℕ) : Prop where
  hour_lt : hhmmss / 10000 < 24
  minute_lt : hhmmss % 10000 / 100 < 60
  second_lt : hhmmss % 100 < 60

structure MarketCalendar where
  /-- Of the time zone, in seconds. -/
  offset : ℤ
  openTime : ℕ
  closeTime : ℕ
  /-- From Sunday on. -/
  workWeek : Fin 7 → Bool
  holidays : List ℤ
  openTime_isClock : IsClock openTime
  closeTime_isClock : IsClock closeTime
  open_before_close : openTime < closeTime
  works : ∃ weekday, workWeek weekday = true
  holidays_ascending : holidays.Pairwise (· < ·)
  holidays_whole : ∀ h ∈ holidays, h % secondMillis = 0

namespace MarketCalendar

/-- The day in the time zone, counted from the first of January 1970. -/
def localDay (cal : MarketCalendar) (t : ℤ) : ℤ := (t + cal.offset * secondMillis) / dayMillis

/-- The milliseconds of that day that have passed. -/
def localMillis (cal : MarketCalendar) (t : ℤ) : ℤ := (t + cal.offset * secondMillis) % dayMillis

/-- `DAY_OF_WEEK - 1`; the first of January 1970 was a Thursday. -/
def weekday (day : ℤ) : Fin 7 := ⟨((day + 4) % 7).toNat, by omega⟩

def hhmmss (cal : MarketCalendar) (t : ℤ) : ℤ :=
  cal.localMillis t / hourMillis * 10000 + cal.localMillis t % hourMillis / (60 * secondMillis) * 100 +
    cal.localMillis t % (60 * secondMillis) / secondMillis

/-- `_holidays.floor(date)`. -/
def closestHoliday (cal : MarketCalendar) (date : ℤ) : Option ℤ :=
  (cal.holidays.filter (· ≤ date)).getLast?

def isHoliday (cal : MarketCalendar) (date : ℤ) : Bool :=
  match cal.closestHoliday date with
  | none => false
  | some holiday =>
    yearOfDay (cal.localDay holiday) = yearOfDay (cal.localDay date) &&
      dayOfYear (cal.localDay holiday) = dayOfYear (cal.localDay date) && holiday < date

def isOpen (cal : MarketCalendar) (date : ℤ) : Bool :=
  if !cal.workWeek (weekday (cal.localDay date)) then false
  else if cal.hhmmss date < cal.openTime || cal.closeTime < cal.hhmmss date then false
  else !cal.isHoliday date

/-- `HOUR_OF_DAY`, `MINUTE` and `SECOND` are set. -/
def setClock (cal : MarketCalendar) (t : ℤ) (clock : ℕ) : ℤ :=
  t - cal.localMillis t + (clock / 10000 : ℕ) * hourMillis +
    (clock % 10000 / 100 : ℕ) * (60 * secondMillis) + (clock % 100 : ℕ) * secondMillis +
    cal.localMillis t % secondMillis

/-- `MILLISECOND` is set to zero. -/
def clearMillis (cal : MarketCalendar) (t : ℤ) : ℤ := t - cal.localMillis t % secondMillis

/-- From the beginning of a holiday to the second before the market opens on the next day. -/
def holidayRange (cal : MarketCalendar) (holiday : ℤ) : ℤ × ℤ :=
  (holiday, cal.setClock (holiday + dayMillis) cal.openTime - secondMillis)

/-- The hours closed after a working day, or a day off with the hours before the market opens. -/
def dailyRange (cal : MarketCalendar) (current : ℤ) : ℤ × ℤ :=
  if cal.workWeek (weekday (cal.localDay current)) then
    (cal.clearMillis (cal.setClock current cal.closeTime) + secondMillis,
      cal.clearMillis (cal.setClock (current + dayMillis) cal.openTime) - secondMillis)
  else
    (cal.clearMillis (cal.setClock current 0),
      cal.clearMillis (cal.setClock (current + dayMillis) cal.openTime) - secondMillis)

/-- The order of the closed ranges: by their beginning, and then by their end. -/
def precedes (r r' : ℤ × ℤ) : Bool := if r.1 = r'.1 then r.2 < r'.2 else r.1 < r'.1

/-- `closedSet.add`. -/
def addRange (r : ℤ × ℤ) : List (ℤ × ℤ) → List (ℤ × ℤ)
  | [] => [r]
  | r' :: rs =>
    if r = r' then r' :: rs
    else if precedes r r' then r :: r' :: rs
    else r' :: addRange r rs

/-- The loops that look for an open instant, so many milliseconds at a time. -/
def openInstant (cal : MarketCalendar) (step : ℤ) : ℕ → ℤ → Option ℤ
  | 0, _ => none
  | fuel + 1, current =>
    if cal.isOpen current then some current else cal.openInstant step fuel (current + step)

def lastOpen (cal : MarketCalendar) : ℕ → ℤ → Option ℤ := cal.openInstant (-hourMillis)

def nextOpen (cal : MarketCalendar) : ℕ → ℤ → Option ℤ := cal.openInstant hourMillis

def holidayRanges (cal : MarketCalendar) (fromDate toDate : ℤ) : List (ℤ × ℤ) :=
  (cal.holidays.filter fun h => fromDate ≤ h && h ≤ toDate).foldl
    (fun closed h => addRange (cal.holidayRange h) closed) []

def dailyRanges (cal : MarketCalendar) (toDate : ℤ) : ℕ → ℤ → List (ℤ × ℤ) → Option (List (ℤ × ℤ))
  | 0, _, _ => none
  | fuel + 1, current, closed =>
    if current < toDate then
      cal.dailyRanges toDate fuel (current + dayMillis) (addRange (cal.dailyRange current) closed)
    else some closed

structure Consolidation where
  start : ℤ
  last : ℤ
  results : List (ℤ × ℤ)

def consolidateStep (s : Consolidation) (r : ℤ × ℤ) : Consolidation :=
  if r.1 ≤ s.last then { s with last := max s.last r.2 }
  else {
    start := r.1
    last := r.2
    results := if s.start ≠ 0 ∧ s.last ≠ 0 then s.results ++ [(s.start, s.last)] else s.results }

def consolidate (closed : List (ℤ × ℤ)) (toDate : ℤ) : List (ℤ × ℤ) :=
  let s := closed.foldl consolidateStep ⟨0, 0, []⟩
  if s.start < toDate then s.results ++ [(s.start, s.last)] else s.results

def getClosedHoursForPeriod (cal : MarketCalendar) (fuel : ℕ) (start finish : ℤ) :
    Option (List (ℤ × ℤ)) :=
  (cal.lastOpen fuel start).bind fun fromDate =>
    (cal.nextOpen fuel finish).bind fun toDate =>
      (cal.dailyRanges toDate fuel fromDate (cal.holidayRanges fromDate toDate)).map fun closed =>
        consolidate closed toDate

end MarketCalendar

end NumentaApps.Taurus
